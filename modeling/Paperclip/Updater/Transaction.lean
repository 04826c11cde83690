import Paperclip.Updater.Stages

/-!
# Transactions, step by step

A rule for each part of `run` and of `rollback`: every point is at a stage of the transaction, and
the end says which answers of the session led there. The rollback at the end of a transaction has
one rule, used by both.
-/

namespace Paperclip.Updater

open Crash Files Packages Prog

/-! ## Stories -/

/-- A transaction that has not ended, and has been orderly so far. -/
structure Story.Going (σ : Story) : Prop where
  committed : σ.committed = false
  ended : σ.ended = false
  orderly : σ.orderly = true

section Stories

variable {V : View} {O : Origin} {r : Record}

theorem Story.going_start {σ : Story} (h : σ = .start) : σ.Going := by
  rw [h]
  exact ⟨rfl, rfl, rfl⟩

/-- A record of a transaction in flight tells nothing new. -/
theorem record_story (hr : r.phase.isTerminal = false) : (V.record r).story = V.story := by
  have hcommit : r.phase ≠ .commit := fun h => by rw [h] at hr; cases hr
  simp [View.record, View.tell, Story.add, hr, hcommit]

theorem Story.Going.heard (h : V.story.Going) (answers : List Answer) (down : Bool) :
    (V.heard answers down).story.Going := ⟨h.committed, h.ended, h.orderly⟩

/-- A link may move while the session is down. -/
theorem Story.Going.setLink (h : V.story.Going) (hd : V.story.down = true) (slot : Slot)
    (target : Option Link) : (V.setLink slot target).story.Going := by
  cases slot <;> exact ⟨h.committed, h.ended, by
    simp [View.setLink, View.tell, Story.add, h.orderly, hd]⟩

/-- A session that is down may be brought up, on what has not been up before. -/
theorem Story.Going.brought (h : V.story.Going) (hd : V.story.down = true)
    (hlen : V.story.ups.length < 2) (hnew : V.current ∉ V.story.ups) (ok : Bool) :
    (V.brought ok).story.Going :=
  ⟨h.committed, h.ended, by
    simp [View.brought, View.tell, Story.add, h.orderly, hd, hlen, hnew, h.ended]⟩

theorem became_setLink {l : Option Link} (h : V.story.became = some l) (slot : Slot)
    (target : Option Link) : (V.setLink slot target).story.became = some l := by
  cases slot <;> simp [View.setLink, View.tell, Story.add, h]

theorem Origin.point_of_going (hs : Stage O false V) (h : V.story.Going) : O.Point V :=
  point_of_stage hs h.committed h.orderly

/-- A record that ends the transaction without a commit. -/
theorem Origin.point_closed (hs : Stage O false (V.record r)) (h : V.story.Going)
    (hr : r.phase ≠ .commit) : O.Point (V.record r) := by
  refine point_of_stage hs ?_ ?_
  · simp [View.record, View.tell, Story.add, h.committed, hr]
  · simp [View.record, View.tell, Story.add, h.orderly]

end Stories

section Rules

variable {s : Session} {O : Origin} {V : View} {r : Record}

/-- A record that ends the transaction without a commit. -/
theorem hclosed (r : Record) (V : View) (h : V.story.Going) (hr : r.phase ≠ .commit) :
    (V.record r).story.committed = false := by
  simp [View.record, View.tell, Story.add, h.committed, hr]

/-- A program that moves the record of a transaction on. -/
theorem runs_advance_closed (phase : Phase) (hA : O.Point V)
    (hs : Stage O false (V.record { r with phase })) (h : V.story.Going) (hphase : phase ≠ .commit) :
    Runs s O.Point (Journal.advance r phase) V fun res V' =>
      res = .ok { r with phase } ∧ V' = V.record { r with phase } :=
  runs_advance r phase hA (O.point_closed hs h hphase)

/-! ## The rollback -/

/-- The grading of the restored release ends with the links back and the journal closed. -/
theorem runs_gradeRestored (u : Upgrade) (candidate restored : Version) (failure : Unhealthy)
    (hV : O.Holds r V) (hphase : r.phase = .verify) (hhome : O.Home V) (hgo : V.story.Going)
    (hdown : V.story.down = true) (hlen : V.story.ups.length < 2) (hnew : V.current ∉ V.story.ups) :
    Runs s O.Point (gradeRestored u r candidate restored failure) V fun _ V' =>
      (∃ rest, V'.story.answers = V.story.answers ++ rest) ∧ V'.story.became = V.story.became ∧
        V'.story.committed = false ∧ V'.current = V.current ∧ Closed V'.journal := by
  have hA : O.Point V := O.point_of_going (.rolling r hV (.inr hphase)) hgo
  have hup : ∀ ok, (V.brought ok).story.Going := hgo.brought hdown hlen hnew
  have hA' : ∀ ok, O.Point (V.brought ok) := fun ok =>
    O.point_of_going (.rolling r (hV.brought ok) (.inr hphase)) (hup ok)
  -- what is left is to close the journal
  have hclose : ∀ (V' : View) (reached : Option String) (phase : Phase) (outcome : Outcome),
      O.Holds r V' → V'.current = V.current → V'.previous = V'.fallbackLink O.before →
      V'.story.Going → (∃ rest, V'.story.answers = V.story.answers ++ rest) →
      V'.story.became = V.story.became → (phase = .failed ∨ phase = .rolledBack) →
      Runs s O.Point ((Journal.advance { r with reached } phase).bind fun _ => Prog.done outcome) V'
        fun (_ : Except UpdateError Outcome) V' =>
          (∃ rest, V'.story.answers = V.story.answers ++ rest) ∧
            V'.story.became = V.story.became ∧ V'.story.committed = false ∧
            V'.current = V.current ∧ Closed V'.journal := by
    intro V' reached phase outcome hV' hcurrent hprevious hgo' hanswers hbecame hend
    have hcommit : phase ≠ .commit := by rcases hend with rfl | rfl <;> simp
    have hdone : O.Holds { r with phase, reached } (V'.record { r with phase, reached }) :=
      hV'.advance phase _ reached
    have hs : Stage O false (V'.record { r with phase, reached }) :=
      .reverted _ hdone hend (hcurrent.trans hhome.1) hprevious
    refine (runs_advance_closed phase
      (O.point_of_going (.rolling r hV' (.inr hphase)) hgo') hs hgo' hcommit).bind
      (fun _ V'' hq => ?_) fun e V'' hq => by cases hq.1
    obtain ⟨-, rfl⟩ := hq
    have hpoint := O.point_closed hs hgo' hcommit
    refine Runs.done hpoint ⟨hanswers, hbecame, ?_, hcurrent, ?_⟩
    · simp [View.record, View.tell, Story.add, hgo'.committed, hcommit]
    · rcases hend with rfl | rfl <;> rfl
  have hanswered : ∀ ok, ∃ rest, (V.brought ok).story.answers = V.story.answers ++ rest := fun ok =>
    ⟨[.broughtUp ok], rfl⟩
  refine Runs.attempt_bind (runs_bringUpAndGrade u hA hA') ?_
  rintro res V' (⟨⟨e, rfl⟩, rfl⟩ | ⟨⟨health, rfl⟩, rfl⟩)
  · exact hclose _ _ _ _ (hV.brought false) rfl hhome.2 (hup false) (hanswered false) rfl (.inl rfl)
  · dsimp only
    split
    · refine (runs_standDown_call (hA' true) fun ok t => ?_).bind_ok ?_
      · exact O.point_of_going (.rolling r ((hV.brought true).heard _ ok) (.inr hphase))
          ((hup true).heard _ ok)
      · rintro answer V' ⟨t, rfl⟩
        refine hclose _ _ _ _ ((hV.brought true).heard [.stoodDown answer.isOk] answer.isOk) rfl
          hhome.2 ((hup true).heard _ _) ⟨[.broughtUp true, .stoodDown answer.isOk], ?_⟩ rfl
          (.inl rfl)
        simp [View.brought, View.tell, Story.add]
    · exact hclose _ _ _ _ (hV.brought true) rfl hhome.2 (hup true) (hanswered true) rfl (.inr rfl)

/-- Where the rollback takes a transaction, by what the session answers: nowhere if it does not
stand down, and otherwise back, with the journal closed, if the release to go back to is there. -/
def Origin.Withdrew (O : Origin) (V V' : View) : Prop :=
  (∀ l, V.story.became = some l → V'.story.became = some l) ∧ V'.story.committed = false ∧
    ((∃ answers ∈ stayedUp, V'.story.answers = V.story.answers ++ answers) ∧
        V'.current = V.current ∧ Closed V'.journal ∨
      (∃ answers ∈ wentDown, ∃ rest, V'.story.answers = V.story.answers ++ (answers ++ rest)) ∧
        V'.current = linkTo O.from_ ∧ Closed V'.journal ∨
      ∃ v, O.from_ = some v ∧ (V.release v).isSome = false ∧ V'.current = V.current)

theorem runs_rollBack (u : Upgrade) (candidate : Version) (failure : Unhealthy) (hV : O.Holds r V)
    (hphase : r.phase = .activate ∨ r.phase = .verify)
    (hlinks : V.current = some (.release r.to_) ∧ O.from_ ≠ some r.to_ ∨ O.from_ = none ∨
      O.Untouched V)
    (hgo : V.story.Going) (hlen : V.story.ups.length < 2) (hnew : linkTo O.from_ ∉ V.story.ups) :
    Runs s O.Point (rollBack u r candidate failure) V fun res V' =>
      O.Withdrew V V' ∧ ∀ outcome, res = .ok outcome → Closed V'.journal := by
  have hV₁ : O.Holds { r with phase := .activate } (V.record { r with phase := .activate }) :=
    hV.advance .activate _ _
  have hstory : (V.record { r with phase := .activate }).story = V.story := record_story rfl
  have hgo₁ : (V.record { r with phase := .activate }).story.Going := hstory ▸ hgo
  have hs₁ : Stage O false (V.record { r with phase := .activate }) := .rolling _ hV₁ (.inl rfl)
  refine (runs_advance r .activate (O.point_of_going (.rolling r hV hphase) hgo)
    (O.point_of_going hs₁ hgo₁)).bind_eq ?_
  generalize hW : V.record { r with phase := .activate } = W at hV₁ hgo₁ hs₁ hstory ⊢
  have hcurrent : W.current = V.current := by rw [← hW]; rfl
  have hrelease : W.release = V.release := by rw [← hW]; rfl
  have hlinks₁ : W.current = some (.release r.to_) ∧ O.from_ ≠ some r.to_ ∨ O.from_ = none ∨
      O.Untouched W := by
    rw [← hW]
    exact hlinks
  have hA : ∀ answers down, O.Point (W.heard answers down) := fun answers down =>
    O.point_of_going (.rolling _ (hV₁.heard answers down) (.inl rfl)) (hgo₁.heard answers down)
  refine Runs.attempt_bind (runs_standDown hA) ?_
  rintro res V' (⟨rfl, answers, hmem, rfl⟩ | ⟨⟨e, rfl⟩, answers, hmem, down, rfl⟩)
  swap
  · -- the session did not stand down
    have hdone := (hV₁.heard answers down).advance .failed r.attempts r.reached
    have hs := Stage.stopped _ hdone rfl hlinks₁
    have hgo₂ := hgo₁.heard answers down
    refine (runs_advance_closed .failed (hA answers down) hs hgo₂ (by simp)).bind_eq ?_
    refine Runs.done (O.point_closed hs hgo₂ (by simp))
      ⟨⟨fun l hl => ?_, hclosed _ _ hgo₂ (by simp), .inl ⟨⟨answers, hmem, ?_⟩, hcurrent, rfl⟩⟩,
        fun _ _ => rfl⟩
    · rw [← hl, ← hstory]
      rfl
    · rw [← hstory]
      rfl
  have hV₂ := hV₁.heard answers true
  have hgo₂ := hgo₁.heard answers true
  have hdown : (W.heard answers true).story.down = true := Bool.or_true _
  have hanswers : (W.heard answers true).story.answers = V.story.answers ++ answers := by
    rw [← hstory]
    rfl
  have hbecame : ∀ l, V.story.became = some l → (W.heard answers true).story.became = some l :=
    fun l hl => by rw [← hl, ← hstory]; rfl
  have hrunning : (W.heard answers true).running = false := Bool.and_false _
  have hlen₂ : (W.heard answers true).story.ups.length < 2 := by
    rw [show (W.heard answers true).story.ups = V.story.ups by rw [← hstory]; rfl]
    exact hlen
  have hnew₂ : linkTo O.from_ ∉ (W.heard answers true).story.ups := by
    rw [show (W.heard answers true).story.ups = V.story.ups by rw [← hstory]; rfl]
    exact hnew
  have hA₂ := hA answers true
  have hcurrent₂ : (W.heard answers true).current = V.current := hcurrent
  have hrelease₂ : (W.heard answers true).release = V.release := hrelease
  clear hA
  generalize W.heard answers true = X at *
  dsimp only
  split
  · -- a first install has nothing to go back to
    next hfrom =>
    have hfrom : O.from_ = none := hV.owns.from_.symm.trans hfrom
    have hV₃ : O.Holds _ (X.setLink .current none) := hV₂.setCurrent (.inl (by rw [hfrom]; rfl))
    have hgo₃ := hgo₂.setLink hdown .current none
    refine (runs_deselect .current hA₂
      (O.point_of_going (.rolling _ hV₃ (.inl rfl)) hgo₃)).bind_eq ?_
    have hdone := hV₃.advance .failed r.attempts r.reached
    have hs := Stage.stopped _ hdone rfl (.inr (.inl hfrom))
    refine (runs_advance_closed .failed (O.point_of_going (.rolling _ hV₃ (.inl rfl)) hgo₃) hs hgo₃
      (by simp)).bind_eq ?_
    refine Runs.done (O.point_closed hs hgo₃ (by simp))
      ⟨⟨fun l hl => became_setLink (hbecame l hl) _ _, hclosed _ _ hgo₃ (by simp),
        .inr (.inl ⟨⟨answers, hmem, [], ?_⟩, ?_, rfl⟩)⟩, fun _ _ => rfl⟩
    · rw [List.append_nil]
      exact hanswers
    · rw [hfrom]
      rfl
  · next v hfrom =>
    have hfrom : O.from_ = some v := hV.owns.from_.symm.trans hfrom
    have hto : some (Link.release v) = linkTo O.from_ := by rw [hfrom]; rfl
    have hV₃ : O.Holds _ (X.setLink .current (some (.release v))) := hV₂.setCurrent (.inl hto)
    have hgo₃ := hgo₂.setLink hdown .current (some (.release v))
    have hA₃ := O.point_of_going (.rolling _ hV₃ (.inl rfl)) hgo₃
    refine (runs_select .current v hA₂ fun _ => hA₃).bind (fun _ V' hq => ?_) fun e V' hq => ?_
    swap
    · rcases hq with ⟨h, -⟩ | ⟨-, hgone, rfl⟩
      · cases h
      · exact ⟨⟨hbecame, hgo₂.committed, .inr (.inr ⟨v, hfrom, hrelease₂ ▸ hgone, hcurrent₂⟩)⟩,
          fun _ h => (by cases h)⟩
    rcases hq with ⟨-, -, rfl⟩ | ⟨h, -⟩
    swap
    · cases h
    have hV₄ := hV₃.setPrevious (.inr (.inr rfl))
    have hgo₄ := hgo₃.setLink (by exact hdown) .previous
      ((X.setLink .current (some (.release v))).fallbackLink O.before)
    have hA₄ := O.point_of_going (.rolling _ hV₄ (.inl rfl)) hgo₄
    refine (runs_restoreFallbackLink hV₂.owns.before hA₃ hA₄).bind_eq ?_
    refine (runs_restoreSnapshot _ hV.owns.snapshot hA₄).bind (fun b V' hq => ?_) fun e V' hq => ?_
    swap
    · rcases hq with ⟨⟨_, h⟩ | ⟨hrun, -⟩, -⟩
      · cases h
      · exact absurd (hrunning.symm.trans hrun) (by simp)
    obtain ⟨-, rfl⟩ := hq
    have hV₅ := hV₄.advance .verify (r.attempts + 1) r.reached
    have hs₅ : Stage O false _ := .rolling _ hV₅ (.inr rfl)
    generalize hY : (X.setLink .current (some (.release v))).setLink .previous
      ((X.setLink .current (some (.release v))).fallbackLink O.before) = Y at *
    have hstory₅ : (Y.record { r with phase := .verify, attempts := r.attempts + 1 }).story = Y.story :=
      record_story rfl
    have hgo₅ : (Y.record { r with phase := .verify, attempts := r.attempts + 1 }).story.Going :=
      hstory₅ ▸ hgo₄
    refine (runs_advance _ .verify hA₄ (O.point_of_going hs₅ hgo₅)).bind_eq ?_
    have hsame : Y.story.answers = X.story.answers ∧ Y.story.down = X.story.down ∧
        Y.story.ups = X.story.ups ∧ Y.current = some (.release v) ∧
        Y.previous = Y.fallbackLink O.before := by
      rw [← hY]
      exact ⟨rfl, rfl, rfl, rfl, rfl⟩
    obtain ⟨hanswers₅, hdown₅, hups₅, hcurrent₅, hprevious₅⟩ := hsame
    refine (runs_gradeRestored u candidate v failure hV₅ rfl ⟨hcurrent₅.trans hto, hprevious₅⟩ hgo₅
      ?_ ?_ ?_).mono (fun _ h => h) ?_
    · rw [hstory₅, hdown₅, hdown]
    · rw [hstory₅, hups₅]
      exact hlen₂
    · rw [hstory₅, hups₅]
      exact fun hm => hnew₂ (hto ▸ hcurrent₅ ▸ hm)
    · rintro res V' - ⟨⟨rest, hrest⟩, hbecame', hcommitted, hcurrent', hidle⟩
      refine ⟨⟨fun l hl => ?_, hcommitted, .inr (.inl ⟨⟨answers, hmem, rest, ?_⟩, ?_, hidle⟩)⟩,
        fun _ _ => hidle⟩
      · rw [hbecame', hstory₅, ← hY]
        exact became_setLink (became_setLink (hbecame l hl) _ _) _ _
      · rw [hrest, hstory₅, hanswers₅, hanswers, List.append_assoc]
      · rw [hcurrent', ← hto]
        exact hcurrent₅

/-! ## Up to the snapshot -/

/-- Preparing the bundle can give a release of this manifest. -/
def Gives (u : Upgrade) (bundle : Option TarStream) (manifest : PlatformManifest) : Prop :=
  ∃ (s : Session) (w : World) (transaction : Nat),
    ((prepare u bundle (.staging transaction)).run (handle s) w).1 = .ok ⟨manifest⟩

/-- Preparing the bundle can give a release of this version. -/
def Brings (u : Upgrade) (bundle : Option TarStream) (v : Version) : Prop :=
  ∃ manifest, Gives u bundle manifest ∧ manifest.version = v

theorem runs_prepare {A : View → Prop} (u : Upgrade) (bundle : Option TarStream) (transaction : Nat)
    (hA : A V) :
    Runs s A (prepare u bundle (.staging transaction)) V fun res V' => V' = V ∧
      ∀ verified, res = .ok verified → Gives u bundle verified.manifest := by
  have happart : Runs s A (prepare u bundle (.staging transaction)) V fun _ V' => V' = V :=
    runs_apart (only_prepare (sparing_staging _ _) u bundle) hA
  refine happart.outcome.mono (fun _ h => h) ?_
  rintro res V' - ⟨rfl, w, rfl⟩
  exact ⟨rfl, fun verified hres => ⟨s, w, transaction, hres⟩⟩

/-- A candidate that is refused leaves the links and the releases as they are; one that is not is
recorded by its version. -/
theorem runs_stageCandidate (u : Upgrade) (bundle : Option TarStream) {transaction : Nat}
    (hV : O.Records r V) (hphase : r.phase = .prepare) (hlinks : O.Untouched V)
    (hrelease : V.release = O.found.release) (hgo : V.story.Going) :
    Runs s O.Point (stageCandidate u bundle (.staging transaction) r) V fun res V' =>
      V'.story.committed = false ∧ V'.story.became = V.story.became ∧
        ∀ r' candidate, res = .ok (r', candidate) → r' = { r with to_ := candidate.version } ∧
          V' = V.record r' ∧ O.from_ ≠ some r'.to_ ∧ Gives u bundle candidate := by
  have hA : O.Point V := O.point_of_going (.preparing r hV hphase hlinks) hgo
  -- what a refusal leaves of a view with the record `r'`
  have hrefuse : ∀ (V' : View) (r' : Record) (error : UpdateError), O.Records r' V' →
      r'.phase = .prepare → O.Untouched V' → V'.story = V.story →
      Runs s O.Point ((removeTree (.staging transaction)).ignore.bind fun _ =>
        ((Journal.advance { r' with staged := none } .failed).ignore).bind fun _ =>
          Prog.fail error) V' fun (res : Except UpdateError (Record × PlatformManifest)) V'' =>
        V''.story.committed = false ∧ V''.story.became = V.story.became ∧ ∃ e, res = .error e := by
    intro V' r' error hV' hphase' hlinks' hstory
    have hgo' : V'.story.Going := hstory ▸ hgo
    have hA' := O.point_of_going (.preparing r' hV' hphase' hlinks') hgo'
    refine (runs_removeStaging transaction hA').bind_eq ?_
    have hdone : O.Records { r' with staged := none, phase := .failed }
        (V'.record { r' with staged := none, phase := .failed }) :=
      ⟨rfl, ⟨hV'.owns.from_, hV'.owns.before, (fun _ h => (by cases h)), hV'.owns.snapshot⟩, hV'.kept⟩
    have hs : Stage O false _ := .refused _ hdone rfl hlinks'
    refine Runs.bind_eq (Runs.ignore ((runs_advance_closed (r := { r' with staged := none }) .failed
      hA' hs hgo' (by simp)).mono (fun _ h => h) fun _ _ _ h => ⟨rfl, h.2⟩)) ?_
    refine Runs.fail (O.point_closed hs hgo' (by simp)) ⟨hclosed _ _ hgo' (by simp), ?_, _, rfl⟩
    rw [← hstory]
    rfl
  refine Runs.attempt_bind (runs_prepare u bundle transaction hA) ?_
  rintro (error | staged) V' ⟨rfl, hgives⟩
  · refine (hrefuse V' r error hV hphase hlinks rfl).mono (fun _ h => h) ?_
    rintro res V'' - ⟨hc, hb, e, rfl⟩
    exact ⟨hc, hb, fun _ _ h => (by cases h)⟩
  have hnew : O.Records { r with to_ := staged.manifest.version }
      (V'.record { r with to_ := staged.manifest.version }) :=
    ⟨rfl, ⟨hV.owns.from_, hV.owns.before, hV.owns.staged, hV.owns.snapshot⟩,
      fun v _ => congrFun hrelease v⟩
  have hstory : (V'.record { r with to_ := staged.manifest.version }).story = V'.story :=
    record_story (by simp [hphase, Phase.isTerminal])
  have hA' : O.Point (V'.record { r with to_ := staged.manifest.version }) :=
    O.point_of_going (.preparing _ hnew hphase hlinks) (hstory ▸ hgo)
  refine (runs_record _ hA hA').bind_eq ?_
  dsimp only
  split
  · refine (hrefuse _ _ _ hnew hphase hlinks hstory).mono (fun _ h => h) ?_
    rintro res V'' - ⟨hc, hb, e, rfl⟩
    exact ⟨hc, hb, fun _ _ h => (by cases h)⟩
  · next hfrom =>
    refine Runs.done hA' ⟨hstory ▸ hgo.committed, by rw [hstory], ?_⟩
    intro r' candidate hres
    cases hres
    exact ⟨rfl, rfl, fun h => hfrom (hV.owns.from_.trans h), hgives staged rfl⟩

/-- A snapshot is one of those in `snapshots`. -/
theorem runs_snapshotForRollback {A : View → Prop} (u : Upgrade) (from_ : Option Version)
    (candidate : PlatformManifest) (hA : A V) :
    Runs s A (snapshotForRollback u from_ candidate) V fun res V' =>
      (∀ snapshot, res = .ok (some snapshot) → ∃ name, snapshot = .snapshots name) ∧ V' = V := by
  have hsnapshots : ∀ name, Sparing (fun _ => True) (.snapshots name) := fun _ _ h => by cases h
  cases from_ with
  | none => exact Runs.done hA ⟨(fun _ h => (by cases h)), rfl⟩
  | some v =>
    refine (runs_apart (only_snapshotNeeded u v candidate) hA).bind ?_ ?_
    · rintro (- | reads) V' rfl
      · exact Runs.done hA ⟨(fun _ h => (by cases h)), rfl⟩
      · refine Runs.attempt_bind (runs_apart (only_takeSnapshot (hsnapshots _) (hsnapshots _)) hA) ?_
        rintro (e | -) V' rfl
        · exact Runs.fail hA ⟨(fun _ h => (by cases h)), rfl⟩
        · exact Runs.done hA ⟨fun _ h => by cases h; exact ⟨_, rfl⟩, rfl⟩
    · rintro e V' rfl
      exact ⟨(fun _ h => (by cases h)), rfl⟩

/-- The candidate is moved into place before anything names it. -/
theorem runs_commitRelease (u : Upgrade) (candidate : PlatformManifest) {transaction : Nat}
    (hV : O.Records r V) (hphase : r.phase = .prepare) (hlinks : O.Untouched V)
    (hfree : ¬ O.Kept r.to_ r.to_) (hgo : V.story.Going) :
    Runs s O.Point (commitRelease u candidate (.staging transaction) r) V fun res V' =>
      V'.story = V.story ∧ ∀ r', res = .ok r' → r'.to_ = r.to_ ∧ r'.phase = .prepare ∧
        O.Holds r' V' ∧ O.Untouched V' ∧ (V'.release r.to_).isSome := by
  have hA : O.Point V := O.point_of_going (.preparing r hV hphase hlinks) hgo
  have hkept : ∀ R, (∀ v, v ≠ r.to_ → R v = V.release v) → O.Records r (V.withReleases R) :=
    fun R hR => hV.withReleases fun v hv => hR v fun h => hfree (h ▸ hv)
  have hA' : ∀ R, (∀ v, v ≠ r.to_ → R v = V.release v) → O.Point (V.withReleases R) := fun R hR =>
    O.point_of_going (.preparing r (hkept R hR) hphase hlinks) hgo
  have hremove : (removeIfExists (releaseDir r.to_) : SessionProg Unit).Only
      (Within (Sparing (· ≠ r.to_)) fun _ => False) :=
    only_removeIfExists fun v h hv => hv (by cases h; rfl)
  refine (runs_sparing _ hremove hA').bind ?_ ?_
  swap
  · rintro e V' ⟨R, hR, rfl⟩
    exact ⟨rfl, fun _ h => (by cases h)⟩
  rintro - V' ⟨R, hR, rfl⟩
  have hback : ∀ R' : Version → Option Tree, (∀ v, v ≠ r.to_ → R' v = (V.withReleases R).release v) →
      ∀ v, v ≠ r.to_ → R' v = V.release v := fun R' hR' v hv => (hR' v hv).trans (hR v hv)
  refine (runs_renameRelease (k := r.to_) (sparing_staging _ transaction) (hA' R hR)
    fun R' hR' _ => hA' R' (hback R' hR')).bind ?_ ?_
  swap
  · rintro e V' (⟨h, -⟩ | ⟨-, rfl⟩)
    · cases h
    · exact ⟨rfl, fun _ h => (by cases h)⟩
  rintro _ V' (⟨-, R', hR', hthere, rfl⟩ | ⟨⟨e, he⟩, -⟩)
  swap
  · exact by cases he
  -- the release is in place; the two records that follow change the journal only
  have hrec := hkept R' (hback R' hR')
  have hA₁ := hA' R' (hback R' hR')
  have hfallback : ∀ v, O.before = some v → (O.found.release v).isSome → (R' v).isSome := by
    intro v _ hv
    by_cases hk : v = r.to_
    · exact hk ▸ hthere
    · rw [show R' v = O.found.release v from hrec.kept v (.inl hk)]
      exact hv
  have hholds : ∀ (V' : View) (r' : Record), r'.from_ = r.from_ →
      r'.previousBefore = r.previousBefore → r'.to_ = r.to_ → r'.staged = none →
      (∀ p, r'.snapshot = some p → ∃ name, p = .snapshots name) → V'.release = R' →
      V'.current = V.current → V'.previous = V.previous → O.Holds r' (V'.record r') := by
    intro V' r' h₁ h₂ h₃ h₄ h₅ h₆ h₇ h₈
    refine ⟨⟨rfl, ⟨h₁.trans hV.owns.from_, h₂.trans hV.owns.before, ?_, h₅⟩, ?_⟩, ?_, ?_, ?_⟩
    · intro p hp
      rw [h₄] at hp
      cases hp
    · intro v hv
      exact (congrFun h₆ v).trans (hrec.kept v (h₃ ▸ hv))
    · exact fun v hv hf => (congrFun h₆ v).symm ▸ hfallback v hv hf
    · exact .inl (h₇.trans (hlinks.1.trans O.current_found))
    · exact .inl (h₈.trans hlinks.2)
  have hlive : r.phase.isTerminal = false := by rw [hphase]; rfl
  have hstory₁ : ((V.withReleases R').record { r with staged := none }).story = V.story :=
    record_story hlive
  have hV₂ := hholds (V.withReleases R') { r with staged := none } rfl rfl rfl rfl
    hV.owns.snapshot rfl rfl rfl
  have hA₂ : O.Point ((V.withReleases R').record { r with staged := none }) :=
    O.point_of_going (.preparing _ hV₂.toRecords hphase hlinks) (hstory₁ ▸ hgo)
  refine (runs_record _ hA₁ hA₂).bind_eq ?_
  generalize hW : (V.withReleases R').record { r with staged := none } = W at *
  refine (runs_snapshotForRollback u r.from_ candidate hA₂).bind ?_ ?_
  swap
  · rintro e V' ⟨-, rfl⟩
    exact ⟨hstory₁, fun _ h => (by cases h)⟩
  rintro snapshot V' ⟨hname, rfl⟩
  have hV₃ := hholds V' { r with staged := none, snapshot } rfl rfl rfl rfl
    (fun p hp => hname p (congrArg _ hp)) (by rw [← hW]; rfl) (by rw [← hW]; rfl)
    (by rw [← hW]; rfl)
  have hstory₂ : (V'.record { r with staged := none, snapshot }).story = V.story :=
    (record_story hlive).trans hstory₁
  have hlinks₃ : O.Untouched (V'.record { r with staged := none, snapshot }) := by
    rw [← hW]
    exact hlinks
  have hA₃ := O.point_of_going (.preparing _ hV₃.toRecords hphase hlinks₃) (hstory₂ ▸ hgo)
  refine (runs_record _ hA₂ hA₃).bind_eq ?_
  refine Runs.done hA₃ ⟨hstory₂, fun r' h => ?_⟩
  cases h
  refine ⟨rfl, hphase, hV₃, hlinks₃, ?_⟩
  rw [← hW]
  exact hthere

/-! ## The swap -/

/-- The candidate is selected and the session is down. -/
structure Origin.Activated (O : Origin) (r : Record) (V : View) : Prop where
  holds : O.Holds r V
  phase : r.phase = .verify
  current : V.current = some (.release r.to_)
  previous : V.previous = linkTo O.from_
  from_ : ∀ v, O.from_ = some v → (V.release v).isSome
  there : (V.release r.to_).isSome
  going : V.story.Going
  down : V.story.down = true
  ups : V.story.ups = []
  became : V.story.became = some (some (.release r.to_))
  answers : V.story.answers ∈ wentDown

/-- The links are swapped, `previous` first, once the session stood down. -/
theorem runs_activate (hV : O.Holds r V) (hphase : r.phase = .prepare) (hlinks : O.Untouched V)
    (hthere : (V.release r.to_).isSome) (hstory : V.story = .start) :
    Runs s O.Point (activate r) V fun res V' =>
      (∃ e, res = .error e) ∧ V'.story.committed = false ∧ V'.story.became = none ∨
        ∃ r', res = .ok r' ∧ r'.to_ = r.to_ ∧ O.Activated r' V' := by
  have hgo : V.story.Going := by rw [hstory]; exact ⟨rfl, rfl, rfl⟩
  have hV₁ : O.Holds { r with phase := .activate } (V.record { r with phase := .activate }) :=
    hV.advance .activate _ _
  have hstory₁ : (V.record { r with phase := .activate }).story = .start :=
    (record_story rfl).trans hstory
  have hgo₁ : (V.record { r with phase := .activate }).story.Going := by
    rw [hstory₁]
    exact ⟨rfl, rfl, rfl⟩
  refine (runs_advance r .activate
    (O.point_of_going (.preparing r hV.toRecords hphase hlinks) hgo)
    (O.point_of_going (.rolling _ hV₁ (.inl rfl)) hgo₁)).bind_eq ?_
  have hthere₁ : ((V.record { r with phase := .activate }).release r.to_).isSome := hthere
  generalize V.record { r with phase := .activate } = W at *
  have hA : ∀ answers down, O.Point (W.heard answers down) := fun answers down =>
    O.point_of_going (.rolling _ (hV₁.heard answers down) (.inl rfl)) (hgo₁.heard answers down)
  refine (runs_standDown hA).bind ?_ ?_
  swap
  · rintro e V' (⟨h, -⟩ | ⟨-, answers, -, down, rfl⟩)
    · cases h
    · exact .inl ⟨⟨e, rfl⟩, hgo₁.committed, by show W.story.became = none; rw [hstory₁]; rfl⟩
  rintro _ V' (⟨-, answers, hmem, rfl⟩ | ⟨⟨e, he⟩, -⟩)
  swap
  · exact by cases he
  have hstory₂ : (W.heard answers true).story = { Story.start with answers, down := true } := by
    rw [View.heard, hstory₁]
    rfl
  have hV₂ := hV₁.heard answers true
  have hgo₂ := hgo₁.heard answers true
  have hA₂ := hA answers true
  have hthere₂ : ((W.heard answers true).release r.to_).isSome := hthere₁
  clear hA
  generalize W.heard answers true = X at *
  have hdown : X.story.down = true := by rw [hstory₂]
  have hV₃ : O.Holds _ (X.setLink .previous (linkTo O.from_)) := hV₂.setPrevious (.inr (.inl rfl))
  have hgo₃ := hgo₂.setLink hdown .previous (linkTo O.from_)
  have hA₃ := O.point_of_going (.rolling _ hV₃ (.inl rfl)) hgo₃
  -- once `previous` names what is to be replaced, `current` moves
  have hrest : (∀ v, O.from_ = some v → (X.release v).isSome) →
      Runs s O.Point ((select .current r.to_).bind fun _ => Journal.advance
        { r with phase := .activate, attempts := r.attempts + 1 } .verify)
        (X.setLink .previous (linkTo O.from_)) fun res V' =>
          (∃ e, res = .error e) ∧ V'.story.committed = false ∧ V'.story.became = none ∨
            ∃ r', res = .ok r' ∧ r'.to_ = r.to_ ∧ O.Activated r' V' := by
    intro hfrom
    have hV₄ : O.Holds _ ((X.setLink .previous (linkTo O.from_)).setLink .current
        (some (.release r.to_))) := hV₃.setCurrent (.inr ⟨rfl, hthere₂⟩)
    have hgo₄ := hgo₃.setLink hdown .current (some (.release r.to_))
    have hA₄ := O.point_of_going (.rolling _ hV₄ (.inl rfl)) hgo₄
    refine (runs_select .current r.to_ hA₃ fun _ => hA₄).bind ?_ ?_
    swap
    · rintro e V' (⟨h, -⟩ | ⟨-, hgone, -⟩)
      · cases h
      · exact absurd (hthere₂.symm.trans hgone) (by simp)
    rintro _ V' (⟨-, -, rfl⟩ | ⟨he, -⟩)
    swap
    · exact by cases he
    have hV₅ := hV₄.advance .verify (r.attempts + 1) r.reached
    have hstory₅ : (((X.setLink .previous (linkTo O.from_)).setLink .current
        (some (.release r.to_))).record
          { r with phase := .verify, attempts := r.attempts + 1 }).story =
        { Story.start with
          answers, down := true, became := some (some (.release r.to_)) } := by
      rw [record_story rfl]
      simp [View.setLink, View.tell, Story.add, hstory₂, Story.start]
    refine (runs_advance _ .verify hA₄ (O.point_of_going (.rolling _ hV₅ (.inr rfl))
      (by rw [hstory₅]; exact ⟨rfl, rfl, rfl⟩))).mono (fun _ h => h) ?_
    rintro res V' - ⟨rfl, rfl⟩
    refine .inr ⟨_, rfl, rfl, hV₅, rfl, rfl, rfl, hfrom, hthere₂, ?_, ?_, ?_, ?_, ?_⟩
    all_goals rw [hstory₅]
    · exact ⟨rfl, rfl, rfl⟩
    · rfl
    · exact hmem
  dsimp only
  split
  · next v hfrom =>
    have hfrom : O.from_ = some v := hV.owns.from_.symm.trans hfrom
    have hto : some (Link.release v) = linkTo O.from_ := by rw [hfrom]; rfl
    refine (runs_select .previous v hA₂ fun _ => hto ▸ hA₃).bind ?_ ?_
    · rintro _ V' (⟨-, hv, rfl⟩ | ⟨he, -⟩)
      · rw [hto]
        exact hrest fun w hw => by rw [hfrom] at hw; cases hw; exact hv
      · exact by cases he
    · rintro e V' (⟨h, -⟩ | ⟨-, -, rfl⟩)
      · cases h
      · exact .inl ⟨⟨e, rfl⟩, hgo₂.committed, by rw [hstory₂]; rfl⟩
  · next hfrom =>
    have hfrom : O.from_ = none := hV.owns.from_.symm.trans hfrom
    have hto : none = linkTo O.from_ := by rw [hfrom]; rfl
    refine (runs_deselect .previous hA₂ (hto ▸ hA₃)).bind_eq ?_
    rw [hto]
    exact hrest fun w hw => by rw [hfrom] at hw; cases hw

/-! ## The verdict -/

/-- Whether the answer is to a session that was brought up. -/
def Answer.isUp : Answer → Bool
  | broughtUp _ => true
  | _ => false

/-- The session came up when it was first asked to, and then stood down when it was asked to. -/
def Obeyed (answers : List Answer) : Prop :=
  ∃ down ∈ wentDown, Answer.broughtUp true :: down <+: answers.dropWhile fun a => !a.isUp

theorem dropWhile_wentDown {down : List Answer} (h : down ∈ wentDown) (ok : Bool)
    (rest : List Answer) :
    (down ++ .broughtUp ok :: rest).dropWhile (fun a => !a.isUp) = .broughtUp ok :: rest := by
  simp only [wentDown, List.mem_cons, List.not_mem_nil, or_false] at h
  rcases h with rfl | rfl <;> rfl

theorem not_obeyed_of_broughtUp_false {down : List Answer} (h : down ∈ wentDown)
    (rest : List Answer) : ¬ Obeyed (down ++ .broughtUp false :: rest) := by
  rintro ⟨down', -, hp⟩
  rw [dropWhile_wentDown h, List.cons_prefix_cons] at hp
  cases hp.1

theorem not_obeyed_of_stayedUp {down answers : List Answer} (h : down ∈ wentDown)
    (ha : answers ∈ stayedUp) : ¬ Obeyed (down ++ .broughtUp true :: answers) := by
  rintro ⟨down', hmem, hp⟩
  rw [dropWhile_wentDown h, List.cons_prefix_cons] at hp
  have hnone : ∀ answers ∈ stayedUp, ∀ down ∈ wentDown, ¬ down <+: answers := by decide
  exact hnone answers ha down' hmem hp.2

theorem obeyed_of_wentDown {down down' : List Answer} (h : down ∈ wentDown) (h' : down' ∈ wentDown)
    (rest : List Answer) : Obeyed (down ++ .broughtUp true :: (down' ++ rest)) := by
  refine ⟨down', h', ?_⟩
  rw [dropWhile_wentDown h, List.cons_prefix_cons]
  exact ⟨rfl, List.prefix_append _ _⟩

/-- How a run ends: committed, or with no candidate selected on the way; or with the candidate still
selected, or back. -/
def Origin.Ends (O : Origin) (V : View) : Prop :=
  V.story.committed = true ∨ V.story.became = none ∨
    ∃ k, V.story.became = some (some (.release k)) ∧ O.from_ ≠ some k ∧
      (V.current = some (.release k) ∧ ¬ Obeyed V.story.answers ∨
        V.current = linkTo O.from_ ∧ Closed V.journal ∧ Obeyed V.story.answers)

/-- Once the commit is recorded only releases that no link names are removed. -/
theorem runs_commit {outcome : Record → Outcome} (hV : O.Holds r V) (hcarried : O.carries r.to_)
    (hcurrent : V.current = some (.release r.to_)) (hprevious : V.previous = linkTo O.from_)
    (hthere : (V.release r.to_).isSome) (hA : O.Point V) (ho : V.story.orderly = true) :
    Runs s O.Point ((Journal.advance r .commit).bind fun record =>
      (prune record.to_ record.from_).bind fun _ => Prog.done (outcome record)) V
      fun (res : Except UpdateError Outcome) V' =>
        O.Ends V' ∧ ∀ outcome, res = .ok outcome → Closed V'.journal := by
  have hs : ∀ R, (∀ v, v = r.to_ ∨ some v = r.from_ → R v = V.release v) →
      O.Point ((V.record { r with phase := .commit }).withReleases R) := by
    intro R hR
    have hcommitted : ((V.record { r with phase := .commit }).withReleases R).story.committed =
        true := by simp [View.withReleases, View.record, View.tell, Story.add]
    refine ⟨?_, ho⟩
    rw [hcommitted]
    refine .committed { r with phase := .commit } rfl rfl hcarried hcurrent ?_ hprevious fun v hv => ?_
    · show (R r.to_).isSome
      rw [hR r.to_ (.inl rfl)]
      exact hthere
    · rw [← hV.kept v (.inr (.inl hv.symm))]
      exact hR v (.inr (hV.owns.from_.trans hv).symm)
  refine (runs_advance r .commit hA (hs _ fun _ _ => rfl)).bind_eq ?_
  have hprune : (prune r.to_ r.from_ : SessionProg Unit).Only
      (Within (Sparing fun v => v = r.to_ ∨ some v = r.from_) fun _ => False) :=
    only_prune fun v hto hfrom w hw h => by
      cases hw
      exact h.elim hto hfrom
  refine (runs_sparing _ hprune hs).bind ?_ ?_
  · rintro _ V' ⟨R, hR, rfl⟩
    exact Runs.done (hs R hR)
      ⟨.inl (by simp [View.withReleases, View.record, View.tell, Story.add]), fun _ _ => rfl⟩
  · rintro e V' ⟨R, -, rfl⟩
    exact ⟨.inl (by simp [View.withReleases, View.record, View.tell, Story.add]),
      fun _ h => (by cases h)⟩

/-- The candidate commits if it is found healthy; otherwise it is rolled back. -/
theorem runs_verify (u : Upgrade) (h : O.Activated r V) (hcarried : O.carries r.to_)
    (hfree : O.from_ ≠ some r.to_) :
    Runs s O.Point (verify u r) V fun res V' =>
      O.Ends V' ∧ ∀ outcome, res = .ok outcome → Closed V'.journal := by
  have hA : O.Point V := O.point_of_going (.rolling r h.holds (.inr h.phase)) h.going
  have hup : ∀ ok, (V.brought ok).story.Going :=
    h.going.brought h.down (by rw [h.ups]; simp) (by rw [h.ups]; simp)
  have hA' : ∀ ok, O.Point (V.brought ok) := fun ok =>
    O.point_of_going (.rolling r (h.holds.brought ok) (.inr h.phase)) (hup ok)
  refine (runs_bringUpAndGrade u hA hA').bind ?_ ?_
  swap
  · rintro e V' (⟨-, rfl⟩ | ⟨⟨_, he⟩, -⟩)
    · exact ⟨.inr (.inr ⟨r.to_, h.became, hfree,
        .inl ⟨h.current, not_obeyed_of_broughtUp_false h.answers []⟩⟩), fun _ h => (by cases h)⟩
    · cases he
  rintro health V' (⟨⟨_, he⟩, -⟩ | ⟨-, rfl⟩)
  · exact by cases he
  have hV₂ := (h.holds.brought true).advance r.phase r.attempts (some health.reached.label)
  have hlive : r.phase.isTerminal = false := by rw [h.phase]; rfl
  have hstory₂ : ((V.brought true).record { r with reached := some health.reached.label }).story =
      (V.brought true).story := record_story hlive
  have hs₂ : Stage O false _ := .rolling _ hV₂ (.inr h.phase)
  have hgo₂ : ((V.brought true).record
      { r with reached := some health.reached.label }).story.Going := hstory₂ ▸ hup true
  have hA₂ := O.point_of_going hs₂ hgo₂
  refine (runs_record _ (hA' true) hA₂).bind_eq ?_
  have hthere₂ : (((V.brought true).record
      { r with reached := some health.reached.label }).release r.to_).isSome := h.there
  have hprevious₂ : ((V.brought true).record
      { r with reached := some health.reached.label }).previous = linkTo O.from_ := h.previous
  dsimp only
  split
  · exact runs_commit hV₂ hcarried h.current hprevious₂ hthere₂ hA₂ hgo₂.orderly
  · next failure _ =>
    have hups : ((V.brought true).record
        { r with reached := some health.reached.label }).story.ups = [some (.release r.to_)] := by
      rw [hstory₂]
      show V.story.ups ++ [V.current] = _
      rw [h.ups, h.current]
      rfl
    refine (runs_rollBack u r.to_ failure hV₂ (.inr h.phase) (.inl ⟨h.current, hfree⟩) hgo₂
      (by rw [hups]; simp) (by rw [hups]; simpa using hfree)).mono (fun _ h => h) ?_
    rintro res V' - ⟨⟨hbecame, hcommitted, hend⟩, hok⟩
    have hans : ∀ rest, ((V.brought true).record
        { r with reached := some health.reached.label }).story.answers ++ rest =
          V.story.answers ++ .broughtUp true :: rest := by
      intro rest
      rw [hstory₂]
      exact List.append_assoc _ [_] _
    refine ⟨.inr (.inr ⟨r.to_, hbecame _ (by rw [hstory₂]; exact h.became), hfree, ?_⟩), hok⟩
    rcases hend with ⟨⟨answers, hmem, heq⟩, hcur, -⟩ | ⟨⟨answers, hmem, rest, heq⟩, hcur, hidle⟩ |
      ⟨v, hv, hgone, -⟩
    · refine .inl ⟨hcur.trans h.current, ?_⟩
      rw [heq, hans]
      exact not_obeyed_of_stayedUp h.answers hmem
    · refine .inr ⟨hcur, hidle, ?_⟩
      rw [heq, hans]
      exact obeyed_of_wentDown h.answers hmem rest
    · exact absurd ((h.from_ v hv).symm.trans hgone) (by simp)

/-! ## Whole transactions -/

theorem runs_refuseIfInFlight {A : View → Prop} (hA : A V) :
    Runs s A refuseIfInFlight V fun res V' =>
      (res = .ok () ∧ Idle V.journal ∨ (∃ e, res = .error e) ∧ ¬ Idle V.journal) ∧ V' = V := by
  refine (runs_read hA).bind ?_ ?_
  · rintro file V' ⟨hfile, rfl⟩
    rcases hj : V'.journal with - | (r | reason) <;> rw [hj] at hfile <;> cases hfile
    · exact Runs.done hA ⟨.inl ⟨rfl, trivial⟩, rfl⟩
    · dsimp only
      split
      · next h =>
        refine Runs.fail hA ⟨.inr ⟨⟨_, rfl⟩, fun hi : r.phase.isTerminal = true => ?_⟩, rfl⟩
        rw [Record.isInFlight, hi] at h
        cases h
      · next h =>
        refine Runs.done hA ⟨.inl ⟨rfl, show r.phase.isTerminal = true from ?_⟩, rfl⟩
        simpa [Record.isInFlight] using h
  · rintro e V' ⟨he, rfl⟩
    rcases hj : V'.journal with - | (r | reason) <;> rw [hj] at he <;> cases he
    exact ⟨.inr ⟨⟨_, rfl⟩, fun hi => hi⟩, rfl⟩

theorem linkRead_linkTo (slot : Slot) (v : Option Version) : linkRead slot (linkTo v) = .ok v := by
  cases v <;> rfl

/-- Where nothing is recorded, and the links can be read, the transaction starts. -/
theorem runs_found {α : Type} {prog : Option Version → Option Version → SessionProg α}
    {previous : Option Version} {Q : Except UpdateError α → View → Prop}
    (hprevious : O.found.previous = linkTo previous) (hA : O.Point O.found)
    (hrefuse : ∀ e, Q (.error e) O.found)
    (h : Idle O.found.journal → Runs s O.Point (prog O.from_ previous) O.found Q) :
    Runs s O.Point (ensure.bind fun _ => refuseIfInFlight.bind fun _ => selected.bind fun current =>
      fallback.bind fun previous => prog current previous) O.found Q := by
  refine (runs_ensure hA).bind_eq ((runs_refuseIfInFlight hA).bind ?_ ?_)
  swap
  · rintro e V' ⟨-, rfl⟩
    exact hrefuse e
  rintro _ V' ⟨⟨-, hidle⟩ | ⟨⟨_, he⟩, -⟩, rfl⟩
  swap
  · exact by cases he
  have hread : ∀ (slot : Slot) (v : Option Version), O.found.link slot = linkTo v →
      Runs s O.Point (readSelection slot) O.found fun res V' => res = .ok v ∧ V' = O.found := by
    intro slot v hv
    refine (runs_readSelection slot hA).mono (fun _ h => h) ?_
    rintro res V' - ⟨rfl, rfl⟩
    exact ⟨by rw [hv, linkRead_linkTo], rfl⟩
  exact (hread .current _ O.current_found).bind_eq
    ((hread .previous _ hprevious).bind_eq (h hidle))

/-- Where a link cannot be read, the transaction does not start. -/
theorem runs_unreadable {α : Type} {A : View → Prop}
    {prog : Option Version → Option Version → SessionProg α} (hA : A V)
    (h : ∃ (slot : Slot) (text : String), V.link slot = some (.other text)) :
    Runs s A (ensure.bind fun _ => refuseIfInFlight.bind fun _ => selected.bind fun current =>
      fallback.bind fun previous => prog current previous) V fun res V' =>
        (∃ e, res = .error e) ∧ V' = V := by
  refine (runs_ensure hA).bind_eq ((runs_refuseIfInFlight hA).bind ?_ ?_)
  swap
  · rintro e V' ⟨-, rfl⟩
    exact ⟨⟨_, rfl⟩, rfl⟩
  rintro _ V' ⟨-, rfl⟩
  refine (runs_readSelection .current hA).bind ?_ ?_
  swap
  · rintro e V'' ⟨-, rfl⟩
    exact ⟨⟨_, rfl⟩, rfl⟩
  rintro current V'' ⟨hcurrent, rfl⟩
  refine (runs_readSelection .previous hA).bind ?_ ?_
  swap
  · rintro e V' ⟨-, rfl⟩
    exact ⟨⟨_, rfl⟩, rfl⟩
  rintro previous V' ⟨hprevious, rfl⟩
  obtain ⟨slot, text, h⟩ := h
  cases slot
  · rw [h] at hcurrent
    cases hcurrent
  · rw [h] at hprevious
    cases hprevious

/-- The part of an upgrade before anything is moved into place. -/
def openCandidate (u : Upgrade) (bundle : Option TarStream) :
    SessionProg (Nat × Record × PlatformManifest) := do
  ensure
  refuseIfInFlight
  let from_ ← selected
  let previousBefore ← fallback
  let transaction ← session .storeNow
  let record : Record :=
    { Record.opening from_ (.new 0 0 0) with
      previousBefore, staged := some (.staging transaction) }
  Journal.record record
  let (record, candidate) ← stageCandidate u bundle (.staging transaction) record
  pure (transaction, record, candidate)

theorem run_eq (u : Upgrade) (bundle : Option TarStream) :
    run u bundle = (openCandidate u bundle).bind fun (transaction, record, candidate) =>
      (commitRelease u candidate (.staging transaction) record).bind fun record =>
        (activate record).bind fun record => verify u record := by
  simp only [run, openCandidate, bind_eq, bind_assoc, pure_eq, bind_done]

/-- A candidate that is not refused is recorded by its version, and neither the links nor the releases
have changed. -/
theorem runs_openCandidate (u : Upgrade) (bundle : Option TarStream)
    (hprevious : O.found.previous = linkTo O.before) (hstory : O.found.story = .start) :
    Runs s O.Point (openCandidate u bundle) O.found fun res V' => V'.story.became = none ∧
      ∀ transaction r candidate, res = .ok (transaction, r, candidate) →
        O.Records r V' ∧ r.phase = .prepare ∧ r.to_ = candidate.version ∧ O.Untouched V' ∧
          V'.release = O.found.release ∧ V'.story = .start ∧ O.from_ ≠ some r.to_ ∧
          Gives u bundle candidate := by
  have hgo := Story.going_start hstory
  have hA : O.Point O.found := O.point_of_going (.begun ⟨rfl, rfl⟩ rfl rfl) hgo
  have hbecame : O.found.story.became = none := by rw [hstory]; rfl
  refine runs_found hprevious hA (fun e => ⟨hbecame, fun _ _ _ h => (by cases h)⟩) fun _ => ?_
  refine (runs_look (.inl (by simp)) hA).bind_ok ?_
  rintro transaction V' hV'
  subst hV'
  have hrecords : ∀ (V : View) (k : Version), V.release = O.found.release →
      O.Records { Record.opening O.from_ k with
        previousBefore := O.before, staged := some (.staging transaction) }
        (V.record { Record.opening O.from_ k with
          previousBefore := O.before, staged := some (.staging transaction) }) :=
    fun V k hr => ⟨rfl, ⟨rfl, rfl, fun p hp => ⟨transaction, (Option.some.inj hp).symm⟩,
      fun p hp => (by cases hp)⟩, fun v _ => congrFun hr v⟩
  have hV₁ := hrecords O.found (.new 0 0 0) rfl
  have hs₁ := Stage.preparing _ hV₁ rfl ⟨rfl, rfl⟩
  have hstory₁ : (O.found.record { Record.opening O.from_ (.new 0 0 0) with
      previousBefore := O.before, staged := some (.staging transaction) }).story = .start :=
    (record_story rfl).trans hstory
  have hgo₁ := Story.going_start hstory₁
  refine (runs_record _ hA (O.point_of_going hs₁ hgo₁)).bind_eq ?_
  refine (runs_stageCandidate u bundle hV₁ rfl ⟨rfl, rfl⟩ rfl hgo₁).bind ?_ ?_
  swap
  · rintro e V' ⟨-, hb, -⟩
    exact ⟨by rw [hb, hstory₁]; rfl, fun _ _ _ h => (by cases h)⟩
  rintro ⟨r, candidate⟩ V' ⟨hc, hb, hok⟩
  obtain ⟨rfl, rfl, hfrom, hgives⟩ := hok r candidate rfl
  have hstory₂ := (record_story (V := O.found.record { Record.opening O.from_ (.new 0 0 0) with
    previousBefore := O.before, staged := some (.staging transaction) })
    (r := { Record.opening O.from_ candidate.version with
      previousBefore := O.before, staged := some (.staging transaction) }) rfl).trans hstory₁
  have hV₂ := hrecords (O.found.record { Record.opening O.from_ (.new 0 0 0) with
    previousBefore := O.before, staged := some (.staging transaction) }) candidate.version rfl
  refine Runs.done (O.point_of_going (.preparing _ hV₂ rfl ⟨rfl, rfl⟩) (Story.going_start hstory₂)) ⟨by rw [hb, hstory₁]; rfl, fun _ _ _ h => ?_⟩
  cases h
  exact ⟨hV₂, rfl, rfl, ⟨rfl, rfl⟩, rfl, hstory₂, hfrom, hgives⟩

/-- An upgrade: every point is at a stage of the transaction. -/
theorem runs_run (u : Upgrade) (bundle : Option TarStream)
    (hprevious : O.found.previous = linkTo O.before) (hstory : O.found.story = .start)
    (hcarries : ∀ v, Brings u bundle v → O.carries v) :
    Runs s O.Point (run u bundle) O.found fun res V' =>
      O.Ends V' ∧ ∀ outcome, res = .ok outcome → Closed V'.journal := by
  have hends : ∀ (V' : View) (e : UpdateError), V'.story.became = none → O.Ends V' ∧
      ∀ outcome : Outcome, (.error e : Except UpdateError Outcome) = .ok outcome → Closed V'.journal :=
    fun V' _ h => ⟨.inr (.inl h), fun _ h => (by cases h)⟩
  rw [run_eq]
  refine (runs_openCandidate u bundle hprevious hstory).bind ?_ fun e V' hq => hends V' e hq.1
  rintro ⟨transaction, r, candidate⟩ V' ⟨-, hok⟩
  obtain ⟨hV, hphase, hto, hlinks, -, hstory', hfrom, hgives⟩ := hok transaction r candidate rfl
  have hb : Brings u bundle r.to_ := ⟨candidate, hgives, hto.symm⟩
  have hfree : ¬ O.Kept r.to_ r.to_ := by
    rintro (h | h | ⟨-, h⟩)
    · exact h rfl
    · exact hfrom h.symm
    · exact h (hcarries r.to_ hb)
  refine (runs_commitRelease u candidate hV hphase hlinks hfree
    (Story.going_start hstory')).bind ?_ ?_
  swap
  · rintro e V' ⟨hsame, -⟩
    exact hends V' e (by rw [hsame, hstory']; rfl)
  rintro r' V' ⟨hsame, hok'⟩
  obtain ⟨hto', hphase', hV', hlinks', hthere⟩ := hok' r' rfl
  refine (runs_activate hV' hphase' hlinks' (hto' ▸ hthere) (hsame.trans hstory')).bind ?_ ?_
  · rintro r'' V'' (⟨⟨_, h⟩, -⟩ | ⟨_, h, hto'', hactivated⟩)
    · cases h
    · cases h
      have hto := hto''.trans hto'
      exact runs_verify u hactivated (hto ▸ hcarries _ hb) (hto ▸ hfrom)
  · rintro e V'' (⟨-, -, h⟩ | ⟨_, h, -⟩)
    · exact hends V'' e h
    · cases h

/-- A rollback by hand: every point is at a stage of the transaction, and `current` ends where it
began. -/
theorem runs_rollback (u : Upgrade) {previous : Option Version}
    (hprevious : O.found.previous = linkTo previous) (hbefore : O.before = O.from_)
    (hstory : O.found.story = .start) :
    Runs s O.Point (rollback u) O.found fun res V' => V'.current = O.found.current ∧
      ∀ outcome, res = .ok outcome → Closed V'.journal := by
  have hgo := Story.going_start hstory
  have hA : O.Point O.found := O.point_of_going (.begun ⟨rfl, rfl⟩ rfl rfl) hgo
  refine runs_found hprevious hA (fun _ => ⟨rfl, fun _ h => (by cases h)⟩) fun _ => ?_
  cases previous with
  | none => exact Runs.fail hA ⟨rfl, fun _ h => (by cases h)⟩
  | some k =>
    have hV₁ : O.Holds { Record.opening O.from_ k with previousBefore := O.from_, phase := .activate }
        (O.found.record
          { Record.opening O.from_ k with previousBefore := O.from_, phase := .activate }) :=
      ⟨⟨rfl, ⟨rfl, hbefore.symm, (fun _ h => (by cases h)), fun _ h => (by cases h)⟩, fun _ _ => rfl⟩,
        fun _ _ h => h, .inl O.current_found, .inl rfl⟩
    have hstory₁ := (record_story (V := O.found) (r := { Record.opening O.from_ k with
      previousBefore := O.from_, phase := .activate }) rfl).trans hstory
    have hgo₁ := Story.going_start hstory₁
    refine (runs_advance _ .activate hA
      (O.point_of_going (.rolling _ hV₁ (.inl rfl)) hgo₁)).bind_eq ?_
    refine (runs_rollBack u _ rollbackRequested hV₁ (.inl rfl) (.inr (.inr ⟨rfl, rfl⟩)) hgo₁
      (by rw [hstory₁]; simp [Story.start]) (by rw [hstory₁]; simp [Story.start])).mono
      (fun _ h => h) ?_
    rintro res V' - ⟨⟨-, -, ⟨-, h, -⟩ | ⟨-, h, -⟩ | ⟨_, -, -, h⟩⟩, hok⟩
    · exact ⟨h, hok⟩
    · exact ⟨h.trans O.current_found.symm, hok⟩
    · exact ⟨h, hok⟩

end Rules

end Paperclip.Updater
