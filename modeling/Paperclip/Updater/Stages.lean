import Paperclip.Updater.Snapshot
import Paperclip.Updater.Steps

/-!
# Stages of a transaction

What the journal, the links and the releases can look like between two steps of a transaction.
Every point of `run` and of `rollback` is at one of the stages, and so is every point of a
`reconcile` that starts at one.

* `Origin`: what a transaction started from, and what its record says of that.
* `Stage O committed V`: the view `V` is at a stage of a transaction from `O`.
* `runs_reconcile`: where a reconcile takes a stage.
-/

namespace Paperclip.Updater

open Crash Files Prog

/-- What a transaction started from: the view it found, what `current` named, what its record says
`previous` named, and the versions that its bundle can carry. -/
structure Origin where
  found : View
  from_ : Option Version
  before : Option Version
  carries : Version → Prop
  current_found : found.current = linkTo from_

namespace Origin

variable (O : Origin)

/-- Whether a transaction to `k` leaves the release `v` as it is. -/
def Kept (k v : Version) : Prop :=
  v ≠ k ∨ some v = O.from_ ∨ (O.found.previous = some (.release v) ∧ ¬ O.carries v)

/-- A record of the transaction. -/
structure Owns (r : Record) : Prop where
  from_ : r.from_ = O.from_
  before : r.previousBefore = O.before
  staged : ∀ p, r.staged = some p → ∃ transaction, p = .staging transaction
  snapshot : ∀ p, r.snapshot = some p → ∃ name, p = .snapshots name

/-- Both links are as they were. -/
def Untouched (V : View) : Prop := V.current = O.found.current ∧ V.previous = O.found.previous

/-- The journal has the record `r` of the transaction, and the releases that are kept are there. -/
structure Records (r : Record) (V : View) : Prop where
  journal : V.journal = some (.record r)
  owns : O.Owns r
  kept : ∀ v, O.Kept r.to_ v → V.release v = O.found.release v

/-- The record `r` is in the journal and its release is in place, where each link names what it did,
what it is to name, or what it is put back to. -/
structure Holds (r : Record) (V : View) : Prop extends O.Records r V where
  fallback : ∀ v, O.before = some v → (O.found.release v).isSome → (V.release v).isSome
  current : V.current = linkTo O.from_ ∨
    V.current = some (.release r.to_) ∧ (V.release r.to_).isSome
  previous : V.previous = O.found.previous ∨ V.previous = linkTo O.from_ ∨
    V.previous = V.fallbackLink O.before

end Origin

/-- The stages of a transaction from `O`, and whether it committed. -/
inductive Stage (O : Origin) : Bool → View → Prop where
  /-- Nothing is recorded. -/
  | begun {V : View} (untouched : O.Untouched V) (journal : V.journal = O.found.journal)
      (release : V.release = O.found.release) : Stage O false V
  /-- The bundle is unpacked and moved into place. -/
  | preparing {V : View} (r : Record) (records : O.Records r V) (phase : r.phase = .prepare)
      (untouched : O.Untouched V) : Stage O false V
  /-- The candidate was refused before it was selected. -/
  | refused {V : View} (r : Record) (records : O.Records r V) (phase : r.phase = .failed)
      (untouched : O.Untouched V) : Stage O false V
  /-- The links are on their way, to the candidate or back. -/
  | rolling {V : View} (r : Record) (holds : O.Holds r V)
      (phase : r.phase = .activate ∨ r.phase = .verify) : Stage O false V
  /-- The links are back. -/
  | reverted {V : View} (r : Record) (holds : O.Holds r V)
      (phase : r.phase = .failed ∨ r.phase = .rolledBack) (current : V.current = linkTo O.from_)
      (previous : V.previous = V.fallbackLink O.before) : Stage O false V
  /-- The rollback stopped before the links were back, or had nothing to go back to. -/
  | stopped {V : View} (r : Record) (holds : O.Holds r V) (phase : r.phase = .failed)
      (links : V.current = some (.release r.to_) ∧ O.from_ ≠ some r.to_ ∨ O.from_ = none ∨
        O.Untouched V) : Stage O false V
  /-- The candidate is the selected release, and what it replaced is the fallback. -/
  | committed {V : View} (r : Record) (journal : V.journal = some (.record r))
      (phase : r.phase = .commit) (carried : O.carries r.to_)
      (current : V.current = some (.release r.to_))
      (there : (V.release r.to_).isSome) (previous : V.previous = linkTo O.from_)
      (kept : ∀ v, O.from_ = some v → V.release v = O.found.release v) : Stage O true V

namespace Origin

variable {O : Origin} {V : View} {r : Record}

/-- A point of a transaction: the story says whether it committed, and has been orderly. -/
def Point (O : Origin) (V : View) : Prop :=
  Stage O V.story.committed V ∧ V.story.orderly = true

theorem point_of_stage (h : Stage O false V) (hc : V.story.committed = false)
    (ho : V.story.orderly = true) : O.Point V := ⟨hc ▸ h, ho⟩

theorem Records.advance (h : O.Records r V) (phase : Phase) (attempts : Nat)
    (reached : Option String) : O.Records { r with phase, attempts, reached }
      (V.record { r with phase, attempts, reached }) :=
  ⟨rfl, ⟨h.owns.from_, h.owns.before, h.owns.staged, h.owns.snapshot⟩, h.kept⟩

theorem Holds.advance (h : O.Holds r V) (phase : Phase) (attempts : Nat)
    (reached : Option String) : O.Holds { r with phase, attempts, reached }
      (V.record { r with phase, attempts, reached }) :=
  ⟨h.toRecords.advance phase attempts reached, h.fallback, h.current, h.previous⟩

theorem Holds.heard (h : O.Holds r V) (answers : List Answer) (down : Bool) :
    O.Holds r (V.heard answers down) :=
  ⟨⟨h.journal, h.owns, h.kept⟩, h.fallback, h.current, h.previous⟩

theorem Holds.brought (h : O.Holds r V) (ok : Bool) : O.Holds r (V.brought ok) :=
  ⟨⟨h.journal, h.owns, h.kept⟩, h.fallback, h.current, h.previous⟩

theorem Holds.setCurrent (h : O.Holds r V) {target : Option Link}
    (ht : target = linkTo O.from_ ∨ target = some (.release r.to_) ∧ (V.release r.to_).isSome) :
    O.Holds r (V.setLink .current target) :=
  ⟨⟨h.journal, h.owns, h.kept⟩, h.fallback, ht, h.previous⟩

theorem Holds.setPrevious (h : O.Holds r V) {target : Option Link}
    (ht : target = O.found.previous ∨ target = linkTo O.from_ ∨
      target = V.fallbackLink O.before) : O.Holds r (V.setLink .previous target) :=
  ⟨⟨h.journal, h.owns, h.kept⟩, h.fallback, h.current, ht⟩

/-- What a record of the transaction puts the links back to. -/
theorem Holds.reverted (h : O.Holds r V) : O.Holds r (V.reverted r) := by
  rw [View.reverted, h.owns.from_, h.owns.before]
  exact (h.setCurrent (.inl rfl)).setPrevious (.inr (.inr rfl))

end Origin

/-- A stage is about the journal, the links and the releases alone. -/
theorem Stage.of_same {O : Origin} {committed : Bool} {V : View} (h : Stage O committed V)
    (running : Bool) (story : Story) : Stage O committed { V with running, story } := by
  cases h with
  | begun untouched journal release => exact .begun untouched journal release
  | preparing r h phase untouched =>
    exact .preparing r ⟨h.journal, h.owns, h.kept⟩ phase untouched
  | refused r h phase untouched => exact .refused r ⟨h.journal, h.owns, h.kept⟩ phase untouched
  | rolling r h phase =>
    exact .rolling r ⟨⟨h.journal, h.owns, h.kept⟩, h.fallback, h.current, h.previous⟩ phase
  | reverted r h phase current previous =>
    exact .reverted r ⟨⟨h.journal, h.owns, h.kept⟩, h.fallback, h.current, h.previous⟩ phase current
      previous
  | stopped r h phase links =>
    exact .stopped r ⟨⟨h.journal, h.owns, h.kept⟩, h.fallback, h.current, h.previous⟩ phase links
  | committed r journal phase carried current there previous kept =>
    exact .committed r journal phase carried current there previous kept

/-! ## Parts that leave the view alone -/

section Rules

variable {s : Session} {A : View → Prop} {V : View}

theorem sparing_staging (K : Version → Prop) (transaction : Nat) : Sparing K (.staging transaction) :=
  fun _ h => by cases h

/-- A removal of a staging directory. -/
theorem runs_removeStaging {ε : Type} (transaction : Nat) (hA : A V) :
    Runs s A ((removeTree (.staging transaction)).ignore : Prog UpdaterSig ε Unit) V
      fun res V' => res = .ok () ∧ V' = V :=
  Runs.ignore ((runs_apart (only_removeTree (sparing_staging _ transaction)) hA).mono (fun _ h => h)
    fun _ _ _ h => ⟨rfl, h⟩)

/-- A removal of a release, which may stop anywhere. -/
theorem runs_removeRelease {ε : Type} (k : Version)
    (hA : ∀ R, (∀ v, v ≠ k → R v = V.release v) → A (V.withReleases R)) :
    Runs s A ((removeTree (releaseDir k)).ignore : Prog UpdaterSig ε Unit) V fun res V' =>
      res = .ok () ∧ ∃ R, (∀ v, v ≠ k → R v = V.release v) ∧ V' = V.withReleases R :=
  Runs.ignore ((runs_sparing (· ≠ k) (only_removeTree fun v h hv => hv (by cases h; rfl)) hA).mono
    (fun _ h => h) fun _ _ _ h => ⟨rfl, h⟩)

/-- A restore leaves the view as it is, and cannot fail while no session runs. -/
theorem runs_restoreSnapshot (r : Record) (hr : ∀ p, r.snapshot = some p → ∃ name, p = .snapshots name)
    (hA : A V) :
    Runs s A (restoreSnapshot r) V fun res V' =>
      ((∃ b, res = .ok b) ∨ V.running = true ∧ ∃ e, res = .error e) ∧ V' = V := by
  intro x hx
  have happart : (restoreSnapshot r : SessionProg Bool).Only (Within (Sparing fun _ => True) fun _ => False) :=
    only_restoreSnapshot (fun v h => (by cases h)) (fun v h => (by cases h)) r
  have hview : Runs s A (restoreSnapshot r) V fun _ V' => V' = V := runs_apart happart hA
  cases hrun : V.running with
  | true =>
    refine (hview x hx).mono (fun _ h => h) fun res x' _ h => ⟨?_, h⟩
    cases res with
    | ok b => exact .inl ⟨b, rfl⟩
    | error e => exact .inr ⟨rfl, e, rfl⟩
  | false =>
    have hdown : x.1.running = false := by rw [← hrun, ← hx]; rfl
    have hidle : (restoreSnapshot r : SessionProg Bool).Safe (handle (idle s)) (fun _ => True)
        (fun res _ => ∃ b, res = .ok b) x.1 := by
      cases hsnap : r.snapshot with
      | none =>
        exact (restoreSnapshot_none (.inl hsnap)).mono (fun _ h => h) fun _ _ _ h => ⟨_, h.1⟩
      | some p =>
        obtain ⟨name, rfl⟩ := hr p hsnap
        cases hdir : x.1.disk.dir (.snapshots name) with
        | none =>
          exact (restoreSnapshot_none (.inr ⟨_, hsnap, hdir⟩)).mono (fun _ h => h)
            fun _ _ _ h => ⟨_, h.1⟩
        | some t =>
          exact (restoreSnapshot_idle hsnap (by simp) hdir).mono (fun _ h => h)
            fun _ _ _ h => ⟨_, h.1⟩
    have hok := (safe_of_idle (happart.mono fun _ => Within.fsOnly) hdown hidle).logged (f := emit) x.2
    exact ((hview x hx).and hok).mono (fun _ h => h.1) fun _ _ _ h => ⟨.inl h.2, h.1⟩

/-! ## Reconcile -/

/-- No transaction is in flight. -/
def Idle : Option JournalFile → Prop
  | none => True
  | some (.record r) => r.phase.isTerminal = true
  | some (.corrupt _) => False

/-- The last transaction has ended. -/
def Closed : Option JournalFile → Prop
  | some (.record r) => r.phase.isTerminal = true
  | _ => False

theorem Closed.idle {file : Option JournalFile} (h : Closed file) : Idle file := by
  rcases file with - | (r | reason)
  · trivial
  · exact h
  · exact h

/-- With no transaction in flight there is nothing to do. -/
theorem runs_reconcile_idle (hV : Idle V.journal) (hA : A V) :
    Runs s A reconcile V fun res V' => res = .ok .nothing ∧ V' = V := by
  refine (runs_read hA).bind (fun file V' hq => ?_) fun e V' hq => ?_
  · obtain ⟨hfile, rfl⟩ := hq
    rcases hj : V'.journal with - | (r | reason)
    · rw [hj] at hfile
      cases hfile
      exact Runs.done hA ⟨rfl, rfl⟩
    · rw [hj] at hfile hV
      cases hfile
      have hterminal : r.phase.isTerminal = true := hV
      cases hphase : r.phase <;> rw [hphase] at hterminal <;> try cases hterminal
      all_goals
        simp only [hphase]
        exact Runs.done hA ⟨rfl, rfl⟩
    · rw [hj] at hV
      exact hV.elim
  · obtain ⟨he, rfl⟩ := hq
    rcases hj : V'.journal with - | (r | reason)
    · rw [hj] at he
      cases he
    · rw [hj] at he
      cases he
    · rw [hj] at hV
      exact hV.elim

variable {O : Origin} {r : Record}

/-- The releases that discarding the candidate of `r` leaves alone. -/
def View.Spares (V : View) (r : Record) (v : Version) : Prop :=
  v ≠ r.to_ ∨ ∃ slot, V.link slot = some (.release v)

/-- Discarding a candidate removes its release, unless a link names it, and closes the record. -/
theorem runs_discard (hlinks : ∀ slot, ∃ v, V.link slot = linkTo v)
    (hstaged : ∀ p, r.staged = some p → ∃ transaction, p = .staging transaction)
    (hA : ∀ R, (∀ v, V.Spares r v → R v = V.release v) → A (V.withReleases R))
    (hA' : ∀ R, (∀ v, V.Spares r v → R v = V.release v) →
      A ((V.withReleases R).record { r with staged := none, phase := .failed })) :
    Runs s A (discard r) V fun res V' => res = .ok (.discardedStaging r.to_) ∧
      ∃ R, (∀ v, V.Spares r v → R v = V.release v) ∧
        V' = (V.withReleases R).record { r with staged := none, phase := .failed } := by
  have hA₀ : A V := hA V.release fun _ _ => rfl
  have hread : ∀ (slot : Slot) (v : Option Version), V.link slot = linkTo v →
      linkRead slot (V.link slot) = .ok v := fun slot v hv => by rw [hv]; cases v <;> rfl
  obtain ⟨c, hc⟩ := hlinks .current
  obtain ⟨p, hp⟩ := hlinks .previous
  -- the record is closed once the release is gone, or spared
  have htail : ∀ R, (∀ v, V.Spares r v → R v = V.release v) → Runs s A
      ((Journal.advance { r with staged := none } .failed).bind fun _ =>
        Prog.done (Reconciled.discardedStaging r.to_)) (V.withReleases R) fun res V' =>
      res = .ok (.discardedStaging r.to_) ∧ ∃ R, (∀ v, V.Spares r v → R v = V.release v) ∧
        V' = (V.withReleases R).record { r with staged := none, phase := .failed } := by
    intro R hR
    refine (runs_advance _ _ (hA R hR) (hA' R hR)).bind (fun _ V'' hq => ?_)
      fun e V'' hq => by cases hq.1
    obtain ⟨-, rfl⟩ := hq
    exact Runs.done (hA' R hR) ⟨rfl, R, hR, rfl⟩
  refine Runs.bind_eq (a := ()) (?_ : Runs _ _ _ V fun r V' => r = .ok () ∧ V' = V) ?_
  · cases hs : r.staged with
    | none => exact Runs.done hA₀ ⟨rfl, rfl⟩
    | some staged =>
      obtain ⟨transaction, rfl⟩ := hstaged staged hs
      exact runs_removeStaging transaction hA₀
  refine (runs_readSelection .current hA₀).bind (fun selected V' hq => ?_) fun e V' hq => ?_
  swap
  · rw [hread _ _ hc] at hq
    exact by cases hq.1
  obtain ⟨hs, rfl⟩ := hq
  refine (runs_readSelection .previous hA₀).bind (fun fallback V'' hq => ?_) fun e V'' hq => ?_
  swap
  · rw [hread _ _ hp] at hq
    exact by cases hq.1
  obtain ⟨hf, rfl⟩ := hq
  rw [hread _ _ hc] at hs
  rw [hread _ _ hp] at hf
  cases hs
  cases hf
  dsimp only
  split
  · next hfree =>
    have hspared : ∀ v, V''.Spares r v → v ≠ r.to_ := by
      rintro v (hv | ⟨slot, hv⟩)
      · exact hv
      · rintro rfl
        cases slot
        · exact hfree.1 (linkTo_eq.mp (hc.symm.trans hv))
        · exact hfree.2 (linkTo_eq.mp (hp.symm.trans hv))
    refine (runs_removeRelease r.to_ fun R hR => hA R fun v hv => hR v (hspared v hv)).bind
      (fun _ V' hq => ?_) fun e V' hq => by cases hq.1
    obtain ⟨-, R, hR, rfl⟩ := hq
    exact htail R fun v hv => hR v (hspared v hv)
  · exact htail V''.release fun _ _ => rfl

/-- A release that is kept is one that discarding the candidate leaves alone. -/
theorem Origin.Kept.spared (hlinks : O.Untouched V) {v : Version} (h : O.Kept r.to_ v) :
    V.Spares r v := by
  rcases h with h | h | ⟨h, -⟩
  · exact .inl h
  · exact .inr ⟨.current, by rw [View.link, hlinks.1, O.current_found, ← h]; rfl⟩
  · exact .inr ⟨.previous, hlinks.2.trans h⟩

theorem Origin.Records.withReleases (hV : O.Records r V) {R : Version → Option Tree}
    (hR : ∀ v, O.Kept r.to_ v → R v = V.release v) : O.Records r (V.withReleases R) :=
  ⟨hV.journal, hV.owns, fun v hv => (hR v hv).trans (hV.kept v hv)⟩

/-- A reconcile in the prepare phase discards the candidate, unless a link names it. -/
theorem runs_reconcile_preparing (hprev : ∃ p, O.found.previous = linkTo p) (hV : O.Records r V)
    (hphase : r.phase = .prepare) (hlinks : O.Untouched V) :
    Runs s (Stage O false) reconcile V fun res V' =>
      res = .ok (.discardedStaging r.to_) ∧ O.Untouched V' ∧
        ∃ r', O.Records r' V' ∧ r'.phase = .failed := by
  have hread : ∀ slot, ∃ v, V.link slot = linkTo v := by
    intro slot
    cases slot
    · exact ⟨O.from_, hlinks.1.trans O.current_found⟩
    · exact hprev.imp fun p hp => hlinks.2.trans hp
  have hclosed : ∀ R, (∀ v, V.Spares r v → R v = V.release v) →
      O.Records { r with staged := none, phase := .failed }
        ((V.withReleases R).record { r with staged := none, phase := .failed }) := fun R hR =>
    ⟨rfl, ⟨hV.owns.from_, hV.owns.before, (fun _ h => (by cases h)), hV.owns.snapshot⟩,
      fun v hv => (hR v (hv.spared hlinks)).trans (hV.kept v hv)⟩
  refine (runs_read (.preparing r hV hphase hlinks)).bind (fun file V' hq => ?_) fun e V' hq => ?_
  · obtain ⟨hfile, rfl⟩ := hq
    rw [hV.journal] at hfile
    cases hfile
    simp only [hphase]
    refine (runs_discard hread hV.owns.staged (fun R hR => .preparing r
      (hV.withReleases fun v hv => hR v (hv.spared hlinks)) hphase hlinks)
      fun R hR => .refused _ (hclosed R hR) rfl hlinks).mono (fun _ h => h) ?_
    rintro res V'' - ⟨hres, R, hR, rfl⟩
    exact ⟨hres, hlinks, _, hclosed R hR, rfl⟩
  · rw [hV.journal] at hq
    exact by cases hq.1

/-- The release that was selected is there to go back to. -/
def Origin.Sound (O : Origin) : Prop := ∀ v, O.from_ = some v → (O.found.release v).isSome

theorem Origin.Holds.from_isSome (hO : O.Sound) (h : O.Holds r V) {v : Version}
    (hv : O.from_ = some v) : (V.release v).isSome := by
  rw [h.kept v (.inr (.inl hv.symm))]
  exact hO v hv

/-- Both links are back. -/
def Origin.Home (O : Origin) (V : View) : Prop :=
  V.current = linkTo O.from_ ∧ V.previous = V.fallbackLink O.before

/-- A reconcile of a transaction whose links are on their way puts them back. -/
theorem runs_reconcile_rolling (hO : O.Sound) (hV : O.Holds r V)
    (hphase : r.phase = .activate ∨ r.phase = .verify) :
    Runs s (Stage O false) reconcile V fun _ V' => O.Home V' ∧ ∃ r', O.Holds r' V' ∧
      (r'.phase = .rolledBack ∨ V.running = true ∧ (r'.phase = .activate ∨ r'.phase = .verify)) := by
  have hA : Stage O false V := .rolling r hV hphase
  -- what both phases do
  suffices H : Runs s (Stage O false) ((revertLinks r).bind fun _ => (restoreSnapshot r).bind
      fun stateRestored => (Journal.advance r .rolledBack).bind fun _ =>
        Prog.done (.reverted r.to_ r.from_ stateRestored)) V
      fun (_ : Except UpdateError Reconciled) V' => O.Home V' ∧ ∃ r', O.Holds r' V' ∧
        (r'.phase = .rolledBack ∨
          V.running = true ∧ (r'.phase = .activate ∨ r'.phase = .verify)) by
    refine (runs_read hA).bind (fun file V' hq => ?_) fun e V' hq => ?_
    · obtain ⟨hfile, rfl⟩ := hq
      rw [hV.journal] at hfile
      cases hfile
      rcases hphase with hphase | hphase <;> simp only [hphase] <;> exact H
    · rw [hV.journal] at hq
      exact by cases hq.1
  have hback : O.Holds r (V.reverted r) := hV.reverted
  have hhome : O.Home (V.reverted r) := by
    rw [View.reverted, hV.owns.from_, hV.owns.before]
    exact ⟨rfl, rfl⟩
  refine (runs_revertLinks r hA
    (fun _ => .rolling r (hV.setCurrent (.inl (by rw [hV.owns.from_]))) hphase)
    fun _ => .rolling r hback hphase).bind (fun _ V' hq => ?_) fun e V' hq => ?_
  swap
  · rcases hq with ⟨h, -⟩ | ⟨⟨v, hv, hnone, -⟩, -⟩
    · cases h
    · rw [hV.from_isSome hO (hV.owns.from_ ▸ hv)] at hnone
      cases hnone
  rcases hq with ⟨-, -, rfl⟩ | ⟨⟨_, _, _, h⟩, -⟩
  swap
  · cases h
  have hA' : Stage O false (V.reverted r) := .rolling r hback hphase
  refine (runs_restoreSnapshot r hV.owns.snapshot hA').bind (fun b V' hq => ?_) fun e V' hq => ?_
  · obtain ⟨-, rfl⟩ := hq
    have hdone : O.Holds { r with phase := .rolledBack } _ := hback.advance .rolledBack _ _
    have hA'' : Stage O false ((V.reverted r).record { r with phase := .rolledBack }) :=
      .reverted _ hdone (.inr rfl) hhome.1 hhome.2
    refine (runs_advance r .rolledBack hA' hA'').bind (fun _ V' hq => ?_)
      fun e V' hq => by cases hq.1
    obtain ⟨-, rfl⟩ := hq
    exact Runs.done hA'' ⟨hhome, _, hdone, .inl rfl⟩
  · rcases hq with ⟨⟨b, h⟩ | ⟨hrun, -⟩, rfl⟩
    · cases h
    · exact ⟨hhome, r, hback, .inr ⟨hrun, hphase⟩⟩

/-- A reconcile that starts at a stage of a transaction stays at its stages. Unless nothing was in
flight it ends with the links back, and with the journal closed unless a session was running. -/
theorem runs_reconcile {committed : Bool} (hO : O.Sound) (hprev : ∃ p, O.found.previous = linkTo p)
    (hidle : Idle O.found.journal) (h : Stage O committed V) :
    Runs s (Stage O committed) reconcile V fun _ V' => Stage O committed V' ∧
      (Idle V.journal ∧ V' = V ∨
        ((O.Home V' ∧ ∃ r, O.Holds r V') ∨ O.Untouched V') ∧ committed = false ∧
          (Idle V'.journal ∨ V.running = true)) := by
  have hnothing : Idle V.journal → Runs s (Stage O committed) reconcile V fun _ V' =>
      Stage O committed V' ∧ (Idle V.journal ∧ V' = V ∨
        ((O.Home V' ∧ ∃ r, O.Holds r V') ∨ O.Untouched V') ∧ committed = false ∧
          (Idle V'.journal ∨ V.running = true)) := fun hV =>
    (runs_reconcile_idle hV h).mono (fun _ h => h) fun _ _ hs hq => ⟨hs, .inl ⟨hV, hq.2⟩⟩
  have hterminal : ∀ {V : View} {r : Record}, V.journal = some (.record r) →
      r.phase.isTerminal = true → Idle V.journal := fun hj hr => by rw [hj]; exact hr
  cases h with
  | begun untouched journal release => exact hnothing (journal ▸ hidle)
  | preparing r records phase untouched =>
    refine (runs_reconcile_preparing hprev records phase untouched).mono (fun _ h => h) ?_
    rintro _ V' hs ⟨-, hlinks, r', hr', hphase⟩
    exact ⟨hs, .inr ⟨.inr hlinks, rfl, .inl (hterminal hr'.journal (by rw [hphase]; rfl))⟩⟩
  | refused r records phase untouched =>
    exact hnothing (hterminal records.journal (by rw [phase]; rfl))
  | rolling r holds phase =>
    refine (runs_reconcile_rolling hO holds phase).mono (fun _ h => h) ?_
    rintro _ V' hs ⟨hhome, r', hr', hphase | ⟨hrun, -⟩⟩
    · exact ⟨hs, .inr ⟨.inl ⟨hhome, r', hr'⟩, rfl,
        .inl (hterminal hr'.journal (by rw [hphase]; rfl))⟩⟩
    · exact ⟨hs, .inr ⟨.inl ⟨hhome, r', hr'⟩, rfl, .inr hrun⟩⟩
  | reverted r holds phase current previous =>
    exact hnothing (hterminal holds.journal (by rcases phase with h | h <;> rw [h] <;> rfl))
  | stopped r holds phase links =>
    exact hnothing (hterminal holds.journal (by rw [phase]; rfl))
  | committed r journal phase carried current there previous kept =>
    exact hnothing (hterminal journal (by rw [phase]; rfl))

end Rules

end Paperclip.Updater
