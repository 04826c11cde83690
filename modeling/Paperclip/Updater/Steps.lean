import Paperclip.Updater.Footprints
import Paperclip.Updater.View

/-!
# What the transaction's parts make of a view

One rule for each function of the layout, the journal and the session, so that a proof about a
transaction never unfolds them. `A` is what every point must look like.
-/

namespace Paperclip.Updater

open Crash Files Packages Prog

section Rules

variable {s : Session} {A : View → Prop} {V : View} {ε : Type}

/-! ## Filesystem -/

theorem runs_fs {o : FsOp Place Doc Doc.Content} {Q : Except IoError o.Ok → View → Prop}
    (h : ∀ x, view x = V → A V ∧ A (view (logged s (.inl o) x).2) ∧
      Q (o.exec s.order (settle s x.1)).1 (view (logged s (.inl o) x).2)) :
    Runs s A (fs o) V Q := by
  rintro x rfl
  exact (safe_fs o).mpr (h x rfl)

/-- What an operation that is calm answers. -/
theorem runs_fs_calm {o : FsOp Place Doc Doc.Content} (ho : Calm (.inl o)) (hA : A V)
    {Q : Except IoError o.Ok → Prop}
    (hQ : ∀ x, view x = V → Q (o.exec s.order (settle s x.1)).1) :
    Runs s A (fs o) V fun r V' => Q r ∧ V' = V := by
  refine runs_fs fun x hx => ?_
  rw [view_calm ho, hx]
  exact ⟨hA, hA, hQ x hx, rfl⟩

theorem view_put_journal (x : Logged) (r : Record) :
    view (logged s (.inl (.put .journal (.record r))) x).2 = (view x).record r := by
  rw [view_fs]
  simp only [FsOp.exec, Disk.setDoc_doc_self, ne_eq, reduceCtorEq, not_false_eq_true,
    Disk.setDoc_doc_ne, Disk.setDoc_dir, settle_doc, release_settle]
  rfl

theorem view_put_link (x : Logged) (slot : Slot) (target : Link) :
    view (logged s (.inl (.put (.link slot) target)) x).2 =
      (view x).setLink slot (some target) := by
  rw [view_fs]
  cases slot <;>
  · simp only [FsOp.exec, Disk.setDoc_doc_self, ne_eq, reduceCtorEq, not_false_eq_true,
      Doc.link.injEq, Disk.setDoc_doc_ne, Disk.setDoc_dir, settle_doc, release_settle]
    rfl

theorem view_delete_link (x : Logged) (slot : Slot) :
    view (logged s (.inl (.delete (.link slot))) x).2 = (view x).setLink slot none := by
  rw [view_fs]
  cases slot <;>
  · simp only [FsOp.exec, Disk.dropDoc_doc_self, ne_eq, reduceCtorEq, not_false_eq_true,
      Doc.link.injEq, Disk.dropDoc_doc_ne, Disk.dropDoc_dir, settle_doc, release_settle]
    rfl

/-! ## Journal -/

theorem runs_record (r : Record) (h : A V) (h' : A (V.record r)) :
    Runs s A (Journal.record r) V fun res V' => res = .ok () ∧ V' = V.record r := by
  refine Runs.mapError (runs_fs fun x hx => ?_)
  rw [view_put_journal, hx]
  exact ⟨h, h', rfl, rfl⟩

theorem runs_advance (r : Record) (phase : Phase) (h : A V) (h' : A (V.record { r with phase })) :
    Runs s A (Journal.advance r phase) V fun res V' =>
      res = .ok { r with phase } ∧ V' = V.record { r with phase } := by
  refine (runs_record _ h h').bind (fun _ V' hq => ?_) fun e V' hq => by cases hq.1
  obtain ⟨-, rfl⟩ := hq
  exact Runs.done h' ⟨rfl, rfl⟩

/-- What a reader makes of the journal. -/
def journalRead : Option JournalFile → Except UpdateError (Option Record)
  | none => .ok none
  | some (.record r) => .ok (some r)
  | some (.corrupt reason) => .error (.corruptJournal reason)

theorem runs_read (h : A V) :
    Runs s A Journal.read V fun res V' => res = journalRead V.journal ∧ V' = V := by
  have hget : Runs s A (fs (.get .journal)) V fun r V' => r = .ok V.journal ∧ V' = V := by
    refine runs_fs_calm ⟨by simp [FsOp.places], rfl⟩ h fun x hx => ?_
    subst hx
    exact congrArg Except.ok (settle_doc _)
  refine (Runs.mapError (hget.mono (fun _ h => h) fun r V' _ hq => ?_)).bind
    (Q := fun r V' => r = .ok V.journal ∧ V' = V) (fun file V' hq => ?_) fun e V' hq => by cases hq.1
  · exact ⟨by rw [hq.1]; rfl, hq.2⟩
  · obtain ⟨hfile, rfl⟩ := hq
    cases hfile
    rcases V'.journal with - | (r | reason)
    · exact Runs.done h ⟨rfl, rfl⟩
    · exact Runs.done h ⟨rfl, rfl⟩
    · exact Runs.fail h ⟨rfl, rfl⟩

/-! ## Layout -/

/-- What a reader makes of a selection link. -/
def linkRead (slot : Slot) : Option Link → Except UpdateError (Option Version)
  | none => .ok none
  | some (.release version) => .ok (some version)
  | some (.other target) => .error (.corruptSelection slot target)

theorem runs_readSelection (slot : Slot) (h : A V) :
    Runs s A (readSelection slot) V fun res V' =>
      res = linkRead slot (V.link slot) ∧ V' = V := by
  have hget : Runs s A (fs (.get (.link slot))) V fun r V' => r = .ok (V.link slot) ∧ V' = V := by
    refine runs_fs_calm ⟨by simp [FsOp.places], rfl⟩ h fun x hx => ?_
    subst hx
    cases slot <;> exact congrArg Except.ok (settle_doc _)
  refine (Runs.mapError (hget.mono (fun _ h => h) fun r V' _ hq => ?_)).bind
    (Q := fun r V' => r = .ok (V.link slot) ∧ V' = V) (fun target V' hq => ?_)
    fun e V' hq => by cases hq.1
  · exact ⟨by rw [hq.1]; rfl, hq.2⟩
  · obtain ⟨htarget, rfl⟩ := hq
    cases htarget
    rcases V'.link slot with - | (version | target)
    · exact Runs.done h ⟨rfl, rfl⟩
    · exact Runs.done h ⟨rfl, rfl⟩
    · exact Runs.fail h ⟨rfl, rfl⟩

theorem runs_isDirectory (p : Place) (h : A V) :
    Runs s A (isDirectory p) V fun res V' =>
      (∃ b, res = .ok b ∧ ∀ v, p = releaseDir v → b = (V.release v).isSome) ∧ V' = V := by
  have hdir : Runs s A (fs (.isDir p [])) V fun r V' =>
      (∃ b, r = .ok b ∧ ∀ v, p = releaseDir v → b = (V.release v).isSome) ∧ V' = V := by
    refine runs_fs_calm ⟨by simp [FsOp.places], rfl⟩ h fun x hx => ⟨_, rfl, ?_⟩
    rintro v rfl
    subst hx
    rw [release_settle]
    show ((x.1.release v).any fun t => decide (t.isDir [])) = (x.1.release v).isSome
    cases x.1.release v with
    | none => rfl
    | some t => simp [Tree.isDir]
  refine Runs.bind (Q := fun r V' => ∃ b, r = .ok (.ok b) ∧
    (∀ v, p = releaseDir v → b = (V.release v).isSome) ∧ V' = V)
    (Runs.attempt (hdir.mono (fun _ h => h) ?_)) (fun r V' hq => ?_) fun e V' hq => ?_
  · rintro r V' - ⟨⟨b, rfl, hb⟩, rfl⟩
    exact ⟨b, rfl, hb, rfl⟩
  · obtain ⟨b, hr, hb, rfl⟩ := hq
    cases hr
    exact Runs.done h ⟨⟨b, rfl, hb⟩, rfl⟩
  · obtain ⟨b, hr, -⟩ := hq
    cases hr

theorem runs_select (slot : Slot) (v : Version) (h : A V)
    (h' : (V.release v).isSome → A (V.setLink slot (some (.release v)))) :
    Runs s A (select slot v) V fun res V' =>
      (res = .ok () ∧ (V.release v).isSome ∧ V' = V.setLink slot (some (.release v))) ∨
      (res = .error (.noSuchRelease v) ∧ (V.release v).isSome = false ∧ V' = V) := by
  refine (runs_isDirectory _ h).bind (fun b V' hq => ?_) fun e V' hq => ?_
  · obtain ⟨⟨b', hb, hrel⟩, rfl⟩ := hq
    cases hb
    have hrel := hrel v rfl
    split
    · next hb =>
      rw [hb] at hrel
      refine Runs.mapError (runs_fs fun x hx => ?_)
      rw [view_put_link, hx]
      exact ⟨h, h' hrel.symm, .inl ⟨rfl, hrel.symm, rfl⟩⟩
    · next hb =>
      exact Runs.fail h (.inr ⟨rfl, by rw [← hrel]; simpa using hb, rfl⟩)
  · obtain ⟨⟨b, hb, -⟩, -⟩ := hq
    cases hb

theorem runs_deselect (slot : Slot) (h : A V) (h' : A (V.setLink slot none)) :
    Runs s A (deselect slot) V fun res V' => res = .ok () ∧ V' = V.setLink slot none := by
  refine Runs.mapError (runs_fs fun x hx => ?_)
  rw [view_delete_link, hx]
  exact ⟨h, h', rfl, rfl⟩

/-! ## Session -/

theorem runs_session {o : SessionOp} {Q : Except ε o.Ret → View → Prop}
    (h : ∀ x, view x = V → A V ∧ A (view (logged s (.inr o) x).2) ∧
      Q (.ok (o.exec s x.1).1) (view (logged s (.inr o) x).2)) :
    Runs s A (Prog.step (.inr o) .done) V Q := by
  rintro x rfl
  exact h x rfl

theorem view_standDown (x : Logged) : view (logged s (.inr .standDown) x).2 =
    (view x).tell (.stoodDown (SessionOp.standDown.exec s x.1).1.isOk
      (SessionOp.standDown.exec s x.1).2.state) := by
  rw [view_session]
  simp only [SessionOp.exec]
  cases s.standDown x.1.tick <;>
    simp [View.tell, World.next, view, Except.isOk, Except.toBool, emitSession]

theorem view_bringUp (x : Logged) : view (logged s (.inr .bringUp) x).2 =
    (view x).tell (.broughtUp (SessionOp.bringUp.exec s x.1).1.isOk (view x).current
      (SessionOp.bringUp.exec s x.1).2.state) := view_session _

theorem view_stockIsUp (x : Logged) : view (logged s (.inr .stockIsUp) x).2 =
    (view x).tell (.stock (s.stockIsUp x.1.tick)) := view_session _

theorem view_wakelockHeld (x : Logged) : view (logged s (.inr .wakelockHeld) x).2 =
    (view x).tell (.wakelock (s.wakelockHeld x.1.tick)) := view_session _

theorem runs_standDown_call (h : A V) (h' : ∀ ok t, A (V.tell (.stoodDown ok t))) :
    Runs s A (session .standDown) V fun res V' =>
      ∃ answer, res = .ok answer ∧ ∃ t, V' = V.tell (.stoodDown answer.isOk t) := by
  refine runs_session fun x hx => ?_
  rw [view_standDown, hx]
  exact ⟨h, h' _ _, _, rfl, _, rfl⟩

theorem runs_bringUp_call (h : A V) (h' : ∀ ok t, A (V.tell (.broughtUp ok V.current t))) :
    Runs s A (session .bringUp) V fun res V' =>
      ∃ answer, res = .ok answer ∧ ∃ t, V' = V.tell (.broughtUp answer.isOk V.current t) := by
  refine runs_session fun x hx => ?_
  rw [view_bringUp, hx]
  exact ⟨h, h' _ _, _, rfl, _, rfl⟩

theorem runs_stockIsUp (h : A V) (h' : ∀ up, A (V.tell (.stock up))) :
    Runs s A (session .stockIsUp) V fun res V' =>
      ∃ up, res = .ok up ∧ V' = V.tell (.stock up) := by
  refine runs_session fun x hx => ?_
  rw [view_stockIsUp, hx]
  exact ⟨h, h' _, _, rfl, rfl⟩

theorem runs_wakelockHeld (h : A V) (h' : ∀ held, A (V.tell (.wakelock held))) :
    Runs s A (session .wakelockHeld) V fun res V' =>
      ∃ held, res = .ok held ∧ V' = V.tell (.wakelock held) := by
  refine runs_session fun x hx => ?_
  rw [view_wakelockHeld, hx]
  exact ⟨h, h' _, _, rfl, rfl⟩

end Rules

section Functions

variable {s : Session} {A : View → Prop} {V : View} {ε α : Type}

/-! ## Releases -/

/-- The places that are not the directory of a release of `K`. -/
def Sparing (K : Version → Prop) (p : Place) : Prop := ∀ v, p = releaseDir v → ¬ K v

/-- A program that spares the releases of `K` and writes no document. -/
theorem runs_sparing (K : Version → Prop) {p : Prog UpdaterSig ε α}
    (hp : p.Only (Within (Sparing K) fun _ => False))
    (hA : ∀ R, (∀ v, K v → R v = V.release v) → A (V.withReleases R)) :
    Runs s A p V fun _ V' => ∃ R, (∀ v, K v → R v = V.release v) ∧ V' = V.withReleases R := by
  rintro x rfl
  refine (Safe.of_only (I := fun x' => ∃ R, (∀ v, K v → R v = (view x).release v) ∧
    view x' = (view x).withReleases R) hp ?_ ⟨_, fun _ _ => rfl, rfl⟩).mono ?_ fun _ _ _ h => h
  · rintro (o | o) x' hop ⟨R, hR, hx'⟩
    · refine ⟨_, fun v hv => ?_, by
        rw [view_fs_releases (List.eq_nil_iff_forall_not_mem.mpr hop.2), hx']
        rfl⟩
      rw [FsOp.exec_dir _ _ _ fun hm => hop.1 _ hm v rfl hv, release_settle,
        show x'.1.release v = (view x').release v from rfl, hx']
      exact hR v hv
    · exact hop.elim
  · rintro x' ⟨R, hR, hx'⟩
    rw [hx']
    exact hA R hR

/-- A program that spares every release leaves the view as it is. -/
theorem runs_apart {p : Prog UpdaterSig ε α}
    (hp : p.Only (Within (Sparing fun _ => True) fun _ => False)) (hA : A V) :
    Runs s A p V fun _ V' => V' = V := by
  have heq : ∀ R, (∀ v, True → R v = V.release v) → V.withReleases R = V := fun R hR => by
    rw [show R = V.release from funext fun v => hR v trivial]
    rfl
  refine (runs_sparing _ hp fun R hR => (heq R hR).symm ▸ hA).mono (fun _ h => h) ?_
  rintro r V' - ⟨R, hR, rfl⟩
  exact heq R hR

theorem runs_ensure (hA : A V) :
    Runs s A ensure V fun res V' => res = .ok () ∧ V' = V := by
  refine Runs.mapError (runs_fs fun x hx => ?_)
  have hcalm : Calm (.inl (.createDirAll .platformState)) := ⟨by simp [FsOp.places], rfl⟩
  rw [view_calm hcalm, hx]
  exact ⟨hA, hA, rfl, rfl⟩

/-- A rename into the directory of a release. -/
theorem runs_renameRelease {p : Place} {k : Version} (hp : Sparing (fun _ => True) p) (hA : A V)
    (hA' : ∀ R, (∀ v, v ≠ k → R v = V.release v) → (R k).isSome → A (V.withReleases R)) :
    Runs s A (store (fs (.rename p (releaseDir k)))) V fun res V' =>
      (res = .ok () ∧ ∃ R, (∀ v, v ≠ k → R v = V.release v) ∧ (R k).isSome ∧
        V' = V.withReleases R) ∨ ((∃ e, res = .error e) ∧ V' = V) := by
  refine Runs.mapError (runs_fs fun x hx => ?_)
  have hother : ∀ v, p ≠ releaseDir v := fun v h => hp v h trivial
  rw [view_fs_releases rfl, hx]
  rcases FsOp.exec_rename s.order p (releaseDir k) (settle s x.1) with ⟨t, -, h⟩ | ⟨e, h⟩
  · rw [h]
    have hR : ∀ v, v ≠ k →
        (((settle s x.1).dropDir p).setDir (releaseDir k) t).dir (releaseDir v) = V.release v := by
      intro v hv
      rw [Disk.setDir_dir_ne _ _ (by simpa using hv), Disk.dropDir_dir_ne _ (hother v).symm,
        release_settle, ← hx]
      rfl
    have hk : ((((settle s x.1).dropDir p).setDir (releaseDir k) t).dir (releaseDir k)).isSome := by
      rw [Disk.setDir_dir_self]
      rfl
    exact ⟨hA, hA' _ hR hk, .inl ⟨rfl, _, hR, hk, rfl⟩⟩
  · have hsame : V.withReleases (fun v => (settle s x.1).dir (releaseDir v)) = V := by
      subst hx
      simp only [release_settle]
      rfl
    rw [h, hsame]
    exact ⟨hA, hA, .inr ⟨⟨_, rfl⟩, rfl⟩⟩

/-! ## Links -/

/-- What `previous` is put back to: what it named, if that is still there. -/
def View.fallbackLink (V : View) : Option Version → Option Link
  | some v => if (V.release v).isSome then some (.release v) else none
  | none => none

theorem runs_restoreFallbackLink {r : Record} {before : Option Version}
    (hr : r.previousBefore = before) (hA : A V)
    (hA' : A (V.setLink .previous (V.fallbackLink before))) :
    Runs s A (restoreFallbackLink r) V fun res V' =>
      res = .ok () ∧ V' = V.setLink .previous (V.fallbackLink before) := by
  unfold restoreFallbackLink
  rw [hr]
  cases before with
  | none => exact runs_deselect _ hA hA'
  | some v =>
    refine (runs_isDirectory _ hA).bind (fun b V' hq => ?_) fun e V' hq => ?_
    · obtain ⟨⟨b', hb, hrel⟩, rfl⟩ := hq
      cases hb
      have hrel := hrel v rfl
      simp only [View.fallbackLink, ← hrel] at hA' ⊢
      split
      · next hb =>
        rw [if_pos hb] at hA'
        refine (runs_select _ _ hA fun _ => hA').mono (fun _ h => h) ?_
        rintro r V'' - (⟨hr, -, rfl⟩ | ⟨-, hn, -⟩)
        · exact ⟨hr, rfl⟩
        · rw [← hrel, hb] at hn
          cases hn
      · next hb =>
        rw [if_neg hb] at hA'
        exact runs_deselect _ hA hA'
    · obtain ⟨⟨b, hb, -⟩, -⟩ := hq
      cases hb

/-- What `current` names when a version is selected, or none is. -/
def linkTo : Option Version → Option Link := Option.map .release

/-- A link names a release, nothing, or something that is not a release. -/
theorem linkTo_or_other (target : Option Link) :
    (∃ v, target = linkTo v) ∨ ∃ text, target = some (.other text) := by
  rcases target with - | (v | text)
  · exact .inl ⟨none, rfl⟩
  · exact .inl ⟨some v, rfl⟩
  · exact .inr ⟨text, rfl⟩

@[simp] theorem linkTo_eq {v : Option Version} {k : Version} :
    linkTo v = some (.release k) ↔ v = some k := by
  cases v <;> simp [linkTo]

/-- The links before the transaction that a record is about. -/
def View.reverted (V : View) (r : Record) : View :=
  (V.setLink .current (linkTo r.from_)).setLink .previous (V.fallbackLink r.previousBefore)

theorem runs_revertLinks (r : Record) (hA : A V)
    (hA' : (∀ v, r.from_ = some v → (V.release v).isSome) → A (V.setLink .current (linkTo r.from_)))
    (hA'' : (∀ v, r.from_ = some v → (V.release v).isSome) → A (V.reverted r)) :
    Runs s A (revertLinks r) V fun res V' =>
      (res = .ok () ∧ (∀ v, r.from_ = some v → (V.release v).isSome) ∧ V' = V.reverted r) ∨
      ((∃ v, r.from_ = some v ∧ (V.release v).isSome = false ∧ res = .error (.noSuchRelease v)) ∧
        V' = V) := by
  have hrest : ∀ V', V' = V.setLink .current (linkTo r.from_) →
      (∀ v, r.from_ = some v → (V.release v).isSome) →
      Runs s A (restoreFallbackLink r) V' fun res V' =>
        (res = .ok () ∧ (∀ v, r.from_ = some v → (V.release v).isSome) ∧ V' = V.reverted r) ∨
        ((∃ v, r.from_ = some v ∧ (V.release v).isSome = false ∧ res = .error (.noSuchRelease v)) ∧
          V' = V) := by
    rintro V' rfl hfrom
    refine (runs_restoreFallbackLink rfl (hA' hfrom) (hA'' hfrom)).mono (fun _ h => h) ?_
    rintro res V'' - ⟨hres, rfl⟩
    exact .inl ⟨hres, hfrom, rfl⟩
  unfold revertLinks
  cases hf : r.from_ with
  | none =>
    rw [hf] at hA' hrest
    have hnone : ∀ v, none = some v → (V.release v).isSome = true := fun _ h => by cases h
    exact (runs_deselect .current hA (hA' hnone)).bind (fun _ V' hq => hrest V' hq.2 hnone)
      fun e V' hq => by cases hq.1
  | some v =>
    rw [hf] at hA' hrest
    have hsome : (V.release v).isSome = true → ∀ k, some v = some k → (V.release k).isSome = true :=
      fun hrel k hk => Option.some.inj hk ▸ hrel
    refine (runs_select .current v hA fun hrel => hA' (hsome hrel)).bind (fun _ V' hq => ?_)
      fun e V' hq => ?_
    · rcases hq with ⟨-, hrel, rfl⟩ | ⟨h, -⟩
      · exact hrest _ rfl (hsome hrel)
      · cases h
    · rcases hq with ⟨h, -⟩ | ⟨h, hrel, rfl⟩
      · cases h
      · cases h
        exact .inr ⟨⟨v, rfl, hrel, rfl⟩, rfl⟩

/-! ## Standing down and coming up -/

/-- The view once the session gave some answers. `down`: one of them was that it stood down. -/
def View.heard (V : View) (answers : List Answer) (down : Bool) : View :=
  { V with
    story := { V.story with
      answers := V.story.answers ++ answers
      down := V.story.down || down }
    running := V.running && !down }

theorem heard_nil (V : View) : V.heard [] false = V := by simp [View.heard]

theorem tell_stoodDown (V : View) (ok : Bool) (t : Option Tree) :
    V.tell (.stoodDown ok t) = V.heard [.stoodDown ok] ok := rfl

theorem heard_tell_stock (V : View) (answers : List Answer) (down up : Bool) :
    (V.heard answers down).tell (.stock up) = V.heard (answers ++ [.stock up]) down := by
  simp [View.heard, View.tell, Story.add]

theorem heard_tell_wakelock (V : View) (answers : List Answer) (down held : Bool) :
    (V.heard answers down).tell (.wakelock held) = V.heard (answers ++ [.wakelock held]) down := by
  simp [View.heard, View.tell, Story.add]

/-- The answers of a session that stands down. -/
def wentDown : List (List Answer) :=
  [[.stoodDown true, .stock true, .wakelock false],
    [.stoodDown true, .stock true, .wakelock true, .wakelock false]]

/-- The answers of a session that does not. -/
def stayedUp : List (List Answer) :=
  [[.stoodDown false], [.stoodDown true, .stock false],
    [.stoodDown true, .stock true, .wakelock true, .wakelock true]]

/-- A look at the session leaves the view as it is. -/
theorem runs_look {o : SessionOp} (ho : Calm (.inr o)) (hA : A V) :
    Runs s A (session o) V fun res V' => ∃ a, res = .ok a ∧ V' = V := by
  refine runs_session fun x hx => ?_
  rw [view_calm ho, hx]
  exact ⟨hA, hA, _, rfl, rfl⟩

theorem runs_standDown (hA : ∀ answers down, A (V.heard answers down)) :
    Runs s A standDown V fun res V' =>
      (res = .ok () ∧ ∃ answers ∈ wentDown, V' = V.heard answers true) ∨
      ((∃ e, res = .error e) ∧ ∃ answers ∈ stayedUp, ∃ down, V' = V.heard answers down) := by
  refine (runs_standDown_call (heard_nil V ▸ hA [] false) fun ok t => hA _ _).bind_ok ?_
  rintro (e | -) - ⟨t, rfl⟩
  · exact Runs.fail (hA _ _) (.inr ⟨⟨_, rfl⟩, [.stoodDown false], by simp [stayedUp], false, rfl⟩)
  refine (runs_stockIsUp (hA [.stoodDown true] true) fun up => ?_).bind_ok ?_
  · exact heard_tell_stock V [.stoodDown true] true up ▸ hA _ _
  rintro up - rfl
  rw [heard_tell_stock V [.stoodDown true] true up]
  cases up
  · exact Runs.fail (hA _ _) (.inr ⟨⟨_, rfl⟩, _, by simp [stayedUp], _, rfl⟩)
  refine (runs_wakelockHeld (hA _ _) fun held => ?_).bind_ok ?_
  · exact heard_tell_wakelock V _ true held ▸ hA _ _
  rintro held - rfl
  rw [heard_tell_wakelock]
  cases held
  · exact Runs.done (hA _ _) (.inl ⟨rfl, _, by simp [wentDown], rfl⟩)
  refine (runs_look (.inl (by simp)) (hA _ _)).bind_ok ?_
  rintro _ _ rfl
  refine (runs_wakelockHeld (hA _ _) fun held => ?_).bind_ok ?_
  · exact heard_tell_wakelock V _ true held ▸ hA _ _
  rintro held - rfl
  rw [heard_tell_wakelock]
  cases held
  · exact Runs.done (hA _ _) (.inl ⟨rfl, _, by simp [wentDown], rfl⟩)
  · exact Runs.fail (hA _ _) (.inr ⟨⟨_, rfl⟩, _, by simp [stayedUp], _, rfl⟩)

/-- The view once the session was brought up. -/
def View.brought (V : View) (ok : Bool) : View := V.tell (.broughtUp ok V.current none)

/-- A watch only looks, and always ends with a report. -/
theorem runs_watch (budget : Budget) (hA : A V) :
    Runs s A (watch budget) V fun res V' => ∃ health, res = .ok health ∧ V' = V := by
  have hnow : Runs s A (session .now) V fun res V' => ∃ a, res = .ok a ∧ V' = V :=
    runs_look (.inl (by simp)) hA
  have hlooks : ∀ fuel started best note seenAlive,
      Runs s A (watchLoop budget started fuel best note seenAlive) V fun res V' =>
        ∃ health, res = .ok health ∧ V' = V := by
    intro fuel started
    induction fuel with
    | zero => exact fun _ _ _ => Runs.done hA ⟨_, rfl, rfl⟩
    | succ fuel ih =>
      intro best note seenAlive
      refine (runs_look (.inl (by simp)) hA).bind_ok ?_
      rintro observation _ rfl
      extract_lets seenAlive best note
      split
      · exact hnow.bind_ok (by rintro now _ rfl; exact Runs.done hA ⟨_, rfl, rfl⟩)
      split
      · exact hnow.bind_ok (by rintro now _ rfl; exact Runs.done hA ⟨_, rfl, rfl⟩)
      refine hnow.bind_ok ?_
      rintro now _ rfl
      extract_lets elapsed
      by_cases h : budget.deadline ≤ elapsed
      · rw [if_pos h]
        exact Runs.done hA ⟨_, rfl, rfl⟩
      · rw [if_neg h]
        refine (runs_look (.inr ⟨_, rfl⟩) hA).bind_ok ?_
        rintro _ _ rfl
        exact ih _ _ _
  refine hnow.bind_ok ?_
  rintro started _ rfl
  exact hlooks _ _ _ _ _

theorem runs_bringUpAndGrade (u : Upgrade) (hA : A V) (hA' : ∀ ok, A (V.brought ok)) :
    Runs s A (bringUpAndGrade u) V fun res V' =>
      ((∃ e, res = .error e) ∧ V' = V.brought false) ∨
      ((∃ health, res = .ok health) ∧ V' = V.brought true) := by
  refine (runs_bringUp_call hA fun ok _ => hA' ok).bind_ok ?_
  rintro (reason | -) - ⟨t, rfl⟩
  · exact Runs.fail (hA' false) (.inl ⟨⟨_, rfl⟩, rfl⟩)
  · refine (runs_watch _ (hA' true)).mono (fun _ h => h) ?_
    rintro res V' - ⟨health, rfl, rfl⟩
    exact .inr ⟨⟨health, rfl⟩, rfl⟩

end Functions

end Paperclip.Updater
