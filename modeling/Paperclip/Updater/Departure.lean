import Paperclip.Updater.State
import Paperclip.Updater.Failure

/-!
# What a rollback restores

A run that takes a snapshot takes it before the session stands down. Whatever a rollback or a later
reconcile then restores has the files and the directories that the snapshot saw, so it is what the
outgoing release left exactly if that changed nothing in between.

* `Leaves.taken`: the snapshot is in place at every point after the session stood down, also those of
  a reconcile that was itself interrupted.
* `reconcile_restores`: what a reconcile makes of it.
-/

namespace Paperclip.Updater

open Crash Files Packages Prog

/-! ## Before the session stands down -/

/-- The steps of an upgrade up to the snapshot: the session is only looked at, and the platform state
stays there. -/
def Early (op : UpdaterSig.Op) : Prop := Silent op ∧ Housed op

theorem Silent.mute {op : UpdaterSig.Op} (h : Silent op) : Mute op := by
  rcases op with o | o
  · trivial
  · cases o
    case bringUp => exact h.elim
    all_goals trivial

section Footprints

variable {α ε : Type} {r : Record}

theorem early_of_within {U : Place → Prop} {N : Doc → Prop} {p : Prog UpdaterSig ε α}
    (h : p.Only (Within U N)) (hp : ¬ U .platformState) : p.Only Early := by
  refine h.mono fun op hop => ?_
  cases op with
  | inl o => exact ⟨trivial, fun hm => hp (hop.1 _ hm)⟩
  | inr o => exact hop.elim

theorem only_journal {U : Place → Prop} {N : Doc → Prop} (h : N .journal) (r : Record) :
    (Journal.record r : SessionProg Unit).Only (Within U N) :=
  Only.mapError (only_fs.mpr ⟨by simp [FsOp.places], by simp [FsOp.names, h]⟩)

theorem only_advance {U : Place → Prop} {N : Doc → Prop} (h : N .journal) (r : Record)
    (phase : Phase) : (Journal.advance r phase : SessionProg Record).Only (Within U N) :=
  (only_journal h { r with phase }).bind fun _ => trivial

theorem only_readJournal {U : Place → Prop} {N : Doc → Prop} :
    (Journal.read : SessionProg (Option Record)).Only (Within U N) := by
  refine Only.bind (only_io_read rfl rfl) fun file => ?_
  split <;> trivial

theorem only_refuseIfInFlight {U : Place → Prop} {N : Doc → Prop} :
    (refuseIfInFlight : SessionProg Unit).Only (Within U N) := by
  refine only_readJournal.bind fun record => ?_
  split
  · split <;> trivial
  · trivial

theorem only_readSelection {U : Place → Prop} {N : Doc → Prop} (slot : Slot) :
    (readSelection slot : SessionProg (Option Version)).Only (Within U N) := by
  refine Only.bind (only_io_read rfl rfl) fun target => ?_
  split <;> trivial

theorem only_stageCandidate (u : Upgrade) (bundle : Option TarStream) (transaction : Nat)
    (r : Record) : (stageCandidate u bundle (.staging transaction) r :
      SessionProg (Record × PlatformManifest)).Only
      (Within (· = .staging transaction) fun _ => True) := by
  refine (only_prepare (by rfl) u bundle).attempt.bind fun staged => ?_
  split
  · exact (only_removeTree (by rfl)).ignore.bind fun _ =>
      (only_advance trivial _ _).ignore.bind fun _ => trivial
  · refine (only_journal trivial _).bind fun _ => ?_
    dsimp only
    split
    · exact (only_removeTree (by rfl)).ignore.bind fun _ =>
        (only_advance trivial _ _).ignore.bind fun _ => trivial
    · trivial

/-- What comes after the directories were created. -/
theorem early_openCandidate (u : Upgrade) (bundle : Option TarStream) : ∃ p,
    openCandidate u bundle = (ensure : SessionProg Unit).bind (fun _ => p) ∧ p.Only Early := by
  refine ⟨_, rfl, ?_⟩
  refine (early_of_within (U := fun _ => False) (N := fun _ => False) only_refuseIfInFlight id).bind
    fun _ => ?_
  refine (early_of_within (U := fun _ => False) (N := fun _ => False) (only_readSelection _) id).bind
    fun from_ => ?_
  refine (early_of_within (U := fun _ => False) (N := fun _ => False) (only_readSelection _) id).bind
    fun previousBefore => ?_
  refine Only.bind ⟨⟨trivial, trivial⟩, fun _ => trivial⟩ fun transaction => ?_
  refine (early_of_within (U := fun _ => False) (N := fun _ => True) (only_journal trivial _) id).bind
    fun _ => ?_
  refine (early_of_within (only_stageCandidate u bundle transaction _) fun h => (by cases h)).bind
    fun staged => ?_
  trivial

theorem silent_commitRelease (u : Upgrade) (candidate : PlatformManifest) (staging : Place)
    (r : Record) : (commitRelease u candidate staging r : SessionProg Record).Only Silent := by
  have hsilent : ∀ {β : Type} {p : SessionProg β},
      p.Only (Within (fun _ => True) fun _ => True) → p.Only Silent := fun h =>
    h.mono fun op hop => by cases op with
      | inl o => trivial
      | inr o => exact hop.elim
  refine (hsilent (only_removeIfExists trivial)).bind fun _ => ?_
  refine (hsilent (only_rename trivial trivial)).bind fun _ => ?_
  refine (hsilent (only_journal trivial _)).bind fun _ => ?_
  refine (hsilent (only_snapshotForRollback (fun _ => trivial) u _ _)).bind fun snapshot => ?_
  exact (hsilent (only_journal trivial _)).bind fun _ => trivial

end Footprints

section Runs

variable {s : Session} {v : Version} {t : Tree} {w : World}

/-- What an upgrade found when it comes to move the candidate into place. -/
theorem openCandidate_opens (u : Upgrade) (bundle : Option TarStream)
    (hw : w.link .current = some (.release v)) :
    (openCandidate u bundle).Safe (logged s) (fun x => ¬ Departed x.2) (fun res x =>
      ¬ Departed x.2 ∧ bringUps x.2 = [] ∧ ∀ transaction r candidate,
        res = .ok (transaction, r, candidate) → r.from_ = some v ∧ r.to_ ≠ v ∧
          x.1.release v = w.release v ∧ x.1.state.isSome ∧ Gives u bundle candidate) (w, []) := by
  obtain ⟨rest, heq, hearly⟩ := early_openCandidate u bundle
  have hnone : ¬ Departed ([] : List Event) := fun ⟨_, h⟩ => by cases h
  -- nothing is heard of the session
  have hquiet : (openCandidate u bundle).Safe (logged s) (fun x => ¬ Departed x.2)
      (fun _ x => (¬ Departed x.2 ∧ bringUps x.2 = []) ∧ x.1.state.isSome) (w, []) := by
    have hsilent : (openCandidate u bundle).Only Silent := by
      rw [heq]
      refine Only.bind (Only.mapError (only_fs.mpr trivial)) fun _ => hearly.mono fun _ h => h.1
    have hmute := hsilent.mono fun _ => Silent.mute
    have hstate : (openCandidate u bundle).Safe (logged s) (fun _ => True)
        (fun _ x => x.1.state.isSome) (w, []) := by
      rw [heq]
      have hensure : (ensure : SessionProg Unit).Safe (logged s) (fun _ => True)
          (fun _ x => x.1.state.isSome) (w, []) := by
        refine Safe.mapError ⟨trivial, trivial, ?_⟩
        show ((if ((settle s w).dir .platformState).isSome then settle s w
          else (settle s w).setDir .platformState .empty).dir .platformState).isSome
        split
        · next h => exact h
        · rw [Disk.setDir_dir_self]
          rfl
      exact hensure.bind (fun _ x hx => state_isSome_of_housed (hearly.mono fun _ h => h.2) hx)
        fun _ _ hx => hx
    exact (((departed_of_silent hsilent hnone).and (bringUps_of_mute hmute)).and hstate).mono
      (fun _ h => h.1.1) fun _ _ _ h => h
  rcases linkTo_or_other (w.link .previous) with ⟨p, hp⟩ | ⟨text, hp⟩
  · have hopens := runs_openCandidate (s := s) (O := w.origin (some v) p (Brings u bundle) hw) u bundle
      hp rfl _ rfl
    refine (hquiet.and hopens).mono (fun _ h => h.1) fun res x _ hq => ?_
    obtain ⟨⟨⟨hdeparted, hups⟩, hstate⟩, -, hok⟩ := hq
    refine ⟨hdeparted, hups, fun transaction r candidate h => ?_⟩
    obtain ⟨hV, -, -, -, hrelease, -, hfrom, hgives⟩ := hok transaction r candidate h
    exact ⟨hV.owns.from_, fun h => hfrom (congrArg some h.symm), congrFun hrelease v, hstate, hgives⟩
  · have hfails : Runs s (fun _ => True) (openCandidate u bundle) (view (w, [])) fun res V' =>
        (∃ e, res = .error e) ∧ V' = view (w, []) := runs_unreadable trivial ⟨.previous, text, hp⟩
    refine (hquiet.and (hfails _ rfl)).mono (fun _ h => h.1) fun res x _ hq => ?_
    obtain ⟨⟨⟨hdeparted, hups⟩, -⟩, ⟨e, rfl⟩, -⟩ := hq
    exact ⟨hdeparted, hups, fun _ _ _ h => (by cases h)⟩

theorem lost_saw {ε α : Type} (p : Prog UpdaterSig ε α) {x : Logged} (hx : ¬ Saw t x.2) :
    p.Safe (logged s) (fun x' => ¬ Saw t x'.2) (fun _ x' => ¬ Saw t x'.2) x :=
  Safe.of_only (I := fun x' : Logged => ¬ Saw t x'.2) (only_true p)
    (fun _ _ _ hx' h => hx' h.before) hx

/-- A program that keeps the snapshot keeps it at every point, as long as the looks agree. -/
theorem keeps_taken {ε α : Type} {p : Prog UpdaterSig ε α} {x : Logged} (hp : p.Only (Keeps v))
    (hx : Saw t x.2 → Taken v t x.1) :
    p.Safe (logged s) (fun x' => Saw t x'.2 → Taken v t x'.1) (fun _ x' => Saw t x'.2 → Taken v t x'.1)
      x :=
  Safe.of_only (I := fun x' : Logged => Saw t x'.2 → Taken v t x'.1) hp
    (fun _ _ hop hx' h => (hx' h.before).step hop) hx

/-- The record that an activation leaves. -/
theorem activate_takes {r : Record} (h : r.Takes v) (x : Logged) :
    (activate r : SessionProg Record).Safe (logged s) (fun _ => True)
      (fun res _ => ∀ r', res = .ok r' → r'.Takes v) x := by
  have hlast : ∀ y : Logged, ((select .current r.to_).bind fun _ =>
      Journal.advance { r with phase := .activate, attempts := r.attempts + 1 } .verify :
        SessionProg Record).Safe (logged s) (fun _ => True)
        (fun res _ => ∀ r', res = .ok r' → r'.Takes v) y := by
    refine fun y => (safe_true _ y).bind (fun _ y' _ => ?_) fun _ _ _ _ h => by cases h
    refine (safe_true _ y').bind (fun _ _ _ => ⟨trivial, fun r' hr' => ?_⟩) fun _ _ _ _ h => by cases h
    cases hr'
    exact ⟨h.snapshot, h.from_, h.to_, h.staged⟩
  unfold activate
  rw [bind_eq, advance_bind]
  refine (safe_true _ x).bind (fun _ x₁ _ => ?_) fun _ _ _ _ h => by cases h
  refine (safe_true _ x₁).bind (fun _ x₂ _ => ?_) fun _ _ _ _ h => by cases h
  dsimp only
  split
  · exact (safe_true _ x₂).bind (fun _ x₃ _ => hlast x₃) fun _ _ _ _ h => by cases h
  · exact (safe_true _ x₂).bind (fun _ x₃ _ => hlast x₃) fun _ _ _ _ h => by cases h

/-- At every point after the session stood down the snapshot is in place, and a session that is
brought up after the candidate is brought up on it. -/
theorem run_takes (u : Upgrade) (bundle : Option TarStream) (hw : w.link .current = some (.release v))
    (hthere : (w.release v).isSome)
    (hneeds : ∀ candidate, Gives u bundle candidate → NeedsSnapshot u.ext (w.release v) candidate) :
    (run u bundle).Safe (logged s) (fun x => Departed x.2 → Saw t x.2 → Taken v t x.1)
      (fun _ x => Saw t x.2 → Revives t x.2) (w, []) := by
  have hnever : ∀ {x : Logged}, bringUps x.2 = [] → Revives t x.2 := fun h => by
    rw [Revives, h]
    exact fun _ h => by cases h
  rw [run_eq]
  refine ((openCandidate_opens u bundle hw).mono (fun _ h hd => absurd hd h) fun _ _ _ h => h).bind
    (fun opened x hq => ?_) fun _ _ hq _ => hnever hq.2.1
  obtain ⟨transaction, r, candidate⟩ := opened
  obtain ⟨hdeparted, hups, hok⟩ := hq
  obtain ⟨hfrom, hto, hrelease, hstate, hgives⟩ := hok transaction r candidate rfl
  have hsilent := silent_commitRelease u candidate (.staging transaction) r
  have hmute := hsilent.mono fun _ => Silent.mute
  have hcommit := ((departed_of_silent (s := s) hsilent hdeparted).and (bringUps_of_mute hmute)).and
    (@commitRelease_takes s v r t x u candidate transaction hfrom hto
      (hrelease ▸ hneeds candidate hgives) hstate (hrelease ▸ hthere))
  refine (hcommit.mono (fun _ h hd => absurd hd h.1.1) fun _ _ _ h => h).bind (fun r' x₁ hq => ?_)
    fun _ _ hq _ => hnever (hq.1.2.trans hups)
  obtain ⟨⟨-, hups₁⟩, htakes⟩ := hq
  have hups₁ := hups₁.trans hups
  obtain ⟨hr', htaken⟩ := htakes r' rfl
  have hactivate := ((keeps_taken (s := s) (keeps_of_stays (stays_activate hr')) htaken).and
    (bringUps_of_mute ((stays_activate hr').mono fun _ h => h.2))).and (activate_takes hr' x₁)
  refine Safe.bind (R := fun _ x => Saw t x.2 → Revives t x.2)
    (hactivate.mono (fun x h (_ : Departed x.2) => h.1.1) fun _ _ _ h => h) (fun r'' x₂ hq => ?_)
    fun _ _ hq _ => hnever (hq.1.2.trans hups₁)
  obtain ⟨⟨htaken₂, hups₂⟩, hr''⟩ := hq
  have hr'' := hr'' r'' rfl
  suffices hrevives : (verify u r'' : SessionProg Outcome).Safe (logged s) (fun _ => True)
      (fun _ x => Saw t x.2 → Revives t x.2) x₂ from
    ((keeps_taken (s := s) (keeps_verify hr'' u) htaken₂).and hrevives).mono (fun _ h _ => h.1)
      fun _ _ _ h => h.2
  by_cases hsaw : Saw t x₂.2
  · exact (verify_revives hr'' u (htaken₂ hsaw) (hups₂.trans hups₁)).mono (fun _ h => h)
      fun _ _ _ h _ => h
  · exact (lost_saw _ hsaw).mono (fun _ _ => trivial) fun _ _ _ h hs => absurd hs h

end Runs

/-! ## Reconciling -/

section Reconciles

variable {s : Session} {v : Version} {t : Tree} {x : Logged} {r : Record}

theorem only_revertLinks {U : Place → Prop} {N : Doc → Prop} (h : ∀ slot, N (.link slot))
    (r : Record) : (revertLinks r : SessionProg Unit).Only (Within U N) := by
  unfold revertLinks
  split
  · exact (only_select _ _ (h _)).bind fun _ => only_restoreFallbackLink (h _) r
  · exact (only_deselect _ (h _)).bind fun _ => only_restoreFallbackLink (h _) r

/-- Discarding a candidate writes to the staging directory, to its release and to the journal. -/
theorem only_discard {U : Place → Prop} {N : Doc → Prop} (hstaged : ∀ p, r.staged = some p → U p)
    (hrelease : U (releaseDir r.to_)) (hn : N .journal) :
    (discard r : SessionProg Reconciled).Only (Within U N) := by
  refine Only.bind ?_ fun _ => (only_readSelection _).bind fun selected =>
    (only_readSelection _).bind fun fallback => ?_
  · cases hs : r.staged with
    | none => trivial
    | some p => exact (only_removeTree (hstaged p hs)).ignore
  · have hlast : ((Journal.advance { r with staged := none } .failed).bind fun _ =>
        Prog.done (.discardedStaging r.to_) : SessionProg Reconciled).Only (Within U N) :=
      (only_advance hn _ _).bind fun _ => trivial
    dsimp only
    split
    · exact (only_removeTree hrelease).ignore.bind fun _ => hlast
    · exact hlast

theorem only_reconcile : (reconcile : SessionProg Reconciled).Only
    (Within (fun _ => True) fun _ => True) := by
  refine only_readJournal.bind fun record => ?_
  split
  · trivial
  next record =>
  have hrevert : ((revertLinks record).bind fun _ => (restoreSnapshot record).bind fun stateRestored =>
      (Journal.advance record .rolledBack).bind fun _ =>
        Prog.done (.reverted record.to_ record.from_ stateRestored) : SessionProg Reconciled).Only
        (Within (fun _ => True) fun _ => True) :=
    (only_revertLinks (fun _ => trivial) _).bind fun _ =>
      (only_restoreSnapshot trivial trivial _).bind fun _ =>
        (only_advance trivial _ _).bind fun _ => trivial
  split
  · exact only_discard (fun _ _ => trivial) trivial trivial
  · exact hrevert
  · exact hrevert
  all_goals trivial

theorem keeps_discard (h : r.Takes v) : (discard r : SessionProg Reconciled).Only (Keeps v) := by
  refine Only.bind ?_ fun _ => ?_
  · rw [h.staged]
    trivial
  have hread : ∀ slot, (readSelection slot : SessionProg (Option Version)).Only (Keeps v) := fun slot =>
    keeps_of_stays (stays_of_within (U := fun _ => False) (N := fun _ => False)
      (only_readSelection slot) (fun _ _ => id) id)
  have hlast : ((Journal.advance { r with staged := none } .failed).bind fun _ =>
      Prog.done (.discardedStaging r.to_) : SessionProg Reconciled).Only (Keeps v) :=
    keeps_advance_bind (r := { r with staged := none }) ⟨h.snapshot, h.from_, h.to_, rfl⟩ _ trivial
  have hother : ∀ p, Backs v p → p ≠ releaseDir r.to_ := by
    rintro p (rfl | rfl) h'
    · cases h'
    · exact h.to_ (by simpa using h'.symm)
  refine (hread _).bind fun selected => (hread _).bind fun fallback => ?_
  dsimp only
  split
  · exact (keeps_of_stays (stays_of_within (U := (· = releaseDir r.to_)) (N := fun _ => False)
      (only_removeTree rfl) hother id)).ignore.bind fun _ => hlast
  · exact hlast

theorem keeps_revert (h : r.Takes v) : ((revertLinks r).bind fun _ => (restoreSnapshot r).bind
    fun stateRestored => (Journal.advance r .rolledBack).bind fun _ =>
      Prog.done (.reverted r.to_ r.from_ stateRestored) : SessionProg Reconciled).Only (Keeps v) := by
  have hlinks : (revertLinks r : SessionProg Unit).Only (Keeps v) :=
    keeps_of_stays (stays_of_within (U := fun _ => False) (N := fun f => ∃ slot, f = .link slot)
      (only_revertLinks (fun slot => ⟨slot, rfl⟩) r) (fun _ _ => id) fun ⟨_, h⟩ => (by cases h))
  refine hlinks.bind fun _ => (keeps_of_stays (stays_restoreSnapshot r)).bind fun stateRestored => ?_
  exact keeps_advance_bind h _ trivial

/-- A reconcile reads the record that names the snapshot. -/
theorem readJournal_taken (ht : Taken v t x.1) :
    (Journal.read : SessionProg (Option Record)).Safe (logged s) (fun x' => Taken v t x'.1)
      (fun res x' => view x' = view x ∧ Taken v t x'.1 ∧
        ∃ r, res = .ok (some r) ∧ x.1.journal = some (.record r) ∧ r.Takes v) x := by
  have hkeep : (Journal.read : SessionProg (Option Record)).Safe (logged s)
      (fun x' => Taken v t x'.1) (fun _ x' => Taken v t x'.1) x :=
    Safe.of_only (I := fun x' : Logged => Taken v t x'.1) (keeps_of_stays (stays_of_within
      (U := fun _ => False) (N := fun _ => False) only_readJournal (fun _ _ => id) id))
      (fun _ _ hop hx' => hx'.step hop) ht
  refine (hkeep.and (runs_read (A := fun _ => True) trivial x rfl)).mono (fun _ h => h.1) ?_
  rintro res x' - ⟨ht', hres, hview⟩
  obtain ⟨r, hr, htakes⟩ := ht.journal
  refine ⟨hview, ht', r, ?_, hr, htakes⟩
  rw [hres, show (view x).journal = some (.record r) from hr]
  rfl

/-- A reconcile keeps the snapshot at every point. -/
theorem reconcile_taken (ht : Taken v t x.1) :
    (reconcile : SessionProg Reconciled).Safe (logged s) (fun x' => Taken v t x'.1)
      (fun _ x' => Taken v t x'.1) x := by
  refine (readJournal_taken ht).bind (fun record x' hq => ?_) fun _ _ hq => hq.2.1
  obtain ⟨-, ht', r, hres, -, htakes⟩ := hq
  cases hres
  have hkeeps : ∀ {p : SessionProg Reconciled}, p.Only (Keeps v) →
      p.Safe (logged s) (fun x' => Taken v t x'.1) (fun _ x' => Taken v t x'.1) x' := fun hp =>
    Safe.of_only (I := fun x' : Logged => Taken v t x'.1) hp (fun _ _ hop hx' => hx'.step hop) ht'
  dsimp only
  split
  · exact hkeeps (keeps_discard htakes)
  · exact hkeeps (keeps_revert htakes)
  · exact hkeeps (keeps_revert htakes)
  all_goals exact ⟨ht', ht'⟩

/-- A reconcile of an activated transaction, while no session runs, restores what the snapshot
holds. -/
theorem reconcile_restores (ht : Taken v t x.1) (hrun : x.1.running = false)
    (hr : x.1.journal = some (.record r)) (hphase : r.phase = .activate ∨ r.phase = .verify) :
    (reconcile : SessionProg Reconciled).Safe (logged s) (fun _ => True) (fun res x' =>
      res = .ok (.reverted r.to_ (some v) true) ∧ Restored t x'.1) x := by
  refine ((readJournal_taken ht).mono (fun _ _ => trivial) fun _ _ _ h => h).bind
    (fun record x₁ hq => ?_) fun _ _ hq => by cases hq.2.2.choose_spec.1
  obtain ⟨hview, ht₁, r', hres, hr', htakes⟩ := hq
  cases hres
  cases hr.symm.trans hr'
  have hrun₁ : x₁.1.running = false := (congrArg View.running hview).trans hrun
  suffices H : ((revertLinks r).bind fun _ => (restoreSnapshot r).bind fun stateRestored =>
      (Journal.advance r .rolledBack).bind fun _ =>
        Prog.done (.reverted r.to_ r.from_ stateRestored) : SessionProg Reconciled).Safe (logged s)
      (fun _ => True) (fun res x' => res = .ok (.reverted r.to_ (some v) true) ∧ Restored t x'.1) x₁ by
    rcases hphase with hphase | hphase <;> simp only [hphase] <;> exact H
  have hlinks : (revertLinks r : SessionProg Unit).Only
      (Within (fun _ => False) fun f => ∃ slot, f = .link slot) :=
    only_revertLinks (fun slot => ⟨slot, rfl⟩) r
  have hreverted := ((runs_revertLinks (s := s) (A := fun _ => True) r trivial (fun _ => trivial)
    (fun _ => trivial) x₁ rfl).and (stays_spec (s := s) (stays_of_within hlinks
      (fun _ _ => id) fun ⟨_, h⟩ => (by cases h)) ht₁)).and (running_of_fsOnly (hlinks.mono fun _ => Within.fsOnly))
  refine (hreverted.mono (fun _ _ => trivial) fun _ _ _ h => h).bind (fun _ x₂ hq => ?_)
    fun e _ hq => ?_
  swap
  · rcases hq.1.1 with ⟨h, -⟩ | ⟨⟨k, hk, hgone, -⟩, -⟩
    · cases h
    · cases htakes.from_.symm.trans hk
      rw [show (view x₁).release v = (view x).release v by rw [hview]] at hgone
      exact absurd (hgone.symm.trans ht.release) (by simp)
  obtain ⟨⟨-, ht₂, -⟩, hrun₂⟩ := hq
  refine (restoreSnapshot_taken htakes.snapshot (hrun₂.trans hrun₁) ht₂).bind (fun b x₃ hq => ?_)
    fun _ _ hq => by cases hq.1
  obtain ⟨hb, hrun₃, hstate₃⟩ := hq
  cases hb
  rw [advance_bind]
  have hrecord := (runs_record (s := s) (A := fun _ => True) { r with phase := .rolledBack } trivial
    trivial x₃ rfl).and (state_of_idle (N := fun _ => True)
      (only_journal trivial { r with phase := .rolledBack }) hrun₃)
  refine (hrecord.mono (fun _ _ => trivial) fun _ _ _ h => h).bind (fun _ x₄ hq =>
    ⟨trivial, by rw [htakes.from_], ?_⟩) fun _ _ hq => by cases hq.1.1
  rw [Restored, hq.2.2]
  exact hstate₃

end Reconciles

/-! ## What is restored -/

section History

variable {u : Upgrade} {s : Session} {bundle : Option TarStream} {v : Version} {t : Tree} {w : World}

theorem Saw.of_prefix {log log' : List Event} (h : Saw t log') (hlog : log <+: log') : Saw t log :=
  fun state hm => h state (hlog.subset hm)

theorem silent_reconcile : (reconcile : SessionProg Reconciled).Only Silent :=
  only_reconcile.mono fun op hop => by
    cases op with
    | inl o => trivial
    | inr o => exact hop.elim

/-- Once the session stood down the snapshot is in place, and reconciling keeps it there. -/
theorem Leaves.taken (hw : w.link .current = some (.release v)) (hthere : (w.release v).isSome)
    (hneeds : ∀ candidate, Gives u bundle candidate → NeedsSnapshot u.ext (w.release v) candidate)
    (hsaw : Saw t ((run u bundle).events (handle s) emit w)) {x : Logged}
    (h : Leaves u s (.run bundle) w x) (hx : Departed x.2) : Taken v t x.1 := by
  induction h with
  | point hx' =>
    have hlog := log_prefix (handle s) emit hx'
    rw [run_logged, List.nil_append] at hlog
    exact (run_takes u bundle hw hthere hneeds).points hx' hx (hsaw.of_prefix hlog)
  | restart h hdisk ih =>
    obtain ⟨hjournal, hsnapshot, hrelease⟩ := ih hx
    exact ⟨by rw [World.journal, hdisk]; exact hjournal, by rw [hdisk]; exact hsnapshot,
      by rw [World.release, hdisk]; exact hrelease⟩
  | @reconcile x y h s' hy ih =>
    by_cases hd : Departed x.2
    · exact (reconcile_taken (ih hd)).points hy
    · exact absurd hx ((departed_of_silent silent_reconcile hd).points hy)

/-- In a run whose snapshot saw `T₀` and whose session left `T₁`: what a rollback restored before it
brought the outgoing release up, and what a later reconcile restores, has the files and the
directories of `T₁` exactly if `T₀` has. -/
theorem restored_iff_unchanged (u : Upgrade) (bundle : Option TarStream) (s : Session) (w : World)
    {T₀ : Tree} (hw : w.link .current = some (.release v)) (hthere : (w.release v).isSome)
    (hneeds : ∀ candidate, Gives u bundle candidate → NeedsSnapshot u.ext (w.release v) candidate)
    (hsaw : Saw T₀ ((run u bundle).events (handle s) emit w)) (T₁ : Tree) :
    left ((run u bundle).events (handle s) emit w) = some T₁ →
    (∀ state ∈ (bringUps ((run u bundle).events (handle s) emit w)).tail,
      ∃ T, state = some T ∧ (T.Same T₁ ↔ T₀.Same T₁)) ∧
    ∀ x, Leaves u s (.run bundle) w x → Departed x.2 → ∀ r, x.1.journal = some (.record r) →
      r.phase = .activate ∨ r.phase = .verify → ∀ (s' : Session) (w' : World),
        w'.disk = x.1.disk → w'.running = false →
        (reconcile.run (handle s') w').1 = .ok (.reverted r.to_ (some v) true) ∧
          ∃ T, (reconcile.run (handle s') w').2.state = some T ∧ (T.Same T₁ ↔ T₀.Same T₁) := by
  have hsame : ∀ {T : Tree}, T.Same T₀ → (T.Same T₁ ↔ T₀.Same T₁) := fun h =>
    ⟨fun h' => h.symm.trans h', fun h' => h.trans h'⟩
  refine fun _ => ⟨fun state hstate => ?_, fun x hx hd r hr hphase s' w' hdisk hrun => ?_⟩
  · have hends := Safe.result (run_takes (s := s) (t := T₀) u bundle hw hthere hneeds)
    rw [run_logged, List.nil_append] at hends
    obtain ⟨T, hT, h⟩ := hends hsaw state hstate
    exact ⟨T, hT, hsame h⟩
  · have htaken : Taken v T₀ w' := hx.restart hdisk |>.taken hw hthere hneeds hsaw hd
    have hjournal : w'.journal = some (.record r) := by rw [World.journal, hdisk]; exact hr
    have hends := Safe.result (reconcile_restores (s := s') (x := (w', [])) htaken hrun hjournal hphase)
    rw [run_logged] at hends
    obtain ⟨hres, T, hT, h⟩ := hends
    exact ⟨hres, T, hT, hsame h⟩

end History

/-! ## A session that writes before it stands down -/

namespace Sample

/-- A tree with one file. -/
def noted : Tree :=
  Tree.empty.put ["notes"] (.file [] false) (by decide) (by decide) (.inl rfl) fun h =>
    by cases (Tree.get_empty _).symm.trans h

/-- It leaves a note after the snapshot, and the candidate is never ready. -/
def late : Session := { unhealthy with writes := fun n t => if n < 45 then t else noted }

theorem before_needs (u : Upgrade) (candidate : PlatformManifest) :
    NeedsSnapshot u.ext (before.release older) candidate := fun _ h =>
  by cases (show readTree u.ext (before.release older) = .error (.io .notFound) from rfl).symm.trans h

end Sample

theorem restored_iff_unchanged_late : (bringUps ((run Sample.upgrade
    (some Sample.bundle)).events (handle Sample.late) emit Sample.before)).tail.Forall fun state =>
      ∃ T, state = some T ∧ (T.Same Sample.noted ↔ Tree.empty.Same Sample.noted) :=
  List.forall_iff_forall_mem.mpr
    (@restored_iff_unchanged Sample.older Sample.upgrade (some Sample.bundle) Sample.late Sample.before
      .empty (by decide) (by decide)
      (fun candidate _ => Sample.before_needs Sample.upgrade candidate) (by decide +kernel)
      Sample.noted (by decide +kernel)).1

/-- What is written between the snapshot and the stand-down is lost. -/
theorem late_writes_are_lost : ¬ ∀ (u : Upgrade) (bundle : Option TarStream) (s : Session) (w : World)
    (v : Version) (T₁ : Tree), w.link .current = some (.release v) → (w.release v).isSome →
    (∀ candidate, Gives u bundle candidate → NeedsSnapshot u.ext (w.release v) candidate) →
    left ((run u bundle).events (handle s) emit w) = some T₁ →
    ∀ state ∈ (bringUps ((run u bundle).events (handle s) emit w)).tail,
      ∃ T, state = some T ∧ T.Same T₁ := by
  intro h
  obtain ⟨T, hT, hsame⟩ := h Sample.upgrade (some Sample.bundle) Sample.late Sample.before Sample.older
    Sample.noted (by decide) (by decide) (fun candidate _ => Sample.before_needs Sample.upgrade candidate)
    (by decide +kernel) (some .empty) (by decide +kernel)
  cases hT
  exact by cases (hsame ["notes"]).symm.trans (show Tree.empty.plain ["notes"] = none from rfl)

end Paperclip.Updater
