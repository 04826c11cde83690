import Paperclip.Updater.Selection

/-!
# The platform state across a rollback

The snapshot is taken while the outgoing session still runs, and the session is asked to stand down
only afterwards. So a restore brings back what the snapshot saw, which is what the session left if
it wrote nothing in between.

* `Saw`, `left`, `bringUps`: what the log of a run says about the platform state.
* `Taken`: the snapshot is in place and the journal names it. `Keeps`: the steps that leave it so.
-/

namespace Paperclip.Updater

open Crash Files Packages Prog

/-! ## The state in a log -/

/-- Every look at the platform state saw `t`. -/
def Saw (t : Tree) (log : List Event) : Prop := ∀ state, .looked state ∈ log → state = some t

instance (t : Tree) (log : List Event) : Decidable (Saw t log) :=
  decidable_of_iff (log.all fun
      | .looked state => decide (state = some t)
      | _ => true) <| by
    rw [List.all_eq_true]
    refine ⟨fun h state hm => of_decide_eq_true (h _ hm), fun h e hm => ?_⟩
    split
    · exact decide_eq_true (h _ hm)
    · rfl

/-- The session stood down. -/
def Departed (log : List Event) : Prop := ∃ state, .stoodDown true state ∈ log

/-- The platform state when the session first stood down. -/
def left : List Event → Option Tree
  | [] => none
  | .stoodDown true state :: _ => state
  | _ :: log => left log

/-- The platform state each time a session was brought up. -/
def bringUps (log : List Event) : List (Option Tree) :=
  log.filterMap fun
    | .broughtUp _ _ state => some state
    | _ => none

theorem bringUps_append (log log' : List Event) :
    bringUps (log ++ log') = bringUps log ++ bringUps log' := List.filterMap_append

/-- The steps that bring no session up. -/
def Mute : UpdaterSig.Op → Prop
  | .inr .bringUp => False
  | _ => True

/-- The steps that neither bring a session up nor ask it to stand down. -/
def Silent : UpdaterSig.Op → Prop
  | .inr .bringUp | .inr .standDown => False
  | _ => True

theorem emitFs_looks (o : FsOp Place Doc Doc.Content) (after : World) :
    (∀ ok state, .stoodDown ok state ∉ emitFs after o) ∧ bringUps (emitFs after o) = [] := by
  have hlook : ∀ b : Bool, (∀ ok state, Event.stoodDown ok state ∉
      (if b then [Event.looked after.state] else [])) ∧
      bringUps (if b then [Event.looked after.state] else []) = [] := by
    intro b
    cases b <;> simp [bringUps]
  cases o
  case put f d => cases f <;> simp [emitFs, bringUps]
  case delete f => cases f <;> simp [emitFs, looksAtState, bringUps]
  case isDir => exact hlook _
  case readDir => exact hlook _
  case copyFile => exact hlook _
  all_goals simp [emitFs, looksAtState, bringUps]

theorem emit_mute {op : UpdaterSig.Op} (h : Mute op) (step : Step UpdaterSig World)
    (hop : step.op = op) : bringUps (emit step) = [] := by
  obtain ⟨op', ret, before, after⟩ := step
  subst hop
  rcases op' with o | o
  · exact (emitFs_looks o after).2
  · cases o <;> first | exact h.elim | simp [emit, emitSession, bringUps]

theorem emit_silent {op : UpdaterSig.Op} (h : Silent op) (step : Step UpdaterSig World)
    (hop : step.op = op) : ∀ state, .stoodDown true state ∉ emit step := by
  obtain ⟨op', ret, before, after⟩ := step
  subst hop
  rcases op' with o | o
  · exact (emitFs_looks o after).1 true
  · cases o <;> first | exact h.elim | simp [emit, emitSession]

section Logs

variable {s : Session} {x : Logged} {ε α : Type} {p : Prog UpdaterSig ε α}

theorem bringUps_of_mute (hp : p.Only Mute) :
    p.Safe (logged s) (fun _ => True) (fun _ x' => bringUps x'.2 = bringUps x.2) x := by
  refine (Safe.of_only (I := fun x' : Logged => bringUps x'.2 = bringUps x.2) hp
    (fun op x' hop hx' => ?_) rfl).mono (fun _ _ => trivial) fun _ _ _ h => h
  show bringUps (x'.2 ++ _) = _
  rw [bringUps_append, emit_mute hop _ rfl, List.append_nil, hx']

theorem departed_of_silent (hp : p.Only Silent) (hx : ¬ Departed x.2) :
    p.Safe (logged s) (fun x' => ¬ Departed x'.2) (fun _ x' => ¬ Departed x'.2) x := by
  refine Safe.of_only (I := fun x' : Logged => ¬ Departed x'.2) hp (fun op x' hop hx' => ?_) hx
  rintro ⟨state, hm⟩
  rcases List.mem_append.mp hm with hm | hm
  · exact hx' ⟨state, hm⟩
  · exact emit_silent hop _ rfl state hm

/-- What was seen so far was seen before. -/
theorem Saw.before {t : Tree} {op : UpdaterSig.Op} (h : Saw t (logged s op x).2.2) : Saw t x.2 :=
  fun state hm => h state (List.mem_append_left _ hm)

end Logs

/-! ## The snapshot -/

/-- A record of a transaction from `v` that took the snapshot. -/
structure Record.Takes (r : Record) (v : Version) : Prop where
  snapshot : r.snapshot = some (snapshotDir v)
  from_ : r.from_ = some v
  to_ : r.to_ ≠ v
  staged : r.staged = none

/-- The release `v` is there, the snapshot for it holds the files and the directories of `t`, and the
journal's record, of a transaction from `v`, names it. -/
structure Taken (v : Version) (t : Tree) (w : World) : Prop where
  journal : ∃ r, w.journal = some (.record r) ∧ r.Takes v
  snapshot : ∃ t', w.disk.dir (snapshotDir v) = some t' ∧ ∀ x, t'.get x = t.plain x
  release : (w.release v).isSome

/-- The directories of a rollback to `v`. -/
def Backs (v : Version) (p : Place) : Prop := p = snapshotDir v ∨ p = releaseDir v

theorem Backs.ne_platformState {v : Version} {p : Place} (h : Backs v p) : p ≠ .platformState := by
  rcases h with rfl | rfl <;> exact fun h => by cases h

/-- The steps that leave `v` and the snapshot for it alone, and record it. -/
def Keeps (v : Version) : UpdaterSig.Op → Prop
  | .inl (.put .journal file) => ∃ r, file = .record r ∧ r.Takes v
  | .inl o => (∀ p, Backs v p → p ∉ o.places) ∧ .journal ∉ o.names
  | .inr _ => True

/-- The steps that leave `v`, the snapshot for it and the journal alone. -/
def Away (v : Version) : UpdaterSig.Op → Prop := Within (¬ Backs v ·) (· ≠ .journal)

theorem Away.keeps {v : Version} {op : UpdaterSig.Op} (h : Away v op) : Keeps v op := by
  match op, h with
  | .inl o, h =>
    have hplaces : ∀ p, Backs v p → p ∉ o.places := fun p hp hm => h.1 p hm hp
    have hnames : Doc.journal ∉ o.names := fun hm => h.2 _ hm rfl
    cases o
    case put f d =>
      cases f
      · exact absurd (List.mem_singleton_self _) hnames
      · exact ⟨hplaces, hnames⟩
    all_goals exact ⟨hplaces, hnames⟩

theorem Taken.step {s : Session} {v : Version} {t : Tree} {w : World} {op : UpdaterSig.Op}
    (h : Taken v t w) (hop : Keeps v op) : Taken v t (handle s op w).2 := by
  rcases op with o | o
  · have hframe : (∀ p, Backs v p → p ∉ o.places) → (∃ r, (handle s (.inl o) w).2.journal =
        some (.record r) ∧ r.Takes v) → Taken v t (handle s (.inl o) w).2 := fun hp hj => by
      have hdir : ∀ p, Backs v p → (handle s (.inl o) w).2.disk.dir p = w.disk.dir p :=
        fun p h => (serves s).frame h.ne_platformState (hp p h) w
      refine ⟨hj, ?_, ?_⟩
      · rw [hdir _ (.inl rfl)]
        exact h.snapshot
      · rw [World.release, hdir _ (.inr rfl)]
        exact h.release
    have hsame : (∀ p, Backs v p → p ∉ o.places) → Doc.journal ∉ o.names →
        Taken v t (handle s (.inl o) w).2 := fun hp hn => hframe hp (by
      rw [World.journal, show (handle s (.inl o) w).2.disk = (o.exec s.order (settle s w)).2 from rfl,
        FsOp.exec_doc _ _ _ hn, settle_doc]
      exact h.journal)
    cases o
    case put f d =>
      cases f with
      | journal =>
        obtain ⟨r, rfl, hr⟩ := hop
        exact hframe (by simp [FsOp.places]) ⟨r, Disk.setDoc_doc_self _ _, hr⟩
      | link slot => exact hsame hop.1 hop.2
    all_goals exact hsame hop.1 hop.2
  · have hdisk : (handle s (.inr o) w).2.disk = settle s w := session_disk o w
    refine ⟨?_, ?_, ?_⟩
    · rw [World.journal, hdisk, settle_doc]
      exact h.journal
    · rw [hdisk, settle_dir (Backs.ne_platformState (.inl rfl))]
      exact h.snapshot
    · rw [World.release, hdisk, settle_dir (Backs.ne_platformState (.inr rfl))]
      exact h.release

/-! ## After the snapshot -/

/-- The steps that keep the snapshot, and bring no session up. -/
def Stays (v : Version) (op : UpdaterSig.Op) : Prop := Keeps v op ∧ Mute op

section Footprints

variable {v : Version} {r : Record} {α : Type}

theorem stays_of_within {ε : Type} {U : Place → Prop} {N : Doc → Prop} {p : Prog UpdaterSig ε α}
    (h : p.Only (Within U N)) (hp : ∀ p, Backs v p → ¬ U p) (hn : ¬ N .journal) :
    p.Only (Stays v) := by
  refine h.mono fun op hop => ⟨Away.keeps (hop.mono (fun _ h hb => hp _ hb h) fun _ h heq =>
    hn (heq ▸ h)), ?_⟩
  cases op with
  | inl o => trivial
  | inr o => exact hop.elim

theorem stays_session {o : SessionOp} (h : o ≠ .bringUp) : (session o : SessionProg _).Only (Stays v) := by
  refine ⟨⟨trivial, ?_⟩, fun _ => trivial⟩
  cases o
  case bringUp => exact absurd rfl h
  all_goals trivial

theorem stays_record (h : r.Takes v) : (Journal.record r : SessionProg Unit).Only (Stays v) :=
  Only.mapError (only_fs.mpr ⟨⟨_, rfl, h⟩, trivial⟩)

theorem advance_bind (r : Record) (phase : Phase)
    (f : Record → SessionProg α) : (Journal.advance r phase).bind f =
      (Journal.record { r with phase }).bind fun _ => f { r with phase } := by
  simp only [Journal.advance, bind_eq, pure_eq, bind_assoc, bind_done]

theorem only_advance_bind {W : UpdaterSig.Op → Prop} (hW : ∀ op, Stays v op → W op) (h : r.Takes v)
    (phase : Phase) {f : Record → SessionProg α} (hf : (f { r with phase }).Only W) :
    ((Journal.advance r phase).bind f).Only W := by
  rw [advance_bind]
  exact ((stays_record (r := { r with phase }) ⟨h.snapshot, h.from_, h.to_, h.staged⟩).mono hW).bind fun _ => hf

theorem stays_advance_bind (h : r.Takes v) (phase : Phase) {f : Record → SessionProg α}
    (hf : (f { r with phase }).Only (Stays v)) : ((Journal.advance r phase).bind f).Only (Stays v) :=
  only_advance_bind (fun _ h => h) h phase hf

theorem keeps_advance_bind (h : r.Takes v) (phase : Phase) {f : Record → SessionProg α}
    (hf : (f { r with phase }).Only (Keeps v)) : ((Journal.advance r phase).bind f).Only (Keeps v) :=
  only_advance_bind (fun _ h => h.1) h phase hf

theorem stays_advance (h : r.Takes v) (phase : Phase) :
    (Journal.advance r phase : SessionProg Record).Only (Stays v) := by
  show ((Journal.record { r with phase }).bind fun _ => Prog.done { r with phase }).Only _
  exact (stays_record (r := { r with phase }) ⟨h.snapshot, h.from_, h.to_, h.staged⟩).bind fun _ => trivial

theorem stays_standDown : (standDown : SessionProg Unit).Only (Stays v) := by
  refine (stays_session (by simp)).bind fun answer => ?_
  split
  · trivial
  refine (stays_session (by simp)).bind fun up => ?_
  split
  · trivial
  refine (stays_session (by simp)).bind fun held => ?_
  split
  · refine (stays_session (by simp)).bind fun _ => (stays_session (by simp)).bind fun held => ?_
    split <;> trivial
  · trivial

theorem stays_watch (budget : Budget) : (watch budget : SessionProg HealthReport).Only (Stays v) := by
  have hloop : ∀ fuel started best note seenAlive,
      (watchLoop budget started fuel best note seenAlive : SessionProg HealthReport).Only (Stays v) := by
    intro fuel started
    induction fuel with
    | zero => exact fun _ _ _ => trivial
    | succ fuel ih =>
      intro best note seenAlive
      refine (stays_session (by simp)).bind fun observation => ?_
      extract_lets seenAlive best note
      split
      · exact (stays_session (by simp)).bind fun _ => trivial
      split
      · exact (stays_session (by simp)).bind fun _ => trivial
      refine (stays_session (by simp)).bind fun now => ?_
      extract_lets elapsed
      split
      · trivial
      · exact (stays_session (by simp)).bind fun _ => ih _ _ _
  exact (stays_session (by simp)).bind fun _ => hloop _ _ _ _ _

theorem only_select {U : Place → Prop} {N : Doc → Prop} (slot : Slot) (version : Version)
    (h : N (.link slot)) : (select slot version : SessionProg Unit).Only (Within U N) := by
  refine (only_isDirectory _).bind fun b => ?_
  split
  · exact Only.mapError (only_fs.mpr ⟨by simp [FsOp.places], by simp [FsOp.names, h]⟩)
  · trivial

theorem only_deselect {U : Place → Prop} {N : Doc → Prop} (slot : Slot) (h : N (.link slot)) :
    (deselect slot : SessionProg Unit).Only (Within U N) :=
  Only.mapError (only_fs.mpr ⟨by simp [FsOp.places], by simp [FsOp.names, h]⟩)

/-- Moving the links leaves the directories alone. -/
theorem only_restoreFallbackLink {U : Place → Prop} {N : Doc → Prop} (h : N (.link .previous))
    (r : Record) : (restoreFallbackLink r : SessionProg Unit).Only (Within U N) := by
  unfold restoreFallbackLink
  split
  · refine (only_isDirectory _).bind fun b => ?_
    split
    · exact only_select _ _ h
    · exact only_deselect _ h
  · exact only_deselect _ h

theorem stays_select (slot : Slot) (version : Version) :
    (select slot version : SessionProg Unit).Only (Stays v) :=
  stays_of_within (U := fun _ => False) (N := (· = .link slot)) (only_select _ _ rfl)
    (fun _ _ => id) (by simp)

theorem stays_deselect (slot : Slot) : (deselect slot : SessionProg Unit).Only (Stays v) :=
  stays_of_within (U := fun _ => False) (N := (· = .link slot)) (only_deselect _ rfl)
    (fun _ _ => id) (by simp)

theorem stays_restoreFallbackLink (r : Record) :
    (restoreFallbackLink r : SessionProg Unit).Only (Stays v) :=
  stays_of_within (U := fun _ => False) (N := fun f => f = .link .previous)
    (only_restoreFallbackLink (by rfl) _) (fun _ _ => id) (by simp)

theorem stays_restoreSnapshot (r : Record) : (restoreSnapshot r : SessionProg Bool).Only (Stays v) :=
  stays_of_within (U := fun p => p = .platformState ∨ p = .restoring) (N := fun _ => False)
    (only_restoreSnapshot (.inl rfl) (.inr rfl) r)
    (fun p hb h => by rcases hb with rfl | rfl <;> rcases h with h | h <;> cases h) id

/-- Pruning keeps the release that is left as the fallback. -/
theorem stays_prune (h : r.Takes v) :
    (prune r.to_ r.from_ : SessionProg Unit).Only (Stays v) := by
  refine stays_of_within (U := fun p => ∃ k, p = releaseDir k ∧ k ≠ v) (N := fun _ => False)
    (only_prune fun k _ hk => ⟨k, rfl, fun heq => hk (h.from_ ▸ congrArg some heq)⟩) ?_ id
  rintro p (rfl | rfl) ⟨k, h, hk⟩
  · cases h
  · exact hk (by simpa using h.symm)

theorem stays_activate (h : r.Takes v) : (activate r : SessionProg Record).Only (Stays v) := by
  have hlast : ((select .current r.to_).bind fun _ =>
      Journal.advance { r with phase := .activate, attempts := r.attempts + 1 } .verify :
        SessionProg Record).Only (Stays v) :=
    (stays_select _ _).bind fun _ =>
      stays_advance (r := { r with phase := .activate, attempts := r.attempts + 1 })
        ⟨h.snapshot, h.from_, h.to_, h.staged⟩ _
  refine stays_advance_bind h _ (stays_standDown.bind fun _ => ?_)
  dsimp only
  split
  · exact (stays_select _ _).bind fun _ => hlast
  · exact (stays_deselect _).bind fun _ => hlast

theorem keeps_bringUpAndGrade (u : Upgrade) :
    (bringUpAndGrade u : SessionProg HealthReport).Only (Keeps v) := by
  refine ⟨trivial, fun answer => ?_⟩
  cases answer with
  | error reason => trivial
  | ok _ => exact (stays_watch _).mono fun _ h => h.1

/-- How a rollback ends once the restored release was graded. -/
def closeGraded (r : Record) (candidate restored : Version) (failure : Unhealthy) :
    Except UpdateError HealthReport → SessionProg Outcome
  | .error error => do
    let _ ← Journal.advance r .failed
    pure (.stranded candidate failure (some (.error error)))
  | .ok health => do
    let record := { r with reached := some health.reached.label }
    if health.failure.isSome then
      let _ ← session .standDown
      let _ ← Journal.advance record .failed
      pure (.stranded candidate failure (some (.unhealthy health)))
    else
      let _ ← Journal.advance record .rolledBack
      pure (.rolledBack candidate restored failure health)

theorem gradeRestored_eq (u : Upgrade) (r : Record) (candidate restored : Version)
    (failure : Unhealthy) : gradeRestored u r candidate restored failure =
      (bringUpAndGrade u).attempt.bind (closeGraded r candidate restored failure) := by
  refine congrArg (Prog.bind (bringUpAndGrade u).attempt) (funext fun answer => ?_)
  cases answer <;> rfl

theorem stays_closeGraded (h : r.Takes v) (candidate restored : Version) (failure : Unhealthy)
    (answer : Except UpdateError HealthReport) :
    (closeGraded r candidate restored failure answer).Only (Stays v) := by
  cases answer with
  | error error => exact stays_advance_bind h _ trivial
  | ok health =>
    have h' : ({ r with reached := some health.reached.label } : Record).Takes v :=
      ⟨h.snapshot, h.from_, h.to_, h.staged⟩
    unfold closeGraded
    dsimp only
    split
    · exact (stays_session (by simp)).bind fun _ => stays_advance_bind h' _ trivial
    · exact stays_advance_bind h' _ trivial

theorem keeps_gradeRestored (h : r.Takes v) (u : Upgrade) (candidate restored : Version)
    (failure : Unhealthy) :
    (gradeRestored u r candidate restored failure : SessionProg Outcome).Only (Keeps v) := by
  rw [gradeRestored_eq]
  exact (keeps_bringUpAndGrade u).attempt.bind fun answer =>
    (stays_closeGraded h candidate restored failure answer).mono fun _ h => h.1

theorem keeps_of_stays {ε : Type} {p : Prog UpdaterSig ε α} (h : p.Only (Stays v)) :
    p.Only (Keeps v) := h.mono fun _ h => h.1

theorem keeps_rollBack (h : r.Takes v) (u : Upgrade) (candidate : Version) (failure : Unhealthy) :
    (rollBack u r candidate failure : SessionProg Outcome).Only (Keeps v) := by
  have h' : ({ r with phase := .activate } : Record).Takes v := ⟨h.snapshot, h.from_, h.to_, h.staged⟩
  refine keeps_advance_bind h _ ((keeps_of_stays stays_standDown).attempt.bind fun answer => ?_)
  cases answer with
  | error error => exact keeps_advance_bind h' .failed trivial
  | ok _ =>
    dsimp only
    split
    · next hnone => exact by cases h.from_.symm.trans hnone
    refine (keeps_of_stays (stays_select _ _)).bind fun _ => ?_
    refine (keeps_of_stays (stays_restoreFallbackLink _)).bind fun _ => ?_
    refine (keeps_of_stays (stays_restoreSnapshot _)).bind fun _ => ?_
    refine keeps_advance_bind (r := { r with phase := .activate, attempts := r.attempts + 1 })
      ⟨h.snapshot, h.from_, h.to_, h.staged⟩ _ (keeps_gradeRestored ?_ _ _ _ _)
    exact ⟨h.snapshot, h.from_, h.to_, h.staged⟩

theorem keeps_verify (h : r.Takes v) (u : Upgrade) :
    (verify u r : SessionProg Outcome).Only (Keeps v) := by
  refine (keeps_bringUpAndGrade u).bind fun health => ?_
  have h' : ({ r with reached := some health.reached.label } : Record).Takes v :=
    ⟨h.snapshot, h.from_, h.to_, h.staged⟩
  refine (keeps_of_stays (stays_record h')).bind fun _ => ?_
  dsimp only
  split
  · exact keeps_advance_bind h' _ ((keeps_of_stays (stays_prune h)).bind fun _ => trivial)
  · exact keeps_rollBack h' u _ _

end Footprints

/-! ## Restoring -/

/-- The platform state has the files and the directories of `t`. -/
def Restored (t : Tree) (w : World) : Prop := ∃ t', w.state = some t' ∧ t'.Same t

section Restores

variable {s : Session} {v : Version} {r : Record} {t : Tree} {x : Logged} {α ε : Type}

theorem running_of_fsOnly {p : Prog UpdaterSig ε α} (hp : p.Only FsOnly) :
    p.Safe (logged s) (fun _ => True) (fun _ x' => x'.1.running = x.1.running) x := by
  refine (Safe.of_only (I := fun x' : Logged => x'.1.running = x.1.running) hp ?_ rfl).mono
    (fun _ _ => trivial) fun _ _ _ h => h
  rintro (o | o) x' hop hx'
  · exact hx'
  · exact hop.elim

/-- While no session runs, the platform state stays as it is unless a step is about it. -/
theorem state_of_idle {p : Prog UpdaterSig ε α} {N : Doc → Prop}
    (hp : p.Only (Within (· ≠ .platformState) N)) (hx : x.1.running = false) :
    p.Safe (logged s) (fun _ => True)
      (fun _ x' => x'.1.running = false ∧ x'.1.state = x.1.state) x := by
  refine (Safe.of_only (I := fun x' : Logged => x'.1.running = false ∧ x'.1.state = x.1.state) hp
    ?_ ⟨hx, rfl⟩).mono (fun _ _ => trivial) fun _ _ _ h => h
  rintro (o | o) x' hop ⟨hrun, hstate⟩
  · refine ⟨hrun, ?_⟩
    rw [← hstate]
    show (o.exec s.order (settle s x'.1)).2.dir .platformState = _
    rw [FsOp.exec_dir _ _ _ fun hm => hop.1 _ hm rfl, settle_of_not_running hrun]
    rfl
  · exact hop.elim

/-- A restore of the snapshot, while no session runs. -/
theorem restoreSnapshot_taken (hr : r.snapshot = some (snapshotDir v)) (hx : x.1.running = false)
    (ht : Taken v t x.1) :
    (restoreSnapshot r : SessionProg Bool).Safe (logged s) (fun _ => True)
      (fun res x' => res = .ok true ∧ x'.1.running = false ∧ Restored t x'.1) x := by
  obtain ⟨t', ht', hget⟩ := ht.snapshot
  have honly : (restoreSnapshot r : SessionProg Bool).Only
      (Within (fun _ => True) fun _ => True) := only_restoreSnapshot trivial trivial r
  have hrestore : (restoreSnapshot r : SessionProg Bool).Safe (handle (idle s)) (fun _ => True)
      (fun res w' => res = .ok true ∧ Restored t w') x.1 :=
    (restoreSnapshot_idle hr (fun h => (by cases h)) ht').mono (fun _ h => h) fun res w' _ hq => by
      obtain ⟨hres, t'', ht'', hget'⟩ := hq
      exact ⟨hres, t'', ht'', (Tree.same_of_get hget').trans (Tree.same_of_get hget)⟩
  have hfs := honly.mono fun _ => Within.fsOnly
  exact (((safe_of_idle hfs hx hrestore).logged (f := emit) x.2).and (running_of_fsOnly hfs)).mono
    (fun _ _ => trivial) fun _ _ _ hq => ⟨hq.1.1, hq.2.trans hx, hq.1.2⟩

/-- The state that a session is brought up on is the one in the log. -/
theorem bringUpAndGrade_bringUps (u : Upgrade) :
    (bringUpAndGrade u : SessionProg HealthReport).Safe (logged s) (fun _ => True)
      (fun _ x' => bringUps x'.2 = bringUps x.2 ++ [(settle s x.1).dir .platformState]) x := by
  refine ⟨trivial, ?_⟩
  have hnext : bringUps (logged s (.inr .bringUp) x).2.2 =
      bringUps x.2 ++ [(settle s x.1).dir .platformState] := bringUps_append _ _
  generalize (logged s (.inr .bringUp) x).2 = x₁ at hnext
  generalize (logged s (.inr .bringUp) x).1 = answer
  rw [← hnext]
  cases answer with
  | error reason => exact ⟨trivial, rfl⟩
  | ok _ => exact bringUps_of_mute ((stays_watch (v := .new 0 0 0) _).mono fun _ h => h.2)

theorem gradeRestored_revives (h : r.Takes v) (u : Upgrade) (candidate restored : Version)
    (failure : Unhealthy) (hx : x.1.running = false) (hstate : Restored t x.1) :
    (gradeRestored u r candidate restored failure : SessionProg Outcome).Safe (logged s)
      (fun _ => True) (fun _ x' => ∃ t', bringUps x'.2 = bringUps x.2 ++ [some t'] ∧ t'.Same t) x := by
  obtain ⟨t', ht', hsame⟩ := hstate
  rw [gradeRestored_eq]
  refine Safe.bind (Q := fun _ x' => bringUps x'.2 = bringUps x.2 ++ [some t'])
    (Safe.attempt ((bringUpAndGrade_bringUps u).mono (fun _ h => h) fun _ x' _ hq => ?_))
    (fun answer x' hq => ?_) fun _ _ h => ⟨t', h, hsame⟩
  · rw [hq, settle_of_not_running hx]
    exact congrArg (fun state => bringUps x.2 ++ [state]) ht'
  · refine (bringUps_of_mute ((stays_closeGraded h candidate restored failure answer).mono
      fun _ h => h.2)).mono (fun _ h => h) fun _ x'' _ hq' => ⟨t', hq'.trans hq, hsame⟩

/-- What the steps before a bring-up leave: the snapshot, and the log's bring-ups. -/
theorem stays_spec {p : Prog UpdaterSig ε α} (hp : p.Only (Stays v)) (ht : Taken v t x.1) :
    p.Safe (logged s) (fun _ => True)
      (fun _ x' => Taken v t x'.1 ∧ bringUps x'.2 = bringUps x.2) x := by
  have htaken : p.Safe (logged s) (fun x' => Taken v t x'.1) (fun _ x' => Taken v t x'.1) x :=
    Safe.of_only (I := fun x' : Logged => Taken v t x'.1) hp (fun _ _ hop hx' => hx'.step hop.1) ht
  exact (htaken.and (bringUps_of_mute (hp.mono fun _ h => h.2))).mono (fun _ _ => trivial)
    fun _ _ _ h => h

/-- A session that stood down does not run. -/
theorem standDown_stops :
    (standDown : SessionProg Unit).Safe (logged s) (fun _ => True)
      (fun res x' => res = .ok () → x'.1.running = false) x := by
  refine (runs_standDown (A := fun _ => True) (fun _ _ => trivial) x rfl).mono (fun _ h => h) ?_
  rintro res x' - (⟨-, answers, -, h⟩ | ⟨⟨e, h⟩, -⟩) hres
  · exact (congrArg View.running h).trans (Bool.and_false _)
  · cases h.symm.trans hres

/-- A rollback brings the restored release up on the state of the snapshot. -/
theorem rollBack_revives (h : r.Takes v) (u : Upgrade) (candidate : Version) (failure : Unhealthy)
    (ht : Taken v t x.1) :
    (rollBack u r candidate failure : SessionProg Outcome).Safe (logged s) (fun _ => True)
      (fun _ x' => bringUps x'.2 = bringUps x.2 ∨
        ∃ t', bringUps x'.2 = bringUps x.2 ++ [some t'] ∧ t'.Same t) x := by
  have h' : ({ r with phase := .activate } : Record).Takes v := ⟨h.snapshot, h.from_, h.to_, h.staged⟩
  unfold rollBack
  rw [bind_eq, advance_bind]
  refine (stays_spec (stays_record h') ht).bind (fun _ x₁ hq => ?_) fun _ _ hq => .inl hq.2
  obtain ⟨ht₁, hb₁⟩ := hq
  rw [← hb₁]
  have hdown := (stays_spec (s := s) stays_standDown ht₁).and standDown_stops
  refine Safe.bind (Q := fun answer x' => ∃ res, answer = .ok res ∧ (Taken v t x'.1 ∧
    bringUps x'.2 = bringUps x₁.2) ∧ (res = .ok () → x'.1.running = false))
    (Safe.attempt (hdown.mono (fun _ _ => trivial) fun res x' _ hq => ⟨res, rfl, hq⟩))
    (fun answer x₂ hq => ?_) fun _ _ hq => by cases hq.choose_spec.1
  obtain ⟨res, hres, ⟨ht₂, hb₂⟩, hstop⟩ := hq
  cases hres
  rw [← hb₂]
  cases answer with
  | error error =>
    refine (stays_spec (stays_advance_bind h' .failed ?_) ht₂).mono (fun _ h => h)
      fun _ _ _ hq => .inl hq.2
    trivial
  | ok _ =>
    have hrun := hstop rfl
    dsimp only
    split
    · next hnone => exact by cases h.from_.symm.trans hnone
    next fallback hfallback =>
    have hidle : ∀ {β : Type} {p : SessionProg β} {y : Logged}, p.Only FsOnly → p.Only (Stays v) →
        y.1.running = false → Taken v t y.1 → p.Safe (logged s) (fun _ => True) (fun _ x' =>
          (Taken v t x'.1 ∧ bringUps x'.2 = bringUps y.2) ∧ x'.1.running = false) y :=
      fun hfs hstays hy hty => ((stays_spec hstays hty).and (running_of_fsOnly hfs)).mono
        (fun _ _ => trivial) fun _ _ _ hq => ⟨hq.1, hq.2.trans hy⟩
    refine (hidle ((only_select (U := fun _ => True) (N := fun _ => True) _ _ trivial).mono
      fun _ => Within.fsOnly) (stays_select _ _) hrun ht₂).bind (fun _ x₃ hq => ?_)
      fun _ _ hq => .inl hq.1.2
    obtain ⟨⟨ht₃, hb₃⟩, hrun₃⟩ := hq
    rw [← hb₃]
    refine (hidle ((only_restoreFallbackLink (U := fun _ => True) (N := fun _ => True) trivial _).mono
      fun _ => Within.fsOnly) (stays_restoreFallbackLink _) hrun₃ ht₃).bind (fun _ x₄ hq => ?_)
      fun _ _ hq => .inl hq.1.2
    obtain ⟨⟨ht₄, hb₄⟩, hrun₄⟩ := hq
    rw [← hb₄]
    refine ((stays_spec (stays_restoreSnapshot _) ht₄).and (restoreSnapshot_taken h'.snapshot hrun₄ ht₄)).mono
      (fun _ _ => trivial) (fun _ _ _ hq => hq) |>.bind (fun _ x₅ hq => ?_) fun _ _ hq => .inl hq.1.2
    obtain ⟨⟨ht₅, hb₅⟩, -, hrun₅, hstate₅⟩ := hq
    rw [← hb₅, bind_eq, advance_bind]
    have h'' : ({ r with phase := .verify, attempts := r.attempts + 1 } : Record).Takes v :=
      ⟨h.snapshot, h.from_, h.to_, h.staged⟩
    have hput : (Journal.record { r with phase := .verify, attempts := r.attempts + 1 } :
        SessionProg Unit).Only (Within (· ≠ .platformState) fun _ => True) :=
      Only.mapError (only_fs.mpr ⟨by simp [FsOp.places], fun _ _ => trivial⟩)
    refine ((stays_spec (stays_record h'') ht₅).and (state_of_idle hput hrun₅)).mono
      (fun _ _ => trivial) (fun _ _ _ hq => hq) |>.bind (fun _ x₆ hq => ?_) fun _ _ hq => .inl hq.1.2
    obtain ⟨⟨-, hb₆⟩, hrun₆, hstate₆⟩ := hq
    rw [← hb₆]
    exact (gradeRestored_revives h'' u candidate fallback failure hrun₆
      (by rw [Restored, hstate₆]; exact hstate₅)).mono (fun _ h => h) fun _ _ _ hq => .inr hq

/-- After the first bring-up, a session was only brought up on the state of the snapshot. -/
def Revives (t : Tree) (log : List Event) : Prop :=
  ∀ state ∈ (bringUps log).tail, ∃ t', state = some t' ∧ t'.Same t

theorem verify_revives (h : r.Takes v) (u : Upgrade) (ht : Taken v t x.1) (hx : bringUps x.2 = []) :
    (verify u r : SessionProg Outcome).Safe (logged s) (fun _ => True)
      (fun _ x' => Revives t x'.2) x := by
  have hfirst : ∀ {y : Logged} {state : Option Tree}, bringUps y.2 = [state] → Revives t y.2 := by
    intro y state hy
    rw [Revives, hy]
    exact fun _ h => by cases h
  have hkeep : (bringUpAndGrade u : SessionProg HealthReport).Safe (logged s)
      (fun x' => Taken v t x'.1) (fun _ x' => Taken v t x'.1) x :=
    Safe.of_only (I := fun x' : Logged => Taken v t x'.1) (keeps_bringUpAndGrade u)
      (fun _ _ hop hx' => hx'.step hop) ht
  refine (hkeep.and (bringUpAndGrade_bringUps u)).mono (fun _ _ => trivial) (fun _ _ _ hq => hq)
    |>.bind (fun health x₁ hq => ?_) fun _ x₁ hq => ?_
  swap
  · rw [hx] at hq
    exact hfirst hq.2
  obtain ⟨ht₁, hb₁⟩ := hq
  rw [hx, List.nil_append] at hb₁
  have h' : ({ r with reached := some health.reached.label } : Record).Takes v :=
    ⟨h.snapshot, h.from_, h.to_, h.staged⟩
  refine (stays_spec (stays_record h') ht₁).bind (fun _ x₂ hq => ?_)
    fun _ _ hq => hfirst (hq.2.trans hb₁)
  obtain ⟨ht₂, hb₂⟩ := hq
  have hb₂ := hb₂.trans hb₁
  dsimp only
  split
  · refine (stays_spec (stays_advance_bind h' _ ((stays_prune h).bind fun _ => ?_)) ht₂).mono
      (fun _ h => h) fun _ _ _ hq => hfirst (hq.2.trans hb₂)
    trivial
  · refine (rollBack_revives h' u _ _ ht₂).mono (fun _ h => h) ?_
    rintro _ x₃ - (hb | ⟨t', hb, hsame⟩)
    · exact hfirst (hb.trans hb₂)
    · rw [Revives, hb, hb₂]
      intro state hm
      exact ⟨t', List.mem_singleton.mp hm, hsame⟩

end Restores

/-! ## Taking the snapshot -/

/-- The bytes of the file at `x`, in a directory that may not be there. -/
def readAt (d : Option Tree) (x : Path) : Except IoError Bytes :=
  match d.bind fun t => t.get x with
  | some (.file bytes _) => .ok bytes
  | some .dir => .error .isADirectory
  | some .special => .error (.other "No such device or address")
  | none => .error .notFound

/-- What reading and verifying the manifest of a release directory gives. -/
def readTree (ext : Externals) (d : Option Tree) : Except UpdateError VerifiedPlatform :=
  match readAt d [MANIFEST_FILE_NAME] with
  | .error e => .error (.io e)
  | .ok document =>
    if MAX_MANIFEST_BYTES < document.length then
      .error (.manifest s!"{document.length} bytes, over the {MAX_MANIFEST_BYTES} limit")
    else
      match readAt d [SIGNATURE_FILE_NAME] with
      | .error e => .error (.io e)
      | .ok armoured =>
        match ext.verify document armoured with
        | .error e => .error e
        | .ok () => parse ext document

/-- A rollback to the outgoing release needs a snapshot: its manifest cannot be read, or it cannot
read the state that the candidate writes. -/
def NeedsSnapshot (ext : Externals) (outgoing : Option Tree) (candidate : PlatformManifest) : Prop :=
  ∀ verified, readTree ext outgoing = .ok verified →
    candidate.readableByStateVersion verified.manifest.stateVersion = false

section Takes

variable {s : Session} {v : Version} {r : Record} {t : Tree} {x : Logged} {α ε : Type} {p : Place}

theorem serves_logged (s : Session) :
    Serves (logged s) (fun x => x.1.disk) (fun x => settle s x.1) s.order (· ≠ .platformState) where
  ret _ _ := rfl
  next _ _ := rfl
  mine _ _ hp := settle_dir hp

theorem readFile_reads (hp : p ≠ .platformState) {y : Path} (hy : y ≠ []) :
    (readFile p y : Prog UpdaterSig IoError Bytes).Safe (logged s) (fun _ => True)
      (fun res x' => res = readAt (x.1.disk.dir p) y ∧ x'.1.disk.dir p = x.1.disk.dir p) x := by
  have hs := serves_logged s
  refine Safe.bind (Q := fun res x' => res = .ok ((x.1.disk.dir p).bind fun t => t.get y) ∧
      x'.1.disk.dir p = x.1.disk.dir p) ((safe_fs (.lookup p y)).mpr ⟨trivial, trivial, ?_,
        hs.frame hp (by simp [FsOp.places]) x⟩) (fun entry x' hq => ?_) fun _ _ hq => by cases hq.1
  · rw [hs.ret]
    simp only [FsOp.exec, hs.mine x p hp, if_neg hy]
  · obtain ⟨hentry, hdir⟩ := hq
    cases hentry
    unfold readAt
    generalize ((x.1.disk.dir p).bind fun t => t.get y) = entry
    rcases entry with - | (⟨bytes, mode⟩ | - | -) <;> exact ⟨trivial, rfl, hdir⟩

theorem readRelease_reads (ext : Externals) (hp : p ≠ .platformState) :
    (readRelease ext p : SessionProg VerifiedPlatform).Safe (logged s) (fun _ => True)
      (fun res _ => res = readTree ext (x.1.disk.dir p)) x := by
  have hread : ∀ {y : Path} {x' : Logged}, y ≠ [] → x'.1.disk.dir p = x.1.disk.dir p →
      ((readFile p y).mapError .io : SessionProg Bytes).Safe (logged s) (fun _ => True)
        (fun res x'' => res = (readAt (x.1.disk.dir p) y).mapError .io ∧
          x''.1.disk.dir p = x.1.disk.dir p) x' := fun hy hdir =>
    Safe.mapError ((readFile_reads hp hy).mono (fun _ h => h) fun _ _ _ hq => by
      rw [hq.1, hq.2, hdir]
      exact ⟨rfl, rfl⟩)
  unfold readTree
  refine (hread (by simp) rfl).bind (fun document x₁ hq => ?_) fun e x₁ hq => ?_
  swap
  · cases hr : readAt (x.1.disk.dir p) [MANIFEST_FILE_NAME] with
    | ok document => exact by cases hq.1.trans (congrArg _ hr)
    | error e' =>
      rw [hr] at hq
      rw [show e = .io e' from Except.error.inj hq.1]
  obtain ⟨hdocument, hdir⟩ := hq
  cases hr : readAt (x.1.disk.dir p) [MANIFEST_FILE_NAME] with
  | error e => exact by cases hdocument.trans (congrArg _ hr)
  | ok document' =>
    rw [hr] at hdocument
    cases hdocument
    dsimp only
    split
    · exact ⟨trivial, rfl⟩
    refine (hread (by simp) hdir).bind (fun armoured x₂ hq => ?_) fun e x₂ hq => ?_
    swap
    · cases hr' : readAt (x.1.disk.dir p) [SIGNATURE_FILE_NAME] with
      | ok armoured => exact by cases hq.1.trans (congrArg _ hr')
      | error e' =>
        rw [hr'] at hq
        rw [show e = .io e' from Except.error.inj hq.1]
    obtain ⟨harmoured, -⟩ := hq
    cases hr' : readAt (x.1.disk.dir p) [SIGNATURE_FILE_NAME] with
    | error e => exact by cases harmoured.trans (congrArg _ hr')
    | ok armoured' =>
      rw [hr'] at harmoured
      cases harmoured
      dsimp only
      cases ext.verify document armoured with
      | error e => exact ⟨trivial, rfl⟩
      | ok _ => exact safe_ofExcept.mpr ⟨trivial, rfl⟩

/-- A candidate that needs a snapshot is found to. -/
theorem snapshotNeeded_needs {u : Upgrade} {candidate : PlatformManifest}
    (h : NeedsSnapshot u.ext (x.1.release v) candidate) :
    (snapshotNeeded u v candidate : SessionProg (Option Nat)).Safe (logged s) (fun _ => True)
      (fun res _ => ∃ reads, res = .ok (some reads)) x := by
  have hread := readRelease_reads (s := s) (x := x) u.ext (p := releaseDir v) fun h => by cases h
  refine Safe.bind (Q := fun res _ => res = .ok (readTree u.ext (x.1.disk.dir (releaseDir v))))
    (Safe.attempt (hread.mono (fun _ h => h) fun _ _ _ hq => by rw [hq]))
    (fun res x' hq => ?_) fun _ _ hq => by cases hq
  cases hq
  cases hr : readTree u.ext (x.1.disk.dir (releaseDir v)) with
  | error e => exact ⟨trivial, 0, rfl⟩
  | ok outgoing =>
    dsimp only
    rw [h outgoing hr]
    exact ⟨trivial, _, rfl⟩

/-- The steps that leave a platform state there. -/
def Housed : UpdaterSig.Op → Prop
  | .inl o => .platformState ∉ o.places
  | .inr _ => True

theorem state_isSome_step {op : UpdaterSig.Op} (hop : Housed op) (hx : x.1.state.isSome) :
    (logged s op x).2.1.state.isSome := by
  have hsettle : ((settle s x.1).dir .platformState).isSome := by
    unfold settle
    split
    · rw [Disk.setDir_dir_self]
      rfl
    · exact hx
  cases op with
  | inl o =>
    show ((o.exec s.order (settle s x.1)).2.dir .platformState).isSome
    rw [FsOp.exec_dir _ _ _ hop]
    exact hsettle
  | inr o =>
    have hdisk : (handle s (.inr o) x.1).2.disk = settle s x.1 := session_disk o x.1
    show ((handle s (.inr o) x.1).2.disk.dir .platformState).isSome
    rw [hdisk]
    exact hsettle

theorem state_isSome_of_housed {p : Prog UpdaterSig ε α} (hp : p.Only Housed) (hx : x.1.state.isSome) :
    p.Safe (logged s) (fun _ => True) (fun _ x' => x'.1.state.isSome) x :=
  (Safe.of_only (I := fun x' : Logged => x'.1.state.isSome) hp
    (fun _ _ hop hx' => state_isSome_step hop hx') hx).mono (fun _ _ => trivial) fun _ _ _ h => h

/-- A copy of the platform state is exact if every look at it saw the same tree. -/
theorem steady_logged : Steady (logged s) (fun x => settle s x.1) .platformState t
    fun x => Saw t x.2 ∧ x.1.state.isSome where
  lost o x hp h := by
    refine ⟨h.1.before, ?_⟩
    have hstate := h.2
    have hdir : (logged s (.inl o) x).2.1.state = (settle s x.1).dir .platformState :=
      FsOp.exec_dir s.order o _ hp
    rw [hdir] at hstate
    unfold settle at hstate
    split at hstate
    · next ht => rw [World.state, ht]; rfl
    · exact hstate
  sees o x ho hp h := by
    have hdir : (logged s (.inl o) x).2.1.state = (settle s x.1).dir .platformState :=
      FsOp.exec_dir s.order o _ hp
    rw [← hdir]
    refine h.1 _ (List.mem_append_right _ ?_)
    have hlooks : looksAtState o = true := by
      cases o <;> first | exact ho.elim | simp_all [FsOp.looks, looksAtState]
    have hemit : emitFs (handle s (.inl o) x.1).2 o = [.looked (handle s (.inl o) x.1).2.state] := by
      cases o <;> first | exact ho.elim | (simp only [emitFs, hlooks]; rfl)
    show _ ∈ emitFs (handle s (.inl o) x.1).2 o
    rw [hemit]
    exact List.mem_singleton_self _
  there x h := by
    unfold settle
    split
    · rw [Disk.setDir_dir_self]
      rfl
    · exact h.2

theorem housed_of_within {U : Place → Prop} {N : Doc → Prop} {p : Prog UpdaterSig ε α}
    (h : p.Only (Within U N)) (hp : ¬ U .platformState) : p.Only Housed := by
  refine h.mono fun op hop => ?_
  cases op with
  | inl o => exact fun hm => hp (hop.1 _ hm)
  | inr o => trivial

/-- A snapshot that succeeds holds what every look at the platform state saw. -/
theorem takeSnapshot_takes (hx : x.1.state.isSome) :
    (takeSnapshot v : SessionProg Unit).Safe (logged s) (fun _ => True)
      (fun res x' => res = .ok () → Saw t x'.2 →
        ∃ t', x'.1.disk.dir (snapshotDir v) = some t' ∧ ∀ y, t'.get y = t.plain y) x := by
  have hs := serves_logged s
  have hhoused : ∀ {p : SessionProg Unit} {y : Logged} {U : Place → Prop} {N : Doc → Prop},
      p.Only (Within U N) → ¬ U .platformState → y.1.state.isSome →
      p.Safe (logged s) (fun _ => True) (fun _ y' => y'.1.state.isSome) y :=
    fun h hp => state_isSome_of_housed (housed_of_within h hp)
  refine (hhoused (only_removeIfExists (U := (· = snapshotDir v)) (N := fun _ => False) rfl)
    (fun h => (by cases h)) hx).bind (fun _ x₁ hx₁ => ?_) fun _ _ _ h => by cases h
  have hgone := (removeIfExists_spec (w := x₁) hs (p := takingDir v) fun h => (by cases h)).and
    (hhoused (only_removeIfExists (U := (· = takingDir v)) (N := fun _ => False) rfl)
      (fun h => (by cases h)) hx₁)
  refine (hgone.mono (fun _ _ => trivial) fun _ _ _ h => h).bind (fun _ x₂ hq => ?_)
    fun _ _ hq => by cases hq.1.1
  obtain ⟨⟨-, hnone, -⟩, hx₂⟩ := hq
  have hcopy := (copyTree_spec (w := x₂) hs (steady_logged (s := s) (t := t))
    (q := takingDir v) (fun h => (by cases h)) (fun h => (by cases h)) fun _ => hnone)
  have hhouse : (copyTree .platformState (takingDir v) (maxDepth + 1) [] :
      Prog UpdaterSig IoError Unit).Only Housed :=
    housed_of_within (only_copyTree (U := (· = takingDir v)) (N := fun _ => False) rfl _ _)
      fun h => by cases h
  refine Safe.bind (Q := fun res x' => res = .ok () → Saw t x'.2 → ∃ t',
      x'.1.disk.dir (takingDir v) = some t' ∧ ∀ y, t'.get y = t.plain y)
    (Safe.mapError ((hcopy.and (state_isSome_of_housed hhouse hx₂)).mono (fun _ _ => trivial)
      fun res x' _ hq _ hsaw => (hq.1 ⟨hsaw, hq.2⟩).2)) (fun _ x₃ hq => ?_) fun _ _ _ h => by cases h
  refine Safe.mapError ((safe_fs (.rename (takingDir v) (snapshotDir v))).mpr
    ⟨trivial, trivial, fun hres hsaw => ?_⟩)
  obtain ⟨t', ht', hget⟩ := hq rfl hsaw.before
  rw [hs.ret] at hres
  refine ⟨t', ?_, hget⟩
  rw [hs.next]
  rcases FsOp.exec_rename s.order (takingDir v) (snapshotDir v) (settle s x₃.1) with
    ⟨t'', ht'', h⟩ | ⟨e, h⟩
  · have hmine := hs.mine x₃ (takingDir v) fun h => by cases h
    rw [h, Option.some.inj (ht''.symm.trans (hmine.trans ht'))]
    exact Disk.setDir_dir_self _ _
  · rw [h] at hres
    cases hres

/-- Moving a candidate that needs a snapshot into place takes the snapshot, and records it. -/
theorem commitRelease_takes {u : Upgrade} {candidate : PlatformManifest} {transaction : Nat}
    (hfrom : r.from_ = some v) (hto : r.to_ ≠ v)
    (hneeds : NeedsSnapshot u.ext (x.1.release v) candidate) (hx : x.1.state.isSome)
    (hthere : (x.1.release v).isSome) :
    (commitRelease u candidate (.staging transaction) r : SessionProg Record).Safe (logged s)
      (fun _ => True) (fun res x' => ∀ r', res = .ok r' → r'.Takes v ∧
        (Saw t x'.2 → Taken v t x'.1)) x := by
  have hs := serves_logged s
  -- what comes before the snapshot changes neither the outgoing release nor the platform state
  have hbefore : ∀ {p : SessionProg Unit} {y : Logged} {U : Place → Prop} {N : Doc → Prop},
      p.Only (Within U N) → ¬ U .platformState → ¬ U (releaseDir v) →
      y.1.release v = x.1.release v → y.1.state.isSome →
      p.Safe (logged s) (fun _ => True)
        (fun _ y' => y'.1.release v = x.1.release v ∧ y'.1.state.isSome) y :=
    fun h hp hv hrel hy => ((hs.within (p := releaseDir v) (fun h => (by cases h)) hv h).and
      (state_isSome_of_housed (housed_of_within h hp) hy)).mono (fun _ _ => trivial)
      fun _ _ _ hq => ⟨hq.1.trans hrel, hq.2⟩
  have hrelease : releaseDir r.to_ ≠ releaseDir v := by simpa using hto
  refine (hbefore (only_removeIfExists (U := (· = releaseDir r.to_)) (N := fun _ => False) rfl)
    (fun h => (by cases h)) hrelease.symm rfl hx).bind (fun _ x₁ hq => ?_) fun _ _ _ _ h => by cases h
  obtain ⟨hrel₁, hx₁⟩ := hq
  refine (hbefore (only_rename (U := fun p => p = .staging transaction ∨ p = releaseDir r.to_)
    (N := fun _ => False) (.inl rfl) (.inr rfl)) (fun h => h.elim (fun h => (by cases h))
    fun h => (by cases h)) (fun h => h.elim (fun h => (by cases h)) hrelease.symm) hrel₁ hx₁).bind
    (fun _ x₂ hq => ?_) fun _ _ _ _ h => by cases h
  obtain ⟨hrel₂, hx₂⟩ := hq
  have hput : ∀ r' : Record, (Journal.record r' : SessionProg Unit).Only
      (Within (fun _ => False) fun _ => True) := fun r' =>
    Only.mapError (only_fs.mpr ⟨by simp [FsOp.places], fun _ _ => trivial⟩)
  refine (hbefore (hput { r with staged := none }) id id hrel₂ hx₂).bind (fun _ x₃ hq => ?_)
    fun _ _ _ _ h => by cases h
  obtain ⟨hrel₃, hx₃⟩ := hq
  have hsnapshot : (snapshotForRollback u r.from_ candidate : SessionProg (Option Place)).Safe (logged s)
      (fun _ => True) (fun res x' => ∀ snapshot, res = .ok snapshot →
        snapshot = some (snapshotDir v) ∧ (Saw t x'.2 → ∃ t',
          x'.1.disk.dir (snapshotDir v) = some t' ∧ ∀ y, t'.get y = t.plain y)) x₃ := by
    rw [hfrom]
    have hneeded := (@snapshotNeeded_needs s v x₃ u candidate (hrel₃ ▸ hneeds)).and (state_isSome_of_housed (housed_of_within
        (only_snapshotNeeded (U := fun _ => False) (N := fun _ => False) u v candidate) id) hx₃)
    refine (hneeded.mono (fun _ _ => trivial) fun _ _ _ h => h).bind (fun reads x₄ hq => ?_)
      fun _ _ _ _ h => by cases h
    obtain ⟨⟨n, hn⟩, hx₄⟩ := hq
    cases hn
    refine Safe.bind (Q := fun answer x' => ∃ res, answer = .ok res ∧ (res = .ok () → Saw t x'.2 →
        ∃ t', x'.1.disk.dir (snapshotDir v) = some t' ∧ ∀ y, t'.get y = t.plain y))
      (Safe.attempt ((takeSnapshot_takes (t := t) hx₄).mono (fun _ h => h)
        fun res _ _ hq => ⟨res, rfl, hq⟩)) (fun answer x₅ hq => ?_)
      fun _ _ hq => by cases hq.choose_spec.1
    obtain ⟨res, hres, htaken⟩ := hq
    cases hres
    cases answer with
    | error e => exact ⟨trivial, fun _ h => (by cases h)⟩
    | ok _ =>
      refine ⟨trivial, fun snapshot h => ?_⟩
      cases h
      exact ⟨rfl, htaken rfl⟩
  have hkept := hsnapshot.and (hs.within (w := x₃) (p := releaseDir v) (fun h => (by cases h))
    (U := fun p => ∃ name, p = .snapshots name) (N := fun _ => False) (by rintro ⟨_, h⟩; cases h)
    (only_snapshotForRollback (fun name => ⟨name, rfl⟩) u r.from_ candidate))
  refine (hkept.mono (fun _ _ => trivial) fun _ _ _ h => h).bind (fun snapshot x₄ hq => ?_)
    fun _ _ _ _ h => by cases h
  obtain ⟨hq, hrel₄⟩ := hq
  obtain ⟨rfl, hdir⟩ := hq snapshot rfl
  have hlast : (Journal.record { r with staged := none, snapshot := some (snapshotDir v) } :
      SessionProg Unit).Safe (logged s) (fun _ => True) (fun _ x' => Saw t x'.2 → Taken v t x'.1) x₄ := by
    refine Safe.mapError ⟨trivial, trivial, fun hsaw => ?_⟩
    obtain ⟨t', ht', hget⟩ := hdir hsaw.before
    have hdir : ∀ (r' : Record) p, Backs v p →
        (logged s (.inl (.put .journal (.record r'))) x₄).2.1.disk.dir p = x₄.1.disk.dir p :=
      fun _ p hp => hs.frame hp.ne_platformState (by simp [FsOp.places]) x₄
    refine ⟨⟨_, Disk.setDoc_doc_self _ _, rfl, hfrom, hto, rfl⟩, ⟨t', (hdir _ _ (.inl rfl)).trans ht',
      hget⟩, ?_⟩
    exact (congrArg Option.isSome ((hdir _ _ (.inr rfl)).trans (hrel₄.trans hrel₃))).trans hthere
  refine hlast.bind (fun _ x₅ hq => ⟨trivial, fun r' h => ?_⟩) fun _ _ _ _ h => by cases h
  cases h
  exact ⟨⟨rfl, hfrom, hto, rfl⟩, hq⟩

end Takes

end Paperclip.Updater
