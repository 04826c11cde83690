import Paperclip.Crash.Safe
import Paperclip.Host.Effects
import Paperclip.Host.Supervisor

/-!
# Restores that report success

Stock is back when its unit is active and its journal shows no failure since its last start. A diary
beside the world notes where a restore, or the machine, says so and is wrong.

* `Site`: a tablet with a stock unit and its journal, and nothing assumed of either.
* `Diary`: what is noted; `Diary.lied`: a success that was none, a failure that was none, or a wakelock
  released for nothing.
* `Site.runs`: the supervisor, event after event, with the diary.
* `restores_are_true`: nothing is wrong as long as what is seen of stock is true and stays so.
* `retried_restore_lies`: a retry finds stock active, and never looks at its journal.
-/

namespace Paperclip.Host

open Crash

/-! ## The stock unit -/

/-- An entry of the journal of stock. -/
inductive JournalEntry where
  | started
  | message (text : String)
  deriving DecidableEq, Repr

/-- The entries since the last start. -/
def sinceStart (journal : List JournalEntry) : List JournalEntry :=
  journal.reverse.takeWhile (· ≠ .started)

/-- The entry is that of a failed commit. -/
def JournalEntry.fails : JournalEntry → Bool
  | started => false
  | message text => contains text ATOMIC_COMMIT_FAILURE

/-- A tablet: what it answers, its stock unit and the journal of that. -/
structure Site (W : Type) where
  handler : Handler hostSig W
  active : W → Bool
  journal : W → List JournalEntry

namespace Site

variable {W : Type} (t : Site W)

/-- The journal shows a failed commit since the last start. -/
def shows (w : W) : Bool := (sinceStart (t.journal w)).any (·.fails)

/-- Stock is active, and owns the display as far as its journal tells. -/
def back (w : W) : Bool := t.active w && !t.shows w

end Site

/-- What is noted beside a world. -/
structure Diary where
  /-- Stock was seen to be back, and what follows from that is still to come. -/
  seen : Bool
  /-- What was seen of stock was not so, or did not last. -/
  surprised : Bool
  woken : Bool
  lied : Bool
  deriving DecidableEq, Repr

def Diary.new : Diary := ⟨false, false, false, false⟩

namespace Site

variable {W : Type} (t : Site W)

/-- What a step adds to the diary. -/
def see (s : Step hostSig W) (d : Diary) : Diary :=
  match s with
  | ⟨.recoveryLook, .ok true, _, after⟩ | ⟨.stockActive, true, _, after⟩ =>
    { d with seen := true, surprised := d.surprised || !t.back after }
  | ⟨.journal _, text, _, after⟩ =>
    if contains text ATOMIC_COMMIT_FAILURE then { d with surprised := d.surprised || !t.shows after }
    else { d with seen := true, surprised := d.surprised || !t.back after }
  | ⟨.releaseWakelock, _, _, _⟩ => { d with woken := true }
  | ⟨.report _ (.ok _), _, before, _⟩ => { d with woken := false, lied := d.lied || !t.back before }
  | ⟨.report _ (.error .displayNotOwned), _, before, _⟩ =>
    { d with woken := false, lied := d.lied || d.woken || !t.shows before }
  | ⟨.report _ (.error _), _, _, _⟩ => { d with woken := false, lied := d.lied || d.woken }
  | _ => d

/-- A wakelock that is released is noted. -/
example (ret : hostSig.Ret .releaseWakelock) (before after : W) (d : Diary) :
    t.see ⟨.releaseWakelock, ret, before, after⟩ d = { d with woken := true } := by
  simp [see]

/-- Stock was back, and no longer is. -/
def loses (s : Step hostSig W) (d : Diary) : Bool := d.seen && t.back s.before && !t.back s.after

/-- The site with the diary. -/
def watched : Handler hostSig (W × Diary) := fun op x =>
  ((t.handler op x.1).1, (t.handler op x.1).2,
    let s : Step hostSig W := ⟨op, (t.handler op x.1).1, x.1, (t.handler op x.1).2⟩
    { t.see s x.2 with surprised := (t.see s x.2).surprised || t.loses s x.2 })

end Site

/-- An observation that stock is running has not reached the machine. -/
def Situation.waits {V : Type} (x : Situation V) : Bool :=
  (x.sup.queued ++ x.events).contains .stockRunning

namespace Site

variable {W : Type} (t : Site W)

/-- The machine leaves `recovering` for `stock`. -/
def leaves (x y : Situation (W × Diary)) : Bool :=
  x.sup.machine.state == .recovering && y.sup.machine.state == .stock

/-- What happens next, with the diary. -/
def next (x : Situation (W × Diary)) : Situation (W × Diary) :=
  let y := { x with world := (x.world.1, { x.world.2 with seen := x.waits }) }.next t.watched
  { y with world := (y.world.1, { y.world.2 with
    lied := y.world.2.lied || y.world.2.woken || (leaves x y && !t.back y.world.1) }) }

/-- A supervisor from its beginning. -/
def runs (sup : Supervisor) (w : W) : ℕ → Situation (W × Diary)
  | 0 => ⟨sup, [], none, w, .new⟩
  | n + 1 => t.next (runs sup w n)

end Site

/-! ## What a step keeps -/

section

variable {W : Type} {t : Site W} {v : W × Diary} {due due' : Prop}

/-- Nothing was wrong so far, and what is `due` was seen. -/
def Site.Fair (t : Site W) (due : Prop) (v : W × Diary) : Prop :=
  v.2.surprised = false → v.2.lied = false ∧ v.2.woken = false ∧
    (v.2.seen = true → t.back v.1 = true) ∧ (due → v.2.seen = true)

theorem Site.Fair.mono (h : t.Fair due v) (hd : due' → due) : t.Fair due' v :=
  fun hs => ⟨(h hs).1, (h hs).2.1, (h hs).2.2.1, fun hdue => (h hs).2.2.2 (hd hdue)⟩

/-- Steps that neither release the wakelock nor report a restore. -/
def HostOp.Plain : HostOp → Prop
  | .releaseWakelock | .report _ _ => False
  | _ => True

/-- What such a step notes. -/
theorem Site.see_plain {s : Step hostSig W} (hp : s.op.Plain) (d : Diary) :
    (t.see s d).lied = d.lied ∧ (t.see s d).woken = d.woken ∧
      (d.seen = true → (t.see s d).seen = true) ∧
      ((t.see s d).surprised = false → d.surprised = false ∧
        ((t.see s d).seen = true → d.seen = true ∨ t.back s.after = true)) := by
  obtain ⟨op, ret, before, after⟩ := s
  cases op
  case releaseWakelock => exact hp.elim
  case report => exact hp.elim
  case recoveryLook =>
    rcases ret with e | _ | _ <;> simp +contextual [Site.see]
  case stockActive => cases ret <;> simp +contextual [Site.see]
  case journal =>
    simp only [Site.see]
    split <;> simp +contextual
  all_goals exact ⟨rfl, rfl, id, fun h => ⟨h, .inl⟩⟩

theorem Site.fair_step {o : HostOp} (hp : o.Plain) (h : t.Fair due v) :
    t.Fair due (t.watched o v).2 := by
  intro hs
  obtain ⟨hlied, hwoken, hseen, hnew⟩ :=
    t.see_plain (s := ⟨o, (t.handler o v.1).1, v.1, (t.handler o v.1).2⟩) hp v.2
  obtain ⟨hsee, hlose⟩ := Bool.or_eq_false_iff.1 hs
  obtain ⟨hsur, hback⟩ := hnew hsee
  obtain ⟨hl, hw, hb, hd⟩ := h hsur
  refine ⟨hlied.trans hl, hwoken.trans hw, fun hn => ?_, fun hdue => hseen (hd hdue)⟩
  rcases hback hn with hold | hnow
  · -- What was seen before has not been lost.
    show t.back (t.handler o v.1).2 = true
    simpa [Site.loses, hold, hb hold] using hlose
  · exact hnow

/-- A part that takes such steps only. -/
theorem Site.plain_safe {ε α : Type} {p : Prog hostSig ε α} (hp : p.Only HostOp.Plain)
    (h : t.Fair due v) : p.Safe t.watched (fun _ => True) (fun _ => t.Fair due) v :=
  (Prog.Safe.of_only hp (fun _ _ hq hv => t.fair_step hq hv) h).mono (fun _ _ => trivial)
    fun _ _ _ h => h

theorem call_plain {ε : Type} {o : HostOp} (hp : o.Plain) :
    (call o : Prog hostSig ε o.Ret).Only HostOp.Plain := Prog.only_ask.2 hp

theorem onDevice_plain {α : Type} (p : Device.DeviceM α) : (onDevice p).Only HostOp.Plain := by
  induction p with
  | done a => trivial
  | fail e => trivial
  | step op k ih => exact ⟨trivial, fun r => ih r⟩

/-! ## One restore -/

/-- What a restore leaves. -/
def Site.Settled (t : Site W) (due : Prop) (r : Except RecoveryError Restored) (v : W × Diary) :
    Prop :=
  v.2.surprised = false → v.2.lied = false ∧ (v.2.seen = true → t.back v.1 = true) ∧
    (due → v.2.seen = true) ∧ match r with
      | .ok _ => v.2.seen = true
      | .error .displayNotOwned => v.2.woken = false ∧ t.shows v.1 = true
      | .error _ => v.2.woken = false

theorem Site.settled_stock (h : t.Fair due v) (e : Device.DeviceError) :
    t.Settled due (.error (.stock e)) v := fun hs =>
  ⟨(h hs).1, (h hs).2.2.1, (h hs).2.2.2, (h hs).2.1⟩

/-- The wakelock is released once stock was seen to be back. -/
theorem Site.release_settled (h : t.Fair due v) (hseen : v.2.surprised = false → v.2.seen = true)
    (restored : Restored) :
    (do
      call .releaseWakelock
      return restored : RecoveryM Restored).Safe t.watched (fun _ => True) (t.Settled due) v := by
  refine ⟨trivial, trivial, fun hs => ?_⟩
  obtain ⟨hsee, hlose⟩ := Bool.or_eq_false_iff.1 hs
  obtain ⟨hl, -, hb, hd⟩ := h hsee
  have hold := hseen hsee
  refine ⟨hl, fun _ => ?_, fun _ => hold, hold⟩
  show t.back (t.handler .releaseWakelock v.1).2 = true
  simpa [Site.loses, hold, hb hold] using hlose

theorem Site.reap_fair (h : t.Fair due v) : StockRecovery.reapStrayDrmHolders.Safe t.watched
    (fun _ => True) (fun r w => r = .ok () ∧ t.Fair due w) v := by
  refine ⟨trivial, ?_⟩
  have h₁ := t.fair_step (o := .drmHolders) trivial h
  simp only [Prog.bind_done]
  cases (t.watched .drmHolders v).1 with
  | none => exact ⟨trivial, rfl, h₁⟩
  | some holders =>
    cases holders with
    | nil => exact ⟨trivial, rfl, h₁⟩
    | cons holder rest => exact ⟨trivial, trivial, rfl, t.fair_step trivial h₁⟩

/-- The restore of a takeover fails as that of stock. -/
theorem Site.stock_fair (h : t.Fair due v) {now : ℕ} :
    ((onDevice (Device.Stock.new.restore now)).mapError RecoveryError.stock).Safe t.watched
      (fun _ => True) (fun r w => t.Fair due w ∧ ∀ e, r = .error e → ∃ source, e = .stock source)
      v := by
  refine Prog.Safe.mapError ((t.plain_safe (onDevice_plain _) h).mono (fun _ h => h)
    fun r w _ hw => ⟨hw, fun e he => ?_⟩)
  cases r with
  | ok _ => cases he
  | error source => exact ⟨source, (Except.error.inj he).symm⟩

/-- The journal decides. -/
theorem Site.judge_settled (h : t.Fair due v) :
    (do
      let text ← call (.journal JOURNAL_LINES)
      if contains text ATOMIC_COMMIT_FAILURE then Prog.fail .displayNotOwned
      else
        call .releaseWakelock
        return .started : RecoveryM Restored).Safe t.watched (fun _ => True) (t.Settled due) v := by
  refine ⟨trivial, ?_⟩
  have h₁ := t.fair_step (o := .journal JOURNAL_LINES) trivial h
  simp only [Prog.bind_done]
  split_ifs with hfail
  · refine ⟨trivial, fun hs => ⟨(h₁ hs).1, (h₁ hs).2.2.1, (h₁ hs).2.2.2, (h₁ hs).2.1, ?_⟩⟩
    have hfail : contains (t.handler (.journal JOURNAL_LINES) v.1).1 ATOMIC_COMMIT_FAILURE := hfail
    have hsee := (Bool.or_eq_false_iff.1 hs).1
    simp only [Site.see, hfail, if_true, Bool.or_eq_false_iff, Bool.not_eq_false'] at hsee
    exact hsee.2
  · refine t.release_settled h₁ (fun _ => ?_) _
    have hfail : ¬ contains (t.handler (.journal JOURNAL_LINES) v.1).1 ATOMIC_COMMIT_FAILURE := hfail
    simp [Site.watched, Site.see, hfail]

/-- A restore that succeeds has seen stock back; one that says that stock does not own the display has
seen its journal say so. -/
theorem Site.restore_settled (h : t.Fair due v) :
    StockRecovery.restore.Safe t.watched (fun _ => True) (t.Settled due) v := by
  refine ⟨trivial, ?_⟩
  have h₁ := t.fair_step (o := .recoveryLook) trivial h
  simp only [Prog.bind_done]
  cases hlook : (t.watched .recoveryLook v).1 with
  | error e => exact ⟨trivial, t.settled_stock h₁ e⟩
  | ok active =>
    cases active with
    | true =>
      refine t.release_settled h₁ (fun _ => ?_) _
      have hlook : (t.handler .recoveryLook v.1).1 = .ok true := hlook
      simp [Site.watched, Site.see, hlook]
    | false =>
      refine (t.reap_fair h₁).bind (fun _ v₂ h₂ => ?_) fun _ _ he => absurd he.1 (by simp)
      have h₃ := t.fair_step (o := .removeLock .registry) trivial h₂.2
      have h₄ := t.fair_step (o := .removeLock .epd) trivial h₃
      refine ⟨trivial, trivial, trivial, ?_⟩
      have h₅ := t.fair_step (o := .device .now) trivial h₄
      simp only [Prog.bind_done]
      refine (t.stock_fair h₅).bind (fun _ v₆ h₆ => ?_) fun e v₆ h₆ => ?_
      · exact t.judge_settled h₆.1
      · obtain ⟨source, rfl⟩ := h₆.2 e rfl
        exact t.settled_stock h₆.1 source

/-! ## Actions -/

variable {b : Bool} {s : Supervisor}

/-- An observation that stock is running waits in the queue, or did when the step began. -/
def Due (b : Bool) (s : Supervisor) : Prop := b = true ∨ .stockRunning ∈ s.queued

/-- What an action leaves. -/
def Site.Post (t : Site W) (b : Bool) (s : Supervisor) (r : Except Empty Supervisor)
    (v : W × Diary) : Prop :=
  ∃ s', r = .ok s' ∧ s'.machine = s.machine ∧ t.Fair (Due b s') v

theorem Site.report_ok {restored : Restored} {attempt : ℕ} (h : t.Settled due (.ok restored) v) :
    t.Fair due' (t.watched (.report attempt (.ok restored)) v).2 := by
  intro hs
  obtain ⟨hsee, hlose⟩ := Bool.or_eq_false_iff.1 hs
  obtain ⟨hl, hb, -, hseen⟩ := h hsee
  refine ⟨?_, rfl, fun _ => ?_, fun _ => hseen⟩
  · simp [Site.watched, Site.see, hl, hb hseen]
  · show t.back (t.handler _ v.1).2 = true
    simpa [Site.loses, hseen, hb hseen] using hlose

theorem Site.report_error {e : RecoveryError} {attempt : ℕ} (h : t.Settled due (.error e) v) :
    t.Fair due (t.watched (.report attempt (.error e)) v).2 := by
  intro hs
  obtain ⟨hsee, hlose⟩ := Bool.or_eq_false_iff.1 hs
  have hsur : v.2.surprised = false := by cases e <;> exact hsee
  obtain ⟨hl, hb, hd, hend⟩ := h hsur
  have hstays : v.2.seen = true → t.back (t.handler (.report attempt (.error e)) v.1).2 = true := by
    intro hseen
    simpa [Site.loses, hseen, hb hseen] using hlose
  cases e with
  | stock source => exact ⟨by simp [Site.watched, Site.see, hl, hend], rfl, hstays, hd⟩
  | displayNotOwned =>
    exact ⟨by simp [Site.watched, Site.see, hl, hend.1, hend.2], rfl, hstays, hd⟩

theorem Site.restore_post (h : t.Fair (Due b s) v) (attempt : ℕ) :
    (s.restore attempt).Safe t.watched (fun _ => True) (t.Post b s) v := by
  refine Prog.Safe.attempt_bind ((t.restore_settled h).mono (fun _ h => h) fun r w _ hq => ?_)
  cases r with
  | ok restored => exact ⟨trivial, trivial, _, rfl, rfl, t.report_ok hq⟩
  | error e =>
    refine ⟨trivial, trivial, trivial, _, rfl, rfl, ?_⟩
    refine (t.fair_step (o := .capture _) trivial (t.report_error hq)).mono fun hdue => ?_
    exact hdue.imp_right fun hmem => by simpa using hmem

/-- The supervisor is the same, but for what it queued about other things than stock. -/
def Alike (s s' : Supervisor) : Prop :=
  s'.machine = s.machine ∧ (.stockRunning ∈ s'.queued → .stockRunning ∈ s.queued)

theorem Site.post_of_alike {s' : Supervisor} (h : t.Fair (Due b s) v) (hs : Alike s s') :
    t.Post b s (.ok s') v :=
  ⟨s', rfl, hs.1, h.mono (Or.imp_right hs.2)⟩

theorem alike_refused {s' : Supervisor} (h : Alike s s') (owner : Foreground) :
    Alike s (s'.refused owner) :=
  ⟨h.1, fun hmem => h.2 (by simpa [Supervisor.refused] using hmem)⟩

theorem Site.units_post {s' : Supervisor} (hs : Alike s s') (owner : Foreground) (units : List String)
    (h : t.Fair (Due b s) v) :
    (s'.startUnits owner units).Safe t.watched (fun _ => True) (t.Post b s) v := by
  induction units generalizing v with
  | nil => exact ⟨trivial, t.post_of_alike h hs⟩
  | cons unit rest ih =>
    refine ⟨trivial, ?_⟩
    have h₁ := t.fair_step (o := .startUnit unit) trivial h
    simp only [Prog.bind_done]
    cases (t.watched (.startUnit unit) v).1 with
    | error e => exact ⟨trivial, t.post_of_alike h₁ (alike_refused hs owner)⟩
    | ok _ => exact ih h₁

theorem Site.session_post (h : t.Fair (Due b s) v) (owner : Foreground) :
    (s.startSession owner).Safe t.watched (fun _ => True) (t.Post b s) v := by
  have h₁ := t.fair_step (o := .device .now) trivial h
  refine ⟨trivial, Prog.Safe.attempt_bind ((t.plain_safe (onDevice_plain _) h₁).mono (fun _ h => h)
    fun r w _ h₂ => ?_)⟩
  cases r with
  | error e =>
    have hs : Alike s { s.refused owner with incoming := some owner } :=
      ⟨rfl, fun hmem => by simpa [Supervisor.refused] using hmem⟩
    exact ⟨trivial, t.post_of_alike h₂ hs⟩
  | ok _ =>
    have hs : Alike s { s with
        incoming := some owner, progress := some (owner, .new)
        sessionUnit := some (sessionUnitName owner) } := ⟨rfl, id⟩
    exact t.units_post hs owner _ h₂

theorem Site.start_post (h : t.Fair (Due b s) v) (target : Foreground) :
    (s.startForeground target).Safe t.watched (fun _ => True) (t.Post b s) v := by
  cases target with
  | stock =>
    have h₁ := t.fair_step (o := .stopUnit COMPOSITOR_UNIT) trivial h
    exact ⟨trivial, t.restore_post (s := { s with
      sessionUnit := none, progress := none, incoming := some .stock }) h₁ 1⟩
  | home => exact t.session_post h _
  | app id => exact t.session_post h _

theorem Site.terminate_post (h : t.Fair (Due b s) v) (reason : StopReason)
    (escalation : Escalation) :
    (s.terminate reason escalation).Safe t.watched (fun _ => True) (t.Post b s) v := by
  rw [Supervisor.terminate]
  cases s.sessionUnit with
  | none => exact ⟨trivial, t.post_of_alike h ⟨rfl, id⟩⟩
  | some unit =>
    have h₁ := t.fair_step (o := .stopUnit unit) trivial h
    have h₂ := t.fair_step (o := .stockPid) trivial h₁
    have h₃ := t.fair_step (o := .property unit "ControlGroup") trivial h₂
    refine ⟨trivial, trivial, trivial, trivial, ?_⟩
    simp only [Prog.bind_done]
    refine (t.plain_safe ?_ (t.fair_step (by trivial) h₃)).bind
      (fun _ w hw => ⟨trivial, t.post_of_alike hw ⟨rfl, id⟩⟩) fun e => e.elim
    unfold Supervisor.noteSurvivors
    split
    · exact call_plain (o := .recordSurvivors _ _) trivial
    · trivial

/-- What performing actions leaves. -/
def Site.Done (t : Site W) (b : Bool) (s : Supervisor)
    (r : Except Empty (Option Diagnosis × Supervisor)) (v : W × Diary) : Prop :=
  ∃ ended s', r = .ok (ended, s') ∧ s'.machine = s.machine ∧ t.Fair (Due b s') v

theorem Site.execute_done (h : t.Fair (Due b s) v) (action : Action) :
    (s.execute action).Safe t.watched (fun _ => True) (t.Done b s) v := by
  have hthen {p : HostM Supervisor} (hp : p.Safe t.watched (fun _ => True) (t.Post b s) v) :
      (do
        let s ← p
        return (none, s) : HostM (Option Diagnosis × Supervisor)).Safe t.watched (fun _ => True)
          (t.Done b s) v := by
    refine hp.bind (fun s' w hq => ?_) fun e => e.elim
    obtain ⟨_, heq, hm, hf⟩ := hq
    cases heq
    exact ⟨trivial, none, s', rfl, hm, hf⟩
  cases action with
  | startForeground target deadline => exact hthen (t.start_post h target)
  | terminateSession reason escalation => exact hthen (t.terminate_post h reason escalation)
  | releaseDisplay =>
    have h₁ := t.fair_step (o := .removeLock .registry) trivial h
    have h₂ := t.fair_step (o := .removeLock .epd) trivial h₁
    exact ⟨trivial, trivial, trivial, none, s, rfl, rfl, h₂⟩
  | restoreStock attempt deadline => exact hthen (t.restore_post h attempt)
  | captureDiagnostics reason =>
    exact ⟨trivial, trivial, none, s, rfl, rfl, t.fair_step (o := .capture _) trivial h⟩
  | halt diagnosis =>
    exact ⟨trivial, trivial, some diagnosis, s, rfl, rfl, t.fair_step (o := .capture _) trivial h⟩

theorem Site.perform_done (h : t.Fair (Due b s) v) (actions : List Action) :
    (s.perform actions).Safe t.watched (fun _ => True) (t.Done b s) v := by
  induction actions generalizing s v with
  | nil => exact ⟨trivial, none, s, rfl, rfl, h⟩
  | cons action rest ih =>
    refine (t.execute_done h action).bind (fun p w hq => ?_) fun e => e.elim
    obtain ⟨ended, s', heq, hm, hf⟩ := hq
    cases heq
    cases ended with
    | some diagnosis => exact ⟨trivial, some diagnosis, s', rfl, hm, hf⟩
    | none =>
      refine (ih hf).mono (fun _ h => h) fun r z _ hr => ?_
      obtain ⟨ended, s'', rfl, hm', hf'⟩ := hr
      exact ⟨ended, s'', rfl, hm'.trans hm, hf'⟩

theorem Site.react_done (h : t.Fair (Due b s) v) (event : Event) :
    (s.react event).Safe t.watched (fun _ => True) (fun r w => ∃ ended s' now, r = .ok (ended, s') ∧
      s'.machine = (s.machine.handle event now).2 ∧ t.Fair (Due b s') w) v := by
  have h₁ := t.fair_step (o := .instant) trivial h
  refine ⟨trivial, (t.perform_done (s := { s with
    machine := (s.machine.handle event (t.watched .instant v).1).2 }) h₁ _).mono (fun _ h => h)
      fun r w _ hr => ?_⟩
  obtain ⟨ended, s', rfl, hm, hf⟩ := hr
  exact ⟨ended, s', _, rfl, hm, hf⟩

/-! ## Passes -/

theorem stockRunning_not_mem_progressEvents {owner : Foreground} {stall : ℕ} {w : ProgressWatch}
    {p : Poll} : .stockRunning ∉ (progressEvents owner stall w p).1 := by
  unfold progressEvents
  dsimp only
  split <;> simp

theorem stockRunning_not_mem_commandEvents (command : Option String) :
    .stockRunning ∉ Supervisor.commandEvents command := by
  unfold Supervisor.commandEvents
  repeat' split
  all_goals simp

/-- What the unit of the session says is not about stock. -/
def Site.Collected (t : Site W) (due : Prop) (s : Supervisor)
    (r : Except Empty (List Event × Supervisor)) (v : W × Diary) : Prop :=
  ∃ observed s', r = .ok (observed, s') ∧ s'.machine = s.machine ∧ s'.queued = s.queued ∧
    .stockRunning ∉ observed ∧ t.Fair due v

theorem shown_plain : Supervisor.compositorReportsAClientForeground.Only HostOp.Plain := by
  refine (call_plain (o := .compositorStatus) trivial).bind fun status => ?_
  cases status <;> trivial

theorem exitKind_plain (unit : String) : (Supervisor.exitKind unit).Only HostOp.Plain :=
  ⟨trivial, fun _ => ⟨trivial, fun _ => ⟨trivial, fun _ => trivial⟩⟩⟩

theorem Site.poll_collected (h : t.Fair due v) (owner : Foreground) :
    (s.pollProgress owner).Safe t.watched (fun _ => True) (t.Collected due s) v := by
  unfold Supervisor.pollProgress
  split
  · exact ⟨trivial, [], s, rfl, rfl, rfl, List.not_mem_nil, h⟩
  · next writer watch _ =>
    have h₁ := t.fair_step (o := .device .now) trivial h
    have h₂ := t.fair_step (o := .witness writer) trivial h₁
    exact ⟨trivial, trivial, trivial, _, _, rfl, rfl, rfl, stockRunning_not_mem_progressEvents, h₂⟩

theorem Site.session_collected (h : t.Fair due v) :
    s.collectSession.Safe t.watched (fun _ => True) (t.Collected due s) v := by
  unfold Supervisor.collectSession
  split
  · exact ⟨trivial, [], s, rfl, rfl, rfl, List.not_mem_nil, h⟩
  · next unit _ =>
    have h₁ := t.fair_step (o := .unitActive unit) trivial h
    refine ⟨trivial, ?_⟩
    simp only [Prog.bind_done]
    split_ifs
    · refine (t.plain_safe shown_plain h₁).bind (fun shown w hw => ?_) fun e => e.elim
      exact ⟨trivial, _, s, rfl, rfl, rfl, by cases shown <;> simp, hw⟩
    · refine (t.plain_safe shown_plain h₁).bind (fun shown w hw => ?_) fun e => e.elim
      split_ifs
      · exact ⟨trivial, _, s, rfl, rfl, rfl, by simp, hw⟩
      · exact t.poll_collected hw _
    · refine (t.plain_safe (exitKind_plain unit) h₁).bind (fun status w hw => ?_) fun e => e.elim
      exact ⟨trivial, _, s, rfl, rfl, rfl, by simp, hw⟩
    · exact ⟨trivial, [], s, rfl, rfl, rfl, List.not_mem_nil, h₁⟩

/-- Stock is observed in a switch only where it was seen. -/
theorem Site.stock_collected (h : t.Fair due v) :
    s.collectStock.Safe t.watched (fun _ => True) (fun r w => ∃ stock, r = .ok stock ∧
      t.Fair (due ∨ .stockRunning ∈ stock) w) v := by
  unfold Supervisor.collectStock
  split_ifs
  · have h₁ := t.fair_step (o := .stockActive) trivial h
    refine ⟨trivial, trivial, _, rfl, ?_⟩
    cases hup : (t.handler .stockActive v.1).1 with
    | false =>
      refine h₁.mono fun hdue => hdue.resolve_right ?_
      simp [Site.watched, hup]
    | true =>
      intro hs
      obtain ⟨hl, hw, hb, -⟩ := h₁ hs
      exact ⟨hl, hw, hb, fun _ => by simp [Site.watched, Site.see, hup]⟩
  · exact ⟨trivial, [], rfl, h.mono (by simp)⟩

theorem Site.collect_done (h : t.Fair (.stockRunning ∈ s.queued) v) :
    s.collect.Safe t.watched (fun _ => True) (fun r w => ∃ events s', r = .ok (events, s') ∧
      s'.machine = s.machine ∧ t.Fair (.stockRunning ∈ s'.queued ++ events) w) v := by
  have hcommand : Supervisor.takeCommand.Only HostOp.Plain := by
    refine (call_plain (o := .readCommand) trivial).bind fun raw => ?_
    cases raw with
    | none => trivial
    | some raw => exact (call_plain (o := .removeCommand) trivial).bind fun _ => trivial
  refine (t.plain_safe hcommand h).bind (fun command v₁ h₁ => ?_) fun e => e.elim
  refine (t.session_collected (s := { s with queued := [] }) h₁).bind (fun p v₂ h₂ => ?_) fun e => e.elim
  obtain ⟨observed, s', heq, hm, hq, hobs, hf⟩ := h₂
  cases heq
  refine (t.stock_collected (s := s') hf).bind (fun stock v₃ h₃ => ?_) fun e => e.elim
  obtain ⟨_, heq, hf'⟩ := h₃
  cases heq
  refine ⟨trivial, _, s', rfl, hm, hf'.mono fun hmem => ?_⟩
  have hcmd := stockRunning_not_mem_commandEvents command
  simpa [hq, hobs, hcmd] using hmem

/-! ## Runs -/

/-- A machine leaves a recovery for stock only when it is told that stock is running. -/
theorem leaves_told {m : Machine} {event : Event} {now : ℕ} (hm : Shape m)
    (hr : m.state = .recovering) (hs : (m.handle event now).2.state = .stock) :
    event = .stockRunning := by
  have he : Effect m now (.event event) (m.handle event now).1 (m.handle event now).2 :=
    step_effect m ⟨.event event, now⟩
  generalize (m.handle event now).1 = actions at he
  generalize (m.handle event now).2 = m' at he hs
  have hstay : m.state ≠ .stock := by rw [hr]; decide
  cases he with
  | same => exact absurd hs hstay
  | marked => exact absurd hs hstay
  | arrived event mark p _ hp =>
    have := hm.pending.1 (by rw [hp]; rfl)
    rw [hr] at this
    cases this
  | restored => rfl
  | began _ _ hne => exact absurd hr hne
  | recover _ _ _ hne => exact absurd hr hne
  | counted => exact absurd hs hstay
  | again => exact absurd hs hstay
  | halted => cases hs

/-- What holds between two events. -/
structure Site.Sound (t : Site W) (x : Situation (W × Diary)) : Prop where
  shape : Shape x.sup.machine
  fair : x.world.2.surprised = false → x.world.2.lied = false ∧ x.world.2.woken = false ∧
    (x.waits = true → t.back x.world.1 = true)

/-- What a step leaves that was fair to its end. -/
theorem Site.sound_of_fair {x y : Situation (W × Diary)} (hm : Shape y.sup.machine)
    (hf : t.Fair due y.world) (hw : y.waits = true → due) (hl : leaves x y = true → due) :
    t.Sound { y with world := (y.world.1, { y.world.2 with
      lied := y.world.2.lied || y.world.2.woken || (leaves x y && !t.back y.world.1) }) } := by
  refine ⟨hm, fun hs => ?_⟩
  obtain ⟨hlied, hwoken, hb, hd⟩ := hf hs
  refine ⟨?_, hwoken, fun hwaits => hb (hd (hw hwaits))⟩
  cases hleaves : leaves x y with
  | false => simp [hlied, hwoken]
  | true => simp [hlied, hwoken, hb (hd (hl hleaves))]

theorem Site.leaves_of_eq {x y : Situation (W × Diary)} (h : y.sup.machine = x.sup.machine) :
    leaves x y = false := by
  rw [Site.leaves, h]
  cases x.sup.machine.state <;> rfl

/-- What happens next keeps what holds. -/
theorem Site.Sound.next {x : Situation (W × Diary)} (h : t.Sound x) : t.Sound (t.next x) := by
  obtain ⟨x₀, hx₀⟩ : ∃ x₀, x₀ = { x with world := (x.world.1, { x.world.2 with seen := x.waits }) } :=
    ⟨_, rfl⟩
  have hfair : t.Fair (x.waits = true) x₀.world := by
    subst hx₀
    intro hs
    obtain ⟨hl, hw, hb⟩ := h.fair hs
    exact ⟨hl, hw, hb, id⟩
  have hqueue : .stockRunning ∈ x.sup.queued → x.waits = true := by
    simp +contextual [Situation.waits]
  have hsup : x₀.sup = x.sup := by rw [hx₀]
  have hev : x₀.events = x.events := by rw [hx₀]
  have hend : x₀.ended = x.ended := by rw [hx₀]
  rw [Site.next, ← hx₀, Situation.next]
  cases hended : x.ended with
  | some diagnosis =>
    rw [hend, hended]
    refine t.sound_of_fair (hsup ▸ h.shape) hfair (fun hw => ?_) fun hl => ?_
    · rwa [Situation.waits, hsup, hev] at hw
    · rw [Site.leaves_of_eq (by rw [hsup])] at hl
      cases hl
  | none =>
    rw [hend, hended, hev]
    cases hevents : x.events with
    | nil =>
      obtain ⟨events, sup, w, ⟨events', sup', heq, hm, hf⟩, hpass⟩ :=
        Situation.pass_of_safe (t.collect_done (s := x₀.sup) (hfair.mono (hsup ▸ hqueue)))
      cases heq
      rw [hsup] at hm
      simp only [hpass]
      refine t.sound_of_fair (y := ⟨sup, events, none, w⟩) (hm ▸ h.shape) hf (fun hw => ?_) fun hl => ?_
      · simpa [Situation.waits] using hw
      · rw [Site.leaves_of_eq hm] at hl
        cases hl
    | cons event rest =>
      obtain ⟨ended, sup, w, ⟨ended', sup', now, heq, hm, hf⟩, hturn⟩ :=
        Situation.turn_of_safe (r := rest) (t.react_done (s := x₀.sup) (b := x.waits)
          (hfair.mono fun hdue => hdue.elim id (hsup ▸ hqueue)) event)
      cases heq
      rw [hsup] at hm
      simp only [hturn]
      refine t.sound_of_fair (y := ⟨sup, rest, ended, w⟩)
        (hm ▸ h.shape.effect (step_effect _ ⟨.event event, now⟩)) hf
        (fun hw => ?_) fun hl => ?_
      · rw [Situation.waits, List.contains_iff_mem, List.mem_append] at hw
        refine hw.symm.imp_left fun hr => ?_
        simp [Situation.waits, hevents, hr]
      · rw [Site.leaves, Bool.and_eq_true, beq_iff_eq, beq_iff_eq] at hl
        have htold := leaves_told h.shape hl.1 (hm ▸ hl.2)
        exact .inl (by simp [Situation.waits, hevents, htold])

/-- Whatever the stock unit, its journal and everybody else do: no restore reports a success that is
none, or that stock does not own the display without its journal saying so; the machine leaves no
recovery for a stock that is not back; and no wakelock is released for nothing, as long as what was
seen of stock is so, and stays so until it has had its effect. -/
theorem restores_are_true (t : Site W) (budget : Budget) (policy : FailurePolicy) (progressStall : ℕ)
    (w : W) (n : ℕ)
    (h : (t.runs (.new budget policy progressStall) w n).world.2.surprised = false) :
    (t.runs (.new budget policy progressStall) w n).world.2.lied = false := by
  have hsound : t.Sound (t.runs (.new budget policy progressStall) w n) := by
    clear h
    induction n with
    | zero => exact ⟨shape_new _ _, fun _ => ⟨rfl, rfl, fun hw => by cases hw⟩⟩
    | succ n ih => exact ih.next
  exact (hsound.fair h).1

end

/-! ## A retry -/

/-- A tablet on which a session never comes up, and stock comes up at once. -/
structure Lab where
  active : Bool
  journal : List JournalEntry
  command : Option String
  /-- Something else holds the display. -/
  contested : Bool

namespace Lab

def deviceStep : (op : Device.DeviceOp) → Lab → op.Ret × Lab
  | .health, s => (⟨s.active, [], true, none⟩, s)
  | .preflight, s | .acquireWake, s | .arm _, s | .disarm, s | .resetFailed, s => (.ok (), s)
  | .stop, s => (.ok (), { s with active := false })
  | .start, s => (.ok (), { s with
      active := true
      journal := s.journal ++ [.started] ++
        if s.contested then [.message ATOMIC_COMMIT_FAILURE] else [] })
  | .captureLocks, s => (.ok ⟨none, false⟩, s)
  | .isActive, s | .waitActive _, s => (.ok s.active, s)
  | .releaseWake, s | .dropWatchdog, s => ((), s)
  | .readStarts, s | .readRegistry, s => (none, s)
  | .writeStarts _, s | .writeRegistry _, s | .removeRegistry, s => (.ok (), s)
  | .epdExists, s => (false, s)
  | .looks, s | .now, s => (0, s)

/-- The text of some entries. -/
def text (entries : List JournalEntry) : String :=
  String.join (entries.map fun entry => match entry with
    | .started => "Started\n"
    | .message text => text ++ "\n")

def step : (op : HostOp) → Lab → op.Ret × Lab
  | .device op, s => deviceStep op s
  | .instant, s => (0, s)
  | .recoveryLook, s => (.ok s.active, s)
  | .stockActive, s => (s.active, s)
  | .unitActive _, s => (false, s)
  | .startUnit unit, s => (.ok (), { s with active := s.active && unit != SESSION_TARGET })
  | .stopUnit _, s => (.ok (), s)
  | .property _ _, s | .compositorStatus, s | .witness _, s => (none, s)
  | .stockPid, s => (none, s)
  | .terminateTree _ _ _, s => (none, s)
  | .drmHolders, s => (none, s)
  | .journal lines, s => (text (s.journal.drop (s.journal.length - lines)), s)
  | .readCommand, s => (s.command, s)
  | .removeCommand, s => ((), { s with command := none })
  | .recordSurvivors _ _, s | .removeLock _, s | .terminateHolders _ _, s | .releaseWakelock, s
  | .capture _, s | .report _ _, s => ((), s)

def site : Site Lab := ⟨step, Lab.active, Lab.journal⟩

/-- Somebody asks for Home. -/
def homeAsked (contested : Bool) : Lab := ⟨true, [.started], some "home", contested⟩

/-- A policy that allows a second attempt. -/
def policy : FailurePolicy :=
  { FailurePolicy.default with restoreAttempts := 2, restoreAttempts_le := by decide }

end Lab

/-- Home does not come up, and stock does: the machine is back at stock. -/
theorem home_fails_truly :
    (Lab.site.runs (.new .default Lab.policy 0) (Lab.homeAsked false) 8).world.2.lied = false :=
  restores_are_true Lab.site .default Lab.policy 0 (Lab.homeAsked false) 8 (by decide +kernel)

/-- The first attempt finds the failure in the journal. The second finds stock active, and says that
it was restored. -/
theorem retried_restore_lies : ¬ ∀ (W : Type) (t : Site W) (budget : Budget) (policy : FailurePolicy)
    (progressStall : ℕ) (w : W) (n : ℕ),
    (t.runs (.new budget policy progressStall) w n).world.2.lied = false := fun h =>
  absurd (h Lab Lab.site .default Lab.policy 0 (Lab.homeAsked true) 8) (by decide +kernel)

end Paperclip.Host
