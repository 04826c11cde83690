import Paperclip.Host.Restores

/-!
# The registration of stock

The vendor lock files say who owns the display. While stock is active they are its own, and nobody
else is to remove them.

* `Machine.givesUp`: the events on which the machine releases the display, `releaseDisplay_mem_iff`.
* `ReleasesFirst`: actions that release the display, if at all, before anything is started.
* `Scene`: a tablet with a stock unit, and nothing assumed of it. `Scene.runs`: the supervisor, with
  the moments at which a lock is removed.
* `locks_removed_while_down`: stock is down at each of them, if it was when that was decided.
* `refused_session_unregisters_stock`: a switch that never took stock down.
-/

namespace Paperclip.Host

open Crash

/-! ## Releasing the display -/

namespace Machine

/-- Stock is in the foreground, and nobody else is on the way there. -/
def atStock (m : Machine) : Bool := m.foreground == .stock && m.pending.isNone

/-- The events that make a machine recover, or hand the display to stock. -/
def givesUp (m : Machine) (event : Event) (now : ℕ) : Bool :=
  m.state != .recovering && m.state != .failed && match event with
    | .switchRequested to_ => to_ == .stock && !m.atStock
    | .sessionExited owner status =>
      m.ours owner && owner != .stock && (status.isFailure || !m.atStock)
    | .progressStalled owner _ => m.foreground == owner && m.state.ownsDisplay
    | .displayHostLost => m.state != .stock
    | .tick => m.pending.any fun p => p.deadline ≤ now
    | _ => false

end Machine

/-- Whether some actions release the display. -/
def Releases (actions : List Action) : Prop := .releaseDisplay ∈ actions

section

variable {m : Machine} {now : ℕ}

theorem releases_enterRecovery (hs : m.state ≠ .recovering) (reason : StopReason) :
    Releases (m.enterRecovery reason now).1 := by
  simp [Releases, Machine.enterRecovery, hs]

theorem releases_beginSwitch (hs : m.state ≠ .recovering) (to_ : Foreground) :
    Releases (m.beginSwitch to_ now).1 ↔ to_ = .stock ∧ m.atStock = false := by
  unfold Machine.beginSwitch Machine.atStock
  by_cases hto : to_ = .stock
  · subst hto
    by_cases hat : m.foreground = .stock ∧ m.pending = none
    · simp [Releases, hs, hat]
    · have hat' : (m.foreground == .stock && m.pending.isNone) = false := by
        simpa [Bool.eq_false_iff] using hat
      cases hown : m.state.ownsDisplay <;> simp [Releases, hs, hat, hat']
  · split_ifs <;> simp [Releases, hto]

theorem releases_observe (mark : Pending → Pending) : ¬ Releases (m.observe mark).1 := by
  unfold Machine.observe Machine.settle
  repeat' split
  all_goals simp [Releases]

theorem releases_restoreFailed (reason : String) : ¬ Releases (m.restoreFailed reason now).1 := by
  unfold Machine.restoreFailed Machine.halt
  dsimp only
  split <;> simp [Releases]

theorem releases_recoveryExpired : ¬ Releases (m.recoveryExpired now).1 := by
  unfold Machine.recoveryExpired
  repeat' split
  · simp [Releases]
  · exact releases_restoreFailed _
  · simp [Releases]

theorem releases_sessionExited (hs : m.state ≠ .recovering) (owner : Foreground)
    (status : ExitKind) : Releases (m.sessionExited owner status now).1 ↔
      (m.ours owner && owner != .stock && (status.isFailure || !m.atStock)) = true := by
  unfold Machine.sessionExited
  by_cases hours : m.ours owner = false ∨ owner = .stock
  · rcases hours with hours | hours <;> simp [Releases, hours]
  · rw [if_neg hours]
    rw [not_or, Bool.not_eq_false] at hours
    cases hfails : status.isFailure with
    | false => simp [hours, releases_beginSwitch hs]
    | true =>
      rw [if_neg (by simp)]
      unfold Machine.enterRecovery
      dsimp only
      rw [if_neg hs]
      split <;> simp [Releases, hours]

/-- A recovery that goes on releases nothing. -/
theorem Effect.not_releases {m' : Machine} {input : Input} {actions : List Action}
    (he : Effect m now input actions m') (hs : m.state = .recovering) : ¬ Releases actions := by
  cases he with
  | began _ _ hne => exact absurd hs hne
  | recover _ _ _ hne => exact absurd hs hne
  | counted _ extra _ hx =>
    intro hmem
    cases hx _ hmem
  | retried hf => rw [hs] at hf; cases hf
  | _ => simp [Releases, Machine.halt]

/-- A machine releases the display on these events, and on no others. -/
theorem releaseDisplay_mem_iff (event : Event) :
    Releases (m.handle event now).1 ↔ m.givesUp event now = true := by
  unfold Machine.handle Machine.givesUp
  by_cases hf : m.state = .failed
  · simp [Releases, hf]
  rw [if_neg hf]
  by_cases hs : m.state = .recovering
  · have he := (step_effect m ⟨.event event, now⟩).not_releases hs
    simp only [Machine.step, Machine.handle, if_neg hf] at he
    simp [he, hs]
  have hopen : (m.state != .recovering && m.state != .failed) = true := by simp [hs, hf]
  rw [hopen, Bool.true_and]
  cases event with
  | switchRequested to_ => simp [releases_beginSwitch hs]
  | processReady | displayOwned | displayReleased => simp [releases_observe]
  | stockRunning => simp [Machine.stockRunning, hs, releases_observe]
  | sessionExited owner status => exact releases_sessionExited hs owner status
  | progressStalled owner stalledFor =>
    dsimp only
    unfold Machine.progressStalled
    split_ifs with hn
    · rcases hn with hn | hn <;> simp [Releases, hn]
    · rw [not_or, not_not, Bool.not_eq_false] at hn
      simp [releases_enterRecovery hs, hn]
  | displayHostLost =>
    dsimp only
    unfold Machine.displayHostLost
    split_ifs with hn
    · simp [Releases, hn.resolve_right hf]
    · rw [not_or] at hn
      simp [releases_enterRecovery hs, hn]
  | restoreFailed reason => simp [releases_restoreFailed]
  | tick =>
    dsimp only
    unfold Machine.tick
    cases m.pending with
    | none => simp [releases_recoveryExpired]
    | some p =>
      dsimp only
      split_ifs with hdue
      · simp [releases_enterRecovery hs, hdue]
      · simp [releases_recoveryExpired, hdue]

/-- The actions after which no release is due. -/
def Action.clears : Action → Bool
  | .releaseDisplay | .startForeground _ _ | .restoreStock _ _ => true
  | _ => false

/-- Actions that release the display only if that is due, and before anything is started. -/
def ReleasesFirst : Bool → List Action → Bool
  | _, [] => true
  | due, action :: rest =>
    (due || action != .releaseDisplay) && ReleasesFirst (due && !action.clears) rest

theorem releasesFirst_captured {due : Bool} {reason : StopReason} {extra : List Action}
    (hx : ∀ action ∈ extra, action = .captureDiagnostics reason) : ReleasesFirst due extra = true := by
  induction extra with
  | nil => rfl
  | cons action rest ih =>
    obtain ⟨rfl, hrest⟩ := List.forall_mem_cons.1 hx
    simpa [ReleasesFirst, Action.clears] using ih hrest

/-- What a machine does releases the display at most once, and before it starts anything. -/
theorem Effect.spends {m' : Machine} {input : Input} {actions : List Action} {due : Bool}
    (he : Effect m now input actions m') (hd : Releases actions → due = true) :
    ReleasesFirst due actions = true := by
  cases he with
  | began to_ =>
    unfold Machine.switchActions at hd ⊢
    by_cases hto : to_ = .stock
    · have hdue : due = true := hd (by simp [Releases, hto])
      cases m.state.ownsDisplay <;> simp [ReleasesFirst, Action.clears, hto, hdue]
    · cases m.state.ownsDisplay <;> simp [ReleasesFirst, Action.clears, hto]
  | recover _ _ extra _ _ hx =>
    have hdue : due = true := hd (by simp [Releases, Machine.recoveryActions])
    simpa [ReleasesFirst, Action.clears, Machine.recoveryActions, hdue] using releasesFirst_captured hx
  | counted _ extra _ hx => exact releasesFirst_captured hx
  | retried =>
    have hdue : due = true := hd (by simp [Releases, Machine.recoveryActions])
    simp [ReleasesFirst, Action.clears, Machine.recoveryActions, hdue]
  | again => simp [ReleasesFirst]
  | halted => simp [ReleasesFirst, Machine.halt]
  | _ => rfl

end

/-! ## The stock unit -/

/-- A tablet: what it answers, and its stock unit. -/
structure Scene (W : Type) where
  handler : Handler hostSig W
  active : W → Bool

/-- What is noted beside a world. -/
structure Vigil where
  /-- Stock was to be down, and the locks are still there. -/
  watching : Bool
  /-- Stock was not down, or came up. -/
  surprised : Bool
  /-- A lock was removed while stock was active. -/
  lied : Bool
  deriving DecidableEq, Repr

/-- Whether a step removes a lock. -/
def HostOp.removes : HostOp → Bool
  | .removeLock _ | .device .removeRegistry => true
  | _ => false

namespace Scene

variable {W : Type} (t : Scene W)

/-- What a step adds. A lock is removed as the step begins. -/
def see (s : Step hostSig W) (d : Vigil) : Vigil :=
  match s with
  | ⟨.recoveryLook, .ok false, _, after⟩ =>
    { d with watching := true, surprised := d.surprised || t.active after }
  | ⟨.removeLock .epd, _, before, _⟩ =>
    { d with watching := false, lied := d.lied || t.active before }
  | ⟨op, _, before, _⟩ => { d with lied := d.lied || op.removes && t.active before }

/-- Stock was down, and is active. -/
def starts (s : Step hostSig W) (d : Vigil) : Bool :=
  d.watching && !t.active s.before && t.active s.after

/-- The tablet with what is noted. -/
def watched : Handler hostSig (W × Vigil) := fun op x =>
  ((t.handler op x.1).1, (t.handler op x.1).2,
    let s : Step hostSig W := ⟨op, (t.handler op x.1).1, x.1, (t.handler op x.1).2⟩
    let d := t.see s x.2
    { d with surprised := d.surprised || t.starts s d })

/-- Whether the next event makes the machine recover, or hand the display to stock. -/
def gives (x : Situation (W × Vigil)) : Bool :=
  match x.ended, x.events with
  | none, event :: _ => x.sup.machine.givesUp event (t.handler .instant x.world.1).1
  | _, _ => false

/-- What happens next, with what is noted. -/
def next (x : Situation (W × Vigil)) : Situation (W × Vigil) :=
  Situation.next t.watched { x with world := (x.world.1, { x.world.2 with
    watching := t.gives x
    surprised := x.world.2.surprised || t.gives x && t.active x.world.1 }) }

/-- A supervisor from its beginning. -/
def runs (sup : Supervisor) (w : W) : ℕ → Situation (W × Vigil)
  | 0 => ⟨sup, [], none, w, ⟨false, false, false⟩⟩
  | n + 1 => t.next (runs sup w n)

end Scene

/-! ## What a step keeps -/

section

variable {W : Type} {t : Scene W} {v : W × Vigil} {due due' : Bool}

/-- Stock was down where a lock was removed, and is where one is to be. -/
def Scene.Fair (t : Scene W) (due : Bool) (v : W × Vigil) : Prop :=
  v.2.surprised = false → v.2.lied = false ∧ (v.2.watching = true → t.active v.1 = false) ∧
    (due = true → v.2.watching = true)

theorem Scene.Fair.spent (h : t.Fair due v) : t.Fair false v :=
  fun hs => ⟨(h hs).1, (h hs).2.1, nofun⟩

/-- Steps that remove nothing. -/
def Spares (op : HostOp) : Prop := op.removes = false

/-- What such a step notes. -/
theorem Scene.see_spares {s : Step hostSig W} (hp : Spares s.op) (d : Vigil) :
    (t.see s d).lied = d.lied ∧ (d.watching = true → (t.see s d).watching = true) ∧
      ((t.see s d).surprised = false → d.surprised = false ∧
        ((t.see s d).watching = true → d.watching = true ∨ t.active s.after = false)) := by
  obtain ⟨op, ret, before, after⟩ := s
  cases op
  case removeLock => cases hp
  case recoveryLook =>
    rcases ret with e | _ | _ <;> simp +contextual [Scene.see, HostOp.removes]
  case device op =>
    have hp : (HostOp.device op).removes = false := hp
    simp +contextual [Scene.see, hp]
  all_goals simp +contextual [Scene.see, HostOp.removes]

/-- Stock does not come up unnoticed. -/
theorem Scene.stays_down {o : HostOp} {d : Vigil}
    (hs : t.starts ⟨o, (t.handler o v.1).1, v.1, (t.handler o v.1).2⟩ d = false)
    (hw : d.watching = true) (hdown : t.active v.1 = false) :
    t.active (t.watched o v).2.1 = false := by
  show t.active (t.handler o v.1).2 = false
  simpa [Scene.starts, hw, hdown] using hs

theorem Scene.fair_step {o : HostOp} (hp : Spares o) (h : t.Fair due v) :
    t.Fair due (t.watched o v).2 := by
  intro hs
  obtain ⟨hlied, hkeep, hnew⟩ :=
    t.see_spares (s := ⟨o, (t.handler o v.1).1, v.1, (t.handler o v.1).2⟩) hp v.2
  obtain ⟨hsee, hstart⟩ := Bool.or_eq_false_iff.1 hs
  obtain ⟨hsur, hwatch⟩ := hnew hsee
  obtain ⟨hl, hdown, hdue⟩ := h hsur
  refine ⟨hlied.trans hl, fun hw => ?_, fun hd => hkeep (hdue hd)⟩
  rcases hwatch hw with hold | hlater
  · exact t.stays_down hstart hw (hdown hold)
  · exact hlater

/-- A part that removes nothing. -/
theorem Scene.spares_safe {ε α : Type} {p : Prog hostSig ε α} (hp : p.Only Spares)
    (h : t.Fair due v) : p.Safe t.watched (fun _ => True) (fun _ => t.Fair due) v :=
  (Prog.Safe.of_only hp (fun _ _ hq hv => t.fair_step hq hv) h).mono (fun _ _ => trivial)
    fun _ _ _ h => h

/-- The locks are removed where stock is down. -/
theorem Scene.remove_fair (h : t.Fair true v) :
    t.Fair false (t.watched (.removeLock .epd) (t.watched (.removeLock .registry) v).2).2 := by
  intro hs
  obtain ⟨hsee₂, -⟩ := Bool.or_eq_false_iff.1 hs
  obtain ⟨hsee₁, hstart⟩ := Bool.or_eq_false_iff.1 hsee₂
  obtain ⟨hl, hdown, hdue⟩ := h hsee₁
  have hdown₁ := hdown (hdue rfl)
  have hdown₂ := t.stays_down (v := v) hstart (hdue rfl) hdown₁
  refine ⟨?_, nofun, nofun⟩
  show ((v.2.lied || t.active v.1) || t.active (t.handler (.removeLock .registry) v.1).2) = false
  rw [hl, hdown₁]
  exact hdown₂

/-! ## The parts of the supervisor -/

theorem call_spares {ε : Type} {o : HostOp} (ho : Spares o) :
    (call o : Prog hostSig ε o.Ret).Only Spares := Prog.only_ask.2 ho

theorem restore_spares (stock : Device.Stock) (now : ℕ) :
    (onDevice (stock.restore now)).Only Spares := by
  have htry : (Device.Stock.tryStart now).Only fun op => Spares (.device op) := by
    have hrecord : (Device.StartBudget.record now).Only fun op => Spares (.device op) :=
      ⟨rfl, fun _ => ⟨rfl, fun _ => Prog.only_ofExcept⟩⟩
    have honce : (Device.Stock.startOnce now).Only fun op => Spares (.device op) :=
      ⟨rfl, fun _ => Prog.only_ofExcept.bind fun _ => hrecord.bind fun _ =>
        ⟨rfl, fun _ => Prog.only_ofExcept⟩⟩
    exact honce.bind fun _ => ⟨rfl, fun _ => Prog.only_ofExcept⟩
  refine Prog.Only.embed ⟨rfl, fun _ => Prog.only_ofExcept.bind fun active => ?_⟩
  split_ifs
  · trivial
  refine htry.bind fun active => ?_
  split_ifs
  · trivial
  refine htry.bind fun active => ?_
  split_ifs <;> trivial

/-- A restore that is told that stock is down removes the locks at once. -/
theorem Scene.look_fair (h : t.Fair due v) (hdown : (t.handler .recoveryLook v.1).1 = .ok false) :
    t.Fair true (t.watched .recoveryLook v).2 := by
  intro hs
  obtain ⟨hl, hw, -⟩ := t.fair_step (o := .recoveryLook) rfl h hs
  exact ⟨hl, hw, fun _ => by simp [Scene.watched, Scene.see, hdown]⟩

theorem reap_spares : StockRecovery.reapStrayDrmHolders.Only Spares := by
  refine (call_spares (o := .drmHolders) rfl).bind fun holders => ?_
  rcases holders with _ | _ | ⟨holder, rest⟩
  · trivial
  · trivial
  · exact call_spares rfl

theorem Scene.restore_fair (h : t.Fair due v) :
    StockRecovery.restore.Safe t.watched (fun _ => True) (fun _ => t.Fair false) v := by
  refine ⟨trivial, ?_⟩
  have h₁ := (t.fair_step (o := .recoveryLook) rfl h).spent
  simp only [Prog.bind_done]
  cases hlook : (t.watched .recoveryLook v).1 with
  | error e => exact ⟨trivial, h₁⟩
  | ok active =>
    cases active with
    | true => exact ⟨trivial, trivial, t.fair_step (o := .releaseWakelock) rfl h₁⟩
    | false =>
      refine (t.spares_safe reap_spares (t.look_fair h hlook)).bind (fun _ v₂ h₂ => ?_)
        fun _ _ h₂ => h₂.spent
      refine ⟨trivial, trivial, t.spares_safe ?_ (t.remove_fair h₂)⟩
      refine (call_spares (o := .device .now) rfl).bind fun now => ?_
      refine (restore_spares _ now).mapError.bind fun _ => ?_
      refine (call_spares (o := .journal JOURNAL_LINES) rfl).bind fun text => ?_
      split_ifs
      · trivial
      · exact (call_spares (o := .releaseWakelock) rfl).bind fun _ => trivial

/-! ## Actions -/

variable {s : Supervisor}

theorem units_spares (owner : Foreground) (units : List String) :
    (s.startUnits owner units).Only Spares := by
  induction units with
  | nil => trivial
  | cons unit rest ih =>
    refine (call_spares (o := .startUnit unit) rfl).bind fun started => ?_
    cases started with
    | error e => trivial
    | ok _ => exact ih

theorem session_spares (owner : Foreground) : (s.startSession owner).Only Spares := by
  have hallowed (now : ℕ) : (onDevice (Device.StartBudget.allowsSession now)).Only Spares := by
    refine Prog.Only.embed ⟨rfl, fun contents => ?_⟩
    simp only [Prog.bind_done]
    split_ifs <;> trivial
  refine (call_spares (o := .device .now) rfl).bind fun now => ?_
  refine (hallowed now).attempt.bind fun allowed => ?_
  cases allowed with
  | error e => trivial
  | ok _ => exact units_spares owner _

theorem terminate_spares (reason : StopReason) (escalation : Escalation) :
    (s.terminate reason escalation).Only Spares := by
  rw [Supervisor.terminate]
  cases s.sessionUnit with
  | none => trivial
  | some unit =>
    refine (call_spares (o := .stopUnit unit) rfl).bind fun _ => ?_
    refine (call_spares (o := .stockPid) rfl).bind fun pid => ?_
    refine (call_spares (o := .property unit "ControlGroup") rfl).bind fun cgroup => ?_
    refine (call_spares (o := .terminateTree _ _ _) rfl).bind fun swept => ?_
    refine Prog.Only.bind ?_ fun _ => trivial
    unfold Supervisor.noteSurvivors
    split
    · exact call_spares rfl
    · trivial

/-- Bringing stock back and reporting it leaves nothing due. -/
theorem Scene.back_fair (h : t.Fair due v) (attempt : ℕ) :
    (s.restore attempt).Safe t.watched (fun _ => True) (fun _ => t.Fair false) v := by
  refine Prog.Safe.attempt_bind ((t.restore_fair h).mono (fun _ h => h) fun r w _ hw => ?_)
  refine t.spares_safe ?_ hw
  cases r with
  | ok restored => exact (call_spares (o := .report _ _) rfl).bind fun _ => trivial
  | error e =>
    refine (call_spares (o := .report _ _) rfl).bind fun _ => ?_
    exact (call_spares (o := .capture _) rfl).bind fun _ => trivial

theorem Scene.start_fair (h : t.Fair due v) (target : Foreground) :
    (s.startForeground target).Safe t.watched (fun _ => True) (fun _ => t.Fair false) v := by
  cases target with
  | stock => exact ⟨trivial, t.back_fair (t.fair_step (o := .stopUnit COMPOSITOR_UNIT) rfl h) 1⟩
  | home => exact t.spares_safe (session_spares _) h.spent
  | app id => exact t.spares_safe (session_spares _) h.spent

theorem Scene.execute_fair {action : Action} (h : t.Fair due v)
    (ha : action = .releaseDisplay → due = true) :
    (s.execute action).Safe t.watched (fun _ => True)
      (fun _ => t.Fair (due && !action.clears)) v := by
  have hthen {p : HostM Supervisor} {d : Bool}
      (hp : p.Safe t.watched (fun _ => True) (fun _ => t.Fair d) v) :
      (do
        let s ← p
        return (none, s) : HostM (Option Diagnosis × Supervisor)).Safe t.watched (fun _ => True)
          (fun _ => t.Fair d) v :=
    hp.bind (fun _ _ h => ⟨trivial, h⟩) fun _ _ h => h
  have hcapture (reason : String) (ended : Option Diagnosis) : (do
      call (.capture reason)
      return (ended, s) : HostM (Option Diagnosis × Supervisor)).Only Spares :=
    (call_spares (o := .capture reason) rfl).bind fun _ => trivial
  generalize hd : (due && !action.clears) = d
  cases action with
  | startForeground target deadline =>
    obtain rfl : d = false := by simpa [Action.clears] using hd.symm
    exact hthen (t.start_fair h target)
  | terminateSession reason escalation =>
    obtain rfl : d = due := by simpa [Action.clears] using hd.symm
    exact hthen (t.spares_safe (terminate_spares reason escalation) h)
  | releaseDisplay =>
    obtain rfl : d = false := by simpa [Action.clears] using hd.symm
    obtain rfl : due = true := ha rfl
    exact ⟨trivial, trivial, trivial, t.remove_fair h⟩
  | restoreStock attempt deadline =>
    obtain rfl : d = false := by simpa [Action.clears] using hd.symm
    exact hthen (t.back_fair h attempt)
  | captureDiagnostics reason =>
    obtain rfl : d = due := by simpa [Action.clears] using hd.symm
    exact t.spares_safe (hcapture _ none) h
  | halt diagnosis =>
    obtain rfl : d = due := by simpa [Action.clears] using hd.symm
    exact t.spares_safe (hcapture _ (some diagnosis)) h

/-- What is due is spent by the action that releases the display. -/
theorem Scene.perform_fair {actions : List Action} (h : t.Fair due v)
    (ha : ReleasesFirst due actions = true) :
    (s.perform actions).Safe t.watched (fun _ => True) (fun _ => t.Fair false) v := by
  induction actions generalizing s v due with
  | nil => exact ⟨trivial, h.spent⟩
  | cons action rest ih =>
    rw [ReleasesFirst, Bool.and_eq_true] at ha
    refine (t.execute_fair h fun hrel => ?_).bind (fun p w hw => ?_) fun _ _ hw => hw.spent
    · simpa [hrel] using ha.1
    · obtain ⟨ended, s'⟩ := p
      cases ended with
      | some diagnosis => exact ⟨trivial, hw.spent⟩
      | none => exact ih hw ha.2

/-! ## Passes -/

theorem collect_spares : s.collect.Only Spares := by
  have hcommand : Supervisor.takeCommand.Only Spares := by
    refine (call_spares (o := .readCommand) rfl).bind fun raw => ?_
    cases raw with
    | none => trivial
    | some raw => exact (call_spares (o := .removeCommand) rfl).bind fun _ => trivial
  have hstock (s : Supervisor) : s.collectStock.Only Spares := by
    unfold Supervisor.collectStock
    split_ifs
    · exact (call_spares (o := .stockActive) rfl).bind fun _ => trivial
    · trivial
  refine hcommand.bind fun command => ?_
  refine Prog.Only.bind ?_ fun p => (hstock p.2).bind fun _ => trivial
  unfold Supervisor.collectSession
  split
  · trivial
  · next unit _ =>
    have hshown : Supervisor.compositorReportsAClientForeground.Only Spares := by
      refine (call_spares (o := .compositorStatus) rfl).bind fun status => ?_
      cases status <;> trivial
    have hexit : (Supervisor.exitKind unit).Only Spares :=
      ⟨rfl, fun _ => ⟨rfl, fun _ => ⟨rfl, fun _ => trivial⟩⟩⟩
    refine (call_spares (o := .unitActive unit) rfl).bind fun active => ?_
    split_ifs
    · exact hshown.bind fun _ => trivial
    · refine hshown.bind fun shown => ?_
      split_ifs
      · trivial
      · unfold Supervisor.pollProgress
        split
        · trivial
        · exact ⟨rfl, fun _ => ⟨rfl, fun _ => trivial⟩⟩
    · exact hexit.bind fun _ => trivial
    · trivial

/-- An event on which the display is given up finds stock down, and so do the removals. -/
theorem Scene.react_fair (h : t.Fair due v) (event : Event)
    (hd : due = s.machine.givesUp event (t.handler .instant v.1).1) :
    (s.react event).Safe t.watched (fun _ => True) (fun _ => t.Fair false) v := by
  refine ⟨trivial, t.perform_fair (t.fair_step (o := .instant) rfl h) ?_⟩
  refine (step_effect s.machine ⟨.event event, _⟩).spends fun hrel => ?_
  rw [hd]
  exact (releaseDisplay_mem_iff event).1 hrel

/-- What happens next keeps what was fair. -/
theorem Scene.next_fair {x : Situation (W × Vigil)} (h : t.Fair false x.world) :
    t.Fair false (t.next x).world := by
  obtain ⟨x₀, hx₀⟩ : ∃ x₀, x₀ = { x with world := (x.world.1, { x.world.2 with
      watching := t.gives x
      surprised := x.world.2.surprised || t.gives x && t.active x.world.1 }) } := ⟨_, rfl⟩
  have hfair : t.Fair (t.gives x) x₀.world := by
    subst hx₀
    intro hs
    obtain ⟨hsur, hgive⟩ := Bool.or_eq_false_iff.1 hs
    exact ⟨(h hsur).1, fun hw => by simpa [show t.gives x = true from hw] using hgive, id⟩
  have hgives : t.gives x = t.gives x₀ := by rw [hx₀]; rfl
  rw [Scene.next, ← hx₀, Situation.next]
  cases hended : x₀.ended with
  | some diagnosis => exact hfair.spent
  | none =>
    cases hevents : x₀.events with
    | nil =>
      obtain ⟨events, sup, w, hw, hpass⟩ :=
        Situation.pass_of_safe (t.spares_safe (collect_spares (s := x₀.sup)) hfair.spent)
      simp only [hpass]
      exact hw
    | cons event rest =>
      have hdue : t.gives x = x₀.sup.machine.givesUp event (t.handler .instant x₀.world.1).1 := by
        rw [hgives, Scene.gives, hended, hevents]
      obtain ⟨ended, sup, w, hw, hturn⟩ :=
        Situation.turn_of_safe (r := rest) (t.react_fair (s := x₀.sup) hfair event hdue)
      simp only [hturn]
      exact hw

/-- Whatever the tablet answers, and whoever stops and starts stock in between: the supervisor
removes the vendor locks only while stock is not active, as long as stock is not active when an event
makes the machine recover or hand the display over, nor after a restore was told so, and does not
come up before the locks are gone. -/
theorem locks_removed_while_down (t : Scene W) (budget : Budget) (policy : FailurePolicy)
    (progressStall : ℕ) (w : W) (n : ℕ)
    (h : (t.runs (.new budget policy progressStall) w n).world.2.surprised = false) :
    (t.runs (.new budget policy progressStall) w n).world.2.lied = false := by
  have hfair : t.Fair false (t.runs (.new budget policy progressStall) w n).world := by
    clear h
    induction n with
    | zero => exact fun _ => ⟨rfl, nofun, nofun⟩
    | succ n ih => exact t.next_fair ih
  exact (hfair h).1

end

/-! ## A switch that never took stock down -/

namespace Lab

/-- Units are started as asked. -/
def scene : Scene Lab := ⟨step, active⟩

/-- The target of sessions is refused, so it does not take stock down. -/
def refusing : Scene Lab where
  handler op s := match op with
    | .startUnit _ => (.error "refused", s)
    | op => step op s
  active := active

end Lab

/-- The target took stock down, and Home failed. -/
theorem failed_session_clears_locks :
    (Lab.scene.runs (.new .default .default 0) (Lab.homeAsked false) 8).world.2.lied = false :=
  locks_removed_while_down Lab.scene .default .default 0 (Lab.homeAsked false) 8
    (by decide +kernel)

/-- Stock is still up, and the recovery removes its registration. -/
theorem refused_session_unregisters_stock : ¬ ∀ (W : Type) (t : Scene W) (budget : Budget)
    (policy : FailurePolicy) (progressStall : ℕ) (w : W) (n : ℕ),
    (t.runs (.new budget policy progressStall) w n).world.2.lied = false := fun h =>
  absurd (h Lab Lab.refusing .default .default 0 (Lab.homeAsked false) 8) (by decide +kernel)

end Paperclip.Host
