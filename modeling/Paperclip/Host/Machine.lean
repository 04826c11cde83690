import Paperclip.Packages.Manifest

/-!
# The foreground state machine

Events go in, actions come out, and the time is the caller's. Times and durations are nanoseconds.

* `Machine.handle`: what an event does. `Machine.operatorRetry`: what only a person can do.
* `Pending`: a switch that has begun and not yet arrived; `Pending.arrived`: what it waits for.
* `Recovery`: a restore of stock in flight. `Ledger`: the recent failures of the foreground.
* `Moment`, `Turn`, `Machine.turns`: a run, with what each input found, did and left.
-/

namespace Paperclip.Host

open Packages

/-- Where the foreground is, or is going. -/
inductive SessionState where
  | stock
  | switching
  | home
  | app
  | recovering
  | failed
  deriving DecidableEq, Repr

/-- Whether a session is expected to be holding the panel. -/
def SessionState.ownsDisplay : SessionState → Bool
  | home | app => true
  | _ => false

/-- Who the foreground owner is. -/
inductive Foreground where
  | stock
  | home
  | app (id : AppId)
  deriving DecidableEq, Repr

/-- The state of this owner once it has arrived. -/
def Foreground.arrivedState : Foreground → SessionState
  | stock => .stock
  | home => .home
  | app _ => .app

/-- How a supervised process ended. -/
inductive ExitKind where
  | clean
  | error
  | signal
  | forcedByDeadline
  deriving DecidableEq, Repr

/-- Whether the ledger counts this exit. -/
def ExitKind.isFailure : ExitKind → Bool
  | clean => false
  | _ => true

/-- Something that was observed. -/
inductive Event where
  | switchRequested (to_ : Foreground)
  | processReady (owner : Foreground)
  | displayOwned (owner : Foreground)
  | displayReleased
  | stockRunning
  | sessionExited (owner : Foreground) (status : ExitKind)
  | progressStalled (owner : Foreground) (stalledFor : ℕ)
  | displayHostLost
  | restoreFailed (reason : String)
  | tick
  deriving DecidableEq, Repr

/-- How hard to try when stopping a session. -/
structure Escalation where
  grace : ℕ
  force : ℕ
  deriving DecidableEq, Repr

/-- Why a session is being stopped. -/
inductive StopReason where
  | switching
  | crashed
  | hung
  | displayLost
  | switchTimedOut
  deriving DecidableEq, Repr

/-- Why the machine gave up. -/
inductive Diagnosis where
  | stockUnavailable (lastReason : String) (attempts : ℕ)
  | repeatedSessionFailures (failures : ℕ) (window : ℕ)
  deriving DecidableEq, Repr

/-- What the runtime must do next. -/
inductive Action where
  | startForeground (target : Foreground) (deadline : ℕ)
  | terminateSession (reason : StopReason) (escalation : Escalation)
  | releaseDisplay
  | restoreStock (attempt : ℕ) (deadline : ℕ)
  | captureDiagnostics (reason : StopReason)
  | halt (diagnosis : Diagnosis)
  deriving DecidableEq, Repr

/-- Deadlines. -/
structure Budget where
  switch : ℕ
  gracefulStop : ℕ
  forceStop : ℕ
  restore : ℕ
  deriving DecidableEq, Repr

def second : ℕ := 1000000000

def Budget.default : Budget := ⟨8 * second, 5 * second, 5 * second, 30 * second⟩

def Budget.escalation (budget : Budget) : Escalation := ⟨budget.gracefulStop, budget.forceStop⟩

def U32_MAX : ℕ := 4294967295

/-- How many times to try before stopping. The two counts are 32 bits wide. -/
structure FailurePolicy where
  restoreAttempts : ℕ
  sessionFailures : ℕ
  failureWindow : ℕ
  restoreAttempts_le : restoreAttempts ≤ U32_MAX
  sessionFailures_le : sessionFailures ≤ U32_MAX

def FailurePolicy.default : FailurePolicy := ⟨1, 3, 120 * second, by decide, by decide⟩

/-- A switch that has begun and not yet arrived. -/
structure Pending where
  target : Foreground
  deadline : ℕ
  processReady : Bool
  displayOwned : Bool
  stockRunning : Bool
  displayReleased : Bool
  deriving DecidableEq, Repr

namespace Pending

def new (target : Foreground) (deadline : ℕ) : Pending :=
  ⟨target, deadline, false, false, false, false⟩

/-- Whether everything this switch promised has been observed. -/
def arrived (p : Pending) : Bool :=
  match p.target with
  | .stock => p.stockRunning && p.displayReleased
  | _ => p.processReady && p.displayOwned

end Pending

/-- A recovery in flight. -/
structure Recovery where
  attempt : ℕ
  deadline : ℕ
  lastReason : String
  deriving DecidableEq, Repr

/-- The times of the recent failures. -/
abbrev Ledger := List ℕ

/-- Adds a failure, and counts those inside the window. -/
def Ledger.record (ledger : Ledger) (at_ window : ℕ) : ℕ × Ledger :=
  let failures := (ledger ++ [at_]).filter fun seen => at_ - seen ≤ window
  (min failures.length U32_MAX, failures)

/-- The foreground state machine. -/
structure Machine where
  state : SessionState
  foreground : Foreground
  budget : Budget
  policy : FailurePolicy
  pending : Option Pending
  recovery : Option Recovery
  stopping : Option ℕ
  ledger : Ledger
  diagnosis : Option Diagnosis

namespace Machine

/-- A machine that believes that stock owns the display. -/
def new (budget : Budget) (policy : FailurePolicy) : Machine :=
  ⟨.stock, .stock, budget, policy, none, none, none, [], none⟩

/-- Whether the failures spent their budget. -/
def isRepeated : Option Diagnosis → Bool
  | some (.repeatedSessionFailures _ _) => true
  | _ => false

/-- Whether the foreground may be relaunched after this recovery. -/
def mayRelaunch (m : Machine) : Bool := !isRepeated m.diagnosis && m.state != .failed

/-- The next moment at which a tick could change anything. -/
def nextDeadline (m : Machine) : Option ℕ :=
  [m.pending.map (·.deadline), m.recovery.map (·.deadline),
    m.stopping.map (· + m.budget.gracefulStop + m.budget.forceStop)].reduceOption.min?

/-- Stops. -/
def halt (m : Machine) (diagnosis : Diagnosis) : List Action × Machine :=
  ([.halt diagnosis], { m with
    state := .failed, recovery := none, pending := none, stopping := none
    diagnosis := some diagnosis })

/-- The single door into recovery. -/
def enterRecovery (m : Machine) (reason : StopReason) (now : ℕ) : List Action × Machine :=
  if m.state = .recovering then ([], m)
  else
    let deadline := now + m.budget.restore
    ([.captureDiagnostics reason, .terminateSession reason m.budget.escalation, .releaseDisplay,
        .restoreStock 1 deadline],
      { m with
        state := .recovering, pending := none, stopping := none
        recovery := some ⟨1, deadline, ""⟩ })

/-- Clears a terminal state, or a spent budget. -/
def operatorRetry (m : Machine) (now : ℕ) : List Action × Machine :=
  let cleared := { m with diagnosis := none, ledger := [] }
  if m.state = .failed then cleared.enterRecovery .crashed now else ([], cleared)

def beginSwitch (m : Machine) (to_ : Foreground) (now : ℕ) : List Action × Machine :=
  if m.state = .recovering then ([], m)
  else if to_ ≠ .stock ∧ m.mayRelaunch = false then ([], m)
  else if m.foreground = to_ ∧ m.pending = none then ([], m)
  else
    let deadline := now + m.budget.switch
    let terminated := if m.state.ownsDisplay then
      [.terminateSession .switching m.budget.escalation] else []
    let released := if to_ = .stock then [.releaseDisplay] else []
    (terminated ++ released ++ [.startForeground to_ deadline],
      { m with
        pending := some (.new to_ deadline), state := .switching
        stopping := if m.state.ownsDisplay then some now else m.stopping })

/-- Completes a switch, if every clause of it has been observed. -/
def settle (m : Machine) : List Action × Machine :=
  match m.pending with
  | none => ([], m)
  | some p =>
    if p.arrived then
      let state := p.target.arrivedState
      ([], { m with
        foreground := p.target, state, pending := none, stopping := none
        ledger := if state = .stock then [] else m.ledger })
    else ([], m)

/-- Marks the pending switch, and completes it if it can be. -/
def observe (m : Machine) (mark : Pending → Pending) : List Action × Machine :=
  match m.pending with
  | none => ([], m)
  | some p => { m with pending := some (mark p) }.settle

def stockRunning (m : Machine) : List Action × Machine :=
  if m.state = .recovering then
    ([], { m with
      recovery := none, stopping := none, pending := none, state := .stock, foreground := .stock })
  else m.observe fun p => { p with stockRunning := true }

/-- Whether an owner is the confirmed foreground, or the pending one. -/
def ours (m : Machine) (owner : Foreground) : Bool :=
  m.foreground == owner || m.pending.any fun p => p.target == owner

def sessionExited (m : Machine) (owner : Foreground) (status : ExitKind) (now : ℕ) :
    List Action × Machine :=
  if m.ours owner = false ∨ owner = .stock then ([], m)
  else if status.isFailure = false then m.beginSwitch .stock now
  else
    let (failures, ledger) := m.ledger.record now m.policy.failureWindow
    let (actions, recovering) := { m with ledger }.enterRecovery .crashed now
    if m.policy.sessionFailures ≤ failures then
      (actions ++ [.captureDiagnostics .crashed], { recovering with
        diagnosis := some (.repeatedSessionFailures failures m.policy.failureWindow) })
    else (actions, recovering)

def progressStalled (m : Machine) (owner : Foreground) (now : ℕ) : List Action × Machine :=
  if m.foreground ≠ owner ∨ m.state.ownsDisplay = false then ([], m)
  else m.enterRecovery .hung now

def displayHostLost (m : Machine) (now : ℕ) : List Action × Machine :=
  if m.state = .stock ∨ m.state = .failed then ([], m) else m.enterRecovery .displayLost now

def restoreFailed (m : Machine) (reason : String) (now : ℕ) : List Action × Machine :=
  let attempt := (m.recovery.map (·.attempt)).getD 1
  if m.policy.restoreAttempts ≤ attempt then m.halt (.stockUnavailable reason attempt)
  else
    let next := attempt + 1
    let deadline := now + m.budget.restore
    ([.restoreStock next deadline], { m with recovery := some ⟨next, deadline, reason⟩ })

/-- The recovery, if its deadline has come. -/
def recoveryExpired (m : Machine) (now : ℕ) : List Action × Machine :=
  match m.recovery with
  | none => ([], m)
  | some r =>
    if r.deadline ≤ now then
      m.restoreFailed s!"stock did not come back inside {m.budget.restore / second}s" now
    else ([], m)

def tick (m : Machine) (now : ℕ) : List Action × Machine :=
  match m.pending with
  | none => m.recoveryExpired now
  | some p => if p.deadline ≤ now then m.enterRecovery .switchTimedOut now else m.recoveryExpired now

/-- Feeds an observation in and gets the actions back. Nothing moves a machine that has failed. -/
def handle (m : Machine) (event : Event) (now : ℕ) : List Action × Machine :=
  if m.state = .failed then ([], m)
  else match event with
    | .switchRequested to_ => m.beginSwitch to_ now
    | .processReady owner => m.observe fun p =>
        if p.target = owner then { p with processReady := true } else p
    | .displayOwned owner => m.observe fun p =>
        if p.target = owner then { p with displayOwned := true } else p
    | .displayReleased => m.observe fun p => { p with displayReleased := true }
    | .stockRunning => m.stockRunning
    | .sessionExited owner status => m.sessionExited owner status now
    | .progressStalled owner _ => m.progressStalled owner now
    | .displayHostLost => m.displayHostLost now
    | .restoreFailed reason => m.restoreFailed reason now
    | .tick => m.tick now

end Machine

/-! ## Runs -/

/-- What a machine is given. -/
inductive Input where
  | event (event : Event)
  | operatorRetry
  deriving DecidableEq, Repr

/-- An input and its time. -/
structure Moment where
  input : Input
  now : ℕ
  deriving DecidableEq, Repr

/-- What a machine does with an input. -/
def Machine.step (m : Machine) (moment : Moment) : List Action × Machine :=
  match moment.input with
  | .event event => m.handle event moment.now
  | .operatorRetry => m.operatorRetry moment.now

/-- An input, what it found, what was done and what it left. -/
structure Turn extends Moment where
  before : Machine
  actions : List Action
  after : Machine

/-- The turn of a machine at a moment. -/
def Machine.turn (m : Machine) (moment : Moment) : Turn :=
  ⟨moment, m, (m.step moment).1, (m.step moment).2⟩

/-- Where a run ends. -/
def Machine.run (m : Machine) (moments : List Moment) : Machine :=
  moments.foldl (fun m moment => (m.step moment).2) m

/-- The turns of a run. -/
def Machine.turns (m : Machine) : List Moment → List Turn
  | [] => []
  | moment :: rest => m.turn moment :: (m.step moment).2.turns rest

namespace Machine

variable {m : Machine} {moments rest : List Moment} {moment : Moment} {turn : Turn}

theorem run_append : m.run (moments ++ rest) = (m.run moments).run rest :=
  List.foldl_append

theorem turns_append : m.turns (moments ++ rest) = m.turns moments ++ (m.run moments).turns rest := by
  induction moments generalizing m with
  | nil => rfl
  | cons moment moments ih => exact congrArg (m.turn moment :: ·) ih

theorem turns_concat : m.turns (moments ++ [moment]) = m.turns moments ++ [(m.run moments).turn moment] :=
  turns_append

theorem run_concat : m.run (moments ++ [moment]) = ((m.run moments).step moment).2 := run_append

theorem length_turns : (m.turns moments).length = moments.length := by
  induction moments generalizing m with
  | nil => rfl
  | cons moment moments ih => exact congrArg (· + 1) ih

/-- The turns before a point of a run are those of the moments before it. -/
theorem turns_eq_append {past later : List Turn} (h : m.turns moments = past ++ later) :
    ∃ before after, moments = before ++ after ∧ m.turns before = past ∧
      (m.run before).turns after = later := by
  refine ⟨moments.take past.length, moments.drop past.length, by simp, ?_⟩
  have hle : past.length ≤ moments.length := by
    rw [← length_turns (m := m), h]
    simp
  rw [← List.take_append_drop past.length moments, turns_append] at h
  exact List.append_inj h (by rw [length_turns]; simp [hle])

/-- A turn of a run is one at a moment of it, after a run of the moments before. -/
theorem turns_eq_append_cons {past future : List Turn}
    (h : m.turns moments = past ++ turn :: future) : ∃ before moment after,
      moments = before ++ moment :: after ∧ m.turns before = past ∧
        turn = (m.run before).turn moment ∧ (m.run (before ++ [moment])).turns after = future := by
  obtain ⟨before, after, rfl, hpast, hlater⟩ := turns_eq_append h
  cases after with
  | nil => cases hlater
  | cons moment after =>
    obtain ⟨hturn, hfuture⟩ := List.cons.inj hlater
    exact ⟨before, moment, after, rfl, hpast, hturn.symm, by rw [run_concat]; exact hfuture⟩

theorem mem_turns (h : turn ∈ m.turns moments) : ∃ before moment after,
    moments = before ++ moment :: after ∧ turn = (m.run before).turn moment := by
  obtain ⟨past, future, h⟩ := List.append_of_mem h
  obtain ⟨before, moment, after, hmoments, -, hturn, -⟩ := turns_eq_append_cons h
  exact ⟨before, moment, after, hmoments, hturn⟩

end Machine

end Paperclip.Host
