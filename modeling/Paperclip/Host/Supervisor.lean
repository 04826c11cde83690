import Paperclip.Host.Progress
import Paperclip.Host.Recovery

/-!
# The supervisor

The machine decides, and the supervisor does: it collects what happened, hands it to the machine, and
performs what the machine asks for.

* `Supervisor.collect`: everything that happened since the last pass.
* `Supervisor.execute`: one action. `Supervisor.react`: one event, and all its actions.
* `Situation`, `Situation.next`: a supervisor between two events, and what happens next.
-/

namespace Paperclip.Host

open Crash Packages
open Device (DeviceError)

/-! ## Names -/

def SESSION_TARGET : String := "paperclip-session.target"

def COMPOSITOR_UNIT : String := "paperclip-compositor.service"

/-- The unit of an owner. -/
def sessionUnitName : Foreground → String
  | .stock => SESSION_TARGET
  | .home => "paperclip-app@home.service"
  | .app id => s!"paperclip-app@{id.text}.service"

/-- Why a session is being stopped, for a person. -/
def StopReason.description : StopReason → String
  | switching => "switching foreground owner"
  | crashed => "foreground session crashed"
  | hung => "foreground session stopped making progress"
  | displayLost => "display host died under the session"
  | switchTimedOut => "switch did not complete inside its deadline"

/-- Why the machine gave up, for a person. -/
def Diagnosis.summary : Diagnosis → String
  | stockUnavailable lastReason attempts =>
    s!"stock Xochitl could not be restored after {attempts} attempt(s): {lastReason}"
  | repeatedSessionFailures failures window =>
    s!"the foreground session failed {failures} times within {window / second}s; not retrying"

/-! ## The supervisor -/

structure Supervisor where
  machine : Machine
  /-- The witness that is watched, by the owner that writes it. -/
  progress : Option (Foreground × ProgressWatch)
  sessionUnit : Option String
  /-- What actions observed, for the next pass. -/
  queued : List Event
  /-- Who is being brought up. -/
  incoming : Option Foreground
  progressStall : ℕ

namespace Supervisor

/-- A supervisor that believes that stock owns the display. -/
def new (budget : Budget) (policy : FailurePolicy) (progressStall : ℕ) : Supervisor :=
  ⟨.new budget policy, none, none, [], none, progressStall⟩

/-- Takes the command that somebody left. -/
def takeCommand : HostM (Option String) := do
  let raw ← call .readCommand
  match raw with
  | none => return none
  | some raw =>
    call .removeCommand
    let command := trim raw.toList
    return if command = [] then none else some (String.ofList command)

/-- What a command asks for. -/
def commandEvents (command : Option String) : List Event :=
  match command with
  | none => []
  | some command =>
    if command = "stock" ∨ command = "stop" then [.switchRequested .stock]
    else if command = "home" then [.switchRequested .home]
    else match stripPrefix "app ".toList command.toList with
      | none => []
      | some id =>
        match AppId.parse (String.ofList (trim id)) with
        | none => []
        | some app => [.switchRequested (.app app)]

/-- The owner every observation of a pass is about. -/
def owner (s : Supervisor) : Foreground :=
  if s.machine.state = .switching then s.incoming.getD s.machine.foreground
  else s.machine.foreground

/-- The lines of a text. -/
def lines (text : List Char) : List (List Char) := text.splitOn '\n'

/-- Whether the compositor says that a client is in the foreground. -/
def compositorReportsAClientForeground : HostM Bool := do
  let status ← call .compositorStatus
  match status with
  | none => return false
  | some raw =>
    return ((lines raw.toList).findSome? (stripPrefix "foreground=".toList)).any
      fun value => "client:".toList.isPrefixOf value

/-- A number of 32 bits, with a sign. -/
def parseI32 (text : String) : Option ℤ :=
  match text.toList with
  | '-' :: digits =>
    if digits.head? = some '+' then none
    else (parseU64 digits).bind fun n => if n ≤ 2147483648 then some (-n) else none
  | digits => (parseU64 digits).bind fun n => if n ≤ 2147483647 then some n else none

/-- How the process of a unit ended. -/
def exitKind (unit : String) : HostM ExitKind := do
  let result ← call (.property unit "Result")
  let code ← call (.property unit "ExecMainCode")
  let status ← call (.property unit "ExecMainStatus")
  let result := result.getD ""
  let code := (code.bind parseI32).getD 0
  let status := (status.bind parseI32).getD 0
  return if code = 2 ∨ code = 3 then .signal
    else if result ∈ ["signal", "core-dump", "watchdog", "oom-kill"] then .signal
    else if result = "timeout" then .forcedByDeadline
    else if result = "success" ∧ status = 0 then .clean
    else .error

/-- What the witness of the session says, where one is watched. -/
def pollProgress (s : Supervisor) (owner : Foreground) : HostM (List Event × Supervisor) :=
  match s.progress with
  | none => return ([], s)
  | some (writer, watch) => do
    let now ← call (.device .now)
    let file ← call (.witness writer)
    let (events, watch) := progressEvents owner s.progressStall watch ⟨now, file⟩
    return (events, { s with progress := some (writer, watch) })

/-- What the unit of the session says, where there is one. -/
def collectSession (s : Supervisor) : HostM (List Event × Supervisor) :=
  match s.sessionUnit with
  | none => return ([], s)
  | some unit => do
    let owner := s.owner
    let active ← call (.unitActive unit)
    if active then
      let shown ← compositorReportsAClientForeground
      if s.machine.state.ownsDisplay = false then
        return (.processReady owner :: (if shown then [.displayOwned owner] else []), s)
      else if shown = false then return ([.displayHostLost], s)
      else s.pollProgress owner
    else if s.machine.state.ownsDisplay ∨ s.machine.state = .switching then
      let status ← exitKind unit
      return ([.sessionExited owner status], s)
    else return ([], s)

/-- Whether stock came up in the middle of a switch. -/
def collectStock (s : Supervisor) : HostM (List Event) :=
  if s.machine.state = .switching ∧ s.machine.foreground ≠ .stock then do
    let active ← call .stockActive
    return if active then [.stockRunning] else []
  else return []

/-- Everything that happened since the last pass. -/
def collect (s : Supervisor) : HostM (List Event × Supervisor) := do
  let queued := s.queued
  let s := { s with queued := [] }
  let command ← takeCommand
  let (observed, s) ← s.collectSession
  let stock ← s.collectStock
  return (queued ++ [.tick] ++ commandEvents command ++ observed ++ stock, s)

/-- Restores stock, and notes what that observed. -/
def restore (s : Supervisor) (attempt : ℕ) : HostM Supervisor := do
  match ← StockRecovery.restore.attempt with
  | .ok outcome =>
    call (.report attempt (.ok outcome))
    return { s with queued := s.queued ++ [.stockRunning, .displayReleased] }
  | .error error =>
    call (.report attempt (.error error))
    call (.capture s!"restore attempt {attempt}: {error.text}")
    return { s with queued := s.queued ++ [.restoreFailed error.text] }

/-- Notes that a session did not start. -/
def refused (s : Supervisor) (owner : Foreground) : Supervisor :=
  { s with queued := s.queued ++ [.sessionExited owner .error] }

/-- Starts units in turn. One that is refused ends the attempt. -/
def startUnits (s : Supervisor) (owner : Foreground) : List String → HostM Supervisor
  | [] => return s
  | unit :: rest => do
    match ← call (.startUnit unit) with
    | .error _ => return s.refused owner
    | .ok _ => s.startUnits owner rest

/-- Brings a session up. Its target takes stock down, so stock must have starts to spare. -/
def startSession (s : Supervisor) (other : Foreground) : HostM Supervisor := do
  let now ← call (.device .now)
  match ← (onDevice (Device.StartBudget.allowsSession now)).attempt with
  | .error _ => return { s.refused other with incoming := some other }
  | .ok _ =>
    let unit := sessionUnitName other
    let s := { s with
      incoming := some other, progress := some (other, .new), sessionUnit := some unit }
    s.startUnits other [SESSION_TARGET, COMPOSITOR_UNIT, unit]

/-- Brings an owner up. -/
def startForeground (s : Supervisor) (target : Foreground) : HostM Supervisor :=
  match target with
  | .stock => do
    let s := { s with sessionUnit := none, progress := none, incoming := some .stock }
    -- A compositor that does not stop is left to the restore.
    let _ ← call (.stopUnit COMPOSITOR_UNIT)
    s.restore 1
  | other => s.startSession other

/-- Notes what a sweep did not end. -/
def noteSurvivors (reason : StopReason) (swept : Option Termination) : HostM Unit :=
  match swept with
  | some ⟨false, survivors⟩ => call (.recordSurvivors reason survivors)
  | _ => return ()

/-- Stops the session, and then whatever outlived it. -/
def terminate (s : Supervisor) (reason : StopReason) (escalation : Escalation) :
    HostM Supervisor :=
  match s.sessionUnit with
  | none => return s
  | some unit => do
    let _ ← call (.stopUnit unit)
    let pid ← call .stockPid
    let cgroup ← call (.property unit "ControlGroup")
    let source := match cgroup with
      | some path => .cgroup path
      | none => .descendants
    let swept ← call (.terminateTree source pid.toList escalation)
    noteSurvivors reason swept
    return { s with progress := none }

/-- Removes the locks. -/
def releaseDisplay : HostM Unit := do
  call (.removeLock .registry)
  call (.removeLock .epd)

/-- Performs one action. A diagnosis ends the run. -/
def execute (s : Supervisor) (action : Action) : HostM (Option Diagnosis × Supervisor) :=
  match action with
  | .startForeground target _ => do
    let s ← s.startForeground target
    return (none, s)
  | .terminateSession reason escalation => do
    let s ← s.terminate reason escalation
    return (none, s)
  | .releaseDisplay => do
    releaseDisplay
    return (none, s)
  | .restoreStock attempt _ => do
    let s ← s.restore attempt
    return (none, s)
  | .captureDiagnostics reason => do
    call (.capture reason.description)
    return (none, s)
  | .halt diagnosis => do
    call (.capture diagnosis.summary)
    return (some diagnosis, s)

/-- Performs actions in turn, until one ends the run. -/
def perform (s : Supervisor) : List Action → HostM (Option Diagnosis × Supervisor)
  | [] => return (none, s)
  | action :: rest => do
    let (ended, s) ← s.execute action
    match ended with
    | some diagnosis => return (some diagnosis, s)
    | none => s.perform rest

/-- Hands an event to the machine, and does what it says. -/
def react (s : Supervisor) (event : Event) : HostM (Option Diagnosis × Supervisor) := do
  let now ← call .instant
  let (actions, machine) := s.machine.handle event now
  { s with machine }.perform actions

end Supervisor

/-! ## Runs -/

/-- A supervisor between two events, and the world that it is in. -/
structure Situation (W : Type) where
  sup : Supervisor
  /-- What is left of this pass. -/
  events : List Event
  ended : Option Diagnosis
  world : W

namespace Situation

variable {W : Type}

/-- The beginning of a pass. -/
def pass (h : Handler hostSig W) (x : Situation W) : Situation W :=
  match x.sup.collect.run h x.world with
  | (.ok (events, sup), w) => ⟨sup, events, none, w⟩
  | (.error e, _) => e.elim

/-- One event of a pass. -/
def turn (h : Handler hostSig W) (x : Situation W) (event : Event) (rest : List Event) :
    Situation W :=
  match (x.sup.react event).run h x.world with
  | (.ok (ended, sup), w) => ⟨sup, rest, ended, w⟩
  | (.error e, _) => e.elim

/-- The next event of a pass, or else the next pass. -/
def next (h : Handler hostSig W) (x : Situation W) : Situation W :=
  match x.ended with
  | some _ => x
  | none =>
    match x.events with
    | [] => x.pass h
    | event :: rest => x.turn h event rest

variable {h : Handler hostSig W} {C : W → Prop} {x : Situation W}

theorem next_nil (hended : x.ended = none) (hevents : x.events = []) : x.next h = x.pass h := by
  rw [next, hended, hevents]

theorem next_cons {event : Event} {rest : List Event} (hended : x.ended = none)
    (hevents : x.events = event :: rest) : x.next h = x.turn h event rest := by
  rw [next, hended, hevents]

theorem pass_of_safe {Q : Except Empty (List Event × Supervisor) → W → Prop}
    (hs : x.sup.collect.Safe h C Q x.world) : ∃ events sup w, Q (.ok (events, sup)) w ∧
      x.pass h = ⟨sup, events, none, w⟩ := by
  have hq := hs.result
  rw [pass]
  generalize x.sup.collect.run h x.world = outcome at hq ⊢
  obtain ⟨e | ⟨events, sup⟩, w⟩ := outcome
  · exact e.elim
  · exact ⟨events, sup, w, hq, rfl⟩

theorem turn_of_safe {event : Event} {r : List Event}
    {Q : Except Empty (Option Diagnosis × Supervisor) → W → Prop}
    (hs : (x.sup.react event).Safe h C Q x.world) : ∃ ended sup w, Q (.ok (ended, sup)) w ∧
      x.turn h event r = ⟨sup, r, ended, w⟩ := by
  have hq := hs.result
  rw [turn]
  generalize (x.sup.react event).run h x.world = outcome at hq ⊢
  obtain ⟨e | ⟨ended, sup⟩, w⟩ := outcome
  · exact e.elim
  · exact ⟨ended, sup, w, hq, rfl⟩

end Situation

end Paperclip.Host
