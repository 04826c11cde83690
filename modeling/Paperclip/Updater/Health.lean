import Mathlib.Algebra.Group.Nat.Defs
import Paperclip.Updater.Layout

/-!
# Grading a candidate release

The readiness ladder, and a bounded watch of a candidate that climbs it.

* `SessionOp`: everything a transaction does to the running system, and the clock.
* `watch`: looks at the session until it is ready, gone or out of time. It never retries.
-/

namespace Paperclip.Updater

open Crash Files

/-- How far a supervisor has got. -/
inductive Rung where
  | process
  | control
  | protocol
  | deviceAdapter
  | home
  | ready
  deriving DecidableEq, Repr

namespace Rung

/-- Every rung, lowest first. -/
def LADDER : List Rung := [process, control, protocol, deviceAdapter, home, ready]

/-- The name used in the status file and in reports. -/
def label : Rung → String
  | process => "process"
  | control => "control"
  | protocol => "protocol"
  | deviceAdapter => "device-adapter"
  | home => "home"
  | ready => "ready"

/-- Rungs are ordered as on the ladder. -/
def lt (a b : Rung) : Bool := LADDER.idxOf a < LADDER.idxOf b

/-- The rung above, if there is one. -/
def next (rung : Rung) : Option Rung := LADDER.find? fun above => rung.lt above

end Rung

/-- How long a candidate gets, and how often it is asked, in nanoseconds. -/
structure Budget where
  deadline : Nat
  poll : Nat
  deriving DecidableEq, Repr

def CLIMB_DEADLINE : Nat := 30 * 10 ^ 9

def Budget.default : Budget := ⟨CLIMB_DEADLINE, 250 * 10 ^ 6⟩

/-- One look at the session, from outside it. -/
structure Observation where
  alive : Bool
  reached : Option Rung
  protocol : Option Protocol.ProtocolVersion
  note : String
  deriving DecidableEq, Repr

/-- Nothing there. -/
def Observation.absent : Observation := ⟨false, none, none, ""⟩

/-- Why a candidate was refused. -/
structure Unhealthy where
  reached : Rung
  stalledAt : Rung
  note : String
  died : Bool
  deriving DecidableEq, Repr

/-- How a candidate did. -/
structure HealthReport where
  reached : Rung
  healthy : Bool
  died : Bool
  elapsed : Nat
  note : String
  deriving DecidableEq, Repr

/-- The failure, if this is one. -/
def HealthReport.failure (report : HealthReport) : Option Unhealthy :=
  if report.healthy then none
  else some ⟨report.reached, report.reached.next.getD .ready, report.note, report.died⟩

/-- Everything the transaction does to the running system, and the clocks it reads. `storeNow` is
the wall clock, in seconds. -/
inductive SessionOp where
  | standDown
  | bringUp
  | observe
  | stockIsUp
  | wakelockHeld
  | releaseWakelock
  | now
  | sleep (duration : Nat)
  | storeNow
  deriving DecidableEq

/-- The answer to an operation on the session. -/
@[reducible] def SessionOp.Ret : SessionOp → Type
  | standDown | bringUp => Except String Unit
  | observe => Observation
  | stockIsUp | wakelockHeld => Bool
  | releaseWakelock | sleep _ => Unit
  | now | storeNow => Nat

/-- The operations of the session as a signature. -/
@[reducible] def sessionSig : Sig := ⟨SessionOp, SessionOp.Ret⟩

/-- A program that controls a session. -/
abbrev SessionProg (α : Type) := UpdaterProg sessionSig α

/-- One operation on the session. -/
def session (o : SessionOp) : SessionProg o.Ret := Prog.step (.inr o) .done

/-- A duration as a message has it: whole seconds, a half to the even one. -/
def wholeSeconds (nanos : Nat) : Nat :=
  let whole := nanos / 10 ^ 9
  let rest := nanos % 10 ^ 9
  if 2 * rest < 10 ^ 9 ∨ (2 * rest = 10 ^ 9 ∧ whole % 2 = 0) then whole else whole + 1

/-- The looks of `watch`. Each pass of the loop takes time, so at most `budget.deadline + 1` of them
end it; `fuel` counts the passes that are left. -/
def watchLoop (budget : Budget) (started : Nat) :
    (fuel : Nat) → (best : Rung) → (note : String) → (seenAlive : Bool) → SessionProg HealthReport
  | 0, best, note, seenAlive => pure ⟨best, false, !seenAlive, budget.deadline, note⟩
  | fuel + 1, best, note, seenAlive => do
    let observation ← session .observe
    let seenAlive := seenAlive || observation.alive
    let best := match observation.reached with
      | some reached => if best.lt reached then reached else best
      | none => best
    let note := if observation.note ≠ "" then observation.note else note
    if best = .ready then
      pure ⟨best, true, false, (← session .now) - started, note⟩
    else if seenAlive && !observation.alive then
      pure ⟨best, false, true, (← session .now) - started,
        if note = "" then "the supervisor exited before reaching `ready`" else note⟩
    else
      let elapsed := (← session .now) - started
      if budget.deadline ≤ elapsed then
        pure ⟨best, false, !observation.alive, elapsed,
          if note = "" then s!"deadline of {wholeSeconds budget.deadline}s expired" else note⟩
      else
        session (.sleep budget.poll)
        watchLoop budget started fuel best note seenAlive

/-- Watches a candidate climb, once, until it is ready or out of time. -/
def watch (budget : Budget) : SessionProg HealthReport := do
  let started ← session .now
  watchLoop budget started (budget.deadline + 1) .process "" false

end Paperclip.Updater
