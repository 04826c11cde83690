import Paperclip.Device.Stock
import Paperclip.Host.Machine

/-!
# Giving the display back to stock

The path that the supervisor, the recovery unit and the command line share. Everything it asks of the
outside is one step, as it is for the supervisor itself.

* `HostOp`: the steps of the supervisor and of the recovery, and what may be answered.
* `StockRecovery.restore`: what it takes to hand the display back.
-/

namespace Paperclip.Host

open Crash
open Device (DeviceOp DeviceError DeviceM)

/-- What the journal shows when stock comes up and cannot own the panel. -/
def ATOMIC_COMMIT_FAILURE : String := "Atomic commit failed"

/-- How many entries of the journal a recovery reads. -/
def JOURNAL_LINES : ℕ := 50

/-- Whether a text holds another. -/
def contains (text pattern : String) : Bool :=
  text.toList.tails.any fun rest => pattern.toList.isPrefixOf rest

/-- What a restore achieved. -/
inductive Restored where
  | alreadyRunning
  | started
  deriving DecidableEq, Repr

/-- Why a restore did not succeed. -/
inductive RecoveryError where
  | stock (source : DeviceError)
  | displayNotOwned

/-- The text of an error. -/
def RecoveryError.text : RecoveryError → String
  | stock _ => "stock could not be brought back"
  | displayNotOwned =>
    s!"xochitl.service is active but its journal shows '{ATOMIC_COMMIT_FAILURE}'; it does " ++
      "not own the display. Something still holds DRM master."

/-- The vendor lock files. -/
inductive VendorLock where
  | registry
  | epd
  deriving DecidableEq, Repr

/-- Which processes a sweep is over. -/
inductive TreeSource where
  | cgroup (path : String)
  | descendants
  deriving DecidableEq, Repr

/-- What a sweep achieved. -/
structure Termination where
  emptied : Bool
  survivors : List ℕ
  deriving DecidableEq, Repr

/-- The steps of the supervisor and of the recovery. -/
inductive HostOp where
  /-- Stock's own control and its record of starts. -/
  | device (op : DeviceOp)
  | instant
  /-- Whether stock is active, as a recovery asks first. -/
  | recoveryLook
  /-- Whether stock is active, as the supervisor asks in a switch. -/
  | stockActive
  | unitActive (unit : String)
  | startUnit (unit : String)
  | stopUnit (unit : String)
  | property (unit name : String)
  | stockPid
  | terminateTree (source : TreeSource) (protected_ : List ℕ) (escalation : Escalation)
  | recordSurvivors (reason : StopReason) (survivors : List ℕ)
  | removeLock (lock : VendorLock)
  | drmHolders
  | terminateHolders (holders : List ℕ) (escalation : Escalation)
  | journal (lines : ℕ)
  | releaseWakelock
  | capture (reason : String)
  | readCommand
  | removeCommand
  | compositorStatus
  | witness (owner : Foreground)
  /-- What the supervisor writes to its own journal about a restore. -/
  | report (attempt : ℕ) (outcome : Except RecoveryError Restored)

/-- What may be answered to a step. -/
@[reducible] def HostOp.Ret : HostOp → Type
  | device op => op.Ret
  | instant => ℕ
  | recoveryLook => Except DeviceError Bool
  | stockActive | unitActive _ => Bool
  | startUnit _ | stopUnit _ => Except String Unit
  | property _ _ | readCommand | compositorStatus | witness _ => Option String
  | stockPid => Option ℕ
  | terminateTree _ _ _ => Option Termination
  | drmHolders => Option (List ℕ)
  | journal _ => String
  | recordSurvivors _ _ | removeLock _ | terminateHolders _ _ | releaseWakelock | capture _
  | removeCommand | report _ _ => Unit

abbrev hostSig : Sig := ⟨HostOp, HostOp.Ret⟩

/-- A part of the recovery. -/
abbrev RecoveryM := Prog hostSig RecoveryError

/-- A part of the supervisor. Nothing that it does fails it. -/
abbrev HostM := Prog hostSig Empty

/-- One step of the outside. -/
def call {ε : Type} (op : HostOp) : Prog hostSig ε op.Ret := Prog.ask (S := hostSig) op

/-- A part of a takeover, taken by the host. -/
def onDevice {α : Type} (p : DeviceM α) : Prog hostSig DeviceError α :=
  p.embed (T := hostSig) .device fun _ => id

namespace StockRecovery

/-- Terminates whatever still holds the display, as far as that goes. -/
def reapStrayDrmHolders : RecoveryM Unit := do
  let holders ← call .drmHolders
  match holders with
  | none | some [] => return ()
  | some holders => call (.terminateHolders holders Budget.default.escalation)

/-- Removes the locks that a process left behind. -/
def clearStaleLocks : RecoveryM Unit := do
  call (.removeLock .registry)
  call (.removeLock .epd)

/-- Hands the display back to stock. -/
def restore : RecoveryM Restored := do
  let active ← call .recoveryLook
  let active ← Prog.ofExcept (active.mapError .stock)
  if active then
    call .releaseWakelock
    return .alreadyRunning
  else
    reapStrayDrmHolders
    clearStaleLocks
    let now ← call (.device .now)
    let _ ← (onDevice (Device.Stock.new.restore now)).mapError .stock
    -- An active unit need not own the panel.
    let text ← call (.journal JOURNAL_LINES)
    if contains text ATOMIC_COMMIT_FAILURE then Prog.fail .displayNotOwned
    else
      call .releaseWakelock
      return .started

end StockRecovery

end Paperclip.Host
