import Paperclip.Crash.Answers
import Paperclip.Packages.Fields

/-!
# Stock

Stopping and restoring the vendor's software, which must never fail: a start that the limiter of
`systemd` refuses takes the tablet down. Everything the code asks of the outside is one step, so a
handler of the steps is one way for the tablet to behave.

* `DeviceOp`: the steps of a takeover, and what may be answered.
* `StartBudget`: the shared record of recent starts.
* `Stock.stopForSession`, `Stock.restore`: the only two things that may be done to stock.

Times are nanoseconds since the epoch.
-/

namespace Paperclip.Device

open Crash Packages

def second : ℕ := 1000000000

/-- The window of the limiter, in seconds. -/
def START_LIMIT_WINDOW : ℕ := 600

/-- How many starts the limiter lets through in its window. -/
def START_LIMIT_BURST : ℕ := 4

/-- How many starts inside the window before a session refuses to begin. -/
def START_BUDGET : ℕ := 3

/-- How long to wait for stock to come back, in seconds. -/
def RESTORE_TIMEOUT : ℕ := 25

def U32_MAX : ℕ := 4294967295

/-- What stock looked like at a moment in time, as far as a takeover asks. -/
structure StockHealth where
  active : Bool
  failedUnits : List String
  homeMounted : Bool
  nRestarts : Option ℕ
  deriving DecidableEq, Repr

/-- Why a file operation failed. -/
inductive IoError where
  | notFound
  | other
  deriving DecidableEq, Repr

/-- Why a step of a takeover failed. -/
inductive DeviceError where
  | unhealthy (health : StockHealth)
  | restartsLeft (remaining : ℕ)
  | budgetSpent (recent : ℕ)
  | notBack
  | epdGone
  /-- Stock was started without the panel confirmed free. Without a reason the registry still names a
  foreign holder. -/
  | notConfirmedFree (reason : Option DeviceError)
  | io (action : String) (source : IoError)
  /-- What the outside answered. -/
  | outside (message : String)

/-- The vendor lock files as they were before a takeover. -/
structure VendorLockState where
  registry : Option String
  epdPresent : Bool
  deriving DecidableEq, Repr

/-- The steps of a takeover. -/
inductive DeviceOp where
  | health
  | preflight
  | captureLocks
  | acquireWake
  | releaseWake
  | arm (within : ℕ)
  | disarm
  | dropWatchdog
  | isActive
  | stop
  | resetFailed
  | start
  | waitActive (timeout : ℕ)
  | readStarts
  | writeStarts (contents : String)
  | writeRegistry (contents : String)
  | removeRegistry
  | readRegistry
  | epdExists
  /-- How many more looks at the registry fit before the deadline. -/
  | looks
  | now
  deriving DecidableEq, Repr

/-- What may be answered to a step. -/
@[reducible] def DeviceOp.Ret : DeviceOp → Type
  | health => StockHealth
  | preflight | acquireWake | arm _ | disarm | stop | resetFailed | start => Except DeviceError Unit
  | captureLocks => Except DeviceError VendorLockState
  | isActive | waitActive _ => Except DeviceError Bool
  | releaseWake | dropWatchdog => Unit
  | readStarts | readRegistry => Option String
  | writeStarts _ | writeRegistry _ | removeRegistry => Except IoError Unit
  | epdExists => Bool
  | looks | now => ℕ

abbrev deviceSig : Sig := ⟨DeviceOp, DeviceOp.Ret⟩

/-- A part of a takeover. -/
abbrev DeviceM := Prog deviceSig DeviceError

/-- One step of the outside. -/
def call (op : DeviceOp) : DeviceM op.Ret := Prog.ask (S := deviceSig) op

/-! ## The record of starts -/

namespace StartBudget

/-- The stamps of a record, in seconds. -/
def stamps (contents : String) : List ℕ :=
  (contents.toList.splitOn '\n').filterMap fun line => parseU64 (trim line)

/-- Whether a stamp is within the window of a time, both in seconds. -/
def counts (now stamp : ℕ) : Bool := now - stamp < START_LIMIT_WINDOW

/-- The starts recorded within the window of `now`. A record that cannot be read has none. -/
def recent (contents : Option String) (now : ℕ) : ℕ :=
  match contents with
  | none => 0
  | some contents => min ((stamps contents).filter (counts (now / second))).length U32_MAX

/-- The text of a record. -/
def render (stamps : List ℕ) : String := String.join (stamps.map fun stamp => s!"{stamp}\n")

/-- The stamps that a record is to have after a start. -/
def kept (contents : Option String) (now : ℕ) : List ℕ :=
  (stamps (contents.getD "")).filter (counts (now / second)) ++ [now / second]

/-- Records a start that is about to happen. -/
def record (now : ℕ) : DeviceM Unit := do
  let contents ← call .readStarts
  let written ← call (.writeStarts (render (kept contents now)))
  Prog.ofExcept (written.mapError (.io "write to"))

/-- Whether a session may begin. -/
def allowsSession (now : ℕ) : DeviceM Unit := do
  let contents ← call .readStarts
  if START_BUDGET ≤ recent contents now then Prog.fail (.budgetSpent (recent contents now))
  else return ()

end StartBudget

/-! ## Stock -/

namespace StockHealth

def isHealthy (health : StockHealth) : Bool :=
  health.active && health.homeMounted && health.failedUnits.isEmpty

/-- How many more failures can be absorbed. -/
def restartsRemaining (health : StockHealth) : Option ℕ :=
  health.nRestarts.map fun used => START_LIMIT_BURST - used

/-- Whether a takeover may begin at all. -/
def allowsTakeover (health : StockHealth) : Except DeviceError Unit :=
  match health.restartsRemaining with
  | none => .ok ()
  | some remaining => if remaining ≤ 2 then .error (.restartsLeft remaining) else .ok ()

end StockHealth

structure Stock where
  stoppedByUs : Bool
  deriving DecidableEq, Repr

namespace Stock

def new : Stock := ⟨false⟩

/-- Stops stock for a session. -/
def stopForSession (stock : Stock) (now : ℕ) : DeviceM Stock := do
  StartBudget.allowsSession now
  let active ← call .isActive
  let active ← Prog.ofExcept active
  -- What is already down was not stopped here.
  if active = false then return stock
  else
    let stopped ← call .stop
    Prog.ofExcept stopped
    return ⟨true⟩

def startOnce (now : ℕ) : DeviceM Unit := do
  let cleared ← call .resetFailed
  Prog.ofExcept cleared
  StartBudget.record now
  let started ← call .start
  Prog.ofExcept started

/-- Starts stock, and tells whether it came back. -/
def tryStart (now : ℕ) : DeviceM Bool := do
  startOnce now
  let active ← call (.waitActive RESTORE_TIMEOUT)
  Prog.ofExcept active

/-- Brings stock back, with one guarded retry. -/
def restore (_stock : Stock) (now : ℕ) : DeviceM Stock := do
  let active ← call .isActive
  let active ← Prog.ofExcept active
  if active then return ⟨false⟩
  else
    let active ← tryStart now
    if active then return ⟨false⟩
    else
      let active ← tryStart now
      if active then return ⟨false⟩ else Prog.fail .notBack

end Stock

/-! ## The vendor locks -/

namespace VendorLockState

/-- Puts the locks back as they were found. -/
def restore (locks : VendorLockState) : DeviceM Unit := do
  match locks.registry with
  | some contents =>
    let written ← call (.writeRegistry contents)
    Prog.ofExcept (written.mapError (.io "write to"))
  | none =>
    let removed ← call .removeRegistry
    match removed with
    | .error .other => Prog.fail (.io "remove" .other)
    | _ => pure ()
  if locks.epdPresent then
    let present ← call .epdExists
    if present then return () else Prog.fail .epdGone
  else return ()

/-- Whether the registry names who it named before. -/
def isClear (locks : VendorLockState) : DeviceM Bool := do
  let current ← call .readRegistry
  return decide (current = locks.registry)

end VendorLockState

end Paperclip.Device
