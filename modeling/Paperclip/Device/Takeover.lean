import Paperclip.Device.Stock

/-!
# Takeovers

A session takes the display from stock and gives it back.

* `Takeover.acquire`: the gates, and then the stop.
* `Takeover.releaseInner`: the locks, and then the start. What the end of a takeover runs, once.
* `session`: one takeover from its first step to the last of its destructors.
* `DetachedWatchdog`: the process that restores stock if the session cannot.
-/

namespace Paperclip.Device

open Crash

/-- A held takeover. -/
structure Takeover where
  stock : Stock
  /-- The wakelock is still held. -/
  wake : Bool
  locks : VendorLockState
  released : Bool
  deriving DecidableEq, Repr

/-- A part with what its failure drops. -/
def dropping {α : Type} (drop : DeviceM Unit) (p : DeviceM α) : DeviceM α := do
  match ← p.attempt with
  | .ok a => return a
  | .error e =>
    drop
    Prog.fail e

/-- The rule for a part with what its failure drops. -/
theorem every_dropping {α : Type} {drop : DeviceM Unit} {p : DeviceM α}
    {Q : Except DeviceError α → List (Event deviceSig) → Prop} {l : List (Event deviceSig)}
    (hp : p.Every (fun r l' => match r with
      | .ok a => Q (.ok a) l'
      | .error e => drop.Every (fun r l'' => Q (.error (match r with
        | .ok _ => e
        | .error e' => e')) l'') l') l) : (dropping drop p).Every Q l := by
  refine Prog.Every.attempt_bind (hp.mono fun r l' h => ?_)
  cases r with
  | ok a => exact h
  | error e => exact Prog.Every.bind h (fun _ _ hq => hq) (fun _ _ hq => hq)

/-- Refuses before anything is touched unless stock is healthy and has restarts to spare. -/
def waitUntilSafeToStop (health : StockHealth) : Except DeviceError Unit :=
  if health.isHealthy = false then .error (.unhealthy health) else health.allowsTakeover

/-- A step that may refuse. -/
def demand (answer : Except DeviceError Unit) : DeviceM Unit := Prog.ofExcept answer

namespace Takeover

/-- Arms the watchdog and stops stock. -/
def stopGuarded (stock : Stock) (within now : ℕ) : DeviceM Stock := do
  let armed ← call (.arm within)
  demand armed
  match ← (stock.stopForSession now).attempt with
  | .ok stock => return stock
  | .error e =>
    let _ ← call .disarm
    Prog.fail e

/-- Takes the display. -/
def acquire (stock : Stock) (within now : ℕ) : DeviceM Takeover :=
  dropping (call .dropWatchdog) do
    let health ← call .health
    demand (waitUntilSafeToStop health)
    let fit ← call .preflight
    demand fit
    let locks ← call .captureLocks
    let locks ← Prog.ofExcept locks
    let awake ← call .acquireWake
    demand awake
    dropping (call .releaseWake) do
      let stock ← stopGuarded stock within now
      return ⟨stock, true, locks, false⟩

/-- Looks at the registry until it is clear, or the deadline comes. -/
def lookUntilFree (locks : VendorLockState) : ℕ → DeviceM Bool
  | 0 => locks.isClear
  | n + 1 => do
    let clear ← locks.isClear
    if clear then return true else lookUntilFree locks n

def waitForFreePanel (t : Takeover) : DeviceM Bool := do
  let looks ← call .looks
  lookUntilFree t.locks looks

/-- Whether the panel is free again, after an attempt to restore the locks. -/
def waitIfRestored (t : Takeover) (locksRestored : Except DeviceError Unit) : DeviceM Bool :=
  match locksRestored with
  | .ok _ => t.waitForFreePanel
  | .error _ => return false

/-- Gives the display back, unless that was done. -/
def releaseInner (t : Takeover) (now : ℕ) : DeviceM (Except DeviceError Unit × Takeover) := do
  if t.released then return (.ok (), t)
  else
    let t := { t with released := true }
    let locksRestored ← t.locks.restore.attempt
    let freed ← t.waitIfRestored locksRestored
    let restored ← (t.stock.restore now).attempt
    let t := match restored with
      | .ok stock => { t with stock }
      | .error _ => t
    if freed then
      if t.wake then call .releaseWake
      -- A failed restore leaves the watchdog armed.
      match restored with
      | .ok _ =>
        let _ ← call .disarm
        return (.ok (), { t with wake := false })
      | .error e => return (.error e, { t with wake := false })
    else
      match restored with
      | .ok _ =>
        let reason := match locksRestored with
          | .ok _ => none
          | .error e => some e
        return (.error (.notConfirmedFree reason), t)
      | .error e => return (.error e, t)

/-- A takeover is given back once. -/
theorem releaseInner_released {t : Takeover} {now : ℕ} (h : t.released = true) :
    t.releaseInner now = .done (.ok (), t) := by
  rw [releaseInner, if_pos h, Prog.pure_eq]

/-- What dropping a takeover runs: its own destructor, and then those of its parts. -/
def drop (t : Takeover) : DeviceM Unit := do
  let now ← call .now
  let (_, t) ← t.releaseInner now
  if t.wake then call .releaseWake
  call .dropWatchdog

/-- Gives the display back and reports whether that worked. What is left is dropped. -/
def release (t : Takeover) (now : ℕ) : DeviceM Unit := do
  let (released, t) ← t.releaseInner now
  t.drop
  Prog.ofExcept released

end Takeover

/-- How a session ends. -/
inductive Ending where
  | release (now : ℕ)
  | drop
  deriving DecidableEq, Repr

/-- One session. -/
def session (stock : Stock) (within now : ℕ) (ending : Ending) : DeviceM Unit := do
  let t ← Takeover.acquire stock within now
  match ending with
  | .release now => t.release now
  | .drop => t.drop

/-! ## The watchdog -/

/-- The process that restores stock after a delay, if it runs. -/
structure DetachedWatchdog where
  guardian : Option ℕ
  deriving DecidableEq, Repr

namespace DetachedWatchdog

def new : DetachedWatchdog := ⟨none⟩

/-- Kills the guardian. -/
def disarm (_dog : DetachedWatchdog) : DetachedWatchdog := ⟨none⟩

/-- Starts a guardian in the place of the one that runs. -/
def arm (dog : DetachedWatchdog) (within : ℕ) (spawned : Except DeviceError Unit) :
    DetachedWatchdog :=
  match spawned with
  | .ok _ => ⟨some within⟩
  | .error _ => dog.disarm

/-- What a step does to the watchdog. Dropping it disarms it. -/
def see (dog : DetachedWatchdog) (e : Event deviceSig) : DetachedWatchdog :=
  match e with
  | ⟨.arm within, spawned⟩ => dog.arm within spawned
  | ⟨.disarm, _⟩ => dog.disarm
  | ⟨.dropWatchdog, _⟩ => dog.disarm
  | _ => dog

/-- The watchdog after some steps. -/
def after (events : List (Event deviceSig)) : DetachedWatchdog := events.foldl see .new

end DetachedWatchdog

end Paperclip.Device
