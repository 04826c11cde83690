import Mathlib.Algebra.Group.Nat.Defs
import Paperclip.Protocol

/-!
# Messages

What a host and an app say to each other over the launch connection, as far as a session reads or
builds it.
-/

namespace Paperclip.Protocol

/-- Longest encoded message, in bytes. -/
def MAX_MESSAGE_BYTES : Nat := 64 * 1024

/-- Longest diagnostic, in bytes. -/
def MAX_DIAGNOSTIC_BYTES : Nat := 1024

/-- Most damage rectangles of one frame. -/
def MAX_DAMAGE_RECTS : Nat := 32

/-- A span of time, in nanoseconds. -/
structure Duration where
  nanos : Nat
  deriving DecidableEq, Repr

namespace Duration

def fromMillis (millis : Nat) : Duration := ⟨millis * 1000000⟩

def asMillis (d : Duration) : Nat := d.nanos / 1000000

end Duration

/-- How long an app has to save when nothing more pressing is going on. -/
def EXIT_DEADLINE : Duration := .fromMillis 3000

/-- How long an app has to say that it is ready. -/
def READY_DEADLINE : Duration := .fromMillis 2000

/-- Identifies one requested frame. -/
structure FrameId where
  get : Nat
  isLt : get < 2 ^ 64
  deriving DecidableEq

namespace FrameId

instance : LT FrameId := ⟨fun f g => f.get < g.get⟩

def FIRST : FrameId := ⟨0, by decide⟩

/-- The next frame id. The last one is its own successor. -/
def next (f : FrameId) : FrameId := ⟨min (f.get + 1) (2 ^ 64 - 1), by omega⟩

theorem ext {f g : FrameId} (h : f.get = g.get) : f = g := by
  cases f
  cases g
  cases h
  rfl

end FrameId

/-- The extent of a surface, in pixels. -/
structure Size where
  width : UInt32
  height : UInt32
  deriving DecidableEq

/-- An axis-aligned rectangle in canvas space. -/
structure Rect where
  x : Float32
  y : Float32
  width : Float32
  height : Float32
  deriving DecidableEq

/-- Which part of the surface an app changed. -/
inductive Damage where
  | full
  | regions (rects : List Rect)
  deriving DecidableEq

/-- The rectangles claimed. -/
def Damage.regions? : Damage → Option (List Rect)
  | .full => none
  | .regions rects => some rects

/-- Why an app is asked to stop. -/
inductive ExitReason where
  | switchedAway
  | returnToStock
  | sleep
  | platformUpdate
  | appUpdate
  | shutdown
  deriving DecidableEq, Repr

inductive LifecycleEvent where
  | suspended
  | resumed
  | prepareToExit (reason : ExitReason) (deadlineMs : Nat)
  deriving DecidableEq, Repr

/-- A prepare-to-exit event. A deadline that 32 bits of milliseconds cannot hold is cut. -/
def LifecycleEvent.ofDeadline (reason : ExitReason) (deadline : Duration) : LifecycleEvent :=
  .prepareToExit reason (if deadline.asMillis < 2 ^ 32 then deadline.asMillis else 2 ^ 32 - 1)

/-- Why the host wants a frame. -/
inductive DrawReason where
  | first
  | appRequested
  | hostRequested
  deriving DecidableEq, Repr

structure DrawRequest where
  frame : FrameId
  reason : DrawReason
  viewport : Size
  deriving DecidableEq

/-- What a session may say to an app. -/
inductive HostMessage where
  | lifecycle (event : LifecycleEvent)
  | draw (request : DrawRequest)
  | goodbye
  deriving DecidableEq

structure Ready where
  protocol : ProtocolVersion
  deriving DecidableEq, Repr

structure FrameDone where
  frame : FrameId
  damage : Damage
  deriving DecidableEq

/-- What an app may ask for. -/
inductive Request where
  | redraw
  | home
  | returnToStock
  | launch (app : String)
  deriving DecidableEq, Repr

/-- A question about a system fact. -/
structure SystemQuery where
  id : Nat
  deriving DecidableEq, Repr

structure Saved where
  reason : ExitReason
  ok : Bool
  deriving DecidableEq, Repr

inductive DiagnosticLevel where
  | info
  | warn
  | error
  deriving DecidableEq, Repr

structure Diagnostic where
  level : DiagnosticLevel
  message : String
  deriving DecidableEq, Repr

/-- Everything an app may say to the host. -/
inductive AppMessage where
  | ready (ready : Ready)
  | frame (done : FrameDone)
  | request (request : Request)
  | systemQuery (query : SystemQuery)
  | saved (saved : Saved)
  | diagnostic (diagnostic : Diagnostic)
  deriving DecidableEq

/-- The wire name of an app message. -/
def AppMessage.name : AppMessage → String
  | ready _ => "ready"
  | frame _ => "frame"
  | request _ => "request"
  | systemQuery _ => "system-query"
  | saved _ => "saved"
  | diagnostic _ => "diagnostic"

end Paperclip.Protocol
