import Paperclip.Protocol.Vocabulary
import Paperclip.Sdk.Damage

/-!
# What an app is told, and what it asks for

* `PointerEvent`: a pointer that an app is told of. `PointerEvent.isTap`: the end of a press.
* `Action`: what an app asks for after an event. `Action.request`: the message that says so.
* `Action.Shows`: the host draws the app again, or leaves it.
-/

namespace Paperclip.Sdk

open Protocol

/-- A pointer event, in canvas space. -/
structure PointerEvent (K : Type) where
  x : K
  y : K
  phase : PointerPhase
  deriving DecidableEq

variable {K : Type}

/-- The event ends a press. -/
def PointerEvent.isTap (event : PointerEvent K) : Bool := event.phase = .up

/-- The rectangle has the point of the event in it. -/
def Rect.hit [Add K] [LE K] [LT K] [DecidableLE K] [DecidableLT K] (rect : Rect K)
    (event : PointerEvent K) : Bool := rect.contains event.x event.y

/-- What an app asks the platform for. -/
inductive Action where
  | none
  | redraw
  | home
  | returnToStock
  | launch (app : String)
  deriving DecidableEq, Repr

/-- The request that an action sends. -/
def Action.request : Action → Option Request
  | .none => Option.none
  | .redraw => some .redraw
  | .home => some .home
  | .returnToStock => some .returnToStock
  | .launch app => some (.launch app)

/-- A request that leaves the app. -/
def Leaves : Request → Prop
  | .redraw => False
  | .home | .returnToStock | .launch _ => True

/-- The host is asked to draw again, or to leave the app. -/
def Action.Shows (action : Action) : Prop := action.request ≠ Option.none

theorem Action.shows_iff (action : Action) : action.Shows ↔ action ≠ .none := by
  cases action with
  | none => exact ⟨fun h => absurd rfl h, fun h => absurd rfl h⟩
  | redraw | home | returnToStock | launch app => simp [Action.Shows, Action.request]

end Paperclip.Sdk
