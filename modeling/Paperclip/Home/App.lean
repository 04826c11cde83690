import Paperclip.Sdk.Drive

/-!
# Home

The shelf, as an app: it launches other apps, hands the tablet back, and shows the battery.

* `HomeScreen.press`: what a pointer on the shelf asks for. Where its tiles are is a parameter.
* `homeApp`: the app. It asks for the battery once, and is drawn again with every reading.
-/

namespace Paperclip.Home

open Protocol Sdk Sdk.Runtime

/-- A line about the system. -/
structure SystemFact where
  label : String
  value : String
  deriving DecidableEq

/-- The shelf. A tile without an app hands the tablet back. -/
structure HomeScreen where
  entries : List (Option String)
  facts : List SystemFact
  pressed : Option ℕ
  deriving DecidableEq

/-- Files a value under its label, in its first line or a new one. -/
def setFact (label value : String) : List SystemFact → List SystemFact
  | [] => [⟨label, value⟩]
  | fact :: facts =>
    if fact.label = label then { fact with value } :: facts
    else fact :: setFact label value facts

/-- A pointer on the tile `hit`, if it is on one. -/
def HomeScreen.press (screen : HomeScreen) (hit : Option ℕ) : PointerPhase → HomeScreen × Action
  | .hover => (screen, .none)
  | .down | .moved =>
    if screen.pressed = hit then (screen, .none) else ({ screen with pressed := hit }, .redraw)
  | .cancelled => ({ screen with pressed := none }, .redraw)
  | .up =>
    ({ screen with pressed := none },
      match hit.bind fun index => screen.entries[index]? with
      | some (some app) => .launch app
      | some none => .returnToStock
      | none => .redraw)

/-- Home. -/
structure HomeApp where
  screen : HomeScreen
  askedBattery : Bool
  deriving DecidableEq

/-- What the shelf says of the battery. -/
def batteryValue (fact : BatteryFact) : String :=
  let charging := if fact.state = .charging ∨ fact.state = .full then " (charging)" else ""
  s!"{fact.percent}%{charging}"

def HomeApp.applyBattery (home : HomeApp) (fact : BatteryFact) : HomeApp :=
  let facts := setFact "Battery" (batteryValue fact) home.screen.facts
  { home with screen := { home.screen with facts } }

/-- A callback that neither logs nor asks anything. -/
def told {α : Type} (home : HomeApp) (value : α) : Called HomeApp α := ⟨home, value, [], []⟩

/-- What Home does with an event. `hitTest` says which tile of a shelf of some length is at a
point. -/
def HomeApp.event (hitTest : ℕ → Protocol.Point → Option ℕ) (home : HomeApp) :
    Runtime.Event Empty → Called HomeApp Action
  | .pointer pointer =>
    let (screen, action) :=
      home.screen.press (hitTest home.screen.entries.length pointer.at_) pointer.phase
    told { home with screen } action
  | .system ⟨_, .ok (.battery fact)⟩ => told (home.applyBattery fact) .redraw
  | .systemChanged (.battery fact) => told (home.applyBattery fact) .redraw
  | _ => told home .none

/-- Draws the shelf, and asks for the battery with the first frame. -/
def HomeApp.draw (home : HomeApp) : Called HomeApp Protocol.Damage :=
  if home.askedBattery then told home .full
  else ⟨{ home with askedBattery := true }, .full, [], [.battery]⟩

/-- Home as an app. It saves nothing. -/
def homeApp (hitTest : ℕ → Protocol.Point → Option ℕ) : App HomeApp Empty where
  event := HomeApp.event hitTest
  draw := HomeApp.draw
  save home := told home (.ok ())

end Paperclip.Home
