import Paperclip.Packages.Launch
import Paperclip.Packages.Manifest

/-!
# What the App Store shows

The state of the App Store's screen, and what a press or an answer changes of it.

* `Inventory`: the rows, one for an app.
* `Request`, `Outcome`: work for a worker, and what came of it.
* `AppStoreScreen`: the screen. `begin_`: starting a change. `report`, `apply`: what a worker says.
-/

namespace Paperclip.AppStore

open Packages

/-- The one-word state of an app. -/
inductive AppState where
  | installed
  | upToDate
  | updateAvailable
  | available
  | installedNotOffered
  | failing
  | nothingSelected
  deriving DecidableEq, Repr

/-- The word to put in the row. -/
def AppState.label : AppState → String
  | .installed => "installed"
  | .upToDate => "up to date"
  | .updateAvailable => "update available"
  | .available => "available"
  | .installedNotOffered => "installed; not in the catalog"
  | .failing => "not starting"
  | .nothingSelected => "nothing selected"

/-- What a person needs to know about one app. -/
structure AppEntry where
  app : AppId
  name : String
  installed : Option Version
  fallback : Option Version
  onDisk : List Version
  available : Option Version
  availablePrerelease : Option Version
  health : Option Health
  state : AppState
  deriving DecidableEq

/-- A rollback has somewhere to go. -/
def AppEntry.canRollBack (entry : AppEntry) : Bool :=
  entry.fallback.isSome && entry.installed.isSome

/-- Which catalog the rows were built against. -/
structure CatalogStatus where
  name : String
  serial : ℕ
  stale : Bool
  deriving DecidableEq, Repr

/-- Installed state and catalog offerings, merged. An app has one row. -/
structure Inventory where
  entries : List AppEntry
  catalog : Option CatalogStatus
  nodup : (entries.map (·.app)).Nodup
  deriving DecidableEq

namespace Inventory

/-- The row of an app. -/
def entry (inventory : Inventory) (app : AppId) : Option AppEntry :=
  inventory.entries.find? (·.app = app)

/-- The catalog could not be reached. -/
def isStale (inventory : Inventory) : Bool :=
  match inventory.catalog with
  | none => false
  | some status => status.stale

end Inventory

/-- Work for a worker. -/
inductive Request where
  | refresh
  | notes (app : AppId) (version : Version)
  | install (app : AppId) (version : Version)
  | rollback (app : AppId)
  deriving DecidableEq, Repr

/-- The app that a request changes. -/
def Request.changes : Request → Option AppId
  | .refresh => none
  | .notes _ _ => none
  | .install app _ => some app
  | .rollback app => some app

/-- What came of a request. -/
inductive Outcome where
  | refreshed (inventory : Inventory)
  | notes (app : AppId) (text : String)
  | installed (app : AppId) (version : Version)
  | rolledBack (app : AppId) (version : Version)
  | failed (app : Option AppId) (message advice : String)
  deriving DecidableEq

/-- How far the operation in flight has got. -/
structure Working where
  app : AppId
  step : String
  percent : Option ℕ
  deriving DecidableEq, Repr

/-- A failure the screen is showing. -/
structure Failure where
  message : String
  advice : String
  deriving DecidableEq, Repr

/-- Which view is showing. -/
inductive View where
  | list
  | detail (app : AppId)
  deriving DecidableEq, Repr

/-- The App Store's whole state. -/
structure AppStoreScreen where
  view : View
  inventory : Inventory
  notes : Option (AppId × String)
  working : Option Working
  failure : Option Failure
  deriving DecidableEq

namespace AppStoreScreen

/-- A screen over a snapshot. -/
def new (inventory : Inventory) : AppStoreScreen := ⟨.list, inventory, none, none, none⟩

/-- The rows to draw. -/
def rows (screen : AppStoreScreen) : List AppEntry := screen.inventory.entries

/-- The app the detail view is about. -/
def detail (screen : AppStoreScreen) : Option AppEntry :=
  match screen.view with
  | .detail app => screen.inventory.entry app
  | .list => none

/-- The notes on screen, if they are for the app being shown. -/
def notes? (screen : AppStoreScreen) : Option String :=
  match screen.notes, screen.view with
  | some (app, text), .detail showing => if showing = app then some text else none
  | _, _ => none

/-- A summary of the catalog, for the status bar. -/
def catalogSummary (screen : AppStoreScreen) : String :=
  match screen.inventory.catalog with
  | some status => if status.stale then status.name ++ " · OFFLINE" else status.name
  | none => "NO CATALOG"

/-- Opens an app's detail view, and asks for its notes if it is offered. -/
def open_ (screen : AppStoreScreen) (app : AppId) : AppStoreScreen × Option Request :=
  match screen.inventory.entry app with
  | none => (screen, none)
  | some entry =>
    ({ screen with view := .detail app, failure := none, notes := none },
      entry.available.map fun version => .notes app version)

/-- Goes back to the list. -/
def back (screen : AppStoreScreen) : AppStoreScreen := { screen with view := .list, notes := none }

/-- What the primary button of an app's row does. -/
def primaryAction (screen : AppStoreScreen) (app : AppId) : Option Request := do
  let entry ← screen.inventory.entry app
  match entry.state with
  | .available | .updateAvailable => entry.available.map fun version => .install app version
  | .failing => if entry.canRollBack then some (.rollback app) else none
  | .nothingSelected => entry.onDisk.getLast?.map fun version => .install app version
  | .installed | .upToDate | .installedNotOffered => none

/-- The word on the primary button. -/
def primaryLabel (screen : AppStoreScreen) (app : AppId) : Option String := do
  let entry ← screen.inventory.entry app
  match entry.state with
  | .available => some "INSTALL"
  | .updateAvailable => some "UPDATE"
  | .failing => if entry.canRollBack then some "ROLL BACK" else none
  | .nothingSelected => some "REPAIR"
  | .installed | .upToDate | .installedNotOffered => none

/-- A rollback button belongs on the app's detail view. -/
def canRollBack (screen : AppStoreScreen) (app : AppId) : Bool :=
  match screen.inventory.entry app with
  | none => false
  | some entry => entry.canRollBack

/-- Starts a change, refusing to start a second one. What only reads may always start. -/
def begin_ (screen : AppStoreScreen) (request : Request) : Bool × AppStoreScreen :=
  match request.changes with
  | none => (true, screen)
  | some app =>
    if screen.working.isSome then (false, screen)
    else (true, { screen with failure := none, working := some ⟨app, "STARTING", none⟩ })

/-- Updates the step shown for the operation in flight. -/
def report (screen : AppStoreScreen) (step : String) (percent : Option ℕ) : AppStoreScreen :=
  { screen with working := screen.working.map fun working => ⟨working.app, step, percent⟩ }

/-- Folds a finished request back into the screen. -/
def apply (screen : AppStoreScreen) : Outcome → AppStoreScreen
  | .refreshed inventory =>
    match screen.view with
    | .list => { screen with inventory := inventory }
    | .detail app =>
      if (inventory.entry app).isNone then
        { screen with inventory := inventory, view := .list, notes := none }
      else { screen with inventory := inventory }
  | .notes app text => { screen with notes := some (app, text) }
  | .installed _ _ | .rolledBack _ _ => { screen with working := none, failure := none }
  | .failed _ message advice =>
    { screen with working := none, failure := some ⟨message, advice⟩ }

variable {screen : AppStoreScreen}

/-- The app that a change is in flight for. -/
def busy (screen : AppStoreScreen) : Option AppId := screen.working.map (·.app)

theorem busy_eq_none : screen.busy = none ↔ screen.working = none := Option.map_eq_none_iff

@[simp] theorem busy_report (step : String) (percent : Option ℕ) :
    (screen.report step percent).busy = screen.busy := by
  rw [busy, busy, report, Option.map_map]
  rfl

@[simp] theorem busy_back : screen.back.busy = screen.busy := rfl

@[simp] theorem busy_open (app : AppId) : (screen.open_ app).1.busy = screen.busy := by
  unfold open_
  split
  · rfl
  · rfl

/-- Opening a view asks for nothing but notes. -/
theorem changes_open {app : AppId} {request : Request} (h : (screen.open_ app).2 = some request) :
    request.changes = none := by
  unfold open_ at h
  split at h
  · cases h
  · obtain ⟨version, -, rfl⟩ := Option.map_eq_some_iff.1 h
    rfl

/-- The primary button changes its app. -/
theorem changes_primaryAction {app : AppId} {request : Request}
    (h : screen.primaryAction app = some request) : request.changes = some app := by
  obtain ⟨entry, -, h⟩ := Option.bind_eq_some_iff.1 h
  split at h
  · obtain ⟨version, -, rfl⟩ := Option.map_eq_some_iff.1 h
    rfl
  · obtain ⟨version, -, rfl⟩ := Option.map_eq_some_iff.1 h
    rfl
  · split at h
    · obtain rfl := Option.some.inj h
      rfl
    · cases h
  · obtain ⟨version, -, rfl⟩ := Option.map_eq_some_iff.1 h
    rfl
  · cases h
  · cases h
  · cases h

/-- A change starts just if none is in flight, and is in flight then. -/
theorem begin_of_changes {request : Request} {app : AppId} (h : request.changes = some app) :
    screen.begin_ request = if screen.working.isSome then (false, screen)
      else (true, { screen with failure := none, working := some ⟨app, "STARTING", none⟩ }) := by
  rw [begin_, h]

/-- What is in flight after an outcome. -/
theorem busy_apply (outcome : Outcome) :
    (screen.apply outcome).busy = match outcome with
      | .refreshed _ | .notes _ _ => screen.busy
      | .installed _ _ | .rolledBack _ _ | .failed _ _ _ => none := by
  cases outcome with
  | refreshed inventory =>
    unfold apply
    dsimp only
    split
    · rfl
    · split
      · rfl
      · rfl
  | notes app text => rfl
  | installed app version => rfl
  | rolledBack app version => rfl
  | failed app message advice => rfl

end AppStoreScreen

end Paperclip.AppStore
