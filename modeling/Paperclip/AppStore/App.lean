import Paperclip.AppStore.Screen
import Paperclip.Sdk.App
import Paperclip.Sdk.Chrome

/-!
# The App Store as an app

Where the parts of the screen land, and what an event does. Coordinates are of any ordered field.

* `layout`: where everything on the view that is showing lands.
* `AppStoreApp`: the screen, and what the last change of it touched.
* `press`: a tap. `event`: everything an app is told. Beside the app stands what it asks of the
  platform, and the request that it hands to a worker.
-/

namespace Paperclip.AppStore

open Packages Sdk

def ROW_HEIGHT : ℕ := 184
def ROW_GAP : ℕ := 20
def BUTTON_WIDTH : ℕ := 248
def BUTTON_HEIGHT : ℕ := 128
def BANNER_HEIGHT : ℕ := 96
def EMPTY_CARD_HEIGHT : ℕ := 320

/-- A banner for the one thing that is true of the whole screen. -/
def bannerText (screen : AppStoreScreen) : Option String :=
  match screen.failure with
  | some failure => some (failure.message ++ " — " ++ failure.advice)
  | none =>
    if screen.inventory.isStale then
      some "THE CATALOG IS NOT REACHABLE. INSTALLED APPS STILL WORK."
    else none

/-- Where one row's pieces landed. -/
structure RowLayout (K : Type) where
  body : Rect K
  action : Option (Rect K)
  deriving DecidableEq

/-- Where the list view put everything. -/
structure ListLayout (K : Type) where
  rows : List (RowLayout K)
  refresh : Rect K
  deriving DecidableEq

/-- Where the detail view put everything. -/
structure DetailLayout (K : Type) where
  back : Rect K
  primary : Option (Rect K)
  rollback : Option (Rect K)
  deriving DecidableEq

/-- Where the view that is showing put everything. -/
inductive StoreLayout (K : Type) where
  | list (layout : ListLayout K)
  | detail (layout : DetailLayout K)
  deriving DecidableEq

section

variable {K : Type} [Field K] [LinearOrder K]

/-- The drawable area, inside the margins. -/
def contentArea (content : Rect K) : Rect K :=
  ⟨content.x + MARGIN, content.y + (32 : ℕ), content.width - MARGIN * (2 : ℕ),
    content.height - (32 : ℕ) - MARGIN⟩

/-- The button of a row. -/
def rowButton (body : Rect K) : Rect K :=
  ⟨body.x + body.width - BUTTON_WIDTH - (24 : ℕ), body.y + (body.height - BUTTON_HEIGHT) / (2 : ℕ),
    BUTTON_WIDTH, BUTTON_HEIGHT⟩

/-- One row. The row in flight has its step where its button would be. -/
def layoutRow (body : Rect K) (screen : AppStoreScreen) (entry : AppEntry) : RowLayout K :=
  if screen.busy = some entry.app then ⟨body, none⟩
  else ⟨body, (screen.primaryLabel entry.app).map fun _ => rowButton body⟩

/-- The rows from `cursor` on, up to where one would collide with the refresh button. -/
def layoutRows (area refresh : Rect K) (screen : AppStoreScreen) :
    List AppEntry → (cursor : K) → List (RowLayout K)
  | [], _ => []
  | entry :: rest, cursor =>
    let body : Rect K := ⟨area.x, cursor, area.width, ROW_HEIGHT⟩
    if refresh.y - ROW_GAP < body.y + body.height then []
    else layoutRow body screen entry ::
      layoutRows area refresh screen rest (cursor + (ROW_HEIGHT + ROW_GAP))

/-- The banner's rectangle. -/
def bannerRect (area : Rect K) : Rect K := ⟨area.x, area.y, area.width, BANNER_HEIGHT⟩

/-- Where the rows start. -/
def listTop (area : Rect K) (screen : AppStoreScreen) : K :=
  if (bannerText screen).isSome then area.y + (BANNER_HEIGHT + ROW_GAP) else area.y

def refreshRect (area : Rect K) : Rect K :=
  ⟨area.x + area.width - BUTTON_WIDTH, area.y + area.height - BUTTON_HEIGHT, BUTTON_WIDTH,
    BUTTON_HEIGHT⟩

/-- The list view. -/
def layoutList (area : Rect K) (screen : AppStoreScreen) : ListLayout K :=
  ⟨layoutRows area (refreshRect area) screen screen.rows (listTop area screen), refreshRect area⟩

/-- The detail view of an app. -/
def layoutDetail (area : Rect K) (screen : AppStoreScreen) (app : AppId) : DetailLayout K :=
  let back : Rect K := ⟨area.x, area.y, BUTTON_WIDTH, BUTTON_HEIGHT⟩
  if screen.detail.isNone then ⟨back, none, none⟩
  else if screen.busy = some app then ⟨back, none, none⟩
  else
    let row := area.y + area.height - BUTTON_HEIGHT
    ⟨back, (screen.primaryLabel app).map fun _ => ⟨area.x, row, BUTTON_WIDTH, BUTTON_HEIGHT⟩,
      if screen.canRollBack app then
        some ⟨area.x + BUTTON_WIDTH + (24 : ℕ), row, BUTTON_WIDTH, BUTTON_HEIGHT⟩
      else none⟩

/-- The area of a canvas that the views are drawn in. -/
def storeArea (bounds : Protocol.Size) : Rect K :=
  contentArea (statusBarContentArea (.ofSize bounds))

/-- Where everything on the view that is showing lands. -/
def layout (bounds : Protocol.Size) (screen : AppStoreScreen) : StoreLayout K :=
  match screen.view with
  | .list => .list (layoutList (storeArea bounds) screen)
  | .detail app => .detail (layoutDetail (storeArea bounds) screen app)

/-- The row whose action button was hit. -/
def ListLayout.actionHit (list : ListLayout K) (at_ : PointerEvent K) : Option ℕ :=
  list.rows.findIdx? fun row => row.action.any fun rect => rect.hit at_

/-- The row whose body was hit. -/
def ListLayout.rowHit (list : ListLayout K) (at_ : PointerEvent K) : Option ℕ :=
  list.rows.findIdx? fun row => row.body.hit at_

end

/-- The App Store app. -/
structure AppStoreApp (K : Type) where
  screen : AppStoreScreen
  /-- What the last change of the screen touched. -/
  pendingDamage : Damage K
  deriving DecidableEq

/-- What a worker says. -/
inductive Completion where
  | progress (step : String) (percent : Option ℕ)
  | done (outcome : Outcome)
  deriving DecidableEq

/-- What an app is told. -/
inductive Event (K : Type) where
  | pointer (pointer : PointerEvent K)
  | completed (completion : Completion)
  | other
  deriving DecidableEq

/-- The app after an event, what it asks of the platform, and what it hands to a worker. -/
structure Reaction (K : Type) where
  app : AppStoreApp K
  action : Action
  dispatched : Option Request
  deriving DecidableEq

namespace AppStoreApp

/-- The app, showing a screen. -/
def new {K : Type} (screen : AppStoreScreen) : AppStoreApp K := ⟨screen, .full⟩

section

variable {K : Type} [Field K] [LinearOrder K]

/-- A press that does nothing. -/
def ignored (app : AppStoreApp K) : Reaction K := ⟨app, .none, none⟩

/-- Starts an install or a rollback. `row` is the body of the list row that was pressed. -/
def start (app : AppStoreApp K) (request : Request) (row : Option (Rect K)) : Reaction K :=
  match app.screen.begin_ request with
  | (false, _) => app.ignored
  | (true, screen) =>
    let damage := match app.screen.failure, row with
      | none, some body => .regions [body]
      | _, _ => .full
    ⟨⟨screen, damage⟩, .redraw, some request⟩

/-- A tap on the list view. -/
def pressList (app : AppStoreApp K) (list : ListLayout K) (at_ : PointerEvent K) : Reaction K :=
  if list.refresh.hit at_ then ⟨app, .none, some .refresh⟩
  else
    match list.actionHit at_ with
    | some index =>
      match app.screen.rows[index]? with
      | none => app.ignored
      | some entry =>
        match app.screen.primaryAction entry.app with
        | none => app.ignored
        | some request => app.start request (list.rows[index]?.map (·.body))
    | none =>
      match list.rowHit at_ with
      | none => app.ignored
      | some index =>
        match app.screen.rows[index]? with
        | none => app.ignored
        | some entry =>
          ⟨⟨(app.screen.open_ entry.app).1, .full⟩, .redraw, (app.screen.open_ entry.app).2⟩

/-- A tap on the detail view of an app. -/
def pressDetail (app : AppStoreApp K) (showing : AppId) (detail : DetailLayout K)
    (at_ : PointerEvent K) : Reaction K :=
  if detail.back.hit at_ then ⟨⟨app.screen.back, .full⟩, .redraw, none⟩
  else
    match detail.primary.any (fun rect => rect.hit at_), app.screen.primaryAction showing with
    | true, some request => app.start request none
    | _, _ =>
      if detail.rollback.any fun rect => rect.hit at_ then app.start (.rollback showing) none
      else app.ignored

/-- A pointer event, against where things land for the screen as it is. -/
def press (bounds : Protocol.Size) (app : AppStoreApp K) (pointer : PointerEvent K) : Reaction K :=
  if pointer.isTap = false then app.ignored
  else
    match app.screen.view with
    | .list => app.pressList (layoutList (storeArea bounds) app.screen) pointer
    | .detail showing =>
      app.pressDetail showing (layoutDetail (storeArea bounds) app.screen showing) pointer

/-- The row of the operation in flight, if it is on the view that is showing. -/
def workingRow (bounds : Protocol.Size) (screen : AppStoreScreen) : Option (Rect K) :=
  match screen.view with
  | .detail _ => none
  | .list => do
    let working ← screen.working
    let index ← screen.rows.findIdx? (·.app = working.app)
    let row ← (layoutList (storeArea bounds) screen).rows[index]?
    return row.body

/-- What an event does. -/
def event (bounds : Protocol.Size) (app : AppStoreApp K) : Event K → Reaction K
  | .pointer pointer => app.press bounds pointer
  | .completed (.progress step percent) =>
    let damage := match workingRow bounds app.screen with
      | none => .full
      | some body => .regions [body]
    ⟨⟨app.screen.report step percent, damage⟩, .redraw, none⟩
  | .completed (.done outcome) => ⟨⟨app.screen.apply outcome, .full⟩, .redraw, none⟩
  | .other => app.ignored

end

end AppStoreApp

end Paperclip.AppStore
