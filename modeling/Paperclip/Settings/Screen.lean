import Paperclip.Sdk.App
import Paperclip.Sdk.Chrome
import Paperclip.Sdk.Uppercase

/-!
# The Settings screen

What Settings shows, and what a press or an answer changes of it. Coordinates are of any ordered
field. The text of a byte count is a parameter: it is that of a floating-point number.

* `SettingsLayout`, `layout`: where everything lands.
* `SettingsScreen`: the page, the answers and the action that waits on its confirmation. `apply`:
  filing an answer. `press`: a tap.
* `SettingsApp`: the screen, with what the last frame showed. `damageBetween`: the claim for a
  frame.
-/

namespace Paperclip.Settings

open Protocol Sdk
open Packages (AppId)

/-- The text in capitals. -/
def uppercase (text : String) : String := .ofList (text.toList.flatMap toUppercase)

/-- The name of a capability. -/
def name : Capability → String
  | .storage => "storage"
  | .network => "network"
  | .sharing => "sharing"
  | .packages => "packages"

/-- Rollback has somewhere to go. -/
def hasPreviousRelease (app : InstalledAppSummary) : Bool := app.previousVersion.isSome

/-! ## Pages -/

/-- One page of Settings. -/
inductive SettingsPage where
  | apps
  | storage
  | grants
  | catalog
  | platform
  | diagnostics
  deriving DecidableEq, Repr

/-- Every page, in tab order. -/
def SettingsPage.ALL : List SettingsPage :=
  [.apps, .storage, .grants, .catalog, .platform, .diagnostics]

/-- The label on the tab of a page. -/
def SettingsPage.tabLabel : SettingsPage → String
  | .apps => "APPS"
  | .storage => "STORAGE"
  | .grants => "GRANTS"
  | .catalog => "CATALOG"
  | .platform => "PLATFORM"
  | .diagnostics => "LOGS"

def NAV_HEIGHT : ℕ := 132
def ROW_HEIGHT : ℕ := 168
def ROW_GAP : ℕ := 20
def BUTTON_WIDTH : ℕ := 220
def BUTTON_HEIGHT : ℕ := 128

/-- Where each tab landed. -/
structure NavLayout (K : Type) where
  tabs : List (Rect K)

/-- Where the buttons of an app landed. There is none to roll back with no release before. -/
structure AppRowLayout (K : Type) where
  rollback : Option (Rect K)
  uninstall : Rect K

/-- The buttons of the apps page. -/
structure AppsLayout (K : Type) where
  rows : List (AppRowLayout K)

/-- The buttons of the grants page. -/
structure GrantsLayout (K : Type) where
  revoke : List (Rect K)

/-- The buttons of a page. -/
inductive PageLayout (K : Type) where
  | apps (apps : AppsLayout K)
  | grants (grants : GrantsLayout K)
  | readOnly

/-- The two actions of a dialog. -/
structure ConfirmLayout (K : Type) where
  cancel : Rect K
  confirm : Rect K

/-- Where everything on the screen landed. -/
structure SettingsLayout (K : Type) where
  nav : NavLayout K
  page : PageLayout K
  returnToStock : Option (Rect K)
  confirm : Option (ConfirmLayout K)

section

variable {K : Type} [Field K] [LinearOrder K]

/-- Which page a point is on the tab of. -/
def NavLayout.hitTest (nav : NavLayout K) (pointer : PointerEvent K) : Option SettingsPage :=
  (nav.tabs.findIdx? (·.hit pointer)).bind fun index => SettingsPage.ALL[index]?

/-- Where the tabs land, and the rectangle for the page under them. -/
def layoutNav (bounds : Rect K) (top : K) : NavLayout K × Rect K :=
  let width := bounds.width / SettingsPage.ALL.length
  (⟨(List.range SettingsPage.ALL.length).map fun index => ⟨index * width, top, width, NAV_HEIGHT⟩⟩,
    ⟨MARGIN, top + NAV_HEIGHT + (32 : ℕ), bounds.width - MARGIN * (2 : ℕ),
      bounds.height - (top + NAV_HEIGHT + (32 : ℕ))⟩)

/-- The row at an index. -/
def rowRect (area : Rect K) (index : ℕ) : Rect K :=
  ⟨area.x, area.y + index * (ROW_HEIGHT + ROW_GAP), area.width, ROW_HEIGHT⟩

/-- The button at the end of a row. -/
def rowButton (rect : Rect K) : Rect K :=
  ⟨rect.right - (32 : ℕ) - BUTTON_WIDTH,
    rect.y + rect.height / (2 : ℕ) - BUTTON_HEIGHT / (2 : ℕ), BUTTON_WIDTH, BUTTON_HEIGHT⟩

/-- Which row's rollback button a point is on. -/
def AppsLayout.rollbackHit (layout : AppsLayout K) (pointer : PointerEvent K) : Option ℕ :=
  layout.rows.findIdx? fun row => row.rollback.any (·.hit pointer)

/-- Which row's uninstall button a point is on. -/
def AppsLayout.uninstallHit (layout : AppsLayout K) (pointer : PointerEvent K) : Option ℕ :=
  layout.rows.findIdx? (·.uninstall.hit pointer)

/-- Which grant's button a point is on. -/
def GrantsLayout.revokeHit (layout : GrantsLayout K) (pointer : PointerEvent K) : Option ℕ :=
  layout.revoke.findIdx? (·.hit pointer)

/-- Where the buttons of each app land. -/
def layoutApps (area : Rect K) (apps : List InstalledAppSummary) : AppsLayout K :=
  ⟨apps.zipIdx.map fun (app, index) =>
    let uninstall := rowButton (rowRect area index)
    { rollback :=
        if hasPreviousRelease app then
          some ⟨uninstall.x - (20 : ℕ) - BUTTON_WIDTH, uninstall.y, BUTTON_WIDTH, BUTTON_HEIGHT⟩
        else none
      uninstall := uninstall }⟩

/-- Where the button of each grant lands. -/
def layoutGrants (area : Rect K) (grants : List GrantSummary) : GrantsLayout K :=
  ⟨(List.range grants.length).map fun index => rowButton (rowRect area index)⟩

/-- The card of a dialog with `lineCount` lines. -/
def cardRect (bounds : Rect K) (lineCount : ℕ) : Rect K :=
  let contentHeight : K :=
    (56 : ℕ) + (60 : ℕ) + lineCount * (46 : ℕ) + (40 : ℕ) + MIN_TOUCH_TARGET + (40 : ℕ)
  let cardHeight := min contentHeight (bounds.height - (240 : ℕ))
  ⟨MARGIN, (bounds.height - cardHeight) / (2 : ℕ), bounds.width - MARGIN * (2 : ℕ), cardHeight⟩

/-- Where the two actions of a dialog land. -/
def layoutConfirm (bounds : Rect K) (lineCount : ℕ) : ConfirmLayout K :=
  let card := cardRect bounds lineCount
  let gap : K := (24 : ℕ)
  let usable := card.width - (80 : ℕ)
  let buttonWidth := (usable - gap) / (2 : ℕ)
  let buttonsTop := card.bottom - (40 : ℕ) - MIN_TOUCH_TARGET
  let cancel : Rect K := ⟨card.x + (40 : ℕ), buttonsTop, buttonWidth, MIN_TOUCH_TARGET⟩
  ⟨cancel, ⟨cancel.right + gap, buttonsTop, buttonWidth, MIN_TOUCH_TARGET⟩⟩

end

/-! ## The screen -/

/-- What to ask, and what goes through with it. -/
structure ConfirmDialog where
  title : String
  lines : List String
  confirmLabel : String
  deriving DecidableEq

/-- What confirming would ask the host to do. -/
inductive PendingKind where
  | rollback (app : AppId)
  | uninstall (app : AppId)
  | revoke (app : AppId) (capability : Capability)
  deriving DecidableEq

/-- The query that carries the action. -/
def PendingKind.intoQuery : PendingKind → AdminQuery
  | .rollback app => .rollback app
  | .uninstall app => .uninstall app
  | .revoke app capability => .revokeGrant app capability

/-- An action that waits on its confirmation. -/
structure PendingAction where
  dialog : ConfirmDialog
  kind : PendingKind
  deriving DecidableEq

/-- The action of an app's rollback button. -/
def rollbackAction (app : InstalledAppSummary) (previous : String) : PendingAction :=
  ⟨⟨"ROLL BACK " ++ uppercase app.name, ["RETURNS TO V" ++ previous ++ "."], "ROLL BACK"⟩,
    .rollback app.id⟩

/-- The action of an app's uninstall button, which states what data would be lost. -/
def uninstallAction (formatBytes : ℕ → String) (app : InstalledAppSummary) : PendingAction :=
  ⟨⟨"UNINSTALL " ++ uppercase app.name,
      if 0 < app.dataBytes then
        [formatBytes app.dataBytes ++ " OF DATA WILL BE DELETED.", "THIS CANNOT BE UNDONE."]
      else ["NO DATA WILL BE LOST."],
      "UNINSTALL"⟩,
    .uninstall app.id⟩

/-- The action of a grant's button, which warns of an app that is using it. -/
def revokeAction (grant : GrantSummary) : PendingAction :=
  ⟨⟨"REVOKE GRANT",
      if grant.inUse then
        [uppercase grant.appName ++ " IS USING THIS RIGHT NOW.", "REVOKING MAY INTERRUPT IT."]
      else
        [uppercase grant.appName ++ " WILL LOSE " ++ uppercase (name grant.capability) ++
          " ACCESS."],
      "REVOKE"⟩,
    .revoke grant.appId grant.capability⟩

/-- What the screen is showing. -/
structure SettingsScreen where
  page : SettingsPage
  apps : List InstalledAppSummary
  storage : StorageUsage
  grants : List GrantSummary
  catalog : CatalogStatus
  platform : PlatformFact
  diagnostics : List DiagnosticEntry
  pending : Option PendingAction
  deriving DecidableEq

/-- What one press decided. -/
structure Press where
  action : Action
  /-- A write to ask the host for. -/
  admin : Option PendingKind
  deriving DecidableEq

/-- A press that changed nothing. -/
def Press.ignored : Press := ⟨.none, none⟩

/-- A press that changed the screen and nothing else. -/
def Press.redraw : Press := ⟨.redraw, none⟩

namespace SettingsScreen

/-- A screen with nothing loaded yet. -/
def loading : SettingsScreen :=
  { page := .apps
    apps := []
    storage := ⟨0, []⟩
    grants := []
    catalog := ⟨"…", none, false⟩
    platform := ⟨"0.1.0", "…", "…"⟩
    diagnostics := []
    pending := none }

/-- Files an answer under the field it belongs to. What came of a write is not filed. -/
def apply (screen : SettingsScreen) : AdminValue → SettingsScreen
  | .installedApps apps => { screen with apps := apps }
  | .storageUsage storage => { screen with storage := storage }
  | .grants grants => { screen with grants := grants }
  | .catalogStatus catalog => { screen with catalog := catalog }
  | .platformInfo platform => { screen with platform := platform }
  | .diagnostics diagnostics => { screen with diagnostics := diagnostics }
  | .rollback _ | .uninstall _ | .revokeGrant _ => screen

/-- A confirmation is blocking the page. -/
def isConfirming (screen : SettingsScreen) : Bool := screen.pending.isSome

/-- Opens the confirmation of a rollback, if there is a release to return to. -/
def beginRollback (screen : SettingsScreen) (index : ℕ) : SettingsScreen :=
  match screen.apps[index]? with
  | none => screen
  | some app =>
    match app.previousVersion with
    | none => screen
    | some previous => { screen with pending := some (rollbackAction app previous) }

/-- Opens the confirmation of an uninstall. -/
def beginUninstall (formatBytes : ℕ → String) (screen : SettingsScreen) (index : ℕ) :
    SettingsScreen :=
  match screen.apps[index]? with
  | none => screen
  | some app => { screen with pending := some (uninstallAction formatBytes app) }

/-- Opens the confirmation of a revoke. -/
def beginRevoke (screen : SettingsScreen) (index : ℕ) : SettingsScreen :=
  match screen.grants[index]? with
  | none => screen
  | some grant => { screen with pending := some (revokeAction grant) }

/-- Backs out of the confirmation. -/
def cancel (screen : SettingsScreen) : SettingsScreen := { screen with pending := none }

/-- Closes the confirmation and hands back what it asked for. -/
def confirm (screen : SettingsScreen) : Option PendingKind × SettingsScreen :=
  (screen.pending.map (·.kind), { screen with pending := none })

section

variable {K : Type} [Field K] [LinearOrder K]

/-- A press on a tab. -/
def pressTab (screen : SettingsScreen) (nav : NavLayout K) (pointer : PointerEvent K) :
    SettingsScreen :=
  if screen.isConfirming then screen
  else
    match nav.hitTest pointer with
    | none => screen
    | some page => { screen with page := page }

/-- A press on the apps page. -/
def pressApps (formatBytes : ℕ → String) (screen : SettingsScreen) (layout : AppsLayout K)
    (pointer : PointerEvent K) : SettingsScreen :=
  if screen.isConfirming then screen
  else
    match layout.uninstallHit pointer with
    | some index => screen.beginUninstall formatBytes index
    | none =>
      match layout.rollbackHit pointer with
      | some index => screen.beginRollback index
      | none => screen

/-- A press on the grants page. -/
def pressGrants (screen : SettingsScreen) (layout : GrantsLayout K) (pointer : PointerEvent K) :
    SettingsScreen :=
  if screen.isConfirming then screen
  else
    match layout.revokeHit pointer with
    | none => screen
    | some index => screen.beginRevoke index

/-- A press on the page that is shown. -/
def pressPage (formatBytes : ℕ → String) (screen : SettingsScreen) (layout : PageLayout K)
    (pointer : PointerEvent K) : SettingsScreen :=
  match layout with
  | .apps apps => screen.pressApps formatBytes apps pointer
  | .grants grants => screen.pressGrants grants pointer
  | .readOnly => screen

/-- A press while a confirmation is open. One on neither action resolves nothing. -/
def pressConfirm (screen : SettingsScreen) (confirm : ConfirmLayout K) (pointer : PointerEvent K) :
    Press × SettingsScreen :=
  if confirm.cancel.hit pointer then (.redraw, screen.cancel)
  else if confirm.confirm.hit pointer then (⟨.redraw, screen.confirm.1⟩, screen.confirm.2)
  else (.ignored, screen)

/-- A pointer event against a layout. An open confirmation absorbs every press. -/
def press (formatBytes : ℕ → String) (screen : SettingsScreen) (layout : SettingsLayout K)
    (pointer : PointerEvent K) : Press × SettingsScreen :=
  if pointer.isTap = false then (.ignored, screen)
  else
    match layout.confirm with
    | some confirm => screen.pressConfirm confirm pointer
    | none =>
      if layout.returnToStock.any (·.hit pointer) then (⟨.returnToStock, none⟩, screen)
      else
        let tabbed := screen.pressTab layout.nav pointer
        if tabbed.page ≠ screen.page then (.redraw, tabbed)
        else
          let paged := tabbed.pressPage formatBytes layout.page pointer
          if paged.isConfirming then (.redraw, paged) else (.ignored, paged)

end

end SettingsScreen

/-- Where everything on a screen lands. -/
def layout {K : Type} [Field K] [LinearOrder K] (size : Size) (screen : SettingsScreen) :
    SettingsLayout K :=
  let bounds : Rect K := .ofSize size
  let (nav, area) := layoutNav bounds (statusBarContentArea bounds).y
  { nav := nav
    page :=
      match screen.page with
      | .apps => .apps (layoutApps area screen.apps)
      | .grants => .grants (layoutGrants area screen.grants)
      | .storage | .catalog | .platform | .diagnostics => .readOnly
    returnToStock := if screen.pending.isNone then some (footerActionRect bounds 1 0) else none
    confirm := screen.pending.map fun pending => layoutConfirm bounds pending.dialog.lines.length }

/-! ## The app -/

/-- What an app is told. -/
inductive Event (K : Type) where
  | pointer (pointer : PointerEvent K)
  | resumed
  | system (result : Except SystemDenial SystemValue)
  | other
  deriving DecidableEq

/-- What the last frame showed. -/
structure Painted where
  page : SettingsPage
  confirming : Bool
  deriving DecidableEq

/-- The reads that are asked for at the launch and on resume. -/
def READS : List AdminQuery :=
  [.installedApps, .storageUsage, .grants, .catalogStatus, .platformInfo, .diagnostics]

/-- What a write's answer says came of it. -/
def writeOutcome : AdminValue → Option (Except AdminError Unit)
  | .rollback result | .uninstall result | .revokeGrant result => some result
  | _ => none

/-- What the app warns of. -/
inductive Warning where
  | refused (error : AdminError)
  | denied (denial : SystemDenial)
  deriving DecidableEq

/-- The Settings app. -/
structure SettingsApp (K : Type) where
  screen : SettingsScreen
  /-- The launch reads were sent. -/
  asked : Bool
  /-- What the last frame showed, if the next one is not to be treated as the first. -/
  painted : Option Painted
  damage : Damage K

/-- What an app does on an event: the queries are those that it sends. -/
structure Reaction (K : Type) where
  app : SettingsApp K
  action : Action
  queries : List AdminQuery
  warnings : List Warning

namespace SettingsApp

variable {K : Type}

/-- Settings, with nothing shown until the host answers. -/
def new : SettingsApp K := ⟨.loading, false, none, .full⟩

section

variable [Field K] [LinearOrder K]

/-- Where the tab of a page was drawn. -/
def tabRect (tabs : List (Rect K)) (page : SettingsPage) : Option (Rect K) :=
  (SettingsPage.ALL.findIdx? (· = page)).bind fun index => tabs[index]?

/-- The claim for a frame, after the one that showed `previous`. -/
def damageBetween (previous : Option Painted) (now : Painted) (layout : SettingsLayout K)
    (bounds : Rect K) : Damage K :=
  match previous with
  | none => .full
  | some previous =>
    if previous.confirming || now.confirming then .full
    else if previous.page = now.page then .regions []
    else
      match tabRect layout.nav.tabs previous.page, tabRect layout.nav.tabs now.page with
      | some was, some is =>
        .regions [was, is, ⟨0, is.bottom, bounds.width, max (bounds.bottom - is.bottom) 0⟩]
      | _, _ => .full

/-- What an event does. -/
def event (formatBytes : ℕ → String) (size : Size) (app : SettingsApp K) :
    Event K → Reaction K
  | .pointer pointer =>
    let (press, screen) := app.screen.press formatBytes (layout size app.screen) pointer
    ⟨{ app with screen := screen }, press.action,
      (press.admin.map PendingKind.intoQuery).toList, []⟩
  | .resumed => ⟨{ app with painted := none }, .redraw, READS, []⟩
  | .system (.ok (.admin value)) =>
    ⟨{ app with screen := app.screen.apply value }, .redraw,
      if (writeOutcome value).isSome then READS else [],
      match writeOutcome value with
      | some (.error error) => [.refused error]
      | _ => []⟩
  | .system (.error denial) => ⟨app, .none, [], [.denied denial]⟩
  | .system (.ok _) => ⟨app, .none, [], []⟩
  | .other => ⟨app, .none, [], []⟩

/-- A frame is drawn. The reads are asked for on the first one. -/
def draw (size : Size) (app : SettingsApp K) : SettingsApp K × List AdminQuery :=
  let now : Painted := ⟨app.screen.page, app.screen.isConfirming⟩
  ({ app with
      asked := true
      damage := damageBetween app.painted now (layout size app.screen) (.ofSize size)
      painted := some now },
    if app.asked then [] else READS)

end

end SettingsApp

end Paperclip.Settings
