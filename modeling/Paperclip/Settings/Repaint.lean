import Mathlib.Algebra.Field.Rat
import Mathlib.Algebra.Order.Ring.Rat
import Paperclip.Sdk.Repaint
import Paperclip.Settings.Screen

/-!
# What Settings claims of a frame

Whether the claim for a frame has every part of the screen that is drawn otherwise than in the frame
before.

* `pageBody`: what the page that is shown says. `look`: what is drawn in a part of the screen.
* `Outdated`: the version in the status bar or the text of the same page is not what was drawn.
* `settings_repaint_iff`: a frame is claimed if it is treated as a first one, a confirmation is open
  on either side of it, or nothing is outdated, and otherwise not.
-/

namespace Paperclip.Settings

open Protocol Sdk

/-- A part of the screen. -/
inductive Region where
  | statusBar
  | tab (page : SettingsPage)
  | body
  deriving DecidableEq

/-- A row of a list page. -/
structure Row where
  title : String
  detail : String
  actions : List String
  deriving DecidableEq

/-- What is drawn below the tabs. -/
inductive Body (K : Type) where
  | note (text : String)
  | rows (rows : List Row)
  /-- A meter that is filled that far, if there is anything to measure. -/
  | meter (filled : Option K) (text : String) (facts : List (String × String))
  | facts (facts : List (String × String))
  | logs (entries : List DiagnosticEntry) (where_ : String)
  deriving DecidableEq

/-- What is drawn in a part of the screen, under a dialog. -/
inductive Content (K : Type) where
  | statusBar (title trailing : String)
  | tab (label : String) (active : Bool)
  | page (body : Body K) (footer : List String)
  deriving DecidableEq

/-- Everything that is used. -/
def usedBytes (storage : StorageUsage) : ℕ := (storage.buckets.map (·.bytes)).sum

/-- The row of an app. -/
def appRow (app : InstalledAppSummary) : Row :=
  { title := uppercase app.name
    detail :=
      match app.previousVersion with
      | some previous => "ACTIVE V" ++ app.activeVersion ++ " · PREVIOUS V" ++ previous
      | none => "ACTIVE V" ++ app.activeVersion ++ " · NO PREVIOUS RELEASE"
    actions :=
      if hasPreviousRelease app then ["ROLLBACK", "UNINSTALL"] else ["UNINSTALL"] }

/-- The row of a grant. -/
def grantRow (grant : GrantSummary) : Row :=
  { title := uppercase grant.appName ++ " · " ++ uppercase (name grant.capability)
    detail := if grant.inUse then "IN USE NOW" else "GRANTED, NOT CURRENTLY IN USE"
    actions := ["REVOKE"] }

section

variable {K : Type} [Field K] [LinearOrder K] (formatBytes : ℕ → String) (size : Size)

/-- How far the meter is filled. -/
def meterFilled (storage : StorageUsage) : Option K :=
  let used := usedBytes storage
  let total := used + storage.freeBytes
  if 0 < total then
    some ((layoutNav (Rect.ofSize size) (statusBarContentArea (Rect.ofSize size)).y).2.width *
      max 0 (min 1 ((used : K) / total)))
  else none

/-- What the page that is shown says. -/
def pageBody (screen : SettingsScreen) : Body K :=
  match screen.page with
  | .apps =>
    if screen.apps.isEmpty then .note "NOTHING INSTALLED FROM THE CATALOG YET."
    else .rows (screen.apps.map appRow)
  | .storage =>
    let used := usedBytes screen.storage
    .meter (meterFilled size screen.storage)
      (formatBytes used ++ " USED OF " ++ formatBytes (used + screen.storage.freeBytes))
      (screen.storage.buckets.map (fun bucket => (bucket.label, formatBytes bucket.bytes)) ++
        [("FREE", formatBytes screen.storage.freeBytes)])
  | .grants =>
    if screen.grants.isEmpty then .note "NO CAPABILITIES ARE GRANTED."
    else .rows (screen.grants.map grantRow)
  | .catalog =>
    .facts [("ENDPOINT", screen.catalog.endpoint),
      ("LAST SUCCESSFUL FETCH", screen.catalog.lastFetch.getD "NEVER"),
      ("REACHABLE NOW", if screen.catalog.reachable then "YES" else "NO")]
  | .platform =>
    .facts [("PAPERCLIP VERSION", "V" ++ screen.platform.paperclipVersion),
      ("FIRMWARE", screen.platform.firmware),
      ("ACTIVE PLATFORM RELEASE", screen.platform.activeRelease)]
  | .diagnostics =>
    if screen.diagnostics.isEmpty then .note "NO ERRORS RECORDED."
    else .logs screen.diagnostics "FULL LOGS: /HOME/ROOT/PAPERCLIP/LOGS"

/-- What is drawn in a part of the screen, and the dialog that is drawn over all of it. -/
def look (screen : SettingsScreen) (region : Region) : Content K × Option ConfirmDialog :=
  (match region with
    | .statusBar => .statusBar "SETTINGS" ("V" ++ screen.platform.paperclipVersion)
    | .tab page => .tab page.tabLabel (page = screen.page)
    | .body =>
      .page (pageBody formatBytes size screen)
        (if screen.pending.isNone then ["RETURN TO REMARKABLE"] else []),
    screen.pending.map (·.dialog))

/-- Where the tabs end. -/
def tabsBottom : K := STATUS_BAR_HEIGHT + NAV_HEIGHT

/-- Where a part of the screen is. -/
def Region.rect : Region → Rect K
  | .statusBar => Sdk.statusBar (.ofSize size)
  | .tab page =>
    let width := (Rect.ofSize size : Rect K).width / SettingsPage.ALL.length
    ⟨SettingsPage.ALL.idxOf page * width, STATUS_BAR_HEIGHT, width, NAV_HEIGHT⟩
  | .body =>
    let bounds : Rect K := .ofSize size
    ⟨0, tabsBottom, bounds.width, max (bounds.bottom - tabsBottom) 0⟩

/-- The version in the status bar, or the text of the same page, is not what was drawn. -/
def Outdated (drawn now : SettingsScreen) : Prop :=
  drawn.platform.paperclipVersion ≠ now.platform.paperclipVersion ∨
    (drawn.page = now.page ∧
      (pageBody formatBytes size drawn : Body K) ≠ pageBody formatBytes size now)

end

/-! ## Runs -/

/-- The app, and the screen that was drawn last. -/
structure Frame (K : Type) where
  app : SettingsApp K
  drawn : Option SettingsScreen

namespace Frame

variable {K : Type} [Field K] [LinearOrder K] (formatBytes : ℕ → String) (size : Size)

def new : Frame K := ⟨.new, none⟩

/-- The app is told of an event. -/
def tell (frame : Frame K) (event : Event K) : Frame K :=
  ⟨(frame.app.event formatBytes size event).app, frame.drawn⟩

/-- A frame is drawn. -/
def draw (frame : Frame K) : Frame K := ⟨(frame.app.draw size).1, some frame.app.screen⟩

/-- What events and draws lead to. -/
inductive Reaches : Frame K → Prop where
  | new : Reaches new
  | tell {frame : Frame K} (h : Reaches frame) (event : Event K) :
      Reaches (frame.tell formatBytes size event)
  | draw {frame : Frame K} (h : Reaches frame) : Reaches (frame.draw size)

/-- A frame that is drawn now claims every part of the screen that it draws otherwise than the last
one. -/
def Sound (frame : Frame K) : Prop :=
  ∀ drawn, frame.drawn = some drawn →
    Covers (Region.rect size) (look formatBytes size : _ → _ → Content K × _) drawn
      frame.app.screen (frame.app.draw size).1.damage

/-- What the app knows of the last frame is what was drawn, or nothing. -/
def Kept (frame : Frame K) : Prop :=
  ∀ drawn, frame.drawn = some drawn →
    frame.app.painted = none ∨ frame.app.painted = some ⟨drawn.page, drawn.isConfirming⟩

variable {formatBytes size} {frame : Frame K}

theorem Kept.tell (h : frame.Kept) (event : Event K) :
    (frame.tell formatBytes size event).Kept := by
  intro drawn hd
  cases event with
  | pointer pointer => exact h drawn hd
  | resumed => exact .inl rfl
  | other => exact h drawn hd
  | system result =>
    cases result with
    | error denial => exact h drawn hd
    | ok value => cases value <;> exact h drawn hd

theorem Reaches.kept (h : frame.Reaches formatBytes size) : frame.Kept := by
  induction h with
  | new => intro drawn hd; cases hd
  | tell _ event ih => exact ih.tell event
  | draw _ _ =>
    intro drawn hd
    obtain rfl := Option.some.inj hd
    exact .inr rfl

end Frame

/-! ## The claim for a frame -/

section

variable {K : Type} [Field K] [LinearOrder K] {formatBytes : ℕ → String} {size : Size}
  {drawn now : SettingsScreen}

theorem tabRect_layout (page : SettingsPage) :
    SettingsApp.tabRect (layout size now : SettingsLayout K).nav.tabs page =
      some ((Region.tab page).rect size) := by
  cases page <;> rfl

/-- The claim for a frame of another page, with no dialog. -/
theorem damageBetween_of_ne (hd : drawn.isConfirming = false) (hn : now.isConfirming = false)
    (hp : drawn.page ≠ now.page) :
    SettingsApp.damageBetween (some ⟨drawn.page, drawn.isConfirming⟩)
        ⟨now.page, now.isConfirming⟩ (layout size now) (.ofSize size) =
      (.regions [(Region.tab drawn.page).rect size, (Region.tab now.page).rect size,
        Region.body.rect size] : Damage K) := by
  rw [SettingsApp.damageBetween]
  simp only [hd, hn, Bool.or_self, Bool.false_eq_true, ↓reduceIte, if_neg hp, tabRect_layout]
  rfl

/-- The claim for a frame of the same page, with no dialog. -/
theorem damageBetween_of_eq {layout : SettingsLayout K} {bounds : Rect K}
    (hd : drawn.isConfirming = false) (hn : now.isConfirming = false)
    (hp : drawn.page = now.page) :
    SettingsApp.damageBetween (some ⟨drawn.page, drawn.isConfirming⟩)
      ⟨now.page, now.isConfirming⟩ layout bounds = .regions [] := by
  rw [SettingsApp.damageBetween]
  simp only [hd, hn, Bool.or_self, Bool.false_eq_true, ↓reduceIte, if_pos hp]

theorem pending_of_not_confirming (h : now.isConfirming = false) : now.pending = none := by
  simpa [SettingsScreen.isConfirming] using h

/-- With no dialog and nothing outdated, only the tabs and the body of another page differ. -/
theorem covers_of_not_outdated (hd : drawn.isConfirming = false) (hn : now.isConfirming = false)
    (h : ¬ Outdated (K := K) formatBytes size drawn now) :
    Covers (Region.rect size) (look formatBytes size : _ → _ → Content K × _) drawn now
      (SettingsApp.damageBetween (some ⟨drawn.page, drawn.isConfirming⟩)
        ⟨now.page, now.isConfirming⟩ (layout size now) (.ofSize size) : Damage K) := by
  obtain ⟨hv, hb⟩ := not_or.1 h
  have hv := not_not.1 hv
  intro region hne
  simp only [look, pending_of_not_confirming hd, pending_of_not_confirming hn] at hne
  by_cases hp : drawn.page = now.page
  · cases region with
    | statusBar => exact absurd (by rw [hv]) hne
    | tab page => exact absurd (by rw [hp]) hne
    | body => exact absurd (by rw [not_not.1 (not_and.1 hb hp)]) hne
  · rw [damageBetween_of_ne hd hn hp]
    cases region with
    | statusBar => exact absurd (by rw [hv]) hne
    | tab page =>
      by_cases hwas : page = drawn.page
      · subst hwas
        exact List.mem_cons_self
      · by_cases his : page = now.page
        · subst his
          exact List.mem_cons_of_mem _ List.mem_cons_self
        · exact absurd (by simp [hwas, his]) hne
    | body => exact List.mem_cons_of_mem _ (List.mem_cons_of_mem _ List.mem_cons_self)

/-- The status bar is no tab, and not below them. -/
theorem statusBar_not_claimed [IsStrictOrderedRing K] (page page' : SettingsPage) :
    (Region.statusBar.rect size : Rect K) ∉
      [(Region.tab page).rect size, (Region.tab page').rect size, Region.body.rect size] := by
  have hbar : (0 : K) ≠ STATUS_BAR_HEIGHT := by
    rw [STATUS_BAR_HEIGHT]
    exact Nat.cast_ne_zero.2 (by decide) |>.symm
  have htabs : (0 : K) ≠ tabsBottom := by
    rw [tabsBottom, ← Nat.cast_add]
    exact Nat.cast_ne_zero.2 (by decide) |>.symm
  simp only [List.mem_cons, List.not_mem_nil, or_false, not_or]
  refine ⟨fun h => hbar (congrArg Sdk.Rect.y h), fun h => hbar (congrArg Sdk.Rect.y h),
    fun h => htabs (congrArg Sdk.Rect.y h)⟩

/-- What is outdated with no dialog is not claimed. -/
theorem not_covers_of_outdated [IsStrictOrderedRing K] (hd : drawn.isConfirming = false)
    (hn : now.isConfirming = false) (h : Outdated (K := K) formatBytes size drawn now) :
    ¬ Covers (Region.rect size) (look formatBytes size : _ → _ → Content K × _) drawn now
      (SettingsApp.damageBetween (some ⟨drawn.page, drawn.isConfirming⟩)
        ⟨now.page, now.isConfirming⟩ (layout size now) (.ofSize size) : Damage K) := by
  intro hc
  rcases h with hv | ⟨hp, hb⟩
  · have hne : (look formatBytes size drawn .statusBar : Content K × _) ≠
        look formatBytes size now .statusBar := by
      intro heq
      have := (Content.statusBar.inj (congrArg Prod.fst heq)).2
      exact hv (by simpa using this)
    have hhas := hc .statusBar hne
    by_cases hp : drawn.page = now.page
    · rw [damageBetween_of_eq hd hn hp] at hhas
      exact List.not_mem_nil hhas
    · rw [damageBetween_of_ne hd hn hp] at hhas
      exact statusBar_not_claimed _ _ hhas
  · have hhas := hc .body fun heq => hb (Content.page.inj (congrArg Prod.fst heq)).1
    rw [damageBetween_of_eq hd hn hp] at hhas
    exact List.not_mem_nil hhas

/-- In every run, a frame claims what it draws otherwise than the last one if Settings was resumed
since, a confirmation is open in either of them, or nothing is outdated. Else it does not. -/
theorem settings_repaint_iff [IsStrictOrderedRing K] (formatBytes : ℕ → String) (size : Size)
    {frame : Frame K} (h : frame.Reaches formatBytes size) :
    frame.Sound formatBytes size ↔ ∀ drawn, frame.drawn = some drawn →
      frame.app.painted = none ∨ drawn.isConfirming = true ∨
        frame.app.screen.isConfirming = true ∨
          ¬ Outdated (K := K) formatBytes size drawn frame.app.screen := by
  refine forall_congr' fun drawn => forall_congr' fun hdrawn => ?_
  rcases h.kept drawn hdrawn with hp | hp
  · refine ⟨fun _ => .inl hp, fun _ => ?_⟩
    rw [SettingsApp.draw, hp]
    exact .full
  · rw [SettingsApp.draw, hp]
    by_cases hd : drawn.isConfirming = true
    · refine ⟨fun _ => .inr (.inl hd), fun _ => ?_⟩
      rw [SettingsApp.damageBetween, hd]
      exact .full
    · by_cases hn : frame.app.screen.isConfirming = true
      · refine ⟨fun _ => .inr (.inr (.inl hn)), fun _ => ?_⟩
        simp only [SettingsApp.damageBetween, hn, Bool.or_true, ↓reduceIte]
        exact .full
      · have hd : drawn.isConfirming = false := by simpa using hd
        have hn : frame.app.screen.isConfirming = false := by simpa using hn
        constructor
        · intro hc
          exact .inr (.inr (.inr fun ho => not_covers_of_outdated hd hn ho hc))
        · intro hor
          refine covers_of_not_outdated hd hn ?_
          rcases hor with h | h | h | h
          · cases h
          · rw [hd] at h
            cases h
          · rw [hn] at h
            cases h
          · exact h

end

/-! ## A tab, and the answer to a launch read -/

/-- Megabytes, to one place. -/
def megabytes (bytes : ℕ) : String :=
  toString (bytes / 1000000) ++ "." ++ toString (bytes / 100000 % 10) ++ " MB"

/-- The tab of the storage page is tapped after the first frame. -/
def afterTab : Frame ℚ :=
  (Frame.new.draw SCREEN).tell megabytes SCREEN (.pointer ⟨300, 150, .up⟩)

/-- The two tabs and the page are claimed. -/
theorem settings_repaint_iff_tab : afterTab.Sound megabytes SCREEN := by
  refine (settings_repaint_iff megabytes SCREEN (.tell (.draw .new) _)).2 fun drawn hd => ?_
  obtain rfl := Option.some.inj hd
  refine .inr (.inr (.inr ?_))
  rintro (hv | ⟨hp, -⟩)
  · exact hv (by decide +kernel)
  · exact absurd hp (by decide +kernel)

/-- One installed app. -/
def installedChess : InstalledAppSummary :=
  { id := ⟨"dev.calum.chess"⟩
    name := "Chess"
    activeVersion := "0.2.0"
    previousVersion := none
    dataBytes := 0 }

/-- The first page is drawn, which asks for the facts, and the list of apps arrives. -/
def afterAnswer : Frame ℚ :=
  (Frame.new.draw SCREEN).tell megabytes SCREEN
    (.system (.ok (.admin (.installedApps [installedChess]))))

/-- The list was drawn as empty, and the frame with the app in it claims nothing. -/
theorem answer_unclaimed :
    afterAnswer.Reaches megabytes SCREEN ∧ (afterAnswer.app.draw SCREEN).1.damage = .regions [] ∧
      ¬ afterAnswer.Sound megabytes SCREEN := by
  have hd : (afterAnswer.app.draw SCREEN).1.damage = .regions [] := by decide +kernel
  refine ⟨.tell (.draw .new) _, hd, fun h => ?_⟩
  have hb := h .loading rfl .body (by decide +kernel)
  rw [hd] at hb
  exact List.not_mem_nil hb

end Paperclip.Settings
