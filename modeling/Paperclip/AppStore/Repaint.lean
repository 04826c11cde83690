import Paperclip.AppStore.Flight
import Paperclip.Sdk.Repaint

/-!
# What the App Store claims of a frame

Whether the claim for a frame has every rectangle that is drawn otherwise than in the frame before.

* `paint`: what is drawn where. `look`: what is drawn in a rectangle.
* `Frame`: the app, the screen that was drawn last, and whether anything was claimed since.
* `Claims`: the row that an event claims, where it claims no more.
* `Narrows`: a row is claimed over another claim that was not drawn yet.
* `repaint_sound`: in a run in which no event does so, every frame is claimed.
-/

namespace Paperclip.AppStore

open Packages Sdk

/-! ## What is drawn -/

/-- What stands where the button of a row is. -/
inductive Button where
  | none
  | progress (step : String) (percent : Option ℕ)
  | action (label : String) (emphasised : Bool)
  deriving DecidableEq

/-- What is under the heading of the release notes. -/
inductive NotesContent where
  | text (notes : String)
  | without
  | fetching
  | notOffered
  deriving DecidableEq

/-- What the detail view says of its app. -/
structure DetailContent where
  name : String
  app : String
  versions : String
  prerelease : Option Version
  attempts : Option (UInt32 × Option String)
  notes : NotesContent
  failure : Option Failure
  primary : Button
  rollback : Bool
  deriving DecidableEq

/-- What is drawn in a rectangle. -/
inductive Content where
  | statusBar (summary : String)
  | banner (text : String)
  | emptyCard
  | row (name versions : String) (state : AppState) (button : Button)
  | refresh
  | detail (content : Option DetailContent)
  deriving DecidableEq

/-- The versions of an app, in a line. -/
def versionsLine (entry : AppEntry) : String :=
  let installed := match entry.installed with
    | none => "NOT INSTALLED"
    | some version => "V" ++ version.toString
  match entry.available with
  | some available => installed ++ " · OFFERED V" ++ available.toString
  | none => installed

/-- The progress of an app's change, while it is in flight. -/
def progressOf (screen : AppStoreScreen) (app : AppId) : Option Button :=
  match screen.working with
  | none => none
  | some working =>
    if working.app = app then some (.progress working.step working.percent) else none

/-- What the primary button of an app is drawn as, where there is a place for it. -/
def primaryButton (screen : AppStoreScreen) (app : AppId) (placed emphasised : Bool) : Button :=
  match screen.primaryLabel app, placed with
  | some label, true => .action label emphasised
  | _, _ => .none

/-- What a row is drawn as. -/
def rowContent (screen : AppStoreScreen) (entry : AppEntry) (placed : Bool) : Content :=
  .row entry.name (versionsLine entry) entry.state
    ((progressOf screen entry.app).getD
      (primaryButton screen entry.app placed (entry.state = .failing)))

/-- What is drawn under the heading of the release notes. -/
def notesContent (screen : AppStoreScreen) (entry : AppEntry) : NotesContent :=
  match screen.notes? with
  | some notes => if notes.toList.all isWhitespace then .without else .text notes
  | none => if entry.available.isSome then .fetching else .notOffered

section

variable {K : Type} [Field K] [LinearOrder K] (bounds : Protocol.Size)

/-- What the detail view is drawn as. -/
def detailContent (screen : AppStoreScreen) (app : AppId) : Option DetailContent :=
  match screen.detail with
  | none => none
  | some entry =>
    let layout : DetailLayout K := layoutDetail (storeArea bounds) screen app
    some {
      name := entry.name
      app := entry.app.text
      versions := versionsLine entry
      prerelease := entry.availablePrerelease
      attempts := match entry.health with
        | none => none
        | some health =>
          if health.started = false ∧ 0 < health.attempts then
            some (health.attempts, health.lastFailure)
          else none
      notes := notesContent screen entry
      failure := screen.failure
      primary := (progressOf screen app).getD
        (primaryButton screen app layout.primary.isSome true)
      rollback := (progressOf screen app).isNone && layout.rollback.isSome }

/-- The rows, each where it landed. -/
def paintRows (screen : AppStoreScreen) (entries : List AppEntry) (rows : List (RowLayout K)) :
    List (Rect K × Content) :=
  List.zipWith (fun entry row => (row.body, rowContent screen entry row.action.isSome)) entries rows

/-- What is drawn where. -/
def paint (screen : AppStoreScreen) : List (Rect K × Content) :=
  let area : Rect K := storeArea bounds
  (statusBar (.ofSize bounds), .statusBar screen.catalogSummary) ::
    match screen.view with
    | .list =>
      ((bannerText screen).map fun text => (bannerRect area, .banner text)).toList ++
        (if screen.rows.isEmpty then
          [(⟨area.x, listTop area screen, area.width, EMPTY_CARD_HEIGHT⟩, .emptyCard)] else []) ++
        paintRows screen screen.rows (layoutList area screen).rows ++ [(refreshRect area, .refresh)]
    | .detail app => [(area, .detail (detailContent (K := K) bounds screen app))]

/-- What is drawn in a rectangle. -/
def look (screen : AppStoreScreen) (rect : Rect K) : List Content :=
  ((paint bounds screen).filter fun item => decide (item.1 = rect)).map (·.2)

/-! ## Frames -/

/-- The app, the screen that was drawn last, and whether nothing was claimed since. -/
structure Frame (K : Type) where
  app : AppStoreApp K
  drawn : AppStoreScreen
  fresh : Bool
  deriving DecidableEq

namespace Frame

/-- A frame that was just drawn. -/
def of {K : Type} (app : AppStoreApp K) : Frame K := ⟨app, app.screen, true⟩

/-- The app is told of an event. What is claimed is claimed with a redraw. -/
def tell (frame : Frame K) (event : Event K) : Frame K :=
  let reaction := frame.app.event bounds event
  ⟨reaction.app, frame.drawn, frame.fresh && reaction.action = .none⟩

/-- The claim has every rectangle that is drawn otherwise than in the last frame. -/
def Sound (frame : Frame K) : Prop :=
  Covers id (look bounds) frame.drawn frame.app.screen frame.app.pendingDamage

/-- The row that an event claims, where it claims no more: the one of an operation in flight that
has got further, or one whose button starts an operation with no failure shown. -/
inductive Claims (app : AppStoreApp K) : Event K → Rect K → Prop where
  | progress {step : String} {percent : Option ℕ} {body : Rect K}
      (h : AppStoreApp.workingRow bounds app.screen = some body) :
      Claims app (.completed (.progress step percent)) body
  | start {pointer : PointerEvent K} {index : ℕ} {body : Rect K}
      (hlist : app.screen.view = .list) (htap : pointer.isTap = true)
      (hhit : (layoutList (storeArea bounds) app.screen).actionHit pointer = some index)
      (hrow : (layoutList (storeArea bounds) app.screen).rows[index]?.map (·.body) = some body)
      (hworking : app.screen.working = none) (hfailure : app.screen.failure = none) :
      Claims app (.pointer pointer) body

/-- A row is claimed over a claim of something else that was not drawn yet. -/
def Narrows (frame : Frame K) (event : Event K) : Prop :=
  ∃ body, Claims bounds frame.app event body ∧ frame.fresh = false ∧
    frame.app.pendingDamage ≠ .regions [body]

/-- What events and draws lead to. -/
inductive Reaches (allowed : Frame K → Event K → Prop) (frame : Frame K) : Frame K → Prop where
  | refl : Reaches allowed frame frame
  | tell {frame' : Frame K} {event : Event K} (h : Reaches allowed frame frame')
      (ha : allowed frame' event) : Reaches allowed frame (frame'.tell bounds event)
  | draw {frame' : Frame K} (h : Reaches allowed frame frame') :
      Reaches allowed frame (of frame'.app)

end Frame

end

/-! ## One row -/

section

variable {screen screen' : AppStoreScreen} {target : AppId}

theorem primaryLabel_congr (h : screen'.inventory = screen.inventory) (app : AppId) :
    screen'.primaryLabel app = screen.primaryLabel app := by
  rw [AppStoreScreen.primaryLabel, AppStoreScreen.primaryLabel, h]

theorem primaryButton_congr (h : screen'.inventory = screen.inventory) (app : AppId)
    (placed emphasised : Bool) :
    primaryButton screen' app placed emphasised = primaryButton screen app placed emphasised := by
  unfold primaryButton
  rw [primaryLabel_congr h]

theorem progressOf_of_ne {app : AppId} (h : screen.busy ≠ some app) :
    progressOf screen app = none := by
  unfold progressOf
  split
  · rfl
  · next working hw =>
    rw [if_neg]
    rintro rfl
    exact h (by rw [AppStoreScreen.busy, hw]; rfl)

/-- The two screens differ in the operation in flight of one app alone. -/
structure OneRow (screen screen' : AppStoreScreen) (target : AppId) : Prop where
  inventory : screen'.inventory = screen.inventory
  view : screen'.view = screen.view
  failure : screen'.failure = screen.failure
  before : ∀ app, app ≠ target → screen.busy ≠ some app
  after : ∀ app, app ≠ target → screen'.busy ≠ some app

theorem OneRow.bannerText (h : OneRow screen screen' target) :
    bannerText screen' = bannerText screen := by
  rw [AppStore.bannerText, AppStore.bannerText, h.failure, h.inventory]

theorem OneRow.rowContent (h : OneRow screen screen' target) {entry : AppEntry}
    (hne : entry.app ≠ target) (placed : Bool) :
    rowContent screen' entry placed = rowContent screen entry placed := by
  rw [AppStore.rowContent, AppStore.rowContent, progressOf_of_ne (h.before _ hne),
    progressOf_of_ne (h.after _ hne), primaryButton_congr h.inventory]

variable {K : Type} [Field K]

@[simp] theorem layoutRow_body (body : Rect K) (screen : AppStoreScreen) (entry : AppEntry) :
    (layoutRow body screen entry).body = body := by
  unfold layoutRow
  split
  · rfl
  · rfl

theorem OneRow.layoutRow (h : OneRow screen screen' target) {entry : AppEntry}
    (hne : entry.app ≠ target) (body : Rect K) :
    layoutRow body screen' entry = layoutRow body screen entry := by
  rw [AppStore.layoutRow, AppStore.layoutRow, if_neg (h.before _ hne), if_neg (h.after _ hne),
    primaryLabel_congr h.inventory]

variable [LinearOrder K]

/-- Outside of the row of the app, the rows are drawn as they were. -/
theorem OneRow.filter_paintRows (h : OneRow screen screen' target) (area refresh rect : Rect K)
    (entries : List AppEntry) (cursor : K)
    (hr : ∀ (index : ℕ) (entry : AppEntry) (row : RowLayout K), entries[index]? = some entry →
      entry.app = target →
      (layoutRows area refresh screen entries cursor)[index]? = some row → row.body ≠ rect) :
    (paintRows screen' entries (layoutRows area refresh screen' entries cursor)).filter
        (fun item => decide (item.1 = rect)) =
      (paintRows screen entries (layoutRows area refresh screen entries cursor)).filter
        (fun item => decide (item.1 = rect)) := by
  induction entries generalizing cursor with
  | nil => rfl
  | cons entry rest ih =>
    unfold layoutRows at hr ⊢
    dsimp only at hr ⊢
    split
    · rfl
    · next hfits =>
      rw [if_neg hfits] at hr
      have ht := ih (cursor + (ROW_HEIGHT + ROW_GAP)) fun index entry' row he ha hl =>
        hr (index + 1) entry' row he ha hl
      rw [paintRows, paintRows, List.zipWith_cons_cons, List.zipWith_cons_cons]
      rw [paintRows, paintRows] at ht
      by_cases hid : entry.app = target
      · have hne := hr 0 entry _ rfl hid rfl
        rw [layoutRow_body] at hne
        rw [List.filter_cons_of_neg (by simpa using hne),
          List.filter_cons_of_neg (by simpa using hne), ht]
      · rw [h.layoutRow hid, h.rowContent hid, List.filter_cons, List.filter_cons, ht]

/-- Outside of the row of the app, the list is drawn as it was. -/
theorem OneRow.look_eq (h : OneRow screen screen' target) (hlist : screen.view = .list)
    {bounds : Protocol.Size} {rect : Rect K}
    (hr : ∀ (index : ℕ) (entry : AppEntry) (row : RowLayout K), screen.rows[index]? = some entry →
      entry.app = target →
      (layoutList (storeArea bounds) screen).rows[index]? = some row → row.body ≠ rect) :
    look bounds screen rect = look bounds screen' rect := by
  have hrows : screen'.rows = screen.rows := by
    rw [AppStoreScreen.rows, AppStoreScreen.rows, h.inventory]
  have htop : listTop (K := K) (storeArea bounds) screen' = listTop (storeArea bounds) screen := by
    rw [listTop, listTop, h.bannerText]
  have hsummary : screen'.catalogSummary = screen.catalogSummary := by
    rw [AppStoreScreen.catalogSummary, AppStoreScreen.catalogSummary, h.inventory]
  have hp := h.filter_paintRows (storeArea bounds) (refreshRect (storeArea bounds)) rect screen.rows
    (listTop (storeArea bounds) screen) hr
  rw [look, look, paint, paint]
  congr 1
  rw [h.view, hlist, hsummary, h.bannerText, hrows, htop, layoutList, layoutList, hrows, htop]
  simp only [List.filter_cons, List.filter_append, hp]

/-! ## Events -/

variable {app : AppStoreApp K} {bounds : Protocol.Size}

/-- One row of an app is the only row of it. -/
theorem index_unique {screen : AppStoreScreen} {i j : ℕ} {entry entry' : AppEntry}
    (hi : screen.rows[i]? = some entry) (hj : screen.rows[j]? = some entry')
    (h : entry'.app = entry.app) : j = i := by
  have hn := screen.inventory.nodup
  have hi' : (screen.rows.map (·.app))[i]? = some entry.app := by rw [List.getElem?_map, hi]; rfl
  have hj' : (screen.rows.map (·.app))[j]? = some entry.app := by
    rw [List.getElem?_map, hj]
    exact congrArg some h
  obtain ⟨hlt, -⟩ := List.getElem?_eq_some_iff.1 hj'
  exact (List.getElem?_inj hlt hn).1 (hj'.trans hi'.symm)

/-- A change of the operation in flight of an app is claimed with the row of the app. -/
theorem OneRow.covers (h : OneRow screen screen' target) (hlist : screen.view = .list)
    {index : ℕ} {entry : AppEntry} {body : Rect K} (he : screen.rows[index]? = some entry)
    (ha : entry.app = target)
    (hb : (layoutList (storeArea bounds) screen).rows[index]?.map (·.body) = some body) :
    Covers id (look bounds) screen screen' (.regions [body]) := by
  intro rect hne
  by_contra hr
  refine hne (h.look_eq hlist fun index' entry' row he' ha' hl => ?_)
  rintro rfl
  obtain rfl := index_unique he he' (ha'.trans ha.symm)
  rw [hl] at hb
  exact hr (List.mem_singleton.2 (Option.some.inj hb))

/-- What an event does to what is drawn and claimed. -/
inductive Step (bounds : Protocol.Size) (app : AppStoreApp K) (event : Event K)
    (reaction : Reaction K) : Prop where
  /-- Nothing. -/
  | keeps (ha : reaction.action = .none) (h : reaction.app = app)
  /-- Everything is claimed. -/
  | full (ha : reaction.action = .redraw) (h : reaction.app.pendingDamage = .full)
  /-- A row is claimed, and nothing else is drawn otherwise. -/
  | row (ha : reaction.action = .redraw) {body : Rect K}
      (hc : Frame.Claims bounds app event body) (h : reaction.app.pendingDamage = .regions [body])
      (hcov : Covers id (look bounds) app.screen reaction.app.screen
        (.regions [body]))

theorem step_ignored (event : Event K) : Step bounds app event app.ignored :=
  .keeps rfl rfl

/-- A change that starts on no row, or with a failure shown, claims everything. -/
theorem step_start (event : Event K) {request : Request} {row : Option (Rect K)}
    (h : row = none) : Step bounds app event (app.start request row) := by
  subst h
  unfold AppStoreApp.start
  split
  · exact step_ignored event
  · refine .full rfl ?_
    dsimp only
    split
    · next hrow => cases hrow
    · rfl

/-- A change that starts on a row of the list. -/
theorem step_start_row {pointer : PointerEvent K} {request : Request} {index : ℕ}
    {entry : AppEntry} (hlist : app.screen.view = .list) (htap : pointer.isTap = true)
    (hhit : (layoutList (storeArea bounds) app.screen).actionHit pointer = some index)
    (he : app.screen.rows[index]? = some entry)
    (hp : app.screen.primaryAction entry.app = some request) {row : Option (Rect K)}
    (hrow : (layoutList (storeArea bounds) app.screen).rows[index]?.map (·.body) = row) :
    Step bounds app (.pointer pointer) (app.start request row) := by
  cases row with
  | none => exact step_start _ rfl
  | some body =>
    unfold AppStoreApp.start
    rw [AppStoreScreen.begin_of_changes (AppStoreScreen.changes_primaryAction hp)]
    by_cases hw : app.screen.working.isSome
    · rw [if_pos hw]
      exact step_ignored _
    rw [if_neg hw]
    have hn : app.screen.working = none := Option.not_isSome_iff_eq_none.1 hw
    rcases hf : app.screen.failure with _ | failure
    · refine .row rfl (.start hlist htap hhit hrow hn hf) rfl (OneRow.covers ?_ hlist he rfl hrow)
      refine ⟨rfl, rfl, hf.symm, fun other _ hb => ?_, fun other hne hb => ?_⟩
      · rw [AppStoreScreen.busy, hn] at hb
        cases hb
      · exact hne (Option.some.inj hb).symm
    · exact .full rfl rfl

theorem step_pressList {pointer : PointerEvent K} (hlist : app.screen.view = .list)
    (htap : pointer.isTap = true) :
    Step bounds app (.pointer pointer)
      (app.pressList (layoutList (storeArea bounds) app.screen) pointer) := by
  unfold AppStoreApp.pressList
  split
  · exact .keeps rfl rfl
  · split
    · next hhit =>
      split
      · exact step_ignored _
      · next he =>
        split
        · exact step_ignored _
        · next hp => exact step_start_row hlist htap hhit he hp rfl
    · split
      · exact step_ignored _
      · split
        · exact step_ignored _
        · exact .full rfl rfl

theorem step_pressDetail (event : Event K) (showing : AppId) (detail : DetailLayout K)
    (at_ : PointerEvent K) :
    Step bounds app event (app.pressDetail showing detail at_) := by
  unfold AppStoreApp.pressDetail
  split
  · exact .full rfl rfl
  · split
    · exact step_start event rfl
    · split
      · exact step_start event rfl
      · exact step_ignored event

/-- The row of an operation in flight is that of its app. -/
theorem covers_report {body : Rect K} (h : AppStoreApp.workingRow bounds app.screen = some body)
    (step : String) (percent : Option ℕ) :
    Covers id (look bounds) app.screen (app.screen.report step percent) (.regions [body]) := by
  unfold AppStoreApp.workingRow at h
  split at h
  · cases h
  · next hlist =>
    obtain ⟨working, hw, h⟩ := Option.bind_eq_some_iff.1 h
    obtain ⟨index, hi, h⟩ := Option.bind_eq_some_iff.1 h
    obtain ⟨row, hrow, h⟩ := Option.bind_eq_some_iff.1 h
    obtain rfl := Option.some.inj h
    obtain ⟨hlt, ha, -⟩ := List.findIdx?_eq_some_iff_getElem.1 hi
    have hb : app.screen.busy = some working.app := by rw [AppStoreScreen.busy, hw]; rfl
    have hne : ∀ other, other ≠ working.app → app.screen.busy ≠ some other := by
      intro other hne ho
      exact hne (Option.some.inj (ho.symm.trans hb))
    have hone : OneRow app.screen (app.screen.report step percent) working.app := by
      refine ⟨rfl, rfl, rfl, hne, fun other ho => ?_⟩
      rw [AppStoreScreen.busy_report]
      exact hne other ho
    exact hone.covers hlist (List.getElem?_eq_getElem hlt) (of_decide_eq_true ha)
      (congrArg (Option.map (·.body)) hrow)

/-- Every event keeps what is drawn, claims everything, or claims the one row that it changes. -/
theorem step_event (event : Event K) :
    Step bounds app event (app.event bounds event) := by
  cases event with
  | pointer pointer =>
    change Step bounds app (.pointer pointer) (app.press bounds pointer)
    unfold AppStoreApp.press
    split
    · exact step_ignored _
    · next htap =>
      split
      · next hlist => exact step_pressList hlist (by simpa using htap)
      · exact step_pressDetail _ _ _ _
  | completed completion =>
    cases completion with
    | progress step percent =>
      unfold AppStoreApp.event
      dsimp only
      rcases hrow : AppStoreApp.workingRow bounds app.screen with _ | body
      · exact .full rfl rfl
      · exact .row rfl (.progress hrow) rfl (covers_report hrow step percent)
    | done outcome => exact .full rfl rfl
  | other => exact step_ignored _

/-! ## Runs -/

/-- The last frame is drawn as the app is, or what changed since is claimed. -/
structure Frame.Kept (bounds : Protocol.Size) (frame : Frame K) : Prop where
  fresh : frame.fresh = true → ∀ rect : Rect K,
    look bounds frame.drawn rect = look bounds frame.app.screen rect
  sound : frame.Sound bounds

theorem Frame.Kept.of (app : AppStoreApp K) : (Frame.of app).Kept bounds :=
  ⟨fun _ _ => rfl, .refl⟩

/-- An event that does not narrow a claim keeps what is drawn claimed. -/
theorem Frame.Kept.tell {frame : Frame K} (h : frame.Kept bounds) {event : Event K}
    (hn : ¬ frame.Narrows bounds event) : (frame.tell bounds event).Kept bounds := by
  have hstep : Step bounds frame.app event (frame.app.event bounds event) :=
    step_event event
  cases hstep with
  | keeps ha happ =>
    refine ⟨fun hf rect => ?_, ?_⟩
    · have hfresh : frame.fresh = true := (Bool.and_eq_true_iff.1 hf).1
      rw [Frame.tell, happ]
      exact h.fresh hfresh rect
    · rw [Frame.Sound, Frame.tell, happ]
      exact h.sound
  | full ha hd =>
    refine ⟨fun hf => ?_, ?_⟩
    · rw [Frame.tell, ha] at hf
      exact absurd (Bool.and_eq_true_iff.1 hf).2 (by decide)
    · rw [Frame.Sound, Frame.tell, hd]
      exact .full
  | row ha hc hd hcov =>
    refine ⟨fun hf => ?_, ?_⟩
    · rw [Frame.tell, ha] at hf
      exact absurd (Bool.and_eq_true_iff.1 hf).2 (by decide)
    · rw [Frame.Sound, Frame.tell, hd]
      refine .trans ?_ hcov
      by_cases hf : frame.fresh = true
      · exact .of_eq (h.fresh hf)
      · by_contra hcov
        refine hn ⟨_, hc, by simpa using hf, fun hp => hcov ?_⟩
        rw [← hp]
        exact h.sound

/-- In a run in which no row is claimed over another claim that was not drawn yet, every rectangle
that is drawn otherwise than in the last frame is claimed. -/
theorem repaint_sound (bounds : Protocol.Size) (app : AppStoreApp K) {frame : Frame K}
    (h : (Frame.of app).Reaches bounds (fun frame event => ¬ frame.Narrows bounds event) frame) :
    frame.Sound bounds := by
  suffices hk : frame.Kept bounds from hk.sound
  induction h with
  | refl => exact .of app
  | tell _ ha ih => exact ih.tell ha
  | draw _ _ => exact .of _

end

/-! ## A tap on BACK and one on INSTALL -/

/-- A tap on the button of the first row. -/
def tapInstall : Event ℚ := .pointer ⟨1300, 200, .up⟩

/-- The row of the install that was pressed is claimed. -/
theorem repaint_sound_install :
    ((Frame.of ⟨.new offered, .full⟩).tell SCREEN tapInstall).Sound SCREEN :=
  repaint_sound SCREEN ⟨.new offered, .full⟩ (.tell .refl fun ⟨_, _, hf, _⟩ => by cases hf)

/-- The frame after the detail view was drawn and both were tapped. -/
def backAndInstall : Frame ℚ :=
  ((Frame.of ⟨((AppStoreScreen.new offered).open_ chess.app).1, .full⟩).tell SCREEN
    (.pointer ⟨60, 170, .up⟩)).tell SCREEN tapInstall

/-- Between two frames the detail view is left and an install is started: the row alone is claimed
of the list that is drawn. -/
theorem narrowed_claim :
    backAndInstall.app.pendingDamage = .regions [⟨56, 164, 1508, 184⟩] ∧
      ¬ backAndInstall.Sound SCREEN := by
  have hd : backAndInstall.app.pendingDamage = .regions [⟨56, 164, 1508, 184⟩] := by
    decide +kernel
  refine ⟨hd, fun h => ?_⟩
  -- The refresh button is drawn where the detail view had none.
  have hr := h ⟨1316, 1976, 248, 128⟩ (by decide +kernel)
  rw [hd] at hr
  revert hr
  change ¬ ((⟨1316, 1976, 248, 128⟩ : Rect ℚ) ∈ [(⟨56, 164, 1508, 184⟩ : Rect ℚ)])
  decide +kernel

end Paperclip.AppStore
