import Paperclip.Settings.Repaint
import Paperclip.Trace.Since

/-!
# The writes that Settings asks for

In every run of events and frames: which presses send a rollback, an uninstall or a revoke, and what
was on the glass by then.

* `step`, `queries`: what an event or a frame does, and what it sends.
* `Offers`: an action that a button of the screen opens the confirmation of.
* `Confirmed`: a write is sent by a press on the confirm button of a dialog that was drawn and has
  been open since, for the app that the dialog was opened for, and once for a dialog.
* `Unseen`: a press on the confirm button of a dialog that was not drawn yet.
* `confirmed_iff`: a run is as the first says if and only if it has none of the second.
-/

namespace Paperclip.Settings

open Protocol Sdk Trace

/-- An event, or a frame that is drawn. -/
inductive Input (K : Type) where
  | event (event : Event K)
  | draw
  deriving DecidableEq

/-- A query that cannot be undone. -/
def Destructive : AdminQuery → Prop
  | .rollback _ | .uninstall _ | .revokeGrant _ _ => True
  | .installedApps | .storageUsage | .grants | .catalogStatus | .platformInfo | .diagnostics =>
    False

/-- An action that a button of the screen opens the confirmation of. -/
inductive Offers (formatBytes : ℕ → String) (screen : SettingsScreen) : PendingAction → Prop where
  | rollback {app : InstalledAppSummary} {previous : String} (h : app ∈ screen.apps)
      (hp : app.previousVersion = some previous) :
      Offers formatBytes screen (rollbackAction app previous)
  | uninstall {app : InstalledAppSummary} (h : app ∈ screen.apps) :
      Offers formatBytes screen (uninstallAction formatBytes app)
  | revoke {grant : GrantSummary} (h : grant ∈ screen.grants) :
      Offers formatBytes screen (revokeAction grant)

section

variable {K : Type} [Field K] [LinearOrder K]

/-- A tap on the confirm button of the dialog of an action. -/
structure Confirms (size : Size) (action : PendingAction) (pointer : PointerEvent K) : Prop where
  tap : pointer.isTap = true
  cancel : (layoutConfirm (.ofSize size) action.dialog.lines.length).cancel.hit pointer = false
  confirm : (layoutConfirm (.ofSize size) action.dialog.lines.length).confirm.hit pointer = true

variable (formatBytes : ℕ → String) (size : Size)

/-- What an input does. -/
def step (app : SettingsApp K) : Input K → SettingsApp K
  | .event event => (app.event formatBytes size event).app
  | .draw => (app.draw size).1

/-- What an input sends. -/
def queries (app : SettingsApp K) : Input K → List AdminQuery
  | .event event => (app.event formatBytes size event).queries
  | .draw => (app.draw size).2

/-! ## Runs -/

variable (inputs : List (Input K)) (k : ℕ)

/-- The app before an input of a run from the launch. -/
def state : SettingsApp K := at_ (step formatBytes size) .new inputs k

/-- A dialog is open. -/
def Open : Prop := (state formatBytes size inputs k).screen.isConfirming = true

/-- An input sends a query. -/
def Sends (query : AdminQuery) : Prop :=
  ∃ input, inputs[k]? = some input ∧
    query ∈ queries formatBytes size (state formatBytes size inputs k) input

/-- A write is sent by a press on the confirm button of a dialog that was drawn and has been open
since, for the app that the dialog was opened for, and once for a dialog. -/
structure Confirmed : Prop where
  seen : ∀ k query, Sends formatBytes size inputs k query → Destructive query →
    ∃ opened action pointer,
      Since (Open formatBytes size inputs) opened k ∧
      (∃ drawn, opened < drawn ∧ drawn < k ∧ inputs[drawn]? = some .draw) ∧
      inputs[k]? = some (.event (.pointer pointer)) ∧ Confirms size action pointer ∧
      (∀ j, opened < j → j ≤ k → (state formatBytes size inputs j).screen.pending = some action) ∧
      Offers formatBytes (state formatBytes size inputs opened).screen action ∧
      query = action.kind.intoQuery ∧
      queries formatBytes size (state formatBytes size inputs k) (.event (.pointer pointer)) =
        [query]
  once : ∀ opened k k' query query', Since (Open formatBytes size inputs) opened k →
    Since (Open formatBytes size inputs) opened k' → Sends formatBytes size inputs k query →
    Destructive query → Sends formatBytes size inputs k' query' → Destructive query' →
    k = k' ∧ query = query'

/-- A press on the confirm button of a dialog that was not drawn yet. -/
def Unseen : Prop :=
  ∃ opened action pointer, Since (Open formatBytes size inputs) opened k ∧
    (state formatBytes size inputs k).screen.pending = some action ∧
    inputs[k]? = some (.event (.pointer pointer)) ∧ Confirms size action pointer ∧
    ∀ drawn, opened < drawn → drawn < k → inputs[drawn]? ≠ some .draw

end

/-! ## What an input does to the confirmation -/

section

variable {K : Type} [Field K] [LinearOrder K] {formatBytes : ℕ → String} {size : Size}
  {screen : SettingsScreen} {app : SettingsApp K}

/-- Without a dialog, one that a button offers is opened, or none. -/
theorem pending_beginUninstall (hnone : screen.pending = none) (index : ℕ) :
    (screen.beginUninstall formatBytes index).pending = none ∨
      ∃ action, Offers formatBytes screen action ∧
        (screen.beginUninstall formatBytes index).pending = some action := by
  unfold SettingsScreen.beginUninstall
  split
  · exact .inl hnone
  · next app ha => exact .inr ⟨_, .uninstall (List.mem_of_getElem? ha), rfl⟩

theorem pending_beginRollback (hnone : screen.pending = none) (index : ℕ) :
    (screen.beginRollback index).pending = none ∨
      ∃ action, Offers formatBytes screen action ∧
        (screen.beginRollback index).pending = some action := by
  unfold SettingsScreen.beginRollback
  split
  · exact .inl hnone
  · next app ha =>
    split
    · exact .inl hnone
    · next previous hp => exact .inr ⟨_, .rollback (List.mem_of_getElem? ha) hp, rfl⟩

theorem pending_beginRevoke (hnone : screen.pending = none) (index : ℕ) :
    (screen.beginRevoke index).pending = none ∨
      ∃ action, Offers formatBytes screen action ∧
        (screen.beginRevoke index).pending = some action := by
  unfold SettingsScreen.beginRevoke
  split
  · exact .inl hnone
  · next grant hg => exact .inr ⟨_, .revoke (List.mem_of_getElem? hg), rfl⟩

theorem pending_pressPage (hnone : screen.pending = none) (layout : PageLayout K)
    (pointer : PointerEvent K) :
    (screen.pressPage formatBytes layout pointer).pending = none ∨
      ∃ action, Offers formatBytes screen action ∧
        (screen.pressPage formatBytes layout pointer).pending = some action := by
  cases layout with
  | readOnly => exact .inl hnone
  | apps apps =>
    rw [SettingsScreen.pressPage, SettingsScreen.pressApps]
    split
    · exact .inl hnone
    · split
      · exact pending_beginUninstall hnone _
      · split
        · exact pending_beginRollback hnone _
        · exact .inl hnone
  | grants grants =>
    rw [SettingsScreen.pressPage, SettingsScreen.pressGrants]
    split
    · exact .inl hnone
    · split
      · exact .inl hnone
      · exact pending_beginRevoke hnone _

/-- A press on a tab changes the page at most. -/
theorem pressTab_eq (screen : SettingsScreen) (nav : NavLayout K) (pointer : PointerEvent K) :
    ∃ page, screen.pressTab nav pointer = { screen with page := page } := by
  unfold SettingsScreen.pressTab
  split
  · exact ⟨screen.page, rfl⟩
  · split
    · exact ⟨screen.page, rfl⟩
    · next page _ => exact ⟨page, rfl⟩

variable (formatBytes size)

/-- A press without a dialog asks for no write, and opens at most one that a button offers. -/
theorem press_of_none (hnone : screen.pending = none) (pointer : PointerEvent K) :
    (screen.press formatBytes (layout size screen) pointer).1.admin = none ∧
      ((screen.press formatBytes (layout size screen) pointer).2.pending = none ∨
        ∃ action, Offers formatBytes screen action ∧
          (screen.press formatBytes (layout size screen) pointer).2.pending = some action) := by
  have hconfirm : (layout size screen : SettingsLayout K).confirm = none := by
    simp [layout, hnone]
  rw [SettingsScreen.press, hconfirm]
  split
  · exact ⟨rfl, .inl hnone⟩
  · dsimp only
    split
    · exact ⟨rfl, .inl hnone⟩
    · obtain ⟨page, htab⟩ :=
        pressTab_eq screen (layout size screen : SettingsLayout K).nav pointer
      rw [htab]
      split
      · exact ⟨rfl, .inl hnone⟩
      · next hpage =>
        -- The page is the one that is shown.
        obtain rfl : page = screen.page := not_not.1 hpage
        split
        · exact ⟨rfl, pending_pressPage hnone _ pointer⟩
        · exact ⟨rfl, pending_pressPage hnone _ pointer⟩

/-- A press with a dialog asks for its action and closes it on the confirm button. Otherwise it asks
for nothing, and closes it or leaves it. -/
theorem press_of_some {action : PendingAction} (hsome : screen.pending = some action)
    (pointer : PointerEvent K) :
    (Confirms size action pointer ∧
      (screen.press formatBytes (layout size screen) pointer).1.admin = some action.kind ∧
      (screen.press formatBytes (layout size screen) pointer).2.pending = none) ∨
    (¬ Confirms size action pointer ∧
      (screen.press formatBytes (layout size screen) pointer).1.admin = none ∧
      ((screen.press formatBytes (layout size screen) pointer).2.pending = none ∨
        (screen.press formatBytes (layout size screen) pointer).2.pending = some action)) := by
  have hconfirm : (layout size screen : SettingsLayout K).confirm =
      some (layoutConfirm (.ofSize size) action.dialog.lines.length) := by
    simp [layout, hsome]
  rw [SettingsScreen.press, hconfirm]
  split
  · next htap =>
    exact .inr ⟨fun h => absurd (h.tap.symm.trans htap) (by decide), rfl, .inr hsome⟩
  · next htap =>
    dsimp only
    unfold SettingsScreen.pressConfirm
    split
    · next hcancel =>
      exact .inr ⟨fun h => absurd (h.cancel.symm.trans hcancel) (by decide), rfl, .inl rfl⟩
    · next hcancel =>
      split
      · next hc =>
        refine .inl ⟨⟨by simpa using htap, by simpa using hcancel, hc⟩, ?_, rfl⟩
        simp [SettingsScreen.confirm, hsome]
      · next hc => exact .inr ⟨fun h => hc h.confirm, rfl, .inr hsome⟩

theorem apply_pending (value : AdminValue) : (screen.apply value).pending = screen.pending := by
  cases value <;> rfl

theorem not_destructive_reads {query : AdminQuery} (h : query ∈ READS) : ¬ Destructive query := by
  simp only [READS, List.mem_cons, List.not_mem_nil, or_false] at h
  rcases h with rfl | rfl | rfl | rfl | rfl | rfl <;> exact id

theorem destructive_intoQuery (kind : PendingKind) : Destructive kind.intoQuery := by
  cases kind <;> exact trivial

/-- An input that is not a pointer leaves the dialog, and sends no write. -/
theorem step_of_not_pointer (app : SettingsApp K) {input : Input K}
    (h : ∀ pointer, input ≠ .event (.pointer pointer)) :
    (step formatBytes size app input).screen.pending = app.screen.pending ∧
      ∀ query ∈ queries formatBytes size app input, ¬ Destructive query := by
  cases input with
  | draw =>
    refine ⟨rfl, fun query hq => ?_⟩
    rw [queries, SettingsApp.draw] at hq
    dsimp only at hq
    split at hq
    · cases hq
    · exact not_destructive_reads hq
  | event event =>
    cases event with
    | pointer pointer => exact absurd rfl (h pointer)
    | resumed => exact ⟨rfl, fun query hq => not_destructive_reads hq⟩
    | other => exact ⟨rfl, fun query hq => by cases hq⟩
    | system result =>
      cases result with
      | error denial => exact ⟨rfl, fun query hq => by cases hq⟩
      | ok value =>
        cases value with
        | admin value =>
          refine ⟨apply_pending value, fun query hq => ?_⟩
          rw [queries, SettingsApp.event] at hq
          dsimp only at hq
          split at hq
          · exact not_destructive_reads hq
          · cases hq
        | time fact | battery fact | network fact | platform fact =>
          exact ⟨rfl, fun query hq => by cases hq⟩

/-- Without a dialog, no write is sent, and one that a button offers is opened, or none. -/
theorem step_of_none (hnone : app.screen.pending = none) (input : Input K) :
    (∀ query ∈ queries formatBytes size app input, ¬ Destructive query) ∧
      ((step formatBytes size app input).screen.pending = none ∨
        ∃ action, Offers formatBytes app.screen action ∧
          (step formatBytes size app input).screen.pending = some action) := by
  by_cases hp : ∃ pointer, input = .event (.pointer pointer)
  · obtain ⟨pointer, rfl⟩ := hp
    obtain ⟨hadmin, hpending⟩ := press_of_none formatBytes size hnone pointer
    refine ⟨fun query hq => ?_, hpending⟩
    rw [queries, SettingsApp.event] at hq
    dsimp only at hq
    rw [hadmin] at hq
    cases hq
  · obtain ⟨hpending, hq⟩ :=
      step_of_not_pointer formatBytes size app fun pointer h => hp ⟨pointer, h⟩
    exact ⟨hq, .inl (hpending.trans hnone)⟩

/-- With a dialog, a press on its confirm button sends the write and closes it. Any other input
sends no write, and closes it or leaves it. -/
theorem step_of_some {action : PendingAction} (hsome : app.screen.pending = some action)
    (input : Input K) :
    (∃ pointer, input = .event (.pointer pointer) ∧ Confirms size action pointer ∧
      queries formatBytes size app input = [action.kind.intoQuery] ∧
      (step formatBytes size app input).screen.pending = none) ∨
    ((∀ pointer, input = .event (.pointer pointer) → ¬ Confirms size action pointer) ∧
      (∀ query ∈ queries formatBytes size app input, ¬ Destructive query) ∧
      ((step formatBytes size app input).screen.pending = none ∨
        (step formatBytes size app input).screen.pending = some action)) := by
  by_cases hp : ∃ pointer, input = .event (.pointer pointer)
  · obtain ⟨pointer, rfl⟩ := hp
    rcases press_of_some formatBytes size hsome pointer with
      ⟨hc, hadmin, hpending⟩ | ⟨hc, hadmin, hpending⟩
    · refine .inl ⟨pointer, rfl, hc, ?_, hpending⟩
      rw [queries, SettingsApp.event]
      dsimp only
      rw [hadmin]
      rfl
    · refine .inr ⟨fun other ho => ?_, fun query hq => ?_, hpending⟩
      · cases ho
        exact hc
      · rw [queries, SettingsApp.event] at hq
        dsimp only at hq
        rw [hadmin] at hq
        cases hq
  · obtain ⟨hpending, hq⟩ :=
      step_of_not_pointer formatBytes size app fun pointer h => hp ⟨pointer, h⟩
    exact .inr ⟨fun pointer h => absurd ⟨pointer, h⟩ hp, hq, .inr (hpending.trans hsome)⟩

end

/-! ## Since a dialog was opened -/

section

variable {K : Type} [Field K] [LinearOrder K] {formatBytes : ℕ → String} {size : Size}
  {inputs : List (Input K)} {k opened : ℕ} {query : AdminQuery} {action : PendingAction}

theorem open_iff :
    Open formatBytes size inputs k ↔
      ∃ action, (state formatBytes size inputs k).screen.pending = some action :=
  Option.isSome_iff_exists

theorem not_open_iff :
    ¬ Open formatBytes size inputs k ↔ (state formatBytes size inputs k).screen.pending = none := by
  rw [Open, SettingsScreen.isConfirming, Bool.not_eq_true, Option.isSome_eq_false_iff,
    Option.isNone_iff_eq_none]

theorem not_open_zero : ¬ Open formatBytes size inputs 0 := not_open_iff.2 rfl

theorem state_succ {input : Input K} (h : inputs[k]? = some input) :
    state formatBytes size inputs (k + 1) =
      step formatBytes size (state formatBytes size inputs k) input := at_succ h

/-- The input that a dialog is opened at opens it for what a button offers, and it stays. -/
theorem opening (h : Since (Open formatBytes size inputs) opened k) :
    ∃ action, Offers formatBytes (state formatBytes size inputs opened).screen action ∧
      ∀ j, opened < j → j ≤ k →
        (state formatBytes size inputs j).screen.pending = some action := by
  have hbefore := not_open_iff.1 h.before
  have hafter := h.during (opened + 1) opened.lt_succ_self h.lt
  obtain ⟨action, hoffers, hpending⟩ : ∃ action,
      Offers formatBytes (state formatBytes size inputs opened).screen action ∧
        (state formatBytes size inputs (opened + 1)).screen.pending = some action := by
    rcases hi : inputs[opened]? with _ | input
    · rw [Open, state, at_succ_of_none hi] at hafter
      exact absurd hafter h.before
    · rw [state_succ hi]
      refine ((step_of_none formatBytes size hbefore input).2).resolve_left fun hnone => ?_
      rw [← state_succ hi] at hnone
      exact not_open_iff.2 hnone hafter
  refine ⟨action, hoffers, fun j hj hjk => ?_⟩
  induction j with
  | zero => exact absurd hj opened.not_lt_zero
  | succ j ih =>
    rcases Nat.lt_or_ge opened j with hlt | hge
    · have hsome := ih hlt (Nat.le_of_succ_le hjk)
      rcases hi : inputs[j]? with _ | input
      · rw [state, at_succ_of_none hi]
        exact hsome
      · -- Open at both ends of the step, the dialog is the same.
        have hopen := h.during (j + 1) hj hjk
        rw [Open, state_succ hi] at hopen
        rw [state_succ hi]
        rcases step_of_some formatBytes size hsome input with ⟨-, -, -, -, hnone⟩ |
          ⟨-, -, hnone | hsame⟩
        · rw [SettingsScreen.isConfirming, hnone] at hopen
          cases hopen
        · rw [SettingsScreen.isConfirming, hnone] at hopen
          cases hopen
        · exact hsame
    · obtain rfl : opened = j := Nat.le_antisymm (Nat.le_of_lt_succ hj) hge
      exact hpending

/-- A write is sent by a press on the confirm button of the dialog that is open, and closes it. -/
theorem sends_destructive (h : Sends formatBytes size inputs k query) (hd : Destructive query) :
    ∃ action pointer, (state formatBytes size inputs k).screen.pending = some action ∧
      inputs[k]? = some (.event (.pointer pointer)) ∧ Confirms size action pointer ∧
      query = action.kind.intoQuery ∧
      queries formatBytes size (state formatBytes size inputs k) (.event (.pointer pointer)) =
        [query] ∧
      ¬ Open formatBytes size inputs (k + 1) := by
  obtain ⟨input, hi, hq⟩ := h
  rcases hs : (state formatBytes size inputs k).screen.pending with _ | action
  · exact absurd hd ((step_of_none formatBytes size hs input).1 query hq)
  · rcases step_of_some formatBytes size hs input with ⟨pointer, rfl, hc, hqs, hnone⟩ | ⟨-, hno, -⟩
    · rw [hqs, List.mem_singleton] at hq
      refine ⟨action, pointer, rfl, hi, hc, hq, hq ▸ hqs, ?_⟩
      rw [not_open_iff, state_succ hi]
      exact hnone
    · exact absurd hd (hno query hq)

/-- A press on the confirm button of a dialog sends its write. -/
theorem sends_of_confirms {pointer : PointerEvent K}
    (hs : (state formatBytes size inputs k).screen.pending = some action)
    (hi : inputs[k]? = some (.event (.pointer pointer))) (hc : Confirms size action pointer) :
    Sends formatBytes size inputs k action.kind.intoQuery := by
  refine ⟨_, hi, ?_⟩
  rcases step_of_some formatBytes size hs (.event (.pointer pointer)) with ⟨-, -, -, hqs, -⟩ |
    ⟨hno, -⟩
  · rw [hqs]
    exact List.mem_singleton_self _
  · exact absurd hc (hno pointer rfl)

/-- In every run from the launch, the writes are sent by presses on the confirm button of a dialog
that was drawn and has been open since, once for a dialog and for the app that it was opened for, if
and only if no confirm button is pressed before its dialog was drawn. -/
theorem confirmed_iff (formatBytes : ℕ → String) (size : Size) (inputs : List (Input K)) :
    Confirmed formatBytes size inputs ↔ ∀ k, ¬ Unseen formatBytes size inputs k := by
  constructor
  · rintro hc k ⟨opened, action, pointer, hsince, hs, hi, hconfirms, hundrawn⟩
    obtain ⟨opened', -, -, hsince', ⟨drawn, hlt, hlt', hdraw⟩, -⟩ :=
      hc.seen k _ (sends_of_confirms hs hi hconfirms) (destructive_intoQuery action.kind)
    obtain rfl := hsince.unique hsince'
    exact hundrawn drawn hlt hlt' hdraw
  · intro hseen
    refine ⟨fun k query hsends hd => ?_, fun opened k k' query query' h h' hq hd hq' hd' => ?_⟩
    · obtain ⟨action, pointer, hs, hi, hconfirms, hquery, hall, -⟩ := sends_destructive hsends hd
      obtain ⟨opened, hsince⟩ := Since.exists_ not_open_zero (open_iff.2 ⟨action, hs⟩)
      obtain ⟨action', hoffers, hsame⟩ := opening hsince
      obtain rfl : action' = action :=
        Option.some.inj ((hsame k hsince.lt k.le_refl).symm.trans hs)
      refine ⟨opened, action', pointer, hsince, ?_, hi, hconfirms, hsame, hoffers, hquery, hall⟩
      by_contra hno
      refine hseen k ⟨opened, action', pointer, hsince, hs, hi, hconfirms, ?_⟩
      exact fun drawn hlt hlt' hdraw => hno ⟨drawn, hlt, hlt', hdraw⟩
    · obtain ⟨action, -, hs, -, -, hquery, -, hclosed⟩ := sends_destructive hq hd
      obtain ⟨action', -, hs', -, -, hquery', -, hclosed'⟩ := sends_destructive hq' hd'
      -- The dialog is closed by the first of the two.
      obtain rfl : k = k' :=
        Nat.le_antisymm (h.le_of_ends h'.lt hclosed') (h'.le_of_ends h.lt hclosed)
      obtain rfl := Option.some.inj (hs.symm.trans hs')
      exact ⟨rfl, hquery.trans hquery'.symm⟩

end

/-! ## Two taps on one place -/

/-- An installed app that holds data. -/
def holdsData (name : String) : InstalledAppSummary :=
  { id := ⟨"dev.calum." ++ name⟩
    name := name
    activeVersion := "0.2.0"
    previousVersion := none
    dataBytes := 2400000 }

/-- Five apps are listed and drawn, and the same place is tapped twice. -/
def doubleTap : List (Input ℚ) :=
  [.event (.system (.ok (.admin (.installedApps
      (["chess", "sudoku", "notes", "clock", "maps"].map holdsData))))),
    .draw, .event (.pointer ⟨1400, 1150, .up⟩), .event (.pointer ⟨1400, 1150, .up⟩)]

/-- The second tap uninstalls the fifth app, with no frame since the first opened its dialog. -/
theorem doubleTap_unseen :
    Sends megabytes SCREEN doubleTap 3 (.uninstall ⟨"dev.calum.maps"⟩) ∧
      ¬ Confirmed megabytes SCREEN doubleTap := by
  have hsends : Sends megabytes SCREEN doubleTap 3 (.uninstall ⟨"dev.calum.maps"⟩) :=
    ⟨_, rfl, by decide +kernel⟩
  refine ⟨hsends, fun h => ?_⟩
  obtain ⟨opened, -, -, hsince, ⟨drawn, hlt, hlt', hdraw⟩, -⟩ := h.seen 3 _ hsends trivial
  have hclosed : ¬ Open megabytes SCREEN doubleTap 2 := by
    unfold Open
    decide +kernel
  -- The frame is drawn before the dialog is opened.
  have hdrawn : drawn = 1 := by
    have : drawn = 1 ∨ drawn = 2 := by omega
    rcases this with rfl | rfl
    · rfl
    · cases hdraw
  exact hclosed (hsince.during 2 (by omega) (by decide))

end Paperclip.Settings
