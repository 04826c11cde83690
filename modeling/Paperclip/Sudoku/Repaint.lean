import Mathlib.Algebra.Field.Rat
import Mathlib.Data.Rat.Floor
import Paperclip.Sdk.Repaint
import Paperclip.Sudoku.Save
import Paperclip.Sudoku.Screen

/-!
# What Sudoku claims of a frame

Whether the claim for a frame has every part of the screen that is drawn otherwise than in the frame
before.

* `Region`, `look`: the parts of the screen, and what is drawn in one.
* `Switches`: a tap that selects a first cell or takes the selection back, with no notice shown. It
  rewrites the status line.
* `Honest`: a press claims what it changes, the status line of such a tap apart, and asks for a
  frame if it changes anything.
* `Frame.Sound`: what a frame claims has every part that is drawn otherwise than in the last one.
* `sudoku_repaint_sound`: in a run without such a tap, every frame is claimed.
-/

namespace Paperclip.Sudoku

open Sdk

/-- A part of the screen. -/
inductive Region where
  | statusBar
  | status
  | cell (cell : Cell)
  | key (key : PadKey)
  | newPuzzle
  | difficulty
  | home
  deriving DecidableEq

/-- What is drawn in a part of the screen. -/
inductive Content where
  | statusBar (level : String) (givens : ℕ)
  | line (text : String)
  | cell (digit : Option Digit) (given selected : Bool)
  deriving DecidableEq

/-- The line under the heading. -/
def statusText (screen : SudokuScreen) (game : Game) : String :=
  if game.board.isSolved then "SOLVED"
  else
    match screen.notice with
    | some notice => notice.text
    | none =>
      match screen.selected with
      | some _ => "TAP A DIGIT"
      | none => "TAP A CELL, THEN A DIGIT"

/-- What is drawn in a part of the screen. -/
def look (s : SudokuScreen × Game) : Region → Content
  | .statusBar => .statusBar s.2.puzzle.difficulty.label s.2.puzzle.givens.filled
  | .status => .line (statusText s.1 s.2)
  | .cell cell => .cell (s.2.board.get cell) (s.2.puzzle.isGiven cell) (s.1.selected = some cell)
  | .key key => .line key.label
  | .newPuzzle => .line (if s.1.newPuzzleArmed then "CONFIRM NEW PUZZLE?" else "NEW PUZZLE")
  | .difficulty => .line ("NEXT: " ++ s.1.nextDifficulty.label)
  | .home => .line "HOME"

section

variable {K : Type} [Field K] [LinearOrder K] [FloorRing K] (size : Protocol.Size)

/-- Where a part of the screen is. -/
def Region.rect : Region → Rect K
  | .statusBar => Sdk.statusBar (.ofSize size)
  | .status => (layout size).status
  | .cell c => (layout size).grid.cellRect c
  | .key k => ((layout size).pad.keyRect k).getD ⟨0, 0, 0, 0⟩
  | .newPuzzle => (layout size).newPuzzle
  | .difficulty => (layout size).difficulty
  | .home => (layout size).home

/-- A tap that selects a first cell or takes the selection back, with no notice shown. -/
structure Switches (screen : SudokuScreen) (game : Game) (pointer : PointerEvent K) : Prop where
  tap : pointer.isTap = true
  home : (layout size).home.hit pointer = false
  newPuzzle : (layout size).newPuzzle.hit pointer = false
  difficulty : (layout size).difficulty.hit pointer = false
  unsolved : game.board.isSolved = false
  pad : (layout size).pad.keyAt pointer = none
  notice : screen.notice = none
  cell : ∃ cell, (layout size).grid.cellAt pointer = some cell ∧ game.puzzle.isGiven cell = false ∧
    (screen.selected = none ∨ screen.selected = some cell)

/-- A press claims what it changes, the status line of a tap that switches it apart, and asks for a
frame if it changes anything. -/
structure Honest (s : SudokuScreen × Game) (switches : Prop) (pressed : Pressed K) : Prop where
  claimed : ∀ region, look s region ≠ look (pressed.screen, pressed.game) region →
    pressed.press.damage.Has (region.rect size) ∨ (region = .status ∧ switches)
  shows : ∀ region, look s region ≠ look (pressed.screen, pressed.game) region →
    pressed.press.action.Shows

/-- The parts that differ are among the rectangles, the status line that is switched apart. -/
def Among (s s' : SudokuScreen × Game) (switches : Prop) (changed : List (Rect K)) : Prop :=
  ∀ region, look s region ≠ look s' region →
    region.rect size ∈ changed ∨ (region = .status ∧ switches ∧ changed ≠ [])

end

/-! ## Presses -/

section

variable {K : Type}

@[simp] theorem shows_redraw : Action.redraw.Shows := (Action.shows_iff _).2 (by decide)

theorem regions_shows {changed : List (Rect K)} (h : changed ≠ []) :
    (Press.regions changed).action.Shows := by
  unfold Press.regions
  rw [if_neg (by simpa using h)]
  split
  · exact shows_redraw
  · exact shows_redraw

theorem regions_has {changed : List (Rect K)} {rect : Rect K} (h : rect ∈ changed) :
    (Press.regions changed).damage.Has rect := by
  unfold Press.regions
  rw [if_neg (by simpa using List.ne_nil_of_mem h)]
  split
  · exact trivial
  · exact h

/-- What `note` claims. -/
def noted (screen : SudokuScreen) (notice : Option Notice) (layout : SudokuLayout K) :
    List (Rect K) :=
  if screen.notice = notice then [] else [layout.status]

theorem note_eq (screen : SudokuScreen) (notice : Option Notice) (layout : SudokuLayout K)
    (changed : List (Rect K)) :
    screen.note notice layout changed =
      ({ screen with notice := notice }, changed ++ noted screen notice layout) := by
  unfold SudokuScreen.note noted
  by_cases h : screen.notice = notice
  · rw [if_neg (not_not.2 h), if_pos h, List.append_nil, ← h]
  · rw [if_pos h, if_neg h]

variable [Field K] [LinearOrder K] [FloorRing K] {size : Protocol.Size}
  {s s' s'' : SudokuScreen × Game} {switches : Prop} {changed changed' : List (Rect K)}

/-- A press that claims its rectangles is honest. -/
theorem Among.honest {screen : SudokuScreen} {game : Game}
    (h : Among size s (screen, game) switches changed) :
    Honest size s switches ⟨.regions changed, screen, game⟩ := by
  refine ⟨fun region hne => ?_, fun region hne => ?_⟩
  · rcases h region hne with hm | ⟨hs, hsw, -⟩
    · exact .inl (regions_has hm)
    · exact .inr ⟨hs, hsw⟩
  · rcases h region hne with hm | ⟨-, -, hn⟩
    · exact regions_shows (List.ne_nil_of_mem hm)
    · exact regions_shows hn

theorem honest_everything (screen : SudokuScreen) (game : Game) :
    Honest (K := K) size s switches ⟨.everything, screen, game⟩ :=
  ⟨fun _ _ => .inl trivial, fun _ _ => shows_redraw⟩

/-- What changes one after the other is among all that is claimed. -/
theorem Among.trans (h : Among size s s' False changed)
    (h' : Among size s' s'' switches changed') :
    Among size s s'' switches (changed ++ changed') := by
  intro region hne
  by_cases hs : look s region = look s' region
  · rcases h' region (hs ▸ hne) with hm | ⟨hr, hsw, hn⟩
    · exact .inl (List.mem_append_right _ hm)
    · exact .inr ⟨hr, hsw, List.append_ne_nil_of_right_ne_nil _ hn⟩
  · rcases h region hs with hm | ⟨-, hf, -⟩
    · exact .inl (List.mem_append_left _ hm)
    · exact hf.elim

theorem Among.refl : Among size s s switches changed := fun _ hne => absurd rfl hne

/-- What a press may change of the screen, and of one cell of the board. -/
theorem Among.of_parts {screen screen' : SudokuScreen} {game game' : Game}
    (hpuzzle : game'.puzzle = game.puzzle)
    (hstatus : statusText screen game ≠ statusText screen' game' →
      (layout size).status ∈ changed ∨ (switches ∧ changed ≠ []))
    (hcell : ∀ cell, game.board.get cell ≠ game'.board.get cell ∨
      decide (screen.selected = some cell) ≠ decide (screen'.selected = some cell) →
        (layout size).grid.cellRect cell ∈ changed)
    (harmed : screen'.newPuzzleArmed ≠ screen.newPuzzleArmed → (layout size).newPuzzle ∈ changed)
    (hnext : screen'.nextDifficulty ≠ screen.nextDifficulty →
      (layout size).difficulty ∈ changed) :
    Among size (screen, game) (screen', game') switches changed := by
  intro region hne
  cases region with
  | statusBar => exact absurd (by rw [look, look, hpuzzle]) hne
  | status =>
    rcases hstatus (fun h => hne (congrArg Content.line h)) with hm | hs
    · exact .inl hm
    · exact .inr ⟨rfl, hs⟩
  | cell cell =>
    refine .inl (hcell cell ?_)
    by_contra hc
    obtain ⟨hb, hs⟩ := not_or.1 hc
    rw [not_not] at hb hs
    exact hne (by rw [look, look, hpuzzle, hb, hs])
  | key key => exact absurd rfl hne
  | newPuzzle =>
    refine .inl (harmed fun h => hne ?_)
    rw [look, look, h]
  | difficulty =>
    refine .inl (hnext fun h => hne ?_)
    rw [look, look, h]
  | home => exact absurd rfl hne

/-- What an entry does to the game: the cell alone, and nothing where it is refused. -/
structure Entered (game : Game) (cell : Cell) (outcome : Except MoveError Unit × Game) : Prop where
  puzzle : outcome.2.puzzle = game.puzzle
  others : ∀ other, other ≠ cell → outcome.2.board.get other = game.board.get other
  refused : ∀ e, outcome.1 = .error e → outcome.2 = game

theorem entered_set (game : Game) (cell : Cell) (digit : Digit) :
    Entered game cell (game.set cell digit) := by
  refine ⟨?_, fun other hne => ?_, fun e he => ?_⟩
  · rcases game.set_cases cell digit with h | ⟨-, -, h⟩
    · rw [h]
    · rw [h]
  · rcases game.set_cases cell digit with h | ⟨-, -, h⟩
    · rw [h]
    · rw [h]
      dsimp only
      rw [Grid.get_set_ne hne, Grid.get_set_ne hne]
  · unfold Game.set at he ⊢
    dsimp only at he ⊢
    split
    · rfl
    · split
      · rfl
      · next hs hg =>
        rw [if_neg hs, if_neg hg] at he
        split
        · rfl
        · next hd =>
          rw [if_neg hd] at he
          split
          · rw [set_set_self]
          · next hf =>
            rw [hf] at he
            cases he

theorem entered_clear (game : Game) (cell : Cell) : Entered game cell (game.clear cell) := by
  refine ⟨?_, fun other hne => ?_, fun e he => ?_⟩
  · rcases game.clear_cases cell with h | ⟨-, h⟩
    · rw [h]
    · rw [h]
  · rcases game.clear_cases cell with h | ⟨-, h⟩
    · rw [h]
    · rw [h]
      exact Grid.get_set_ne hne
  · unfold Game.clear at he ⊢
    split
    · rfl
    · split
      · rfl
      · next hs hg =>
        rw [if_neg hs, if_neg hg] at he
        split
        · rfl
        · next hd =>
          rw [if_neg hd] at he
          cases he

/-- A notice that changes is claimed with the status band. -/
theorem among_note (screen : SudokuScreen) (game : Game) (notice : Option Notice) :
    Among size (screen, game) ({ screen with notice := notice }, game) switches
      (noted screen notice (layout (K := K) size)) := by
  by_cases h : screen.notice = notice
  · rw [← h]
    exact .refl
  · rw [noted, if_neg h]
    refine .of_parts rfl (fun _ => .inl (List.mem_singleton_self _)) (fun cell hc => ?_)
      (fun hn => absurd rfl hn) (fun hn => absurd rfl hn)
    rcases hc with hc | hc
    · exact absurd rfl hc
    · exact absurd rfl hc

theorem entered_keyed (game : Game) (cell : Cell) (key : PadKey) :
    Entered game cell (SudokuScreen.keyed game cell key) := by
  cases key with
  | digit d => exact entered_set game cell d
  | clear => exact entered_clear game cell

/-- What becomes of the screen after a key. -/
theorem honest_settle {screen screen₀ : SudokuScreen} {game : Game} {cell : Cell}
    {outcome : Except MoveError Unit × Game} (hu : game.board.isSolved = false)
    (hsel : screen.selected = some cell) (he : Entered game cell outcome)
    (h : Among size (screen₀, game) (screen, game) False changed) :
    Honest size (screen₀, game) switches (screen.settle (layout size) cell changed outcome) := by
  obtain ⟨outcome, game'⟩ := outcome
  cases outcome with
  | error e =>
    obtain rfl : game' = game := he.refused e rfl
    cases e with
    | solved => exact honest_everything (K := K) screen game'
    | given =>
      rw [SudokuScreen.settle, note_eq]
      exact (h.trans (among_note screen game' _)).honest
    | conflict with_ =>
      rw [SudokuScreen.settle, note_eq]
      exact (h.trans (among_note screen game' _)).honest
  | ok _ =>
    rw [SudokuScreen.settle, note_eq]
    dsimp only
    split
    · exact honest_everything (K := K) { screen with notice := none, selected := none } game'
    · next hs =>
      rw [List.append_assoc]
      refine Among.honest (h.trans ?_)
      refine .of_parts he.puzzle (fun ht => .inl ?_) (fun other hc => ?_)
        (fun hn => absurd rfl hn) fun hn => absurd rfl hn
      · -- The line says TAP A DIGIT after, and said so before unless there was a notice.
        by_cases hn : screen.notice = none
        · refine absurd ?_ ht
          rw [statusText, statusText, hu, if_neg hs, hn, hsel]
          rfl
        · rw [noted, if_neg hn]
          exact List.mem_append_left _ (List.mem_singleton_self _)
      · refine List.mem_append_right _ (List.mem_singleton.2 ?_)
        rcases hc with hc | hc
        · by_contra hne
          exact hc (he.others other fun ho => hne (ho ▸ rfl)).symm
        · exact absurd rfl hc

/-- A tap on the digit pad. -/
theorem honest_enter {screen screen₀ : SudokuScreen} {game : Game} (key : PadKey)
    (hu : game.board.isSolved = false)
    (h : Among size (screen₀, game) (screen, game) False changed) :
    Honest size (screen₀, game) switches (screen.enter game (layout size) key changed) := by
  unfold SudokuScreen.enter
  split
  · rw [note_eq]
    exact (h.trans (among_note screen game _)).honest
  · next hsel => exact honest_settle hu hsel (entered_keyed game _ key) h

/-- A tap on the grid. -/
theorem honest_select {screen screen₀ : SudokuScreen} {game : Game} {cell : Cell}
    (h : Among size (screen₀, game) (screen, game) False changed)
    (hsw : game.puzzle.isGiven cell = false → screen.notice = none →
      (screen.selected = none ∨ screen.selected = some cell) → switches) :
    Honest size (screen₀, game) switches (screen.select game (layout size) cell changed) := by
  unfold SudokuScreen.select
  split
  · rw [note_eq]
    exact (h.trans (among_note screen game _)).honest
  · next hg =>
    rw [note_eq]
    dsimp only
    rw [List.append_assoc, List.append_assoc]
    refine Among.honest (h.trans ?_)
    refine .of_parts rfl (fun ht => ?_) (fun other hc => ?_)
      (fun hn => absurd rfl hn) fun hn => absurd rfl hn
    · by_cases hn : screen.notice = none
      · by_cases hs : screen.selected = none ∨ screen.selected = some cell
        · exact .inr ⟨hsw (by simpa using hg) hn hs, by simp⟩
        · -- The selection moves from one cell to another, and the line stays.
          obtain ⟨hsn, hsc⟩ := not_or.1 hs
          obtain ⟨left, hl⟩ := Option.ne_none_iff_exists'.1 hsn
          refine absurd ?_ ht
          rw [statusText, statusText, hn, if_neg hsc, hl]
      · refine .inl ?_
        rw [noted, if_neg hn]
        exact List.mem_append_left _ (List.mem_singleton_self _)
    · rcases hc with hc | hc
      · exact absurd rfl hc
      · dsimp only at hc
        by_cases ho : other = cell
        · simp [ho]
        · -- Another cell is drawn otherwise just if the selection has left it.
          have hl : screen.selected = some other := by
            by_contra hl
            refine hc ?_
            rw [decide_eq_false hl]
            split
            · rfl
            · exact (decide_eq_false fun he => ho (Option.some.inj he).symm).symm
          simp [hl, ho]

/-- A press that is neither HOME nor NEW PUZZLE. -/
theorem honest_pressRest {screen screen₀ : SudokuScreen} {game : Game} {pointer : PointerEvent K}
    (h : Among size (screen₀, game) (screen, game) False changed)
    (hsw : (layout size).difficulty.hit pointer = false → game.board.isSolved = false →
      (layout size).pad.keyAt pointer = none → ∀ cell,
      (layout size).grid.cellAt pointer = some cell → game.puzzle.isGiven cell = false →
      screen.notice = none → (screen.selected = none ∨ screen.selected = some cell) → switches) :
    Honest size (screen₀, game) switches
      (screen.pressRest game (layout size) pointer changed) := by
  unfold SudokuScreen.pressRest
  split
  · refine Among.honest (h.trans ?_)
    refine .of_parts rfl (fun ht => absurd rfl ht) (fun cell hc => ?_) (fun hn => absurd rfl hn)
      fun _ => List.mem_singleton_self _
    rcases hc with hc | hc
    · exact absurd rfl hc
    · exact absurd rfl hc
  · next hd =>
    split
    · next hs =>
      have := h.trans (Among.refl : Among size (screen, game) (screen, game) switches [])
      rw [List.append_nil] at this
      exact this.honest
    · next hs =>
      split
      · exact honest_enter _ (by simpa using hs) h
      · next hk =>
        split
        · next hc => exact honest_select h (hsw (by simpa using hd) (by simpa using hs) hk _ hc)
        · have := h.trans (Among.refl : Among size (screen, game) (screen, game) switches [])
          rw [List.append_nil] at this
          exact this.honest

/-- Every press claims what it changes, but for the status line of a tap that switches it. -/
theorem honest_press (screen : SudokuScreen) (game : Game) (pointer : PointerEvent K) :
    Honest size (screen, game) (Switches size screen game pointer)
      (screen.press game (layout size) pointer) := by
  unfold SudokuScreen.press
  split
  · exact ⟨fun _ hne => absurd rfl hne, fun _ hne => absurd rfl hne⟩
  · next htap =>
    split
    · exact ⟨fun _ hne => absurd rfl hne, fun _ hne => absurd rfl hne⟩
    · next hhome =>
      split
      · split
        · refine Among.honest (.of_parts rfl (fun ht => absurd rfl ht) (fun cell hc => ?_)
            (fun _ => List.mem_singleton_self _) fun hn => absurd rfl hn)
          rcases hc with hc | hc
          · exact absurd rfl hc
          · exact absurd rfl hc
        · exact honest_everything _ _
      · next hnew =>
        have hsw : (layout size).difficulty.hit pointer = false → game.board.isSolved = false →
            (layout size).pad.keyAt pointer = none → ∀ cell,
            (layout size).grid.cellAt pointer = some cell → game.puzzle.isGiven cell = false →
            screen.notice = none → (screen.selected = none ∨ screen.selected = some cell) →
            Switches size screen game pointer := by
          intro hd hs hk cell hc hg hn hsel
          exact ⟨by simpa using htap, by simpa using hhome, by simpa using hnew, hd, hs, hk, hn,
            cell, hc, hg, hsel⟩
        split
        · refine honest_pressRest (.of_parts rfl (fun ht => absurd rfl ht) (fun cell hc => ?_)
            (fun _ => List.mem_singleton_self _) fun hn => absurd rfl hn) hsw
          rcases hc with hc | hc
          · exact absurd rfl hc
          · exact absurd rfl hc
        · exact honest_pressRest .refl hsw

end

/-! ## Frames -/

/-- The app, and what was drawn last. -/
structure Frame (K : Type) where
  app : SudokuApp K
  drawn : Option (SudokuScreen × Game)

namespace Frame

variable {K : Type}

/-- An app that has not drawn yet, on any screen and game. -/
def new (screen : SudokuScreen) (game : Game) (loaded : Bool) : Frame K :=
  ⟨⟨game, screen, .new, .full, loaded⟩, none⟩

theorem load_of_loaded {app : SudokuApp K} (h : app.loaded = true) (saved : Option Game) :
    app.load saved = app := if_pos h

theorem loaded_load (app : SudokuApp K) (saved : Option Game) :
    (app.load saved).loaded = true := by
  unfold SudokuApp.load
  split
  · assumption
  · split
    · rfl
    · rfl

/-- A frame is drawn. -/
def draw (saved : Option Game) (frame : Frame K) : Frame K :=
  let app := frame.app.draw saved
  ⟨app, some (app.screen, app.game)⟩

variable [Field K] [LinearOrder K] [FloorRing K] (size : Protocol.Size)

/-- The app is told of an event. -/
def tell (saved : Option Game) (frame : Frame K) (event : Event K) : Frame K :=
  ⟨(frame.app.event size saved event).1, frame.drawn⟩

/-- After a frame was drawn, a tap switches the status line, and the status band is not claimed
yet. -/
def Strays (frame : Frame K) (event : Event K) : Prop :=
  frame.drawn.isSome ∧ ∃ pointer, event = .pointer pointer ∧
    Switches size frame.app.screen frame.app.game pointer ∧
      ¬ frame.app.damageClaims.pending.Has (Region.status.rect size)

/-- What events and draws lead to. The saved game is what there is to load at the first of them. -/
inductive Reaches (allowed : Frame K → Event K → Prop) (frame : Frame K) : Frame K → Prop where
  | refl : Reaches allowed frame frame
  | tell {frame' : Frame K} {event : Event K} (saved : Option Game)
      (h : Reaches allowed frame frame') (ha : allowed frame' event) :
      Reaches allowed frame (frame'.tell size saved event)
  | draw {frame' : Frame K} (saved : Option Game) (h : Reaches allowed frame frame') :
      Reaches allowed frame (frame'.draw saved)

/-- A frame that is drawn now claims every part of the screen that it draws otherwise than the last
one, and a press that changes what is drawn asks for a frame or leaves the app. -/
structure Sound (frame : Frame K) : Prop where
  claimed : ∀ drawn saved, frame.drawn = some drawn →
    Covers (Region.rect size) look drawn
      ((frame.app.draw saved).screen, (frame.app.draw saved).game) (frame.app.draw saved).frame
  shows : ∀ (pointer : PointerEvent K) (region : Region),
    let pressed := frame.app.screen.press frame.app.game (layout size) pointer
    look (frame.app.screen, frame.app.game) region ≠ look (pressed.screen, pressed.game) region →
      pressed.press.action.Shows

/-- What was drawn is as it is now, or is claimed. -/
def Kept (frame : Frame K) : Prop :=
  ∀ drawn, frame.drawn = some drawn → frame.app.loaded = true ∧
    Covers (Region.rect size) look drawn (frame.app.screen, frame.app.game)
      frame.app.damageClaims.pending

variable {size} {frame : Frame K}

theorem Kept.sound (h : frame.Kept size) : frame.Sound size := by
  refine ⟨fun drawn saved hd => ?_, fun pointer => (honest_press _ _ pointer).shows⟩
  obtain ⟨hl, hc⟩ := h drawn hd
  rw [SudokuApp.draw, load_of_loaded hl]
  exact hc.takeFrame

theorem Kept.new (screen : SudokuScreen) (game : Game) (loaded : Bool) :
    (Frame.new screen game loaded : Frame K).Kept size := fun _ h => by cases h

theorem Kept.draw (frame : Frame K) (saved : Option Game) : (frame.draw saved).Kept size := by
  intro drawn hd
  obtain rfl := Option.some.inj hd
  exact ⟨loaded_load _ saved, .refl⟩

/-- An event that does not stray keeps what is drawn claimed. -/
theorem Kept.tell (h : frame.Kept size) {event : Event K} (hn : ¬ frame.Strays size event)
    (saved : Option Game) : (frame.tell size saved event).Kept size := by
  intro drawn hd
  obtain ⟨hl, hc⟩ := h drawn hd
  have hload := load_of_loaded hl saved
  cases event with
  | pointer pointer =>
    rw [Frame.tell, SudokuApp.event, hload]
    refine ⟨hl, fun region hne => ?_⟩
    by_cases hs : look drawn region = look (frame.app.screen, frame.app.game) region
    · rcases (honest_press frame.app.screen frame.app.game pointer).claimed region (hs ▸ hne) with
        hm | ⟨rfl, hsw⟩
      · exact DamageAccumulator.claim_of_added hm _
      · -- The status band is claimed already, or the tap strays.
        refine DamageAccumulator.claim_of_pending ?_ _
        by_contra hp
        exact hn ⟨by rw [show frame.drawn = some drawn from hd]; rfl, pointer, rfl, hsw, hp⟩
    · exact DamageAccumulator.claim_of_pending (hc region hs) _
  | suspended =>
    rw [Frame.tell, SudokuApp.event, hload]
    exact ⟨hl, hc.claim .full⟩
  | resumed =>
    rw [Frame.tell, SudokuApp.event, hload]
    exact ⟨hl, hc.claim .full⟩
  | other =>
    rw [Frame.tell, SudokuApp.event, hload]
    exact ⟨hl, hc⟩

end Frame

section

variable {K : Type} [Field K] [LinearOrder K] [FloorRing K]

/-- In a run in which no tap selects a first cell or takes the selection back, with no notice shown
and the status band unclaimed, every frame claims what it draws otherwise than the last one. Every
press that changes what is drawn asks for a frame, or leaves the app. -/
theorem sudoku_repaint_sound (size : Protocol.Size) (screen : SudokuScreen) (game : Game)
    (loaded : Bool) {frame : Frame K}
    (h : (Frame.new screen game loaded).Reaches size
      (fun frame event => ¬ frame.Strays size event) frame) : frame.Sound size := by
  suffices hk : frame.Kept size from hk.sound
  induction h with
  | refl => exact .new screen game loaded
  | tell saved _ ha ih => exact ih.tell ha saved
  | draw saved _ _ => exact .draw _ saved

end

/-! ## A tap on the first cell -/

/-- A puzzle with one cell to fill, in R1C1. -/
def nearlyDone : SavedPuzzle :=
  { difficulty := "easy"
    stream := 1
    givens := ".23456789456789123789123456214365897365897214897214365531642978642978531978531642"
    solution := "123456789456789123789123456214365897365897214897214365531642978642978531978531642"
    board := ".23456789456789123789123456214365897365897214897214365531642978642978531978531642" }

/-- The cell is tapped after a frame was drawn. -/
def tapFirst (game : Game) : Frame ℚ :=
  ((Frame.new (.new .easy) game true).draw none).tell SCREEN none (.pointer ⟨150, 400, .up⟩)

/-- A key is tapped after a frame was drawn, with no cell selected. -/
def tapKey (game : Game) : Frame ℚ :=
  ((Frame.new (.new .easy) game true).draw none).tell SCREEN none (.pointer ⟨100, 1850, .up⟩)

/-- The line that says to select a cell first is claimed. -/
theorem sudoku_repaint_sound_key :
    ∃ game ∈ (rebuild nearlyDone).toOption, (tapKey game).Sound SCREEN := by
  have hload : (rebuild nearlyDone).toOption.isSome = true := by decide +kernel
  obtain ⟨game, hg⟩ := Option.isSome_iff_exists.1 hload
  have hkey : (layout SCREEN).pad.keyAt (⟨100, 1850, .up⟩ : PointerEvent ℚ) ≠ none := by
    decide +kernel
  refine ⟨game, hg, sudoku_repaint_sound SCREEN (.new .easy) game true
    (.tell none (.draw none .refl) ?_)⟩
  rintro ⟨-, pointer, hp, hs, -⟩
  obtain rfl := Event.pointer.inj hp
  exact hkey hs.pad

/-- The cell alone is claimed, and the line above says to tap a digit now. -/
theorem first_tap_unclaimed :
    ∃ game ∈ (rebuild nearlyDone).toOption, ¬ (tapFirst game).Sound SCREEN := by
  have h : ((rebuild nearlyDone).toOption.any fun game =>
      decide ((tapFirst game).app.damageClaims.pending = .regions [⟨99, 354, 158, 158⟩] ∧
        statusText (tapFirst game).app.screen (tapFirst game).app.game = "TAP A DIGIT" ∧
        statusText (.new .easy) game = "TAP A CELL, THEN A DIGIT")) = true := by
    decide +kernel
  obtain ⟨game, hg, hd⟩ := (Option.any_eq_true _ _).1 h
  obtain ⟨hp, htext, htext'⟩ := of_decide_eq_true hd
  refine ⟨game, hg, fun hs => ?_⟩
  have hdrawn : (tapFirst game).drawn = some (.new .easy, game) := rfl
  have hl : (tapFirst game).app.load none = (tapFirst game).app := Frame.load_of_loaded rfl none
  have hst := hs.claimed _ none hdrawn .status
  rw [SudokuApp.draw, hl] at hst
  have hne : look (.new .easy, game) .status ≠
      look ((tapFirst game).app.screen, (tapFirst game).app.game) .status := by
    intro heq
    have := Content.line.inj heq
    rw [htext, htext'] at this
    exact absurd this (by decide)
  have hhas := hst hne
  dsimp only [DamageAccumulator.takeFrame] at hhas
  rw [hp] at hhas
  revert hhas
  change ¬ ((layout SCREEN).status ∈ [(⟨99, 354, 158, 158⟩ : Rect ℚ)])
  decide +kernel

end Paperclip.Sudoku
