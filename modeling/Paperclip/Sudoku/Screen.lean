import Mathlib.Algebra.Order.Floor.Defs
import Paperclip.Sdk.App
import Paperclip.Sdk.Chrome
import Paperclip.Sudoku.Game

/-!
# The Sudoku screen

What the Sudoku app shows, and what a press changes of it. Coordinates are of any ordered field with
a floor.

* `SudokuLayout`, `layout`: where everything lands. `GridLayout.cellAt`, `PadLayout.keyAt`: what a
  point is on.
* `SudokuScreen`: what is shown on top of the board. `press`: a tap, with what it claims to change.
* `SudokuApp`: the screen and the game, with the claims since the last frame.
-/

namespace Paperclip.Sudoku

open Sdk

/-- The name of a level on the screen. -/
def Difficulty.label : Difficulty → String
  | .easy => "EASY"
  | .medium => "MEDIUM"
  | .hard => "HARD"

/-- The level after this one. -/
def Difficulty.next : Difficulty → Difficulty
  | .easy => .medium
  | .medium => .hard
  | .hard => .easy

/-- The cell at a row and a column. -/
def Cell.new (row column : ℕ) : Option Cell :=
  if h : row < 9 ∧ column < 9 then some ⟨⟨row, h.1⟩, ⟨column, h.2⟩⟩ else none

def PAD_HEIGHT : ℕ := 150
def STATUS_BAND : ℕ := 96

/-! ## Where things land -/

/-- One key on the digit pad. -/
inductive PadKey where
  | digit (digit : Digit)
  | clear
  deriving DecidableEq

/-- Every key, in the order they are drawn. -/
def PadKey.all : List PadKey := Digit.ALL.map .digit ++ [.clear]

/-- What the key says. -/
def PadKey.label : PadKey → String
  | .digit d => toString d.value
  | .clear => "CLR"

/-- Where the grid sits, and how big one cell is. -/
structure GridLayout (K : Type) where
  grid : Rect K
  cell : K

/-- Where the keys landed. -/
structure PadLayout (K : Type) where
  keys : List (PadKey × Rect K)

/-- Where everything on the screen is drawn. -/
structure SudokuLayout (K : Type) where
  grid : GridLayout K
  pad : PadLayout K
  status : Rect K
  newPuzzle : Rect K
  difficulty : Rect K
  home : Rect K

section

variable {K : Type} [Field K] [LinearOrder K]

/-- Where a cell is drawn. -/
def GridLayout.cellRect (layout : GridLayout K) (cell : Cell) : Rect K :=
  ⟨layout.grid.x + (cell.column : ℕ) * layout.cell, layout.grid.y + (cell.row : ℕ) * layout.cell,
    layout.cell, layout.cell⟩

/-- Which key a point is on. -/
def PadLayout.keyAt (layout : PadLayout K) (pointer : PointerEvent K) : Option PadKey :=
  (layout.keys.find? fun key => key.2.hit pointer).map (·.1)

/-- Where a key was drawn. -/
def PadLayout.keyRect (layout : PadLayout K) (key : PadKey) : Option (Rect K) :=
  (layout.keys.find? fun item => decide (item.1 = key)).map (·.2)

variable [FloorRing K]

/-- The largest grid of whole pixels in an area. -/
def GridLayout.fit (area : Rect K) : GridLayout K :=
  let cell : K := max ((⌊min area.width area.height / (9 : ℕ)⌋ : ℤ) : K) 1
  let side := cell * (9 : ℕ)
  ⟨⟨area.x + (area.width - side) / (2 : ℕ), area.y, side, side⟩, cell⟩

/-- Which cell a point is in. -/
def GridLayout.cellAt (layout : GridLayout K) (pointer : PointerEvent K) : Option Cell :=
  if layout.grid.hit pointer then
    Cell.new (⌊(pointer.y - layout.grid.y) / layout.cell⌋.toNat)
      (⌊(pointer.x - layout.grid.x) / layout.cell⌋.toNat)
  else none

/-- Ten keys across an area. -/
def PadLayout.fit (area : Rect K) : PadLayout K :=
  let gap : K := (12 : ℕ)
  let width : K := max ((⌊(area.width - gap * (9 : ℕ)) / (10 : ℕ)⌋ : ℤ) : K) 1
  ⟨PadKey.all.zipIdx.map fun (key, index) =>
    (key, ⟨area.x + index * (width + gap), area.y, width, area.height⟩)⟩

/-- Where everything on the screen lands. -/
def layout (size : Protocol.Size) : SudokuLayout K :=
  let bounds : Rect K := .ofSize size
  let content := statusBarContentArea bounds
  let status : Rect K :=
    ⟨0, sectionHeadingContentTop (content.y + (40 : ℕ)) + (8 : ℕ), bounds.width, STATUS_BAND⟩
  let padTop := bounds.height - FOOTER_HEIGHT - (24 : ℕ) - PAD_HEIGHT
  let gridTop := status.bottom + (24 : ℕ)
  { grid := .fit ⟨MARGIN, gridTop, bounds.width - MARGIN * (2 : ℕ), padTop - (28 : ℕ) - gridTop⟩
    pad := .fit ⟨MARGIN, padTop, bounds.width - MARGIN * (2 : ℕ), PAD_HEIGHT⟩
    status := status
    newPuzzle := footerActionRect bounds 3 0
    difficulty := footerActionRect bounds 3 1
    home := footerActionRect bounds 3 2 }

end

/-! ## What a press does -/

/-- What the screen says about the last press. -/
inductive Notice where
  | noSelection
  | given
  | conflict (with_ : Cell)
  deriving DecidableEq

/-- The line of a notice. -/
def Notice.text : Notice → String
  | .noSelection => "TAP A CELL FIRST"
  | .given => "THAT CELL IS A GIVEN"
  | .conflict with_ => "ALREADY IN " ++ with_.name

/-- What the screen is showing, on top of the board. -/
structure SudokuScreen where
  selected : Option Cell
  notice : Option Notice
  /-- NEW PUZZLE was tapped once and awaits a second tap. -/
  newPuzzleArmed : Bool
  nextDifficulty : Difficulty
  deriving DecidableEq

/-- A fresh screen. -/
def SudokuScreen.new (difficulty : Difficulty) : SudokuScreen := ⟨none, none, false, difficulty⟩

/-- What a press did. -/
structure Press (K : Type) where
  action : Action
  damage : Damage K
  deriving DecidableEq

namespace Press

variable {K : Type}

/-- A press that changed nothing. -/
def nothing : Press K := ⟨.none, .regions []⟩

/-- A press that asks for something without changing the screen. -/
def leaving (action : Action) : Press K := ⟨action, .regions []⟩

/-- A press that changed enough of the screen not to enumerate it. -/
def everything : Press K := ⟨.redraw, .full⟩

/-- A press that changed these rectangles and nothing else. -/
def regions (rects : List (Rect K)) : Press K :=
  if rects.isEmpty then nothing
  else if Protocol.MAX_DAMAGE_RECTS < rects.length then everything
  else ⟨.redraw, .regions rects⟩

end Press

/-- A press, with the screen and the game that it leaves. -/
structure Pressed (K : Type) where
  press : Press K
  screen : SudokuScreen
  game : Game

namespace SudokuScreen

variable {K : Type}

/-- Sets the notice, claiming the status band if it changed. -/
def note (screen : SudokuScreen) (notice : Option Notice) (layout : SudokuLayout K)
    (changed : List (Rect K)) : SudokuScreen × List (Rect K) :=
  if screen.notice ≠ notice then ({ screen with notice := notice }, changed ++ [layout.status])
  else (screen, changed)

variable [Field K] [LinearOrder K]

/-- A tap on the grid. -/
def select (screen : SudokuScreen) (game : Game) (layout : SudokuLayout K) (cell : Cell)
    (changed : List (Rect K)) : Pressed K :=
  if game.puzzle.isGiven cell then
    let (screen, changed) := screen.note (some .given) layout changed
    ⟨.regions changed, screen, game⟩
  else
    let (screen, changed) := screen.note none layout changed
    let previous := screen.selected
    let left := (previous.filter (· ≠ cell)).map layout.grid.cellRect
    let selected := if previous = some cell then none else some cell
    ⟨.regions (changed ++ left.toList ++ [layout.grid.cellRect cell]),
      { screen with selected := selected }, game⟩

/-- What a key does to a cell. -/
def keyed (game : Game) (cell : Cell) : PadKey → Except MoveError Unit × Game
  | .digit digit => game.set cell digit
  | .clear => game.clear cell

/-- What becomes of the screen after a key, by what came of it. -/
def settle (screen : SudokuScreen) (layout : SudokuLayout K) (cell : Cell)
    (changed : List (Rect K)) : Except MoveError Unit × Game → Pressed K
  | (.ok (), game) =>
    let (screen, changed) := screen.note none layout changed
    if game.board.isSolved then ⟨.everything, { screen with selected := none }, game⟩
    else ⟨.regions (changed ++ [layout.grid.cellRect cell]), screen, game⟩
  | (.error (.conflict with_), game) =>
    let (screen, changed) := screen.note (some (.conflict with_)) layout changed
    ⟨.regions changed, screen, game⟩
  | (.error .given, game) =>
    let (screen, changed) := screen.note (some .given) layout changed
    ⟨.regions changed, screen, game⟩
  | (.error .solved, game) => ⟨.everything, screen, game⟩

/-- A tap on the digit pad. -/
def enter (screen : SudokuScreen) (game : Game) (layout : SudokuLayout K) (key : PadKey)
    (changed : List (Rect K)) : Pressed K :=
  match screen.selected with
  | none =>
    let (screen, changed) := screen.note (some .noSelection) layout changed
    ⟨.regions changed, screen, game⟩
  | some cell => screen.settle layout cell changed (keyed game cell key)

variable [FloorRing K]

/-- A press that is neither HOME nor NEW PUZZLE. `changed` is what disarming has changed. -/
def pressRest (screen : SudokuScreen) (game : Game) (layout : SudokuLayout K)
    (pointer : PointerEvent K) (changed : List (Rect K)) : Pressed K :=
  if layout.difficulty.hit pointer then
    ⟨.regions (changed ++ [layout.difficulty]),
      { screen with nextDifficulty := screen.nextDifficulty.next }, game⟩
  else if game.board.isSolved then ⟨.regions changed, screen, game⟩
  else
    match layout.pad.keyAt pointer with
    | some key => screen.enter game layout key changed
    | none =>
      match layout.grid.cellAt pointer with
      | some cell => screen.select game layout cell changed
      | none => ⟨.regions changed, screen, game⟩

/-- A pointer event, against where things were drawn. -/
def press (screen : SudokuScreen) (game : Game) (layout : SudokuLayout K)
    (pointer : PointerEvent K) : Pressed K :=
  if pointer.isTap = false then ⟨.nothing, screen, game⟩
  else if layout.home.hit pointer then ⟨.leaving .home, screen, game⟩
  else if layout.newPuzzle.hit pointer then
    if screen.newPuzzleArmed = false then
      ⟨.regions [layout.newPuzzle], { screen with newPuzzleArmed := true }, game⟩
    else
      ⟨.everything, { screen with newPuzzleArmed := false, selected := none, notice := none },
        (game.newPuzzle screen.nextDifficulty).getD game⟩
  else if screen.newPuzzleArmed then
    { screen with newPuzzleArmed := false }.pressRest game layout pointer [layout.newPuzzle]
  else screen.pressRest game layout pointer []

end SudokuScreen

/-! ## The app -/

/-- What an app is told. -/
inductive Event (K : Type) where
  | pointer (pointer : PointerEvent K)
  | suspended
  | resumed
  | other
  deriving DecidableEq

/-- The Sudoku app. -/
structure SudokuApp (K : Type) where
  game : Game
  screen : SudokuScreen
  /-- What has changed since the last frame. -/
  damageClaims : DamageAccumulator K
  /-- What the frame just drawn changed. -/
  frame : Damage K
  loaded : Bool

namespace SudokuApp

variable {K : Type}

/-- The app on a game. -/
def new (game : Game) : SudokuApp K :=
  ⟨game, .new game.puzzle.difficulty, .new, .full, false⟩

/-- The first callback of all takes the saved game up, if there is one that can be read. -/
def load (saved : Option Game) (app : SudokuApp K) : SudokuApp K :=
  if app.loaded then app
  else
    match saved with
    | none => { app with loaded := true }
    | some game =>
      { app with loaded := true, screen := .new game.puzzle.difficulty, game := game }

section

variable [Field K] [LinearOrder K] [FloorRing K]

/-- What an event does. -/
def event (size : Protocol.Size) (saved : Option Game) (app : SudokuApp K) (event : Event K) :
    SudokuApp K × Action :=
  let app := app.load saved
  match event with
  | .pointer pointer =>
    let pressed := app.screen.press app.game (layout size) pointer
    ({ app with
        screen := pressed.screen
        game := pressed.game
        damageClaims := app.damageClaims.claim pressed.press.damage }, pressed.press.action)
  | .suspended | .resumed => ({ app with damageClaims := app.damageClaims.claim .full }, .none)
  | .other => (app, .none)

end

/-- Draws a frame, and holds what it changed. -/
def draw (saved : Option Game) (app : SudokuApp K) : SudokuApp K :=
  let app := app.load saved
  { app with frame := app.damageClaims.takeFrame.1, damageClaims := app.damageClaims.takeFrame.2 }

end SudokuApp

end Paperclip.Sudoku
