import Paperclip.Sudoku.Generate

/-!
# A puzzle being played

The board, what may be entered on it, and where the next puzzle comes from.

* `Game`: the board with its givens and entries, and the generator stream. `Game.set`, `Game.clear`:
  the entries; what they return stands beside the game that they leave.
* `Reachable`: what any sequence of these leads to. `Reachable.sound`: the puzzle is sound, and the
  board is legal and has the givens.
-/

namespace Paperclip.Sudoku

open Extension Function

/-- Why a digit could not be entered, or a cell cleared. -/
inductive MoveError where
  | solved
  | given
  | conflict (with_ : Cell)
  deriving DecidableEq

/-- One in-progress Sudoku. -/
structure Game where
  puzzle : Puzzle
  board : Grid
  rng : Rng
  revision : ℕ

namespace Game

/-- Generates a puzzle from a seed and starts it. -/
def start (difficulty : Difficulty) (seed : BitVec 64) : Option Game :=
  (Puzzle.generateWith Rng.nextU64 difficulty (Rng.new seed)).map fun (puzzle, rng) =>
    ⟨puzzle, puzzle.givens, rng, 0⟩

/-- Replaces the puzzle with the next one of this game's stream. -/
def newPuzzle (game : Game) (difficulty : Difficulty) : Option Game :=
  (Puzzle.generateWith Rng.nextU64 difficulty game.rng).map fun (puzzle, rng) =>
    ⟨puzzle, puzzle.givens, rng, game.revision + 1⟩

/-- Enters a digit in a cell. -/
def set (game : Game) (cell : Cell) (digit : Digit) : Except MoveError Unit × Game :=
  if game.board.isSolved then (.error .solved, game)
  else if game.puzzle.isGiven cell then (.error .given, game)
  else if game.board.get cell = some digit then (.ok (), game)
  else
    let previous := game.board.get cell
    -- the cell is emptied, so that a digit does not conflict with the one it replaces
    let board := game.board.set cell none
    match board.conflict cell digit with
    | some with_ => (.error (.conflict with_), { game with board := board.set cell previous })
    | none =>
      (.ok (), { game with board := board.set cell (some digit), revision := game.revision + 1 })

/-- Empties a cell. -/
def clear (game : Game) (cell : Cell) : Except MoveError Unit × Game :=
  if game.board.isSolved then (.error .solved, game)
  else if game.puzzle.isGiven cell then (.error .given, game)
  else if (game.board.get cell).isNone then (.ok (), game)
  else
    (.ok (), { game with board := game.board.set cell none, revision := game.revision + 1 })

/-- Rebuilds a game from a save file's parts. -/
def restore (puzzle : Puzzle) (board : Grid) (rngState : BitVec 64) : Game :=
  ⟨puzzle, board, Rng.new rngState, 0⟩

end Game

/-- The games that any sequence of the operations leads to. -/
inductive Reachable : Game → Prop where
  | start {difficulty : Difficulty} {seed : BitVec 64} {game : Game}
      (h : Game.start difficulty seed = some game) : Reachable game
  | newPuzzle {game game' : Game} {difficulty : Difficulty} (h : Reachable game)
      (h' : game.newPuzzle difficulty = some game') : Reachable game'
  | set {game : Game} (h : Reachable game) (cell : Cell) (digit : Digit) :
      Reachable (game.set cell digit).2
  | clear {game : Game} (h : Reachable game) (cell : Cell) : Reachable (game.clear cell).2

/-- The puzzle is sound, and the board is legal and has the givens. -/
structure Game.Sound (game : Game) : Prop where
  puzzle : game.puzzle.Sound
  agrees : game.puzzle.givens.Agrees game.puzzle.solution
  board : game.puzzle.givens.Agrees game.board
  legal : game.board.Legal

variable {game : Game} {grid givens : Grid} {cell : Cell} {digit : Digit}

/-- A cell that is not a given may hold anything. -/
theorem Grid.Agrees.set_board (h : givens.Agrees grid) (hgiven : (givens.get cell).isSome = false)
    (held : Option Digit) : givens.Agrees (grid.set cell held) := by
  intro other digit hd
  have hne : other ≠ cell := by
    rintro rfl
    rw [hd] at hgiven
    cases hgiven
  rw [Grid.get_set_ne hne]
  exact h other digit hd

/-- A cell that is emptied breaks no constraint. -/
theorem Grid.Legal.set_none (h : grid.Legal) (cell : Cell) : (grid.set cell none).Legal := by
  intro a b digit hp ha hb
  have hne (other : Cell) (ho : (grid.set cell none).get other = some digit) : other ≠ cell := by
    rintro rfl
    simp at ho
  rw [Grid.get_set_ne (hne a ha)] at ha
  rw [Grid.get_set_ne (hne b hb)] at hb
  exact h a b digit hp ha hb

theorem conflict_eq_none : grid.conflict cell digit = none ↔
    ∀ other, cell.Peer other → grid.get other ≠ some digit := by
  simp [Grid.conflict, List.find?_eq_none, Cell.mem_peers]

/-- A digit that no peer holds breaks no constraint. -/
theorem Grid.Legal.set_some (h : grid.Legal) (hfree : grid.conflict cell digit = none) :
    (grid.set cell (some digit)).Legal := by
  rw [Grid.Legal, Grid.get_set]
  exact h.update (fun _ _ => Cell.Peer.symm) (fun _ hp => hp.1 rfl) (conflict_eq_none.1 hfree)

theorem set_set (grid : Grid) (cell : Cell) (a b : Option Digit) :
    (grid.set cell a).set cell b = grid.set cell b := by
  refine Grid.ext_get fun other => ?_
  by_cases hc : other = cell
  · subst hc
    simp
  · simp [Grid.get_set_ne hc]

/-- An entry leaves the game as it was, or puts a digit where it fits. -/
theorem Game.set_cases (game : Game) (cell : Cell) (digit : Digit) :
    (game.set cell digit).2 = game ∨
      (game.puzzle.givens.get cell).isSome = false ∧
        (game.board.set cell none).conflict cell digit = none ∧
        (game.set cell digit).2 = { game with
          board := (game.board.set cell none).set cell (some digit)
          revision := game.revision + 1 } := by
  unfold Game.set
  split
  · exact .inl rfl
  · split
    · exact .inl rfl
    · next hgiven =>
      split
      · exact .inl rfl
      · dsimp only
        split
        · exact .inl (by rw [set_set_self])
        · next hfree => exact .inr ⟨by simpa [Puzzle.isGiven] using hgiven, hfree, rfl⟩

/-- A clearing leaves the game as it was, or empties a cell. -/
theorem Game.clear_cases (game : Game) (cell : Cell) :
    (game.clear cell).2 = game ∨ (game.puzzle.givens.get cell).isSome = false ∧
      (game.clear cell).2 =
        { game with board := game.board.set cell none, revision := game.revision + 1 } := by
  unfold Game.clear
  split
  · exact .inl rfl
  · split
    · exact .inl rfl
    · next hgiven =>
      split
      · exact .inl rfl
      · exact .inr ⟨by simpa [Puzzle.isGiven] using hgiven, rfl⟩

/-- What generation gives can be played. -/
theorem Game.Sound.generated {difficulty : Difficulty} {rng rng' : Rng} {puzzle : Puzzle}
    (h : Puzzle.generateWith Rng.nextU64 difficulty rng = some (puzzle, rng')) (revision : ℕ) :
    Game.Sound ⟨puzzle, puzzle.givens, rng', revision⟩ := by
  obtain ⟨puzzle', rng'', h', hsound, hagrees, -⟩ :=
    generateWith_sound Rng.nextU64 difficulty rng
  obtain ⟨rfl, rfl⟩ := Prod.mk.inj (Option.some.inj (h.symm.trans h'))
  refine ⟨hsound, hagrees, fun _ _ hd => hd, fun a b digit hp ha hb => ?_⟩
  exact hsound.legal a b digit hp (hagrees a digit ha) (hagrees b digit hb)

/-- Every game that is reached has a sound puzzle and a legal board with the givens. -/
theorem Reachable.sound (h : Reachable game) : game.Sound := by
  induction h with
  | start h =>
    obtain ⟨⟨puzzle, rng⟩, hgenerate, rfl⟩ := Option.map_eq_some_iff.1 h
    exact .generated hgenerate 0
  | newPuzzle h h' ih =>
    obtain ⟨⟨puzzle, rng⟩, hgenerate, rfl⟩ := Option.map_eq_some_iff.1 h'
    exact .generated hgenerate _
  | @set game h cell digit ih =>
    rcases game.set_cases cell digit with heq | ⟨hgiven, hfree, heq⟩
    · rwa [heq]
    · rw [heq]
      exact ⟨ih.puzzle, ih.agrees, (ih.board.set_board hgiven _).set_board hgiven _,
        (ih.legal.set_none cell).set_some hfree⟩
  | @clear game h cell ih =>
    rcases game.clear_cases cell with heq | ⟨hgiven, heq⟩
    · rwa [heq]
    · rw [heq]
      exact ⟨ih.puzzle, ih.agrees, ih.board.set_board hgiven _, ih.legal.set_none cell⟩

/-- Every seed and level starts a game, and every game has a next puzzle. -/
theorem Game.start_isSome (difficulty : Difficulty) (seed : BitVec 64) :
    (Game.start difficulty seed).isSome = true := by
  obtain ⟨puzzle, rng, h, -⟩ := generateWith_sound Rng.nextU64 difficulty (Rng.new seed)
  rw [Game.start, h]
  rfl

theorem Game.newPuzzle_isSome (game : Game) (difficulty : Difficulty) :
    (game.newPuzzle difficulty).isSome = true := by
  obtain ⟨puzzle, rng, h, -⟩ := generateWith_sound Rng.nextU64 difficulty game.rng
  rw [Game.newPuzzle, h]
  rfl

end Paperclip.Sudoku
