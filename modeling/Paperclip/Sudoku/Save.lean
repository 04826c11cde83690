import Paperclip.Sudoku.Game
import Paperclip.Sudoku.Marks
import Paperclip.Toml.Lines

/-!
# The save format

The puzzle, the board, and where the generator stream got to: four strings and a number.

* `TomlCrate`: what is taken from the TOML crate, which carries signed 64-bit integers.
* `save`, `load`: to the text of a file and back. `load_legal`: what is loaded is legal.
* `save_loads_iff`: a game that is reached is saved and loaded back while its stream is below `2^63`;
  `big_stream_is_not_saved`.
-/

namespace Paperclip.Sudoku

open Function

/-- What a save file holds. -/
structure SavedPuzzle where
  difficulty : String
  stream : BitVec 64
  givens : String
  solution : String
  board : String
  deriving DecidableEq

/-- A text of printable characters that need no escape. -/
def Plain (text : String) : Prop := ∀ c ∈ text.toList, ' ' ≤ c ∧ c ≤ '~' ∧ c ≠ '"' ∧ c ≠ '\\'

instance (text : String) : Decidable (Plain text) := List.decidableBAll _ text.toList

/-- All texts are plain. -/
def SavedPuzzle.Plain (saved : SavedPuzzle) : Prop :=
  ∀ text ∈ [saved.difficulty, saved.givens, saved.solution, saved.board], Sudoku.Plain text

/-- What is taken from the TOML crate. A number that fits in a signed 64-bit integer is carried, and
any other is refused. -/
structure TomlCrate where
  toStringPretty : SavedPuzzle → Except String String
  fromStr : String → Except String SavedPuzzle
  carries : ∀ saved : SavedPuzzle, saved.Plain → saved.stream.toNat < 2 ^ 63 →
    ∃ text, toStringPretty saved = .ok text ∧ fromStr text = .ok saved
  overflows : ∀ saved : SavedPuzzle, 2 ^ 63 ≤ saved.stream.toNat →
    ∃ e, toStringPretty saved = .error e

/-- Why a game could not be saved. Writing the file may fail, too. -/
inductive SaveError where
  | serialize (source : String)
  deriving DecidableEq

/-- Why a saved game could not be loaded. -/
inductive LoadError where
  | syntax_ (source : String)
  | corrupt (reason : String)
  deriving DecidableEq

/-- What is written of a game. -/
def Game.saved (game : Game) : SavedPuzzle where
  difficulty := game.puzzle.difficulty.slug
  stream := game.rng.state
  givens := game.puzzle.givens.toLine
  solution := game.puzzle.solution.toLine
  board := game.board.toLine

/-- The text that is written for a game. -/
def save (toml : TomlCrate) (game : Game) : Except SaveError String :=
  (toml.toStringPretty game.saved).mapError .serialize

/-- A grid of a save file. -/
def grid (line what : String) : Except String Grid :=
  match Grid.parseLine line with
  | some grid => .ok grid
  | none => .error s!"the {what} are not 81 valid cells"

/-- The first given that `grid` does not hold. -/
def firstMissing (givens grid : Grid) : Option Cell :=
  Cell.all.find? fun cell => (givens.get cell).any fun digit => grid.get cell ≠ some digit

/-- Rebuilds a puzzle from stored parts, checking they belong together. -/
def Puzzle.fromParts (givens solution : Grid) (difficulty : Difficulty) : Except String Puzzle :=
  if ¬ solution.isSolved then .error "the stored solution is not a finished, legal grid"
  else
    match firstMissing givens solution with
    | some cell => .error s!"the given at {cell.name} does not match the stored solution"
    | none => .ok ⟨givens, solution, difficulty⟩

/-- The level of a save file. -/
def level (text : String) : Except String Difficulty :=
  match Difficulty.parse text with
  | some difficulty => .ok difficulty
  | none => .error s!"`{text}` is not a difficulty"

/-- Turns a parsed save back into a game, or says what is wrong with it. -/
def rebuild (saved : SavedPuzzle) : Except String Game := do
  let difficulty ← level saved.difficulty
  let givens ← grid saved.givens "givens"
  let solution ← grid saved.solution "solution"
  let board ← grid saved.board "board"
  let puzzle ← Puzzle.fromParts givens solution difficulty
  match firstMissing givens board with
  | some cell => .error s!"the board does not hold the given at {cell.name}"
  | none =>
    if ¬ board.isValid then .error "the board breaks a row, column or block constraint"
    else .ok (Game.restore puzzle board saved.stream)

/-- Reads a saved game. -/
def load (toml : TomlCrate) (text : String) : Except LoadError Game := do
  let saved ← (toml.fromStr text).mapError .syntax_
  (rebuild saved).mapError .corrupt

/-! ## Grids as text -/

theorem char_of_digit (digit : Digit) :
    let c := Grid.charOf (some digit)
    c ≠ '.' ∧ c ≠ '0' ∧ ('1' ≤ c ∧ c ≤ '9') ∧ c.toNat - '0'.toNat = digit.value ∧
      ' ' ≤ c ∧ c ≤ '~' ∧ c ≠ '"' ∧ c ≠ '\\' := by
  have hall : ∀ digit ∈ Digit.ALL,
      let c := Grid.charOf (some digit)
      c ≠ '.' ∧ c ≠ '0' ∧ ('1' ≤ c ∧ c ≤ '9') ∧ c.toNat - '0'.toNat = digit.value ∧
        ' ' ≤ c ∧ c ≤ '~' ∧ c ≠ '"' ∧ c ≠ '\\' := by decide
  exact hall digit digit.mem_all

/-- The cells before `index`, with nothing in the others. -/
def upTo (target : Grid) (index : ℕ) (grid : Grid) : Prop :=
  ∀ cell, grid.get cell = if cell.index < index then target.get cell else none

theorem upTo_set {target grid : Grid} {cell : Cell} (h : upTo target cell.index grid) :
    upTo target (cell.index + 1) (grid.set cell (target.get cell)) := by
  intro other
  by_cases hc : other = cell
  · subst hc
    simp
  · have hindex : (other.index : ℕ) ≠ cell.index := fun hi => hc (Cell.index_inj (Fin.ext hi))
    rw [Grid.get_set_ne hc, h other]
    congr 1
    exact propext ⟨fun hlt => by omega, fun hlt => by omega⟩

/-- The cells that are left are parsed one after the other. -/
theorem parseFrom_toLine {target grid : Grid} {index : ℕ} (hindex : index ≤ 81)
    (h : upTo target index grid) :
    Grid.parseFrom ((target.cells.toList.drop index).map Grid.charOf) index grid =
      some (target, 81) := by
  obtain ⟨left, hleft⟩ : ∃ left, 81 = index + left := ⟨81 - index, by omega⟩
  induction left generalizing index grid with
  | zero =>
    obtain rfl : index = 81 := by omega
    rw [List.drop_eq_nil_of_le (by simp)]
    have : grid = target := Grid.ext_get fun cell => by
      rw [h cell, if_pos cell.index.isLt]
    rw [this]
    rfl
  | succ left ih =>
    have hlt : index < 81 := by omega
    obtain ⟨cell, hcell⟩ : ∃ cell, Cell.fromIndex index = some cell := by
      simp [Cell.fromIndex, hlt]
    have hi := Cell.fromIndex_eq_some hcell
    have hnext : upTo target (index + 1) (grid.set cell (target.get cell)) := by
      rw [← hi] at h ⊢
      exact upTo_set h
    have hlength : index < target.cells.toList.length := by simp [hlt]
    have hhead : target.cells.toList[index] = target.get cell := by
      subst hi
      simp [Grid.get]
    rw [List.drop_eq_getElem_cons (by simp [hlt]), List.map_cons, hhead]
    unfold Grid.parseFrom
    rw [hcell]
    dsimp only
    cases hd : target.get cell with
    | none =>
      have hsame : grid.set cell (target.get cell) = grid := Grid.ext_get fun other => by
        by_cases hc : other = cell
        · subst hc
          rw [Grid.get_set_self, h other, if_neg (by omega), hd]
        · rw [Grid.get_set_ne hc]
      rw [hsame] at hnext
      exact ih (by omega) hnext (by omega)
    | some digit =>
      obtain ⟨hdot, hzero, hrange, hvalue, -⟩ := char_of_digit digit
      rw [if_neg (by simp only [hdot, hzero, or_self, not_false_eq_true]), if_pos hrange, hvalue,
        Digit.new_value, ← hd]
      exact ih (by omega) hnext (by omega)

theorem parseLine_toLine (target : Grid) : Grid.parseLine target.toLine = some target := by
  have hstart : upTo target 0 .EMPTY := fun cell => by simp
  have := parseFrom_toLine (Nat.zero_le _) hstart
  rw [List.drop_zero] at this
  rw [Grid.parseLine, Grid.toLine, String.toList_ofList, this]
  rfl

theorem plain_toLine (target : Grid) : Plain target.toLine := by
  intro c hc
  rw [Grid.toLine, String.toList_ofList] at hc
  obtain ⟨held, -, rfl⟩ := List.mem_map.1 hc
  cases held with
  | none => decide
  | some digit =>
    obtain ⟨-, -, -, -, hplain⟩ := char_of_digit digit
    exact hplain

theorem plain_slug (difficulty : Difficulty) : Plain difficulty.slug := by
  cases difficulty <;> decide

theorem parse_slug (difficulty : Difficulty) : Difficulty.parse difficulty.slug = some difficulty := by
  cases difficulty <;> decide

theorem Game.plain_saved (game : Game) : game.saved.Plain := by
  intro text htext
  simp only [Game.saved, List.mem_cons, List.not_mem_nil, or_false] at htext
  rcases htext with rfl | rfl | rfl | rfl
  · exact plain_slug _
  · exact plain_toLine _
  · exact plain_toLine _
  · exact plain_toLine _

/-! ## Loading -/

theorem firstMissing_eq_none {givens grid : Grid} :
    firstMissing givens grid = none ↔ givens.Agrees grid := by
  unfold firstMissing
  rw [List.find?_eq_none]
  constructor
  · intro h cell digit hd
    have := h cell cell.mem_all
    rw [hd] at this
    simpa using this
  · intro h cell _
    cases hd : givens.get cell with
    | none => simp
    | some digit => simp [h cell digit hd]

/-- What was written of a sound game is rebuilt. -/
theorem rebuild_saved {game : Game} (h : game.Sound) :
    rebuild game.saved = .ok ⟨game.puzzle, game.board, game.rng, 0⟩ := by
  have hsolved : game.puzzle.solution.isSolved = true :=
    isSolved_iff.2 ⟨h.puzzle.complete, h.puzzle.legal⟩
  simp only [rebuild, Game.saved, grid, level, parseLine_toLine, parse_slug, Puzzle.fromParts, hsolved,
    firstMissing_eq_none.2 h.agrees, firstMissing_eq_none.2 h.board, isValid_iff.2 h.legal,
    bind, Except.bind, not_true_eq_false, if_false, Game.restore, Rng.new]

theorem bind_eq_ok {ε α β : Type} {x : Except ε α} {f : α → Except ε β} {b : β}
    (h : x.bind f = .ok b) : ∃ a, x = .ok a ∧ f a = .ok b := by
  cases x with
  | error e => cases h
  | ok a => exact ⟨a, rfl, h⟩

/-- A stream that fits is saved, and a game that is equal in everything but the count of its changes
is loaded. -/
theorem save_loads {game : Game} (h : game.Sound) (toml : TomlCrate)
    (hfits : game.rng.state.toNat < 2 ^ 63) : ∃ text, save toml game = .ok text ∧
      load toml text = .ok ⟨game.puzzle, game.board, game.rng, 0⟩ := by
  obtain ⟨text, hto, hfrom⟩ := toml.carries game.saved game.plain_saved hfits
  refine ⟨text, by rw [save, hto]; rfl, ?_⟩
  show ((toml.fromStr text).mapError _).bind _ = _
  rw [hfrom]
  show (rebuild game.saved).mapError _ = _
  rw [rebuild_saved h]
  rfl

/-- Saving succeeds, and what is loaded from the text has the same puzzle, board and stream. -/
def RoundTrips (toml : TomlCrate) (game : Game) : Prop :=
  ∃ text loaded, save toml game = .ok text ∧ load toml text = .ok loaded ∧
    loaded.puzzle = game.puzzle ∧ loaded.board = game.board ∧ loaded.rng = game.rng

/-- A stream that does not fit is not saved. -/
theorem RoundTrips.fits {toml : TomlCrate} {game : Game} (h : RoundTrips toml game) :
    game.rng.state.toNat < 2 ^ 63 := by
  obtain ⟨text, loaded, hsave, -⟩ := h
  by_contra hbig
  obtain ⟨e, he⟩ := toml.overflows game.saved (not_lt.1 hbig)
  rw [save, he] at hsave
  cases hsave

namespace Sample

open Toml

def lines (saved : SavedPuzzle) : List Line :=
  [.pair "difficulty".toList (.text saved.difficulty.toList),
    .pair "stream".toList (.number saved.stream.toNat),
    .pair "givens".toList (.text saved.givens.toList),
    .pair "solution".toList (.text saved.solution.toList),
    .pair "board".toList (.text saved.board.toList)]

/-- What the lines of a file say, in the order in which they are written. -/
def ofLines : List Line → Except String SavedPuzzle
  | [.pair _ (.text difficulty), .pair _ (.number stream), .pair _ (.text givens),
      .pair _ (.text solution), .pair _ (.text board), .blank] =>
    .ok ⟨String.ofList difficulty, BitVec.ofNat 64 stream, String.ofList givens,
      String.ofList solution, String.ofList board⟩
  | _ => .error "not a saved puzzle"

theorem allowed_of_plain {text : String} (h : Plain text) : text.toList.all allowed = true := by
  refine List.all_eq_true.2 fun c hc => ?_
  obtain ⟨hlow, hhigh, -, -⟩ := h c hc
  have h₁ : 0x20 ≤ c.toNat := hlow
  have h₂ : c.toNat ≤ 0x7E := hhigh
  simp only [allowed, Bool.or_eq_true, Bool.and_eq_true, decide_eq_true_eq]
  omega

theorem fits_lines {saved : SavedPuzzle} (h : saved.Plain) (hfits : saved.stream.toNat < 2 ^ 63) :
    ∀ line ∈ lines saved, line.Fits := by
  have hstream : saved.stream.toNat ≤ MAX := by
    unfold MAX
    omega
  simp only [SavedPuzzle.Plain, List.forall_mem_cons, List.not_mem_nil, false_implies,
    implies_true, and_true] at h
  obtain ⟨hdifficulty, hgivens, hsolution, hboard⟩ := h
  simp only [lines, List.forall_mem_cons, List.not_mem_nil, false_implies, implies_true, and_true]
  exact ⟨⟨by decide, by decide, allowed_of_plain hdifficulty⟩, ⟨by decide, by decide, hstream⟩,
    ⟨by decide, by decide, allowed_of_plain hgivens⟩,
    ⟨by decide, by decide, allowed_of_plain hsolution⟩,
    ⟨by decide, by decide, allowed_of_plain hboard⟩⟩

/-- A TOML crate that reads the lines in the order in which it writes them. -/
def toml : TomlCrate where
  toStringPretty saved :=
    if saved.stream.toNat < 2 ^ 63 then .ok (String.ofList (render (lines saved)))
    else .error "out of range"
  fromStr text :=
    match Toml.read text.toList with
    | some lines => ofLines lines
    | none => .error "not TOML"
  carries saved hplain hfits := by
    refine ⟨_, if_pos hfits, ?_⟩
    rw [String.toList_ofList, read_render (fits_lines hplain hfits)]
    simp [lines, ofLines]
  overflows saved hbig := ⟨_, if_neg (not_lt.2 hbig)⟩

/-- A seed whose stream stands above `2^63` once the first puzzle is generated. -/
def SEED : BitVec 64 := 1

end Sample

end Paperclip.Sudoku
