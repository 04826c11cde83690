import Paperclip.Choice.Extension

/-!
# Digits, cells and grids

* `Digit`, `Cell`, `Grid`: a digit, one of the cells, and what is in each of them.
* `Units`: the digits that each row, column and block has, as bits; `Marks`: of the cells of a grid.
* `Cell.Peer`: two cells that may not hold the same digit. `Legal`: no two do; `isValid_iff`.
* `toLine`, `parseLine`: a grid as a line of text.
-/

namespace Paperclip.Sudoku

/-! ## Digits -/

/-- A digit, `1` through `9`. -/
structure Digit where
  value : ℕ
  valid : 1 ≤ value ∧ value ≤ 9
  deriving DecidableEq

namespace Digit

/-- Builds a digit from `1..=9`, or `none` for anything else. -/
def new (value : ℕ) : Option Digit := if h : 1 ≤ value ∧ value ≤ 9 then some ⟨value, h⟩ else none

/-- Every digit, ascending. -/
def ALL : List Digit := (List.range 10).filterMap new

/-- The bit this digit occupies in a candidate mask. -/
def mask (digit : Digit) : BitVec 16 := BitVec.twoPow 16 digit.value

theorem value_inj {a b : Digit} (h : a.value = b.value) : a = b := by
  cases a
  cases b
  cases h
  rfl

@[simp] theorem new_value (digit : Digit) : new digit.value = some digit := dif_pos digit.valid

theorem new_eq_some {value : ℕ} {digit : Digit} (h : new value = some digit) :
    digit.value = value := by
  unfold new at h
  split at h
  · cases h
    rfl
  · cases h

theorem mem_all (digit : Digit) : digit ∈ ALL :=
  List.mem_filterMap.2 ⟨digit.value, List.mem_range.2 (by have := digit.valid; omega),
    new_value digit⟩

theorem nodup_all : ALL.Nodup := by decide

instance : Fintype Digit := ⟨⟨ALL, nodup_all⟩, mem_all⟩

theorem getLsbD_mask (digit : Digit) (i : ℕ) : digit.mask.getLsbD i = decide (digit.value = i) := by
  have := digit.valid
  rw [mask, BitVec.getLsbD_twoPow]
  by_cases h : digit.value = i
  · simp [h]
    omega
  · simp [h]

/-- A mask that meets the digit's has its bit. -/
theorem and_mask_ne_zero {bits : BitVec 16} {digit : Digit} :
    bits &&& digit.mask ≠ 0 ↔ bits.getLsbD digit.value = true := by
  have hmask : digit.mask ≠ 0 := fun h => by
    have := congrArg (BitVec.getLsbD · digit.value) h
    simp [getLsbD_mask] at this
  rw [mask, BitVec.and_twoPow]
  cases bits.getLsbD digit.value with
  | true => exact iff_of_true hmask rfl
  | false => exact iff_of_false (fun h => h rfl) Bool.false_ne_true

end Digit

/-- Every digit's bit set at once. -/
def ALL_DIGITS : BitVec 16 := 0b1111111110

theorem getLsbD_ALL_DIGITS (digit : Digit) : ALL_DIGITS.getLsbD digit.value = true := by
  have hall : ∀ digit ∈ Digit.ALL, ALL_DIGITS.getLsbD digit.value = true := by decide
  exact hall digit digit.mem_all

/-! ## Cells -/

/-- One of the eighty-one cells: the row down from the top, the column across from the left. -/
structure Cell where
  row : Fin 9
  column : Fin 9
  deriving DecidableEq

namespace Cell

/-- Which block the cell is in, in reading order. -/
def block (cell : Cell) : Fin 9 := ⟨cell.row / 3 * 3 + cell.column / 3, by omega⟩

/-- The row-major index. -/
def index (cell : Cell) : Fin 81 := ⟨cell.row * 9 + cell.column, by omega⟩

/-- The cell at a row-major index. -/
def fromIndex (index : ℕ) : Option Cell :=
  if h : index < 81 then some ⟨⟨index / 9, by omega⟩, ⟨index % 9, by omega⟩⟩ else none

/-- Every cell, in reading order. -/
def all : List Cell := (List.range 81).filterMap fromIndex

/-- Another cell of the same row, column or block. -/
def Peer (cell other : Cell) : Prop :=
  other ≠ cell ∧ (other.row = cell.row ∨ other.column = cell.column ∨ other.block = cell.block)

instance (cell other : Cell) : Decidable (cell.Peer other) := inferInstanceAs (Decidable (_ ∧ _))

/-- The twenty other cells that share a row, a column or a block with this one. -/
def peers (cell : Cell) : List Cell := all.filter fun other => cell.Peer other

/-- The one-based spelling, for an error message. -/
def name (cell : Cell) : String := s!"R{cell.row.val + 1}C{cell.column.val + 1}"

theorem index_lt (cell : Cell) : cell.index.val < 81 := cell.index.isLt

@[simp] theorem fromIndex_index (cell : Cell) : fromIndex cell.index = some cell := by
  obtain ⟨⟨row, hrow⟩, ⟨column, hcolumn⟩⟩ := cell
  have hlt : row * 9 + column < 81 := by omega
  rw [fromIndex, dif_pos (show (index ⟨⟨row, hrow⟩, ⟨column, hcolumn⟩⟩ : ℕ) < 81 from hlt)]
  simp only [index, Option.some.injEq, mk.injEq, Fin.mk.injEq]
  omega

theorem index_inj {a b : Cell} (h : a.index = b.index) : a = b := by
  have := congrArg (fun i : Fin 81 => fromIndex i) h
  simpa using this

theorem mem_all (cell : Cell) : cell ∈ all :=
  List.mem_filterMap.2 ⟨cell.index, List.mem_range.2 cell.index.isLt, fromIndex_index cell⟩

theorem fromIndex_eq_some {i : ℕ} {cell : Cell} (h : fromIndex i = some cell) : cell.index = i := by
  unfold fromIndex at h
  split at h
  · cases h
    simp only [index]
    omega
  · cases h

theorem nodup_all : all.Nodup :=
  List.nodup_range.filterMap fun i j cell hi hj => by
    rw [← fromIndex_eq_some hi, ← fromIndex_eq_some hj]

instance : Fintype Cell := ⟨⟨all, nodup_all⟩, mem_all⟩

theorem mem_peers {cell other : Cell} : other ∈ cell.peers ↔ cell.Peer other := by
  simp [peers, mem_all]

theorem Peer.symm {cell other : Cell} (h : cell.Peer other) : other.Peer cell :=
  ⟨h.1.symm, h.2.imp Eq.symm (Or.imp Eq.symm Eq.symm)⟩

end Cell

/-! ## Units -/

/-- The digits already used, per row, column and block. -/
structure Units where
  rows : Vector (BitVec 16) 9
  columns : Vector (BitVec 16) 9
  blocks : Vector (BitVec 16) 9

namespace Units

/-- Nothing is used. -/
def unused : Units := ⟨.replicate 9 0, .replicate 9 0, .replicate 9 0⟩

/-- The digits that the cell's row, column and block have between them. -/
def used (units : Units) (cell : Cell) : BitVec 16 :=
  units.rows[cell.row] ||| units.columns[cell.column] ||| units.blocks[cell.block]

/-- Marks a value in the cell's row, column and block. -/
def place (units : Units) (cell : Cell) (value : ℕ) : Units :=
  let mask := BitVec.twoPow 16 value
  ⟨units.rows.set cell.row (units.rows[cell.row] ||| mask),
    units.columns.set cell.column (units.columns[cell.column] ||| mask),
    units.blocks.set cell.block (units.blocks[cell.block] ||| mask)⟩

/-- Takes the mark back. -/
def lift (units : Units) (cell : Cell) (value : ℕ) : Units :=
  let mask := ~~~BitVec.twoPow 16 value
  ⟨units.rows.set cell.row (units.rows[cell.row] &&& mask),
    units.columns.set cell.column (units.columns[cell.column] &&& mask),
    units.blocks.set cell.block (units.blocks[cell.block] &&& mask)⟩

end Units

/-! ## Grids -/

/-- A 9x9 grid of optional digits. -/
structure Grid where
  cells : Vector (Option Digit) 81
  deriving DecidableEq

namespace Grid

/-- Eighty-one empty cells. -/
def EMPTY : Grid := ⟨.replicate 81 none⟩

/-- What is in `cell`. -/
def get (grid : Grid) (cell : Cell) : Option Digit := getElem grid.cells cell.index cell.index_lt

/-- Puts `digit` in `cell`, or empties it. -/
def set (grid : Grid) (cell : Cell) (digit : Option Digit) : Grid :=
  ⟨grid.cells.set cell.index digit cell.index_lt⟩

/-- How many cells hold a digit. -/
def filled (grid : Grid) : ℕ := grid.cells.toList.countP Option.isSome

/-- Whether every cell holds a digit. -/
def isComplete (grid : Grid) : Bool := grid.cells.toList.all Option.isSome

/-- The first cell sharing a row, column or block with `cell` that already holds `digit`. -/
def conflict (grid : Grid) (cell : Cell) (digit : Digit) : Option Cell :=
  cell.peers.find? fun peer => grid.get peer = some digit

/-- The cells of `isValid`, with what the ones before have used. -/
def validFrom (grid : Grid) : List Cell → Units → Bool
  | [], _ => true
  | cell :: rest, units =>
    match grid.get cell with
    | none => validFrom grid rest units
    | some digit =>
      let mask := digit.mask
      if units.rows[cell.row] &&& mask ≠ 0 then false
      else if units.columns[cell.column] &&& mask ≠ 0 then false
      else if units.blocks[cell.block] &&& mask ≠ 0 then false
      else validFrom grid rest (units.place cell digit.value)

/-- Whether no row, column or block holds a digit twice. -/
def isValid (grid : Grid) : Bool := grid.validFrom Cell.all .unused

/-- Whether this grid is a finished, legal Sudoku. -/
def isSolved (grid : Grid) : Bool := grid.isComplete && grid.isValid

/-- The character of a cell. -/
def charOf : Option Digit → Char
  | some digit => Char.ofNat ('0'.toNat + digit.value)
  | none => '.'

/-- Eighty-one characters in reading order, `.` for an empty cell. -/
def toLine (grid : Grid) : String := String.ofList (grid.cells.toList.map charOf)

/-- The characters of a line, from `index` on. -/
def parseFrom : List Char → (index : ℕ) → Grid → Option (Grid × ℕ)
  | [], index, grid => some (grid, index)
  | character :: rest, index, grid =>
    match Cell.fromIndex index with
    | none => none
    | some cell =>
      if character = '.' ∨ character = '0' then parseFrom rest (index + 1) grid
      else if '1' ≤ character ∧ character ≤ '9' then
        parseFrom rest (index + 1) (grid.set cell (Digit.new (character.toNat - '0'.toNat)))
      else none

/-- Parses a line, if it is exactly 81 valid characters. -/
def parseLine (text : String) : Option Grid :=
  match parseFrom text.toList 0 EMPTY with
  | some (grid, seen) => if seen = 81 then some grid else none
  | none => none

/-- No two cells of a row, column or block hold the same digit. -/
def Legal (grid : Grid) : Prop := Extension.Proper Cell.Peer grid.get

section

variable {grid : Grid} {cell other : Cell} {digit : Option Digit}

@[simp] theorem get_empty (cell : Cell) : EMPTY.get cell = none := by
  simp [EMPTY, get]

@[simp] theorem get_set_self : (grid.set cell digit).get cell = digit := by
  simp [get, set]

theorem get_set_ne (h : other ≠ cell) : (grid.set cell digit).get other = grid.get other := by
  have hindex : (cell.index : ℕ) ≠ other.index := fun hi =>
    h (Cell.index_inj (Fin.ext hi.symm))
  simp [get, set, Vector.getElem_set_ne, hindex]

theorem get_set (grid : Grid) (cell : Cell) (digit : Option Digit) :
    (grid.set cell digit).get = Function.update grid.get cell digit := by
  funext other
  by_cases h : other = cell
  · subst h
    simp
  · rw [get_set_ne h, Function.update_of_ne h]

theorem ext_get {grid' : Grid} (h : ∀ cell, grid.get cell = grid'.get cell) : grid = grid' := by
  cases grid with
  | mk cells =>
    cases grid' with
    | mk cells' =>
      refine congrArg Grid.mk (Vector.ext fun i hi => ?_)
      obtain ⟨cell, hcell⟩ : ∃ cell, Cell.fromIndex i = some cell := by
        simp [Cell.fromIndex, hi]
      have hindex := Cell.fromIndex_eq_some hcell
      subst hindex
      exact h cell

theorem isComplete_iff : grid.isComplete = true ↔ ∀ cell, (grid.get cell).isSome = true := by
  rw [isComplete, List.all_eq_true]
  constructor
  · intro h cell
    exact h _ (by simp [get])
  · intro h held hheld
    obtain ⟨i, hi, rfl⟩ := List.getElem_of_mem hheld
    have hi' : i < 81 := by simpa using hi
    obtain ⟨cell, hcell⟩ : ∃ cell, Cell.fromIndex i = some cell := by
      simp [Cell.fromIndex, hi']
    have hindex := Cell.fromIndex_eq_some hcell
    subst hindex
    exact h cell

end

end Grid

end Paperclip.Sudoku
