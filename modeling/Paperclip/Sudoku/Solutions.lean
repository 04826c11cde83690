import Paperclip.Sudoku.Generate

/-!
# What the solver answers

* `solve`: one solution of a grid, if it has one.
* `Completion`: a complete, legal grid that has the clues of another.
* `Visited`: the states that a search of a grid goes through.
* `solver_exact`: solutions are counted up to the limit, one is found if there is one, and what a
  branch leaves behind is what was there before it.
-/

namespace Paperclip.Sudoku

open Extension Function

/-- One solution of `grid`, if it has one. -/
def solve (grid : Grid) : Option (Option Grid) :=
  match Search.load grid with
  | none => some none
  | some search => (search.fill Rng.nextU64 LEVELS none).map fun (filled, search, _) =>
      if filled then some search.grid else none

/-- A complete, legal grid that has every clue of `grid`. -/
def Completion (grid solved : Grid) : Prop := solved.isSolved = true ∧ grid.Agrees solved

/-- The states of a search of `grid`: what is loaded, and each branch that is tried. -/
inductive Visited (grid : Grid) : Search → Prop where
  | load {search : Search} (h : Search.load grid = some search) : Visited grid search
  | branch {search : Search} {cell : Cell} {bits : BitVec 16} {digit : Digit}
      (h : Visited grid search) (hoffers : search.mostConstrained = some (cell, bits))
      (hcandidate : bits &&& digit.mask ≠ 0) : Visited grid (search.place cell digit.value)

section

variable {grid : Grid} {search : Search} {has : Cell → Option Digit} {cell : Cell} {digit : Digit}

/-- A search has placed something that breaks no constraint. -/
theorem Visited.loads (h : Visited grid search) : ∃ has, Loads search has := by
  induction h with
  | @load search h =>
    have hloads := load_loads grid
    rw [h] at hloads
    exact ⟨_, hloads⟩
  | branch h hoffers hcandidate ih =>
    obtain ⟨has, hloads⟩ := ih
    obtain ⟨hopen, hcandidates⟩ := hloads.offers hoffers
    exact ⟨_, hloads.place hopen ((hcandidates _).1 hcandidate)⟩

/-- The grid of a complete assignment. -/
def gridOf (f : Cell → Digit) : Grid :=
  ⟨Vector.ofFn fun i => some (f ⟨⟨i / 9, by omega⟩, ⟨i % 9, by omega⟩⟩)⟩

theorem get_gridOf (f : Cell → Digit) (cell : Cell) : (gridOf f).get cell = some (f cell) := by
  have hrow : (cell.index : ℕ) / 9 = cell.row := by
    simp only [Cell.index]
    omega
  have hcolumn : (cell.index : ℕ) % 9 = cell.column := by
    simp only [Cell.index]
    omega
  simp [Grid.get, gridOf, hrow, hcolumn]

/-- The completions of a grid are the extensions of its clues. -/
theorem completion_iff {solved : Grid} : Completion grid solved ↔
    ∃ f ∈ extensions Cell.Peer grid.get, gridOf f = solved := by
  constructor
  · rintro ⟨hsolved, hagrees⟩
    obtain ⟨f, hget, hf⟩ := solved_extends hsolved
    refine ⟨f, hf _ hagrees, Grid.ext_get fun cell => ?_⟩
    rw [get_gridOf, hget]
  · rintro ⟨f, ⟨hproper, hclues⟩, rfl⟩
    refine ⟨isSolved_iff.2 ⟨fun cell => by rw [get_gridOf]; rfl, ?_⟩, fun cell digit hd => ?_⟩
    · intro a b digit hp ha hb
      rw [get_gridOf, Option.some.injEq] at ha hb
      exact hproper a b hp (ha.trans hb.symm)
    · rw [get_gridOf, hclues cell digit hd]

theorem gridOf_injective : Injective gridOf := fun f f' h => funext fun cell =>
  Option.some.inj ((get_gridOf f cell).symm.trans ((congrArg (Grid.get · cell) h).trans
    (get_gridOf f' cell)))

/-- There are as many completions as there are extensions. -/
theorem ncard_completions (grid : Grid) :
    {solved | Completion grid solved}.ncard = completions grid.get := by
  have himage : {solved | Completion grid solved} =
      gridOf '' extensions Cell.Peer grid.get := Set.ext fun _ => completion_iff
  rw [himage, Set.ncard_image_of_injective _ gridOf_injective, completions]

/-- A solution is found if there is one. -/
theorem solve_spec (grid : Grid) : ∃ found, solve grid = some found ∧
    (∀ solved ∈ found, Completion grid solved) ∧
    (found = none → ∀ solved, ¬ Completion grid solved) := by
  have hloads := load_loads grid
  unfold solve
  cases hload : Search.load grid with
  | none =>
    rw [hload] at hloads
    refine ⟨none, rfl, fun solved h => (by cases h), fun _ solved h => hloads ?_⟩
    exact fun a b digit hp ha hb =>
      (isSolved_iff.1 h.1).2 a b digit hp (h.2 a digit ha) (h.2 b digit hb)
  | some search =>
    rw [hload] at hloads
    obtain ⟨ok, search', rng', hfill, -, hfilled⟩ :=
      fill_filled Rng.nextU64 hloads (opens_card_lt _) none
    dsimp only
    rw [hfill]
    cases ok with
    | false =>
      refine ⟨none, rfl, fun solved h => (by cases h), fun _ solved h => ?_⟩
      obtain ⟨f, hf, -⟩ := completion_iff.1 h
      rw [hfilled.1] at hf
      exact hf
    | true =>
      obtain ⟨f, hf, hloads'⟩ := hfilled
      refine ⟨some search'.grid, rfl, fun solved h => ?_, fun h => by cases h⟩
      obtain rfl := Option.some.inj h
      refine completion_iff.2 ⟨f, hf, Grid.ext_get fun cell => ?_⟩
      rw [get_gridOf, hloads'.get_grid]

/-- A branch of a count leaves behind what was there. -/
theorem Visited.count_restores (h : Visited grid search) {bits : BitVec 16}
    (hoffers : search.mostConstrained = some (cell, bits)) (hcandidate : bits &&& digit.mask ≠ 0)
    (limit found : ℕ) : ∃ branch found',
      (search.place cell digit.value).count limit LEVELS found = some (branch, found') ∧
        branch.lift cell digit.value = search := by
  obtain ⟨has, hloads⟩ := h.loads
  obtain ⟨hopen, hcandidates⟩ := hloads.offers hoffers
  have hfree := (hcandidates digit).1 hcandidate
  have hlift := lift_place hloads hopen hfree
  by_cases hfound : found ≤ limit
  · exact ⟨_, _, count_eq (hloads.place hopen hfree) (opens_card_lt _) hfound, hlift⟩
  · exact ⟨_, found, if_pos (by omega), hlift⟩

/-- A branch that cannot be filled leaves behind what was there. -/
theorem Visited.fill_restores {σ : Type} (next : σ → BitVec 64 × σ) (h : Visited grid search)
    {bits : BitVec 16} (hoffers : search.mostConstrained = some (cell, bits))
    (hcandidate : bits &&& digit.mask ≠ 0) (rng : Option σ) : ∃ filled branch rng',
      (search.place cell digit.value).fill next LEVELS rng = some (filled, branch, rng') ∧
        (filled = false → branch.lift cell digit.value = search) := by
  obtain ⟨has, hloads⟩ := h.loads
  obtain ⟨hopen, hcandidates⟩ := hloads.offers hoffers
  have hfree := (hcandidates digit).1 hcandidate
  obtain ⟨ok, branch, rng', hfill, -, hfilled⟩ :=
    fill_filled next (hloads.place hopen hfree) (opens_card_lt _) rng
  refine ⟨ok, branch, rng', hfill, ?_⟩
  rintro rfl
  rw [hfilled.2]
  exact lift_place hloads hopen hfree

/-- Whatever the clues are: as many solutions are counted as there are completions, up to the limit;
one of them is found, if there is any; and a branch of either search, once its digit is lifted,
leaves the marks and the cells as they were. -/
theorem solver_exact :
    (∀ grid limit, solutions grid limit =
      some (min limit {solved | Completion grid solved}.ncard)) ∧
    (∀ grid, ∃ found, solve grid = some found ∧
      (found.isSome = true ↔ ∃ solved, Completion grid solved) ∧
      ∀ solved ∈ found, Completion grid solved) ∧
    ∀ grid search cell bits (digit : Digit), Visited grid search →
      search.mostConstrained = some (cell, bits) → bits &&& digit.mask ≠ 0 →
      (∀ limit found, ∃ branch found',
        (search.place cell digit.value).count limit LEVELS found = some (branch, found') ∧
          branch.lift cell digit.value = search) ∧
      ∀ {σ : Type} (next : σ → BitVec 64 × σ) (rng : Option σ), ∃ filled branch rng',
        (search.place cell digit.value).fill next LEVELS rng = some (filled, branch, rng') ∧
          (filled = false → branch.lift cell digit.value = search) := by
  refine ⟨fun grid limit => ?_, fun grid => ?_,
    fun grid search cell bits digit h hoffers hcandidate =>
    ⟨h.count_restores hoffers hcandidate, fun next => h.fill_restores next hoffers hcandidate⟩⟩
  · rw [ncard_completions, solutions_eq]
  · obtain ⟨found, hsolve, hsome, hnone⟩ := solve_spec grid
    refine ⟨found, hsolve, ?_, hsome⟩
    cases found with
    | none => exact iff_of_false Bool.false_ne_true fun ⟨solved, h⟩ => hnone rfl solved h
    | some solved => exact iff_of_true rfl ⟨solved, hsome solved rfl⟩

theorem loadFrom_empty (cells : List Cell) (search : Search) :
    Search.loadFrom .EMPTY cells search = some search := by
  induction cells with
  | nil => rfl
  | cons cell rest ih => rw [Search.loadFrom, Grid.get_empty, ih]

/-- The first branch of a search of the empty grid. -/
theorem solver_exact_empty : ∃ branch found',
    (Search.blank.place ⟨0, 0⟩ 1).count 2 LEVELS 0 = some (branch, found') ∧
      branch.lift ⟨0, 0⟩ 1 = Search.blank :=
  (solver_exact.2.2 .EMPTY .blank ⟨0, 0⟩ ALL_DIGITS ⟨1, by decide⟩ (.load (loadFrom_empty ..))
    (by decide +kernel) (by decide)).1 2 0

end

end Paperclip.Sudoku
