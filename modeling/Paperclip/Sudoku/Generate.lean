import Paperclip.Sudoku.Solve

/-!
# Generating a puzzle

A complete grid is drawn, and clues are removed in a random order as long as one solution is left.

* `Puzzle.generateWith`, `Puzzle.generate`: the generator; `none` would be a search that ran out of
  levels.
* `Puzzle.Sound`: what a puzzle has to be.
* `generate_sound`: whatever the stream is, a sound puzzle is generated.
-/

namespace Paperclip.Sudoku

open Extension Function

/-- How much of the solution a puzzle gives away. -/
inductive Difficulty where
  | easy
  | medium
  | hard
  deriving DecidableEq, Repr

namespace Difficulty

/-- Every level, easiest first. -/
def ALL : List Difficulty := [easy, medium, hard]

/-- The spelling the save file uses. -/
def slug : Difficulty → String
  | easy => "easy"
  | medium => "medium"
  | hard => "hard"

/-- The level that `slug` names. -/
def parse (text : String) : Option Difficulty := ALL.find? fun level => level.slug = text

/-- How many givens generation aims to leave. -/
def targetGivens : Difficulty → ℕ
  | easy => 42
  | medium => 34
  | hard => 28

end Difficulty

/-- A generated puzzle: the givens, and the one solution they have. -/
structure Puzzle where
  givens : Grid
  solution : Grid
  difficulty : Difficulty
  deriving DecidableEq

namespace Puzzle

/-- The cells of a generation: each clue is removed if one solution is left. -/
def removeFrom (target : ℕ) : List Cell → (givens : Grid) → (remaining : ℕ) → Option Grid
  | [], givens, _ => some givens
  | cell :: rest, givens, remaining =>
    if remaining ≤ target then some givens
    else
      let removed := givens.get cell
      let givens := givens.set cell none
      match solutions givens 2 with
      | none => none
      | some found =>
        if found = 1 then removeFrom target rest givens (remaining - 1)
        else removeFrom target rest (givens.set cell removed) remaining

/-- Generates a puzzle, advancing a stream that the caller keeps. -/
def generateWith {σ : Type} (next : σ → BitVec 64 × σ) (difficulty : Difficulty) (rng : σ) :
    Option (Puzzle × σ) :=
  (complete next rng).bind fun (solution, rng) =>
    let (order, rng) := shuffle next Cell.all rng
    (removeFrom difficulty.targetGivens order solution solution.filled).map fun givens =>
      (⟨givens, solution, difficulty⟩, rng)

/-- Generates a puzzle from a seed. -/
def generate (difficulty : Difficulty) (seed : BitVec 64) : Option Puzzle :=
  (generateWith Rng.nextU64 difficulty (Rng.new seed)).map Prod.fst

/-- Whether `cell` is one of the givens. -/
def isGiven (puzzle : Puzzle) (cell : Cell) : Bool := (puzzle.givens.get cell).isSome

end Puzzle

/-- Every cell that holds a digit in `grid` holds the same one in `other`. -/
def Grid.Agrees (grid other : Grid) : Prop :=
  ∀ cell digit, grid.get cell = some digit → other.get cell = some digit

/-- The solution is a complete legal grid, it is the only one that agrees with the givens, and there
are at least as many of these as the level aims for. -/
structure Puzzle.Sound (puzzle : Puzzle) : Prop where
  complete : ∀ cell, (puzzle.solution.get cell).isSome = true
  legal : puzzle.solution.Legal
  unique : ∀ grid : Grid, ((∀ cell, (grid.get cell).isSome = true) ∧ grid.Legal ∧
    puzzle.givens.Agrees grid) ↔ grid = puzzle.solution
  count : puzzle.difficulty.targetGivens ≤ puzzle.givens.filled

section

variable {σ : Type} {grid givens solution : Grid} {cell : Cell}

/-- A clue that is removed is one less. -/
theorem filled_set_none (h : (grid.get cell).isSome = true) :
    (grid.set cell none).filled + 1 = grid.filled := by
  have hindex : cell.index.val < grid.cells.toList.length := by simp
  have hheld : grid.cells.toList[cell.index.val].isSome = true := by simpa [Grid.get] using h
  have hpos : 0 < grid.cells.toList.countP Option.isSome :=
    List.countP_pos_iff.2 ⟨_, List.getElem_mem hindex, hheld⟩
  rw [Grid.filled, Grid.filled, Grid.set, Vector.toList_set, List.countP_set hindex, if_pos hheld]
  show grid.cells.toList.countP Option.isSome - 1 + 0 + 1 = _
  omega

theorem set_set_self (grid : Grid) (cell : Cell) :
    (grid.set cell none).set cell (grid.get cell) = grid := by
  refine Grid.ext_get fun other => ?_
  by_cases hc : other = cell
  · subst hc
    simp
  · rw [Grid.get_set_ne hc, Grid.get_set_ne hc]

theorem Grid.Agrees.set_none (h : givens.Agrees solution) (cell : Cell) :
    (givens.set cell none).Agrees solution := by
  intro other digit hd
  by_cases hc : other = cell
  · subst hc
    simp at hd
  · rw [Grid.get_set_ne hc] at hd
    exact h other digit hd

/-- What generation keeps: the givens are clues of the solution, with no other completion, and those
that are counted are there. -/
structure Digging (solution givens : Grid) (target remaining : ℕ) : Prop where
  agrees : givens.Agrees solution
  one : completions givens.get = 1
  counted : remaining ≤ givens.filled
  enough : target ≤ givens.filled

/-- Removing clues keeps the solution the only one. -/
theorem removeFrom_digging {target remaining : ℕ} {cells : List Cell} (hnodup : cells.Nodup)
    (hfilled : ∀ cell ∈ cells, (givens.get cell).isSome = true)
    (h : Digging solution givens target remaining) :
    ∃ givens' remaining', Puzzle.removeFrom target cells givens remaining = some givens' ∧
      Digging solution givens' target remaining' := by
  induction cells generalizing givens remaining with
  | nil => exact ⟨givens, remaining, rfl, h⟩
  | cons cell rest ih =>
    obtain ⟨hcell, hrest⟩ := List.nodup_cons.1 hnodup
    rw [Puzzle.removeFrom]
    split
    · exact ⟨givens, remaining, rfl, h⟩
    · next hmore =>
      dsimp only
      rw [solutions_eq]
      dsimp only
      split
      · next hone =>
        have hfewer := filled_set_none (hfilled cell List.mem_cons_self)
        have hcounted := h.counted
        refine ih hrest (fun other ho => ?_) ⟨h.agrees.set_none cell, by omega, by omega, by omega⟩
        have hne : other ≠ cell := fun heq => hcell (heq ▸ ho)
        rw [Grid.get_set_ne hne]
        exact hfilled other (List.mem_cons_of_mem _ ho)
      · rw [set_set_self]
        exact ih hrest (fun other ho => hfilled other (List.mem_cons_of_mem _ ho)) h

/-- Givens with one completion are completed by the solution alone. -/
theorem unique_of_completions (hsolved : solution.isSolved = true) (hagrees : givens.Agrees solution)
    (hone : completions givens.get = 1) (grid : Grid) :
    ((∀ cell, (grid.get cell).isSome = true) ∧ grid.Legal ∧ givens.Agrees grid) ↔
      grid = solution := by
  constructor
  · rintro ⟨hfull, hlegal, hgivens⟩
    obtain ⟨f, hf, hext⟩ := solved_extends hsolved
    obtain ⟨f', hf', hext'⟩ := solved_extends (isSolved_iff.2 ⟨hfull, hlegal⟩)
    obtain ⟨only, honly⟩ := Set.ncard_eq_one.1 hone
    have heq : f' = f := by
      have h₁ : f ∈ extensions Cell.Peer givens.get := hext _ hagrees
      have h₂ : f' ∈ extensions Cell.Peer givens.get := hext' _ hgivens
      rw [honly] at h₁ h₂
      exact h₂.trans h₁.symm
    refine Grid.ext_get fun cell => ?_
    rw [hf, hf', heq]
  · rintro rfl
    exact ⟨(isSolved_iff.1 hsolved).1, (isSolved_iff.1 hsolved).2, hagrees⟩

theorem filled_of_solved (h : solution.isSolved = true) : solution.filled = 81 := by
  rw [Grid.isSolved, Bool.and_eq_true, Grid.isComplete, List.all_eq_true] at h
  rw [Grid.filled, List.countP_eq_length.2 h.1]
  simp

theorem targetGivens_le (difficulty : Difficulty) : difficulty.targetGivens ≤ 81 := by
  cases difficulty <;> decide

/-- Whatever the stream is, a sound puzzle comes out. -/
theorem generateWith_sound (next : σ → BitVec 64 × σ) (difficulty : Difficulty) (rng : σ) :
    ∃ puzzle rng', Puzzle.generateWith next difficulty rng = some (puzzle, rng') ∧
      puzzle.Sound ∧ puzzle.givens.Agrees puzzle.solution ∧ puzzle.difficulty = difficulty := by
  obtain ⟨solution, rng₁, hcomplete, hsolved⟩ := complete_solved next rng
  have hperm : (shuffle next Cell.all rng₁).1.Perm Cell.all := shuffle_perm _ _
  have hstart : Digging solution solution difficulty.targetGivens solution.filled := by
    refine ⟨fun _ _ hd => hd, ?_, le_refl _, ?_⟩
    · obtain ⟨f, hf, -⟩ := solved_extends hsolved
      rw [completions, extensions_full hf (isSolved_iff.1 hsolved).2, Set.ncard_singleton]
    · rw [filled_of_solved hsolved]
      exact targetGivens_le difficulty
  obtain ⟨givens, remaining, hgivens, hdug⟩ := removeFrom_digging
    (hperm.nodup_iff.2 Cell.nodup_all) (fun cell _ => (isSolved_iff.1 hsolved).1 cell) hstart
  refine ⟨⟨givens, solution, difficulty⟩, (shuffle next Cell.all rng₁).2, ?_, ?_, hdug.agrees, rfl⟩
  · rw [Puzzle.generateWith, hcomplete, Option.bind_some]
    dsimp only
    rw [hgivens]
    rfl
  · exact ⟨(isSolved_iff.1 hsolved).1, (isSolved_iff.1 hsolved).2,
      unique_of_completions hsolved hdug.agrees hdug.one, hdug.enough⟩

end

/-- Every seed and level, and every stream in the place of the generator's, gives a puzzle whose
solution is complete and legal, whose givens have that completion and no other, and which has at least
as many of these as the level aims for. -/
theorem generate_sound :
    (∀ difficulty seed, ∃ puzzle, Puzzle.generate difficulty seed = some puzzle ∧
      puzzle.Sound ∧ puzzle.difficulty = difficulty) ∧
    ∀ (σ : Type) (next : σ → BitVec 64 × σ) difficulty (rng : σ),
      ∃ puzzle rng', Puzzle.generateWith next difficulty rng = some (puzzle, rng') ∧
        puzzle.Sound ∧ puzzle.difficulty = difficulty := by
  refine ⟨fun difficulty seed => ?_, fun σ next difficulty rng => ?_⟩
  · obtain ⟨puzzle, rng', hgenerate, hsound, -, hlevel⟩ :=
      generateWith_sound Rng.nextU64 difficulty (Rng.new seed)
    exact ⟨puzzle, by rw [Puzzle.generate, hgenerate]; rfl, hsound, hlevel⟩
  · obtain ⟨puzzle, rng', hgenerate, hsound, -, hlevel⟩ := generateWith_sound next difficulty rng
    exact ⟨puzzle, rng', hgenerate, hsound, hlevel⟩

end Paperclip.Sudoku
