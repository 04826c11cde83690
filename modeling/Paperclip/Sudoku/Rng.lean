import Mathlib.Data.Nat.Notation

/-!
# The generator's randomness

SplitMix64, and what is drawn from it. Everything that draws takes the stream as a function, `next`,
so that what holds of it holds for every stream.

* `below`: a number below a bound. `shuffle`: a permutation, whatever the stream is.
-/

namespace Paperclip.Sudoku

/-- A seeded SplitMix64 stream. -/
structure Rng where
  state : BitVec 64
  deriving DecidableEq

/-- A stream at `seed`. -/
def Rng.new (seed : BitVec 64) : Rng := ⟨seed⟩

/-- The next 64 bits. -/
def Rng.nextU64 (rng : Rng) : BitVec 64 × Rng :=
  let state := rng.state + 0x9E3779B97F4A7C15
  let z := state
  let z := (z ^^^ (z >>> 30)) * 0xBF58476D1CE4E5B9
  let z := (z ^^^ (z >>> 27)) * 0x94D049BB133111EB
  (z ^^^ (z >>> 31), ⟨state⟩)

section

variable {σ α : Type} (next : σ → BitVec 64 × σ)

/-- A number below `bound`, or `0` if `bound` is `0`. -/
def below (bound : ℕ) (rng : σ) : ℕ × σ :=
  if bound = 0 then (0, rng)
  else
    let (draw, rng) := next rng
    ((draw.toNat * bound) >>> 64, rng)

/-- The swaps of a shuffle, from `index` down. -/
def shuffleFrom : (index : ℕ) → Array α → σ → Array α × σ
  | 0, items, rng => (items, rng)
  | index + 1, items, rng =>
    let (other, rng) := below next (index + 2) rng
    shuffleFrom index (items.swapIfInBounds (index + 1) other) rng

/-- Fisher-Yates. -/
def shuffle (items : List α) (rng : σ) : List α × σ :=
  let (items, rng) := shuffleFrom next (items.length - 1) items.toArray rng
  (items.toList, rng)

variable {next}

theorem below_lt {bound : ℕ} (h : 0 < bound) (rng : σ) : (below next bound rng).1 < bound := by
  rw [below, if_neg (Nat.ne_of_gt h)]
  have hdraw : (next rng).1.toNat < 2 ^ 64 := BitVec.isLt _
  show ((next rng).1.toNat * bound) >>> 64 < bound
  rw [Nat.shiftRight_eq_div_pow]
  exact Nat.div_lt_of_lt_mul (Nat.mul_lt_mul_of_pos_right hdraw h)

theorem swapIfInBounds_perm (items : Array α) (i j : ℕ) :
    (items.swapIfInBounds i j).toList.Perm items.toList := by
  unfold Array.swapIfInBounds
  split
  · split
    · exact (Array.swap_perm _ _).toList
    · exact .refl _
  · exact .refl _

theorem shuffleFrom_perm (index : ℕ) (items : Array α) (rng : σ) :
    (shuffleFrom next index items rng).1.toList.Perm items.toList := by
  induction index generalizing items rng with
  | zero => exact .refl _
  | succ index ih => exact (ih _ _).trans (swapIfInBounds_perm items _ _)

/-- A shuffle loses nothing and invents nothing. -/
theorem shuffle_perm (items : List α) (rng : σ) : (shuffle next items rng).1.Perm items :=
  shuffleFrom_perm _ items.toArray rng

end

end Paperclip.Sudoku
