import Mathlib.Data.Nat.Notation

/-!
# Runs by their steps

The states of a run of a state machine, by the number of steps, and since when something holds in
it.

* `at_`: the state before a step. `at_succ`: the one after it.
* `Since P i j`: step `i` makes `P` hold, and it holds up to `j`.
* `Since.exists`, `Since.unique`: there is just one such step, where `P` does not hold at first.
-/

namespace Paperclip.Trace

section

variable {S I : Type} (step : S → I → S) (s : S) (inputs : List I)

/-- The state before step `k`. -/
def at_ (k : ℕ) : S := (inputs.take k).foldl step s

variable {step s inputs} {k : ℕ}

theorem at_zero : at_ step s inputs 0 = s := rfl

theorem at_succ {input : I} (h : inputs[k]? = some input) :
    at_ step s inputs (k + 1) = step (at_ step s inputs k) input := by
  rw [at_, at_, List.take_add_one, h]
  simp

/-- Past its end a run stays where it is. -/
theorem at_succ_of_none (h : inputs[k]? = none) :
    at_ step s inputs (k + 1) = at_ step s inputs k := by
  rw [at_, at_, List.take_add_one, h]
  simp

/-- What a step keeps, once it holds, holds from there on. -/
theorem at_keeps {P : S → Prop} (hstep : ∀ s input, P s → P (step s input)) {i j : ℕ}
    (hij : i ≤ j) (hi : P (at_ step s inputs i)) : P (at_ step s inputs j) := by
  induction j with
  | zero =>
    obtain rfl : i = 0 := by omega
    exact hi
  | succ j ih =>
    rcases Nat.lt_or_ge j i with hlt | hge
    · obtain rfl : i = j + 1 := by omega
      exact hi
    · rcases h : inputs[j]? with _ | input
      · rw [at_succ_of_none h]
        exact ih hge
      · rw [at_succ h]
        exact hstep _ _ (ih hge)

/-- What holds at first and is kept holds in the whole run. -/
theorem at_invariant {P : S → Prop} (h0 : P s) (hstep : ∀ s input, P s → P (step s input)) :
    P (at_ step s inputs k) := at_keeps hstep k.zero_le h0

end

/-- Step `i` makes `P` hold, and it holds up to `j`. -/
structure Since (P : ℕ → Prop) (i j : ℕ) : Prop where
  lt : i < j
  before : ¬ P i
  during : ∀ k, i < k → k ≤ j → P k

namespace Since

variable {P : ℕ → Prop} {i i' j j' : ℕ}

theorem now (h : Since P i j) : P j := h.during j h.lt j.le_refl

/-- What goes on holding holds since the same step. -/
theorem succ (h : Since P i j) (hj : P (j + 1)) : Since P i (j + 1) where
  lt := Nat.lt_succ_of_lt h.lt
  before := h.before
  during k hik hk := by
    rcases Nat.le_succ_iff.1 hk with hk | rfl
    · exact h.during k hik hk
    · exact hj

/-- What holds, and did not at first, holds since some step. -/
theorem exists_ (h0 : ¬ P 0) (hj : P j) : ∃ i, Since P i j := by
  induction j with
  | zero => exact absurd hj h0
  | succ j ih =>
    by_cases h : P j
    · obtain ⟨i, hi⟩ := ih h
      refine ⟨i, by have := hi.lt; omega, hi.before, fun k hik hkj => ?_⟩
      rcases Nat.lt_or_ge k (j + 1) with hk | hk
      · exact hi.during k hik (by omega)
      · obtain rfl : k = j + 1 := by omega
        exact hj
    · refine ⟨j, j.lt_succ_self, h, fun k hik hkj => ?_⟩
      obtain rfl : k = j + 1 := by omega
      exact hj

/-- There is one such step. -/
theorem unique (h : Since P i j) (h' : Since P i' j) : i = i' := by
  rcases Nat.lt_trichotomy i i' with hi | hi | hi
  · exact absurd (h.during i' hi (Nat.le_of_lt h'.lt)) h'.before
  · exact hi
  · exact absurd (h'.during i hi (Nat.le_of_lt h.lt)) h.before

/-- What has ended since does not hold later since the same step. -/
theorem le_of_ends (h : Since P i j') (hj : i < j) (hend : ¬ P (j + 1)) : j' ≤ j := by
  refine Nat.le_of_not_lt fun hlt => hend ?_
  exact h.during (j + 1) (by omega) hlt

end Since

end Paperclip.Trace
