import Mathlib.Data.Nat.Notation
import Mathlib.Data.List.Basic

/-!
# Chunks of one size

A stream is cut into chunks of one size, and what is left at its end is shorter than one.

* `chunks`, `left`: the chunks of a stream, and what is left.
* `chunks_append`: more of a stream adds the chunks of what was left and it.
* `feed`, `feedAll`: a reader that keeps what is left until more of the stream comes.
* `feedAll_eq`: however the stream comes, it is read as if it had come at once.
-/

namespace Wire

variable {α β : Type} {n : ℕ}

/-- The chunks of a stream, each of `n` items. -/
def chunks (hn : 0 < n) (s : List α) : List { chunk : List α // chunk.length = n } :=
  if h : n ≤ s.length then ⟨s.take n, List.length_take_of_le h⟩ :: chunks hn (s.drop n) else []
termination_by s.length
decreasing_by rw [List.length_drop]; omega

/-- What is left of a stream after its chunks. -/
def left (n : ℕ) (s : List α) : List α := s.drop (s.length - s.length % n)

variable {hn : 0 < n}

theorem chunks_of_lt {s : List α} (h : s.length < n) : chunks hn s = [] := by
  rw [chunks, dif_neg (by omega)]

theorem chunks_of_le {s : List α} (h : n ≤ s.length) :
    chunks hn s = ⟨s.take n, List.length_take_of_le h⟩ :: chunks hn (s.drop n) := by
  rw [chunks, dif_pos h]

theorem left_of_lt {s : List α} (h : s.length < n) : left n s = s := by
  rw [left, Nat.mod_eq_of_lt h, Nat.sub_self, List.drop_zero]

/-- A chunk at the front makes no difference to what is left. -/
theorem left_drop {s : List α} (h : n ≤ s.length) : left n (s.drop n) = left n s := by
  have hmod : (s.length - n) % n = s.length % n := (Nat.mod_eq_sub_mod h).symm
  have hle : s.length % n ≤ s.length - n := hmod ▸ Nat.mod_le _ _
  rw [left, left, List.drop_drop, List.length_drop, hmod]
  congr 1
  omega

theorem length_left (s : List α) : (left n s).length = s.length % n := by
  rw [left, List.length_drop]
  have := Nat.mod_le s.length n
  omega

theorem length_left_lt (hn : 0 < n) (s : List α) : (left n s).length < n := by
  rw [length_left]
  exact Nat.mod_lt _ hn

/-- More of a stream adds the chunks of what was left and it. -/
theorem chunks_append (s more : List α) :
    chunks hn (s ++ more) = chunks hn s ++ chunks hn (left n s ++ more) := by
  induction s using chunks.induct hn with
  | case1 s h ih =>
    have hle : n ≤ (s ++ more).length := by rw [List.length_append]; omega
    rw [chunks_of_le h, chunks_of_le hle, List.cons_append]
    congr 1
    · exact Subtype.ext (List.take_append_of_le_length h)
    · rw [List.drop_append_of_le_length h, ih, left_drop h]
  | case2 s h =>
    have hlt : s.length < n := by omega
    rw [chunks_of_lt hlt, left_of_lt hlt, List.nil_append]

/-- More of a stream leaves what is left of what was left and it. -/
theorem left_append (s more : List α) : left n (s ++ more) = left n (left n s ++ more) := by
  rcases Nat.eq_zero_or_pos n with rfl | hn
  · simp [left]
  · induction s using chunks.induct hn with
    | case1 s h ih =>
      have hle : n ≤ (s ++ more).length := by rw [List.length_append]; omega
      rw [← left_drop hle, List.drop_append_of_le_length h, ih, left_drop h]
    | case2 s h => rw [left_of_lt (s := s) (by omega)]

/-! ## Reading on -/

/-- Reads more of a stream: what its chunks are read as, and what is left. -/
def feed (hn : 0 < n) (read : { chunk : List α // chunk.length = n } → β) (kept more : List α) :
    List β × List α :=
  ((chunks hn (kept ++ more)).map read, left n (kept ++ more))

/-- Reads one piece of a stream after the other. -/
def feedAll (step : List α → List α → List β × List α) (kept : List α) :
    List (List α) → List β × List α
  | [] => ([], kept)
  | more :: pieces =>
    let now := step kept more
    let later := feedAll step now.2 pieces
    (now.1 ++ later.1, later.2)

/-- However a stream comes, it is read as if it had come at once. -/
theorem feedAll_eq (read : { chunk : List α // chunk.length = n } → β) {kept : List α}
    (hkept : kept.length < n) (pieces : List (List α)) :
    feedAll (feed hn read) kept pieces = feed hn read kept pieces.flatten := by
  induction pieces generalizing kept with
  | nil => simp [feedAll, feed, chunks_of_lt hkept, left_of_lt hkept]
  | cons more pieces ih =>
    have hlater := @ih (left n (kept ++ more)) (length_left_lt hn _)
    simp only [feedAll, feed] at hlater ⊢
    rw [hlater, List.flatten_cons, ← List.append_assoc, chunks_append (kept ++ more),
      List.map_append, left_append (kept ++ more)]

end Wire
