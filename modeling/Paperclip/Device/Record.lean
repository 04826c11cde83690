import Paperclip.Device.Stock

/-!
# The record of starts

What is written to the record is what is read back, so a record is known by the stamps in it.

* `stamps_render`: a record that was written holds the stamps that it was written for.
* `live now l`: how many of the stamps `l` a session still counts at `now`.
* `live_kept`: a start leaves what it finds, less what no session to come would count, and adds its
  own stamp.
-/

namespace Paperclip.Device.StartBudget

open Packages

/-! ## Numbers as text -/

theorem parseU64_lt {text : List Char} {n : ℕ} (h : parseU64 text = some n) : n < 2 ^ 64 := by
  rw [parseU64] at h
  split_ifs at h with hc
  exact Option.some.inj h ▸ hc.2.2

/-! ## Records -/

theorem stamps_lt {contents : String} {stamp : ℕ} (h : stamp ∈ stamps contents) :
    stamp < 2 ^ 64 := by
  obtain ⟨line, -, hp⟩ := List.mem_filterMap.1 h
  exact parseU64_lt hp

theorem toList_render_cons (stamp : ℕ) (l : List ℕ) :
    (render (stamp :: l)).toList = Nat.toDigits 10 stamp ++ '\n' :: (render l).toList := by
  simp [render, String.join_cons, Nat.repr_eq_ofList_toDigits, ToString.toString]

/-- A record that was written holds what it was written for. -/
theorem stamps_render {l : List ℕ} (h : ∀ stamp ∈ l, stamp < 2 ^ 64) : stamps (render l) = l := by
  induction l with
  | nil => rfl
  | cons stamp l ih =>
    have hbreak : '\n' ∉ Nat.toDigits 10 stamp := fun hc => by
      have := mem_toDigits hc
      simp [Char.isDigit] at this
    have hl : stamps (render l) = l := ih fun s hs => h s (List.mem_cons_of_mem _ hs)
    rw [stamps, toList_render_cons, List.splitOn_append_cons_self_of_not_mem hbreak,
      List.filterMap_cons_some (b := stamp)]
    · exact congrArg (stamp :: ·) hl
    · rw [trim_toDigits, parseU64_toDigits (h stamp List.mem_cons_self)]

/-! ## What counts -/

/-- How many of the stamps count at `now`. -/
def live (now : ℕ) (l : List ℕ) : ℕ := (l.filter (counts (now / second))).length

@[simp] theorem live_nil (now : ℕ) : live now [] = 0 := rfl

@[simp] theorem live_append (now : ℕ) (l l' : List ℕ) :
    live now (l ++ l') = live now l + live now l' := by
  simp [live, List.filter_append]

/-- What counts later counts now. -/
theorem counts_of_le {now later stamp : ℕ} (h : now ≤ later)
    (hc : counts (later / second) stamp = true) : counts (now / second) stamp = true := by
  have : now / second ≤ later / second := Nat.div_le_div_right h
  simp only [counts, decide_eq_true_eq] at hc ⊢
  omega

theorem recent_eq (contents : Option String) (now : ℕ) :
    recent contents now = min (live now (stamps (contents.getD ""))) U32_MAX := by
  cases contents <;> rfl

/-- What a start writes counts as much as what it found, and its own stamp. -/
theorem live_kept {contents : Option String} {now later : ℕ} (h : now ≤ later)
    (hfits : now / second < 2 ^ 64) : live later (stamps (render (kept contents now))) =
      live later (stamps (contents.getD "")) + live later [now / second] := by
  have hall : ∀ stamp ∈ kept contents now, stamp < 2 ^ 64 := by
    intro stamp hs
    rcases List.mem_append.1 hs with hs | hs
    · exact stamps_lt (List.mem_of_mem_filter hs)
    · rwa [List.mem_singleton.1 hs]
  rw [stamps_render hall, kept, live_append]
  congr 1
  rw [live, live, List.filter_filter]
  congr 1
  refine List.filter_congr fun stamp _ => ?_
  cases hc : counts (later / second) stamp with
  | false => rfl
  | true => rw [counts_of_le h hc]; rfl

end Paperclip.Device.StartBudget
