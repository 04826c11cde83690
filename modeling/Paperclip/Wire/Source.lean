import Mathlib.Tactic.Common

/-!
# Readers and writers

A `Source` is a reader, as the results that its reads are going to have: bytes that arrive
together, an interrupted call, a failure. After the last one every read finds the end. A read that
has less room than has arrived leaves the others to the next. A `Sink` is a writer with what its
writes are going to do.
-/

namespace Wire

variable {α : Type*}

/-- Something that arrives at a reader. -/
inductive Arrival (α : Type*) where
  | chunk (items : List α) (ne : items ≠ [])
  | interrupted
  | failed

/-- A reader. -/
abbrev Source (α : Type*) := List (Arrival α)

/-- What one read answers. No items at all are the end of the stream. -/
inductive Got (α : Type*) where
  | ok (items : List α)
  | interrupted
  | failed

namespace Arrival

/-- The items that an arrival brings. -/
def items : Arrival α → List α
  | chunk items _ => items
  | interrupted | failed => []

end Arrival

namespace Source

/-- One read into a buffer of `n` items. -/
def read (n : Nat) : Source α → Got α × Source α
  | [] => (.ok [], [])
  | .chunk items ne :: rest =>
    if h : items.length ≤ n then (.ok items, rest)
    else (.ok (items.take n), .chunk (items.drop n)
      (by rw [ne_eq, List.drop_eq_nil_iff]; exact h) :: rest)
  | .interrupted :: rest => (.interrupted, rest)
  | .failed :: rest => (.failed, rest)

/-- The items that a reader is going to deliver. -/
def items (s : Source α) : List α := s.flatMap Arrival.items

/-- No call on the reader fails. -/
def Intact (s : Source α) : Prop := ∀ a ∈ s, a ≠ .failed

/-- How many more reads find something, at most. -/
def size (s : Source α) : Nat := s.length + s.items.length

variable {s s' : Source α} {n : Nat} {got : List α}

@[simp] theorem items_nil : items ([] : Source α) = [] := rfl

@[simp] theorem items_cons (a : Arrival α) (s : Source α) :
    items (a :: s) = a.items ++ items s := rfl

theorem Intact.tail {a : Arrival α} (h : Intact (a :: s)) : Intact s :=
  fun a ha => h a (List.mem_cons_of_mem _ ha)

theorem Intact.ne_failed {a : Arrival α} (h : Intact (a :: s)) : a ≠ .failed :=
  h a List.mem_cons_self

/-- A read that finds something takes it from the front. -/
theorem read_ok (h : s.read n = (.ok got, s')) : s.items = got ++ s'.items ∧ got.length ≤ n := by
  unfold read at h
  split at h
  · rw [Prod.mk.injEq, Got.ok.injEq] at h
    obtain ⟨rfl, rfl⟩ := h
    exact ⟨rfl, Nat.zero_le _⟩
  · split at h <;> rw [Prod.mk.injEq, Got.ok.injEq] at h
    · obtain ⟨rfl, rfl⟩ := h
      exact ⟨rfl, ‹_›⟩
    · obtain ⟨rfl, rfl⟩ := h
      refine ⟨?_, List.length_take_le _ _⟩
      rw [items_cons, items_cons, ← List.append_assoc]
      exact congrArg (· ++ _) (List.take_append_drop _ _).symm
  · simp at h
  · simp at h

theorem read_interrupted (h : s.read n = (.interrupted, s')) : s = .interrupted :: s' := by
  unfold read at h
  split at h
  · simp at h
  · split at h <;> simp at h
  · rw [Prod.mk.injEq] at h
    rw [h.2]
  · simp at h

theorem read_failed (h : s.read n = (.failed, s')) : s = .failed :: s' := by
  unfold read at h
  split at h
  · simp at h
  · split at h <;> simp at h
  · simp at h
  · rw [Prod.mk.injEq] at h
    rw [h.2]

/-- A read with room that finds nothing is at the end. -/
theorem read_end (hn : 0 < n) (h : s.read n = (.ok [], s')) : s = [] ∧ s' = [] := by
  unfold read at h
  split at h
  · rw [Prod.mk.injEq] at h
    exact ⟨rfl, h.2.symm⟩
  · next ne _ =>
    split at h <;> rw [Prod.mk.injEq, Got.ok.injEq] at h
    · exact absurd h.1 ne
    · have := congrArg List.length h.1
      rw [List.length_take] at this
      have := List.length_pos_iff.mpr ne
      simp only [List.length_nil] at *
      omega
  · simp at h
  · simp at h

/-- Every read that finds something leaves less. -/
theorem size_read (hgot : got ≠ []) (h : s.read n = (.ok got, s')) :
    s'.size < s.size := by
  have hitems := congrArg List.length (read_ok h).1
  have hpos := List.length_pos_iff.mpr hgot
  rw [List.length_append] at hitems
  have hlen : s'.length ≤ s.length := by
    unfold read at h
    split at h
    · simp_all
    · split at h <;> rw [Prod.mk.injEq] at h <;> rw [← h.2] <;> simp
    · simp at h
    · simp at h
  rw [size, size]
  omega

theorem size_interrupted (h : s.read n = (.interrupted, s')) : s'.size < s.size := by
  rw [read_interrupted h, size, size, items_cons, List.length_cons]
  simp [Arrival.items]

theorem Intact.read {g : Got α} (hs : Intact s) (h : s.read n = (g, s')) :
    g ≠ .failed ∧ Intact s' := by
  unfold Source.read at h
  split at h
  · rw [Prod.mk.injEq] at h
    exact ⟨by rw [← h.1]; simp, by rw [← h.2]; exact hs⟩
  · split at h <;> rw [Prod.mk.injEq] at h
    · exact ⟨by rw [← h.1]; simp, by rw [← h.2]; exact hs.tail⟩
    · refine ⟨by rw [← h.1]; simp, ?_⟩
      rw [← h.2]
      intro a ha
      rcases List.mem_cons.mp ha with rfl | ha
      · simp
      · exact hs.tail a ha
  · rw [Prod.mk.injEq] at h
    exact ⟨by rw [← h.1]; simp, by rw [← h.2]; exact hs.tail⟩
  · exact absurd rfl hs.ne_failed

end Source

/-- What a writer does with a frame it is given. -/
inductive Outcome where
  | done
  /-- The write fails once some items are out. -/
  | cut (items : Nat)
  | unflushed

/-- A writer: what it has written, and what its next writes do. -/
structure Sink (α : Type*) where
  written : List α := []
  outcomes : List Outcome := []

namespace Sink

/-- Write all of `items` and flush. -/
def send (s : Sink α) (items : List α) : Bool × Sink α :=
  match s.outcomes with
  | [] | .done :: _ => (true, ⟨s.written ++ items, s.outcomes.tail⟩)
  | .cut n :: rest => (false, ⟨s.written ++ items.take n, rest⟩)
  | .unflushed :: rest => (false, ⟨s.written ++ items, rest⟩)

theorem send_true {s s' : Sink α} {items : List α} (h : s.send items = (true, s')) :
    s'.written = s.written ++ items := by
  unfold send at h
  split at h
  · rw [← (Prod.mk.inj h).2]
  · rw [← (Prod.mk.inj h).2]
  · simp at h
  · simp at h

end Sink

end Wire
