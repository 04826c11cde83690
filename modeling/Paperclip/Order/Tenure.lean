import Mathlib.Data.List.Induction

/-!
# Tenures

A log in which some entries open something and others close it. `Open opens closes log`: an entry
opened it and none closed it since. `Exclusive opens closes takes log`: no entry of the log that
takes found it open.
-/

namespace Tenure

variable {α : Type*} {opens closes takes : α → Prop} {log new : List α} {a : α}

/-- Opened, and not closed since. -/
def Open (opens closes : α → Prop) (log : List α) : Prop :=
  ∃ before a after, log = before ++ a :: after ∧ opens a ∧ ∀ b ∈ after, ¬ closes b

/-- Nothing takes what is open. -/
def Exclusive (opens closes takes : α → Prop) (log : List α) : Prop :=
  ∀ before a after, log = before ++ a :: after → takes a → ¬ Open opens closes before

theorem Open.opener (h : Open opens closes log) : ∃ a ∈ log, opens a := by
  obtain ⟨before, a, after, rfl, ha, -⟩ := h
  exact ⟨a, by simp, ha⟩

theorem not_open_nil : ¬ Open opens closes [] := by
  intro h
  obtain ⟨a, ha, -⟩ := h.opener
  cases ha

/-- The new entries open it, or leave it open. -/
theorem open_append : Open opens closes (log ++ new) ↔
    Open opens closes new ∨ Open opens closes log ∧ ∀ a ∈ new, ¬ closes a := by
  constructor
  · rintro ⟨before, a, after, h, ha, hafter⟩
    rcases List.append_eq_append_iff.mp h with ⟨mid, rfl, rfl⟩ | ⟨mid, rfl, hmid⟩
    · exact .inl ⟨mid, a, after, rfl, ha, hafter⟩
    · cases mid with
      | nil => exact .inl ⟨[], a, after, hmid.symm, ha, hafter⟩
      | cons b mid =>
        obtain ⟨rfl, rfl⟩ := List.cons.inj hmid
        refine .inr ⟨⟨before, a, mid, rfl, ha, fun b hb => ?_⟩, fun b hb => ?_⟩
        · exact hafter b (List.mem_append_left _ hb)
        · exact hafter b (List.mem_append_right _ hb)
  · rintro (⟨before, a, after, rfl, ha, hafter⟩ | ⟨⟨before, a, after, rfl, ha, hafter⟩, hnew⟩)
    · exact ⟨log ++ before, a, after, by simp, ha, hafter⟩
    · refine ⟨before, a, after ++ new, by simp, ha, fun b hb => ?_⟩
      rcases List.mem_append.mp hb with hb | hb
      · exact hafter b hb
      · exact hnew b hb

theorem open_append_quiet (hq : ∀ a ∈ new, ¬ opens a) :
    Open opens closes (log ++ new) ↔ Open opens closes log ∧ ∀ a ∈ new, ¬ closes a := by
  rw [open_append, or_iff_right]
  intro h
  obtain ⟨a, ha, hopens⟩ := h.opener
  exact hq a ha hopens

theorem open_concat : Open opens closes (log ++ [a]) ↔
    opens a ∨ Open opens closes log ∧ ¬ closes a := by
  rw [open_append, List.forall_mem_singleton]
  refine or_congr_left ⟨fun h => ?_, fun h => ⟨[], a, [], rfl, h, by simp⟩⟩
  obtain ⟨b, hb, hopens⟩ := h.opener
  exact List.mem_singleton.mp hb ▸ hopens

theorem exclusive_nil : Exclusive opens closes takes [] := by
  intro before a after h
  simp at h

theorem exclusive_concat : Exclusive opens closes takes (log ++ [a]) ↔
    Exclusive opens closes takes log ∧ (takes a → ¬ Open opens closes log) := by
  constructor
  · intro h
    refine ⟨fun before b after hlog => ?_, h log a [] rfl⟩
    exact h before b (after ++ [a]) (by simp [hlog])
  · rintro ⟨hlog, ha⟩ before b after h
    rcases List.eq_nil_or_concat after with rfl | ⟨after, c, rfl⟩
    · obtain ⟨rfl, hb⟩ := List.append_inj' h rfl
      obtain rfl := List.cons.inj hb |>.1
      exact ha
    · rw [List.concat_eq_append, ← List.cons_append, ← List.append_assoc] at h
      exact hlog before b after (List.append_inj' h rfl).1

/-- Entries that take nothing change nothing. -/
theorem exclusive_append_quiet (hq : ∀ a ∈ new, ¬ takes a) :
    Exclusive opens closes takes (log ++ new) ↔ Exclusive opens closes takes log := by
  induction new using List.reverseRecOn with
  | nil => rw [List.append_nil]
  | append_singleton new a ih =>
    rw [← List.append_assoc, exclusive_concat, ih fun b hb => hq b (by simp [hb])]
    exact and_iff_left fun ha => absurd ha (hq a (by simp))

/-- A log that is exclusive has been so all along. -/
theorem Exclusive.of_append (h : Exclusive opens closes takes (log ++ new)) :
    Exclusive opens closes takes log := by
  intro before a after hlog
  exact h before a (after ++ new) (by simp [hlog])

end Tenure
