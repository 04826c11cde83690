import Mathlib.Order.Basic

/-!
# Ratchets

A log of items, each with a key and a rank. `Follows key rank a b`: under the key of `a`, the item
`b` is not behind it, and of the same rank it is the same item. A log is a ratchet if every item
follows those before it; to extend it one needs to know only the last item of each key, since
following is transitive under one key.
-/

namespace Ratchet

variable {α κ κ' ι : Type*} [PartialOrder ι] {key : α → κ} {key' : α → κ'} {rank : α → ι} {a b c : α} {log : List α}

/-- Under the key of `a`, `b` is not behind `a`. -/
def Follows (key : α → κ) (rank : α → ι) (a b : α) : Prop :=
  key a = key b → rank a ≤ rank b ∧ (rank a = rank b → a = b)

theorem Follows.refl (a : α) : Follows key rank a a := fun _ => ⟨le_refl _, fun _ => rfl⟩

theorem Follows.trans (hab : Follows key rank a b) (hbc : Follows key rank b c)
    (hk : key b = key c) : Follows key rank a c := by
  intro hac
  obtain ⟨h₁, e₁⟩ := hab (hac.trans hk.symm)
  obtain ⟨h₂, e₂⟩ := hbc hk
  refine ⟨h₁.trans h₂, fun h => ?_⟩
  have hb : rank a = rank b := le_antisymm h₁ (h ▸ h₂)
  exact (e₁ hb).trans (e₂ (hb.symm.trans h))

/-- Items of different keys are not compared. -/
theorem Follows.of_ne (h : key a ≠ key b) : Follows key rank a b := fun he => absurd he h

/-- A finer key compares fewer items. -/
theorem Follows.refine (h : Follows key rank a b) (hk : key' a = key' b → key a = key b) :
    Follows key' rank a b := fun he => h (hk he)

/-- A ratchet goes on with an item that follows all the others. -/
theorem pairwise_concat {R : α → α → Prop} (hl : log.Pairwise R) (hb : ∀ a ∈ log, R a b) :
    (log ++ [b]).Pairwise R :=
  List.pairwise_append.mpr ⟨hl, List.pairwise_singleton _ _, fun a ha _ hx =>
    List.mem_singleton.mp hx ▸ hb a ha⟩

end Ratchet
