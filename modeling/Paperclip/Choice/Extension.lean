import Mathlib.Algebra.BigOperators.Group.List.Basic
import Mathlib.Data.Set.Card

/-!
# Extensions of a partial assignment

Values for places, where related places must have different values.

* `Proper`: a partial assignment with no conflict in it.
* `extensions`: the complete assignments without a conflict that agree with a partial one.
* `extensions_full`, `ncard_extensions`: there is one where nothing is open, and otherwise as many as
  for all the values of an open place together. `extensions_blocked`: none for a value that a
  related place has.
-/

namespace Extension

open Function

variable {I V : Type} {related : I → I → Prop} {g : I → Option V} {a b : I} {v : V}

/-- No two related places have the same value. -/
def Proper (related : I → I → Prop) (g : I → Option V) : Prop :=
  ∀ a b v, related a b → g a = some v → g b ≠ some v

/-- The complete assignments without a conflict that agree with `g`. -/
def extensions (related : I → I → Prop) (g : I → Option V) : Set (I → V) :=
  {f | (∀ a b, related a b → f a ≠ f b) ∧ ∀ a v, g a = some v → f a = v}

theorem Proper.empty : Proper related fun _ => (none : Option V) :=
  fun _ _ _ _ h => by cases h

/-- Where nothing is open there is one extension. -/
theorem extensions_full {f : I → V} (hf : ∀ a, g a = some (f a)) (hp : Proper related g) :
    extensions related g = {f} := by
  ext f'
  constructor
  · rintro ⟨-, h⟩
    exact funext fun a => h a _ (hf a)
  · rintro rfl
    refine ⟨fun a b hab heq => hp a b _ hab (hf a) ?_, fun a v ha => ?_⟩
    · rw [hf b, heq]
    · exact Option.some.inj ((hf a).symm.trans ha)

variable [DecidableEq I]

/-- A value that no related place has keeps an assignment proper. -/
theorem Proper.update (hp : Proper related g) (hsymm : ∀ a b, related a b → related b a)
    (hirrefl : ∀ a, ¬ related a a) (hfree : ∀ b, related a b → g b ≠ some v) :
    Proper related (update g a (some v)) := by
  intro x y w hxy hx
  by_cases hxa : x = a
  · subst hxa
    rw [update_self] at hx
    cases hx
    have hyx : y ≠ x := fun h => hirrefl x (h ▸ hxy)
    rw [update_of_ne hyx]
    exact hfree y hxy
  · rw [update_of_ne hxa] at hx
    by_cases hya : y = a
    · subst hya
      rw [update_self]
      intro hv
      cases hv
      exact hfree x (hsymm x y hxy) hx
    · rw [update_of_ne hya]
      exact hp x y w hxy hx

theorem mem_extensions_update {f : I → V} (ha : g a = none) :
    f ∈ extensions related (update g a (some v)) ↔ f ∈ extensions related g ∧ f a = v := by
  refine ⟨fun ⟨hf, hg⟩ => ⟨⟨hf, fun x w hx => ?_⟩, hg a v (update_self ..)⟩,
    fun ⟨⟨hf, hg⟩, hv⟩ => ⟨hf, fun x w hx => ?_⟩⟩
  · refine hg x w ?_
    rwa [update_of_ne]
    rintro rfl
    rw [ha] at hx
    cases hx
  · by_cases hxa : x = a
    · subst hxa
      rw [update_self] at hx
      exact hv.trans (Option.some.inj hx)
    · rw [update_of_ne hxa] at hx
      exact hg x w hx

/-- A value that a related place has leads nowhere. -/
theorem extensions_blocked (ha : g a = none) (hab : related a b) (hb : g b = some v) :
    extensions related (update g a (some v)) = ∅ := by
  refine Set.eq_empty_of_forall_notMem fun f hf => ?_
  obtain ⟨⟨hf, hg⟩, hv⟩ := (mem_extensions_update ha).1 hf
  exact hf a b hab (hv.trans (hg b v hb).symm)

/-- There are as many extensions as for all the values of an open place together. -/
theorem ncard_extensions [Finite I] [Finite V] (ha : g a = none) {values : List V}
    (hall : ∀ v, v ∈ values) (hnodup : values.Nodup) :
    (extensions related g).ncard =
      (values.map fun v => (extensions related (update g a (some v))).ncard).sum := by
  have hpart (l : List V) (hl : l.Nodup) :
      {f | f ∈ extensions related g ∧ f a ∈ l}.ncard =
        (l.map fun v => (extensions related (update g a (some v))).ncard).sum := by
    induction l with
    | nil => simp
    | cons v l ih =>
      have hsplit : {f | f ∈ extensions related g ∧ f a ∈ v :: l} =
          extensions related (update g a (some v)) ∪
            {f | f ∈ extensions related g ∧ f a ∈ l} := by
        ext f
        simp only [Set.mem_union, Set.mem_ofPred_eq, mem_extensions_update ha, List.mem_cons]
        exact and_or_left
      have hdisjoint : Disjoint (extensions related (update g a (some v)))
          {f | f ∈ extensions related g ∧ f a ∈ l} := by
        refine Set.disjoint_left.2 fun f hf hl' => (List.nodup_cons.1 hl).1 ?_
        rw [← ((mem_extensions_update ha).1 hf).2]
        exact hl'.2
      rw [hsplit, Set.ncard_union_eq hdisjoint, ih (List.nodup_cons.1 hl).2, List.map_cons,
        List.sum_cons]
  rw [← hpart values hnodup]
  congr 1
  ext f
  simp [hall]

end Extension
