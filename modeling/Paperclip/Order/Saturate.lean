import Mathlib.Data.Finset.Card
import Mathlib.Logic.Relation

/-!
# Closing a set under edges

An edge is a pair of where it leads and where it comes from. A set is closed under a list of edges
by passes over the list, until one of them adds nothing.

* `follow`: one edge; `pass`: one pass; `close`: passes, at most so many.
* `pass_close`: one more pass than there are edges is enough.
* `mem_close`: what is found is what can be reached.
-/

namespace Saturate

variable {α : Type} [DecidableEq α]

/-- Adds where an edge leads, if it comes from what is found. -/
def follow (found : Finset α) (edge : α × α) : Finset α :=
  if edge.2 ∈ found then insert edge.1 found else found

/-- Follows each edge in turn. -/
def pass (edges : List (α × α)) (found : Finset α) : Finset α := edges.foldl follow found

/-- Passes until one adds nothing. -/
def close (edges : List (α × α)) : ℕ → Finset α → Finset α
  | 0, found => found
  | fuel + 1, found =>
    let next := pass edges found
    if next.card = found.card then next else close edges fuel next

variable {edges : List (α × α)} {found : Finset α} {x : α}

/-! ## One pass -/

theorem subset_follow (found : Finset α) (edge : α × α) : found ⊆ follow found edge := by
  unfold follow
  split
  · exact Finset.subset_insert _ _
  · exact Finset.Subset.refl _

theorem mem_follow {edge : α × α} (h : edge.2 ∈ found) : edge.1 ∈ follow found edge := by
  rw [follow, if_pos h]
  exact Finset.mem_insert_self _ _

theorem follow_induction {P : α → Prop} {edge : α × α} (hedge : P edge.2 → P edge.1)
    (hfound : ∀ x ∈ found, P x) : ∀ x ∈ follow found edge, P x := by
  unfold follow
  split
  · next h =>
    intro x hx
    rcases Finset.mem_insert.1 hx with rfl | hx
    · exact hedge (hfound _ h)
    · exact hfound x hx
  · exact hfound

theorem pass_cons (edge : α × α) (rest : List (α × α)) (found : Finset α) :
    pass (edge :: rest) found = pass rest (follow found edge) := rfl

theorem subset_pass (edges : List (α × α)) (found : Finset α) : found ⊆ pass edges found := by
  induction edges generalizing found with
  | nil => exact Finset.Subset.refl _
  | cons edge rest ih => exact (subset_follow found edge).trans (ih _)

/-- A pass follows each edge from what was found before it. -/
theorem mem_pass_of_edge {child parent : α} (he : (child, parent) ∈ edges) (h : parent ∈ found) :
    child ∈ pass edges found := by
  induction edges generalizing found with
  | nil => cases he
  | cons edge rest ih =>
    rw [pass_cons]
    rcases List.mem_cons.1 he with rfl | he
    · exact subset_pass rest _ (mem_follow h)
    · exact ih he (subset_follow found edge h)

/-- What edges keep, a pass keeps. -/
theorem pass_induction {P : α → Prop} (hedge : ∀ edge ∈ edges, P edge.2 → P edge.1)
    (hfound : ∀ x ∈ found, P x) : ∀ x ∈ pass edges found, P x := by
  induction edges generalizing found with
  | nil => exact hfound
  | cons edge rest ih =>
    exact ih (fun e he => hedge e (List.mem_cons_of_mem _ he))
      (follow_induction (hedge edge List.mem_cons_self) hfound)

/-- What a pass adds is where an edge leads. -/
theorem pass_subset (edges : List (α × α)) (found : Finset α) :
    pass edges found ⊆ found ∪ (edges.map Prod.fst).toFinset := fun x hx =>
  pass_induction (P := (· ∈ found ∪ (edges.map Prod.fst).toFinset))
    (fun _ he _ => Finset.mem_union_right _ (List.mem_toFinset.2 (List.mem_map_of_mem he)))
    (fun _ h => Finset.mem_union_left _ h) x hx

/-! ## All passes -/

theorem subset_close (fuel : ℕ) (found : Finset α) : found ⊆ close edges fuel found := by
  induction fuel generalizing found with
  | zero => exact Finset.Subset.refl _
  | succ fuel ih =>
    unfold close
    dsimp only
    split
    · exact subset_pass edges found
    · exact (subset_pass edges found).trans (ih _)

theorem close_induction {P : α → Prop} (hedge : ∀ edge ∈ edges, P edge.2 → P edge.1) (fuel : ℕ)
    (hfound : ∀ x ∈ found, P x) : ∀ x ∈ close edges fuel found, P x := by
  induction fuel generalizing found with
  | zero => exact hfound
  | succ fuel ih =>
    unfold close
    dsimp only
    split
    · exact pass_induction hedge hfound
    · exact ih (pass_induction hedge hfound)

/-- Each pass but the last one adds something that an edge leads to, so there are not many. -/
theorem pass_close {fuel : ℕ} (h : ((edges.map Prod.fst).toFinset \ found).card < fuel) :
    pass edges (close edges fuel found) = close edges fuel found := by
  induction fuel generalizing found with
  | zero => exact absurd h (Nat.not_lt_zero _)
  | succ fuel ih =>
    unfold close
    dsimp only
    have hsub := subset_pass edges found
    split
    · next hcard =>
      have heq : pass edges found = found := (Finset.eq_of_subset_of_card_le hsub hcard.le).symm
      rw [heq, heq]
    · next hcard =>
      refine ih ?_
      obtain ⟨x, hx, hnew⟩ : ∃ x ∈ pass edges found, x ∉ found := by
        by_contra hall
        refine hcard (congrArg Finset.card (Finset.Subset.antisymm (fun x hx => ?_) hsub))
        by_contra hx'
        exact hall ⟨x, hx, hx'⟩
      have htarget : x ∈ (edges.map Prod.fst).toFinset :=
        (Finset.mem_union.1 (pass_subset edges found hx)).resolve_left hnew
      have hlt : (edges.map Prod.fst).toFinset \ pass edges found ⊂
          (edges.map Prod.fst).toFinset \ found := by
        refine Finset.ssubset_iff_of_subset (Finset.sdiff_subset_sdiff (Finset.Subset.refl _) hsub)
          |>.2 ⟨x, Finset.mem_sdiff.2 ⟨htarget, hnew⟩, fun h => (Finset.mem_sdiff.1 h).2 hx⟩
      have := Finset.card_lt_card hlt
      omega

/-- What is found from `root` is what edges lead to from there. -/
theorem mem_close {root : α} : x ∈ close edges (edges.length + 1) {root} ↔
    Relation.ReflTransGen (fun parent child => (child, parent) ∈ edges) root x := by
  constructor
  · refine close_induction (P := Relation.ReflTransGen (fun parent child =>
      (child, parent) ∈ edges) root) (fun edge he hp => hp.tail he) _ ?_ x
    intro y hy
    rw [Finset.mem_singleton.1 hy]
  · have hfuel : ((edges.map Prod.fst).toFinset \ {root}).card < edges.length + 1 := by
      have := Finset.card_le_card (Finset.sdiff_subset (s := (edges.map Prod.fst).toFinset)
        (t := {root}))
      have hlength := List.toFinset_card_le (edges.map Prod.fst)
      rw [List.length_map] at hlength
      omega
    have hclosed := pass_close hfuel
    intro h
    induction h with
    | refl => exact subset_close _ _ (Finset.mem_singleton_self _)
    | tail _ he ih =>
      rw [← hclosed]
      exact mem_pass_of_edge he ih

end Saturate
