import Mathlib.Algebra.Order.Ring.Defs
import Paperclip.Protocol.Message

/-!
# Damage claims

What an app claims to have changed since its last frame. Coordinates are of any ordered ring.

* `Rect`, `Damage`: a rectangle of the canvas, and a claim.
* `DamageAccumulator`: the claims since the last frame, as one. `claim`, `takeFrame`: adding to it,
  and what is answered for a frame.
* `frames`: the answers of a run of calls, each beside the claims that it is for.
* `frames_answered`: an answer is everything, or has every rectangle that was claimed.
-/

namespace Paperclip.Sdk

open Protocol

/-- An axis-aligned rectangle in canvas space. -/
structure Rect (K : Type) where
  x : K
  y : K
  width : K
  height : K
  deriving DecidableEq

/-- Which part of the surface an app changed. -/
inductive Damage (K : Type) where
  | full
  | regions (rects : List (Rect K))
  deriving DecidableEq

variable {K : Type}

/-- The rectangles claimed. -/
def Damage.regions? : Damage K → Option (List (Rect K))
  | .full => none
  | .regions rects => some rects

/-- Whether a point is inside: the top left edges are, and the bottom right ones are not. -/
def Rect.contains [Add K] [LE K] [LT K] [DecidableLE K] [DecidableLT K] (rect : Rect K)
    (px py : K) : Bool :=
  rect.x ≤ px ∧ px < rect.x + rect.width ∧ rect.y ≤ py ∧ py < rect.y + rect.height

/-- What has been claimed since the last frame. -/
structure DamageAccumulator (K : Type) where
  pending : Damage K
  deriving DecidableEq

namespace DamageAccumulator

/-- Everything, as for a first frame. -/
def new : DamageAccumulator K := ⟨.full⟩

/-- Adds a claim. `full` absorbs, and so do more rectangles than are allowed. -/
def claim (acc : DamageAccumulator K) (damage : Damage K) : DamageAccumulator K :=
  match damage with
  | .full => ⟨.full⟩
  | .regions added =>
    match acc.pending with
    | .full => acc
    | .regions pending =>
      let pending := pending ++ added
      if MAX_DAMAGE_RECTS < pending.length then ⟨.full⟩ else ⟨.regions pending⟩

/-- What is answered for a frame, and the empty claim for the next one. Nothing claimed is answered
with everything. -/
def takeFrame (acc : DamageAccumulator K) : Damage K × DamageAccumulator K :=
  (match acc.pending with
    | .regions [] => .full
    | claimed => claimed, ⟨.regions []⟩)

end DamageAccumulator

/-- A call. -/
inductive DamageCall (K : Type) where
  | claim (damage : Damage K)
  | takeFrame
  deriving DecidableEq

/-- The answers of a run, each beside the claims since the one before. -/
def frames : List (DamageCall K) → (acc : DamageAccumulator K) → (since : List (Damage K)) →
    List (List (Damage K) × Damage K)
  | [], _, _ => []
  | .claim damage :: rest, acc, since => frames rest (acc.claim damage) (since ++ [damage])
  | .takeFrame :: rest, acc, since =>
    (since, acc.takeFrame.1) :: frames rest acc.takeFrame.2 []

/-- A claim that has every one of `claims` in it. -/
def Damage.Covers (claims : List (Damage K)) : Damage K → Prop
  | .full => True
  | .regions rects => .full ∉ claims ∧ ∀ added, Damage.regions added ∈ claims → added ⊆ rects

/-- What is pending has every claim since the last frame, and is not too long. -/
def DamageAccumulator.Holds (acc : DamageAccumulator K) (since : List (Damage K)) : Prop :=
  acc.pending.Covers since ∧
    ∀ regions, acc.pending = .regions regions → regions.length ≤ MAX_DAMAGE_RECTS

/-- An answer to claims: everything, or some rectangles and not too many, with all of those claimed. -/
def Damage.Answers (claims : List (Damage K)) (answer : Damage K) : Prop :=
  answer.Covers claims ∧
    ∀ regions, answer = .regions regions → regions ≠ [] ∧ regions.length ≤ MAX_DAMAGE_RECTS

section

variable {acc : DamageAccumulator K} {since : List (Damage K)}

theorem DamageAccumulator.Holds.claim (h : acc.Holds since) (damage : Damage K) :
    (acc.claim damage).Holds (since ++ [damage]) := by
  obtain ⟨hcovers, -⟩ := h
  obtain ⟨pending⟩ := acc
  unfold DamageAccumulator.claim
  cases damage with
  | full => exact ⟨trivial, fun _ heq => by cases heq⟩
  | regions added =>
    cases pending with
    | full => exact ⟨trivial, fun _ heq => by cases heq⟩
    | regions pending =>
      dsimp only
      split
      · exact ⟨trivial, fun _ heq => by cases heq⟩
      · next hlen =>
        refine ⟨⟨?_, ?_⟩, fun _ heq => by cases heq; exact Nat.le_of_not_lt hlen⟩
        · rw [List.mem_append, List.mem_singleton]
          rintro (hfull | hfull)
          · exact hcovers.1 hfull
          · cases hfull
        · intro added' hadded
          rw [List.mem_append, List.mem_singleton] at hadded
          rcases hadded with hadded | hadded
          · exact List.subset_append_of_subset_left _ (hcovers.2 _ hadded)
          · cases hadded
            exact List.subset_append_right ..

theorem DamageAccumulator.Holds.takeFrame (h : acc.Holds since) :
    acc.takeFrame.1.Answers since ∧ acc.takeFrame.2.Holds [] := by
  obtain ⟨hcovers, hlen⟩ := h
  obtain ⟨pending⟩ := acc
  constructor
  · unfold DamageAccumulator.takeFrame
    dsimp only at hcovers hlen ⊢
    split
    · exact ⟨trivial, fun _ heq => by cases heq⟩
    · next hne =>
      refine ⟨hcovers, fun regions heq => ⟨?_, hlen regions heq⟩⟩
      rintro rfl
      exact hne heq
  · refine ⟨⟨List.not_mem_nil, fun _ hadded => by cases hadded⟩, fun regions heq => ?_⟩
    cases heq
    exact Nat.zero_le _

/-- Every answer of a run is one to the claims since the answer before it. -/
theorem frames_answered (calls : List (DamageCall K)) (h : acc.Holds since) :
    ∀ frame ∈ frames calls acc since, frame.2.Answers frame.1 := by
  induction calls generalizing acc since with
  | nil => exact fun _ hframe => by cases hframe
  | cons call rest ih =>
    cases call with
    | claim damage => exact ih (h.claim damage)
    | takeFrame =>
      obtain ⟨hanswers, hholds⟩ := h.takeFrame
      exact List.forall_mem_cons.2 ⟨hanswers, ih hholds⟩

theorem DamageAccumulator.holds_new : (new : DamageAccumulator K).Holds [] :=
  ⟨trivial, fun _ heq => by cases heq⟩

end

end Paperclip.Sdk
