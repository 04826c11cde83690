import Paperclip.Sdk.Damage

/-!
# Frames and claims

What it is that a claim is right about the next frame, for any screen with parts that are drawn from
its state.

* `Damage.Has`: a rectangle is claimed.
* `Covers`: a claim has every part of a screen that two states draw differently.
* `Covers.claim`, `Covers.takeFrame`: a claim that is accumulated with that of a further change
  covers both, and so does what is answered for the frame.
* `Covers.trans`: one claim for two changes.
-/

namespace Paperclip.Sdk

/-- The rectangle is claimed. -/
def Damage.Has {K : Type} (damage : Damage K) (rect : Rect K) : Prop :=
  match damage with
  | .full => True
  | .regions rects => rect ∈ rects

section

variable {K S ι C : Type} (rect : ι → Rect K) (look : S → ι → C)

/-- Every part that the two states draw differently is claimed. -/
def Covers (s s' : S) (damage : Damage K) : Prop :=
  ∀ i, look s i ≠ look s' i → damage.Has (rect i)

variable {rect look} {s s' s'' : S} {damage : Damage K} {acc : DamageAccumulator K}

theorem Damage.has_full (r : Rect K) : Damage.full.Has r := trivial

theorem Covers.full : Covers rect look s s' .full := fun _ _ => trivial

/-- A claim covers a change that changes nothing. -/
theorem Covers.of_eq (h : ∀ i, look s i = look s' i) : Covers rect look s s' damage :=
  fun i hi => absurd (h i) hi

theorem Covers.refl : Covers rect look s s damage := .of_eq fun _ => rfl

/-- One claim that covers two changes covers both together. -/
theorem Covers.trans (h : Covers rect look s s' damage) (h' : Covers rect look s' s'' damage) :
    Covers rect look s s'' damage := by
  intro i hi
  by_cases hs : look s i = look s' i
  · exact h' i (hs ▸ hi)
  · exact h i hs

/-- A claim that is wider covers as much. -/
theorem Covers.mono {wider : Damage K} (h : Covers rect look s s' damage)
    (hw : ∀ r, damage.Has r → wider.Has r) : Covers rect look s s' wider :=
  fun i hi => hw _ (h i hi)

/-- What was pending stays claimed. -/
theorem DamageAccumulator.claim_of_pending {r : Rect K} (h : acc.pending.Has r)
    (added : Damage K) : (acc.claim added).pending.Has r := by
  obtain ⟨pending⟩ := acc
  cases added with
  | full => exact trivial
  | regions added =>
    cases pending with
    | full => exact trivial
    | regions pending =>
      unfold claim
      dsimp only
      split
      · exact trivial
      · exact List.mem_append_left _ h

/-- What is added is claimed. -/
theorem DamageAccumulator.claim_of_added {r : Rect K} {added : Damage K} (h : added.Has r)
    (acc : DamageAccumulator K) : (acc.claim added).pending.Has r := by
  obtain ⟨pending⟩ := acc
  cases added with
  | full => exact trivial
  | regions added =>
    cases pending with
    | full => exact trivial
    | regions pending =>
      unfold claim
      dsimp only
      split
      · exact trivial
      · exact List.mem_append_right _ h

/-- What was pending is in the answer for the frame. -/
theorem DamageAccumulator.takeFrame_of_pending {r : Rect K} (h : acc.pending.Has r) :
    acc.takeFrame.1.Has r := by
  obtain ⟨pending⟩ := acc
  unfold takeFrame
  dsimp only
  split
  · exact trivial
  · exact h

/-- Claims that are accumulated cover what each of them does. -/
theorem Covers.claim {added : Damage K} (h : Covers rect look s s' acc.pending)
    (h' : Covers rect look s' s'' added) : Covers rect look s s'' (acc.claim added).pending :=
  (h.mono fun _ hr => DamageAccumulator.claim_of_pending hr added).trans
    (h'.mono fun _ hr => DamageAccumulator.claim_of_added hr acc)

/-- The answer for a frame covers what has been claimed. -/
theorem Covers.takeFrame (h : Covers rect look s s' acc.pending) :
    Covers rect look s s' acc.takeFrame.1 :=
  h.mono fun _ hr => DamageAccumulator.takeFrame_of_pending hr

end

end Paperclip.Sdk
