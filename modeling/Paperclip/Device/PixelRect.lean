import Mathlib.Algebra.Order.Floor.Ring
import Mathlib.Data.Rat.Floor
import Paperclip.Sdk.Damage

/-!
# Panel rectangles

The rectangle of whole pixels that a frame's damage asks to have swapped.

* `PixelRect`: a rectangle of pixels. `Has`: the pixels in it. `union_subset_iff`: a union is in
  every rectangle that both of its parts are in.
* `PixelRect.enclosing`, `PixelRect.covering`: the pixels for a rectangle and for a claim.
* `Touches`: a rectangle and a pixel have a point in common. `has_enclosing`: the pixels of the panel
  that a rectangle touches are those of `enclosing`.
* `damage_reaches_panel`: what is claimed is answered for, and what is answered is swapped.
-/

namespace Paperclip.Device

open Protocol Sdk

/-- An integer rectangle in panel pixels. -/
structure PixelRect where
  x : ℕ
  y : ℕ
  width : ℕ
  height : ℕ
  deriving DecidableEq, Repr

namespace PixelRect

/-- The whole of a surface of `size`. -/
def whole (size : Size) : PixelRect := ⟨0, 0, size.width.toNat, size.height.toNat⟩

/-- Whether this rectangle covers no pixels. -/
def isEmpty (rect : PixelRect) : Bool := rect.width = 0 ∨ rect.height = 0

/-- What a conversion to 32 bits gives, which does not leave them. -/
def toU32 (value : ℤ) : ℕ := min value.toNat (2 ^ 32 - 1)

/-- The smallest rectangle containing both. -/
def union (a b : PixelRect) : PixelRect :=
  if a.isEmpty then b
  else if b.isEmpty then a
  else
    let left := min a.x b.x
    let top := min a.y b.y
    let right := max (a.x + a.width) (b.x + b.width)
    let bottom := max (a.y + a.height) (b.y + b.height)
    ⟨left, top, right - left, bottom - top⟩

section

variable {K : Type} [Ring K] [LinearOrder K] [FloorRing K]

/-- The smallest pixel rectangle containing `rect`, clamped to `bounds`. -/
def enclosing (rect : Rect K) (bounds : Size) : PixelRect :=
  if (bounds.width = 0 ∨ bounds.height = 0) ∨ rect.width ≤ 0 ∨ rect.height ≤ 0 then ⟨0, 0, 0, 0⟩
  else
    let left := toU32 (max ⌊rect.x⌋ 0)
    let top := toU32 (max ⌊rect.y⌋ 0)
    let right := toU32 (max ⌈rect.x + rect.width⌉ 0)
    let bottom := toU32 (max ⌈rect.y + rect.height⌉ 0)
    let left := min left bounds.width.toNat
    let top := min top bounds.height.toNat
    let right := min right bounds.width.toNat
    let bottom := min bottom bounds.height.toNat
    ⟨left, top, right - left, bottom - top⟩

/-- The rectangle that a claim asks to have swapped. -/
def covering (damage : Damage K) (panel : Size) : PixelRect :=
  match damage.regions? with
  | none => whole panel
  | some regions =>
    regions.foldl (fun swept region => swept.union (enclosing region panel)) ⟨0, 0, 0, 0⟩

end

/-! ## Pixels -/

/-- A pixel of the rectangle. -/
def Has (rect : PixelRect) (i j : ℕ) : Prop :=
  (rect.x ≤ i ∧ i < rect.x + rect.width) ∧ rect.y ≤ j ∧ j < rect.y + rect.height

/-- Every pixel of the one is one of the other. -/
instance : HasSubset PixelRect := ⟨fun a b => ∀ i j, a.Has i j → b.Has i j⟩

section

variable {a b q : PixelRect} {size : Size}

theorem isEmpty_iff : a.isEmpty = true ↔ ∀ i j, ¬ a.Has i j := by
  rw [isEmpty, decide_eq_true_eq]
  constructor
  · rintro hempty i j ⟨hi, hj⟩
    omega
  · intro hnone
    by_contra hne
    exact hnone a.x a.y ⟨⟨Nat.le_refl _, by omega⟩, Nat.le_refl _, by omega⟩

/-- A rectangle with pixels is in another just if its edges are. -/
theorem subset_iff (h : ¬ a.isEmpty = true) : a ⊆ q ↔
    (q.x ≤ a.x ∧ a.x + a.width ≤ q.x + q.width) ∧ q.y ≤ a.y ∧ a.y + a.height ≤ q.y + q.height := by
  rw [isEmpty, decide_eq_true_eq, not_or] at h
  obtain ⟨hwidth, hheight⟩ := h
  constructor
  · intro hsub
    have htop : q.Has a.x a.y := hsub _ _ ⟨⟨Nat.le_refl _, by omega⟩, Nat.le_refl _, by omega⟩
    have hbottom : q.Has (a.x + a.width - 1) (a.y + a.height - 1) :=
      hsub _ _ ⟨⟨by omega, by omega⟩, by omega, by omega⟩
    unfold Has at htop hbottom
    omega
  · rintro hedges i j ⟨hi, hj⟩
    exact ⟨by omega, by omega⟩

theorem empty_subset (h : a.isEmpty = true) : a ⊆ q := fun i j hhas =>
  absurd hhas (isEmpty_iff.1 h i j)

/-- A union is in every rectangle that both parts are in, and in no other. -/
theorem union_subset_iff : a.union b ⊆ q ↔ a ⊆ q ∧ b ⊆ q := by
  unfold union
  split
  · next ha => exact ⟨fun h => ⟨empty_subset ha, h⟩, fun h => h.2⟩
  next ha =>
  split
  · next hb => exact ⟨fun h => ⟨h, empty_subset hb⟩, fun h => h.1⟩
  next hb =>
  rw [subset_iff ha, subset_iff hb, subset_iff]
  · dsimp only
    omega
  · rw [isEmpty, decide_eq_true_eq] at ha hb ⊢
    dsimp only
    omega

/-- A rectangle of the panel. -/
def Inside (a : PixelRect) (size : Size) : Prop :=
  a.x + a.width ≤ size.width.toNat ∧ a.y + a.height ≤ size.height.toNat

theorem Inside.union (ha : a.Inside size) (hb : b.Inside size) : (a.union b).Inside size := by
  unfold PixelRect.union
  split
  · exact hb
  split
  · exact ha
  · unfold Inside at ha hb ⊢
    dsimp only
    omega

end

/-! ## Rectangles of the canvas -/

section

variable {K : Type} [Ring K] [LinearOrder K]

/-- A rectangle and the square of a pixel have a point in common. -/
def Touches (rect : Rect K) (i j : ℕ) : Prop :=
  ∃ px py, rect.contains px py = true ∧ ((i : K) ≤ px ∧ px < i + 1) ∧ (j : K) ≤ py ∧ py < j + 1

/-- A rectangle and the panel have a point in common. -/
def Meets (rect : Rect K) (panel : Size) : Prop :=
  ∃ px py, rect.contains px py = true ∧ (0 ≤ px ∧ px < panel.width.toNat) ∧
    0 ≤ py ∧ py < panel.height.toNat

/-- Two intervals have a point in common. -/
theorem exists_between_iff {α : Type} [LinearOrder α] {a b c d : α} :
    (∃ p, (a ≤ p ∧ p < b) ∧ c ≤ p ∧ p < d) ↔ max a c < min b d := by
  constructor
  · rintro ⟨p, ⟨ha, hb⟩, hc, hd⟩
    exact (max_le ha hc).trans_lt (lt_min hb hd)
  · intro h
    exact ⟨max a c, ⟨le_max_left .., h.trans_le (min_le_left ..)⟩, le_max_right ..,
      h.trans_le (min_le_right ..)⟩

theorem contains_iff {rect : Rect K} {px py : K} : rect.contains px py = true ↔
    (rect.x ≤ px ∧ px < rect.x + rect.width) ∧ rect.y ≤ py ∧ py < rect.y + rect.height := by
  simp [Rect.contains, and_assoc]

theorem touches_iff {rect : Rect K} {i j : ℕ} : Touches rect i j ↔
    max rect.x i < min (rect.x + rect.width) (i + 1) ∧
      max rect.y j < min (rect.y + rect.height) (j + 1) := by
  rw [← exists_between_iff, ← exists_between_iff]
  constructor
  · rintro ⟨px, py, hcontains, hi, hj⟩
    obtain ⟨hx, hy⟩ := contains_iff.1 hcontains
    exact ⟨⟨px, hx, hi⟩, py, hy, hj⟩
  · rintro ⟨⟨px, hx, hi⟩, py, hy, hj⟩
    exact ⟨px, py, contains_iff.2 ⟨hx, hy⟩, hi, hj⟩

variable [FloorRing K]

theorem inside_enclosing {rect : Rect K} {panel : Size} : (enclosing rect panel).Inside panel := by
  unfold enclosing
  split
  · exact ⟨Nat.zero_le _, Nat.zero_le _⟩
  · unfold Inside
    dsimp only
    omega

/-- A fold of unions is in just the rectangles that every part of it is in. -/
theorem foldl_union_subset_iff {q : PixelRect} {panel : Size} (regions : List (Rect K))
    (swept : PixelRect) :
    regions.foldl (fun swept region => swept.union (enclosing region panel)) swept ⊆ q ↔
      swept ⊆ q ∧ ∀ region ∈ regions, enclosing region panel ⊆ q := by
  induction regions generalizing swept with
  | nil => exact ⟨fun h => ⟨h, fun _ hregion => by cases hregion⟩, fun h => h.1⟩
  | cons region rest ih =>
    rw [List.foldl_cons, ih, union_subset_iff, List.forall_mem_cons, and_assoc]

theorem foldl_union_inside {panel : Size} (regions : List (Rect K)) (swept : PixelRect)
    (h : swept.Inside panel) :
    (regions.foldl (fun swept region => swept.union (enclosing region panel)) swept).Inside
      panel := by
  induction regions generalizing swept with
  | nil => exact h
  | cons region rest ih => exact ih _ (h.union inside_enclosing)

theorem inside_covering (damage : Damage K) (panel : Size) :
    (covering damage panel).Inside panel := by
  cases damage with
  | full => exact ⟨(Nat.zero_add _).le, (Nat.zero_add _).le⟩
  | regions regions => exact foldl_union_inside regions _ ⟨Nat.zero_le _, Nat.zero_le _⟩

end

section

variable {K : Type} [Ring K] [LinearOrder K] [IsStrictOrderedRing K] [FloorRing K]
variable {rect : Rect K} {panel : Size} {i j : ℕ}

/-- One edge of `enclosing`: the pixels of the panel between the rounded ends. -/
theorem between_iff {x width : K} {bound : ℕ} (hwidth : 0 < width) (hbound : bound < 2 ^ 32) :
    (min (toU32 (max ⌊x⌋ 0)) bound ≤ i ∧ i < min (toU32 (max ⌊x⌋ 0)) bound +
      (min (toU32 (max ⌈x + width⌉ 0)) bound - min (toU32 (max ⌊x⌋ 0)) bound)) ↔
    i < bound ∧ max x i < min (x + width) (i + 1) := by
  have hleft : ⌊x⌋ ≤ (i : ℤ) ↔ x < i + 1 := by
    rw [Int.floor_le_iff, Int.cast_natCast]
  have hright : (i : ℤ) < ⌈x + width⌉ ↔ (i : K) < x + width := by
    rw [Int.lt_ceil, Int.cast_natCast]
  have hover : max x i < min (x + width) (i + 1) ↔ (i : K) < x + width ∧ x < i + 1 := by
    rw [max_lt_iff, lt_min_iff, lt_min_iff]
    exact ⟨fun h => ⟨h.2.1, h.1.2⟩,
      fun h => ⟨⟨lt_add_of_pos_right x hwidth, h.2⟩, h.1, lt_add_one _⟩⟩
  rw [hover, ← hleft, ← hright]
  unfold toU32
  omega

/-- The pixels of `enclosing` are those of the panel that the rectangle touches. -/
theorem has_enclosing : (enclosing rect panel).Has i j ↔
    (i < panel.width.toNat ∧ j < panel.height.toNat) ∧ Touches rect i j := by
  rw [touches_iff]
  unfold enclosing
  split
  · next hempty =>
    refine iff_of_false (fun h => ?_) ?_
    · exact Nat.not_lt_zero _ (Nat.zero_add 0 ▸ h.1.2)
    rintro ⟨⟨hi, hj⟩, hx, hy⟩
    have hwidth : 0 < rect.width := by
      have := (le_max_left ..).trans_lt (hx.trans_le (min_le_left ..))
      exact pos_of_lt_add_right this
    have hheight : 0 < rect.height := by
      have := (le_max_left ..).trans_lt (hy.trans_le (min_le_left ..))
      exact pos_of_lt_add_right this
    rcases hempty with (h | h) | h | h
    · rw [h] at hi
      exact absurd hi (Nat.not_lt_zero _)
    · rw [h] at hj
      exact absurd hj (Nat.not_lt_zero _)
    · exact absurd h (not_le.2 hwidth)
    · exact absurd h (not_le.2 hheight)
  · next hpanel =>
    simp only [not_or, not_le] at hpanel
    obtain ⟨-, hwidth, hheight⟩ := hpanel
    unfold Has
    dsimp only
    rw [between_iff hwidth panel.width.toNat_lt, between_iff hheight panel.height.toNat_lt]
    exact ⟨fun h => ⟨⟨h.1.1, h.2.1⟩, h.1.2, h.2.2⟩, fun h => ⟨⟨h.1.1, h.2.1⟩, h.1.2, h.2.2⟩⟩

/-- A rectangle meets the panel just if it touches a pixel of it. -/
theorem meets_iff : Meets rect panel ↔
    ∃ i j, (i < panel.width.toNat ∧ j < panel.height.toNat) ∧ Touches rect i j := by
  constructor
  · rintro ⟨px, py, hcontains, ⟨hx, hwidth⟩, hy, hheight⟩
    refine ⟨⌊px⌋.toNat, ⌊py⌋.toNat, ⟨?_, ?_⟩, px, py, hcontains, ?_, ?_⟩
    · have : ⌊px⌋ < (panel.width.toNat : ℤ) := Int.floor_lt.2 (by rwa [Int.cast_natCast])
      have := Int.floor_nonneg.2 hx
      omega
    · have : ⌊py⌋ < (panel.height.toNat : ℤ) := Int.floor_lt.2 (by rwa [Int.cast_natCast])
      have := Int.floor_nonneg.2 hy
      omega
    · have hcast : ((⌊px⌋.toNat : ℕ) : K) = (⌊px⌋ : K) := by
        rw [← Int.cast_natCast, Int.toNat_of_nonneg (Int.floor_nonneg.2 hx)]
      rw [hcast]
      exact ⟨Int.floor_le px, Int.lt_floor_add_one px⟩
    · have hcast : ((⌊py⌋.toNat : ℕ) : K) = (⌊py⌋ : K) := by
        rw [← Int.cast_natCast, Int.toNat_of_nonneg (Int.floor_nonneg.2 hy)]
      rw [hcast]
      exact ⟨Int.floor_le py, Int.lt_floor_add_one py⟩
  · rintro ⟨i, j, ⟨hi, hj⟩, px, py, hcontains, ⟨hx, hwidth⟩, hy, hheight⟩
    have hright : ((i + 1 : ℕ) : K) ≤ panel.width.toNat := Nat.cast_le.2 hi
    have hbottom : ((j + 1 : ℕ) : K) ≤ panel.height.toNat := Nat.cast_le.2 hj
    rw [Nat.cast_add_one] at hright hbottom
    exact ⟨px, py, hcontains, ⟨(Nat.cast_nonneg i).trans hx, hwidth.trans_le hright⟩,
      (Nat.cast_nonneg j).trans hy, hheight.trans_le hbottom⟩

/-! ## What is swapped -/

/-- What of the panel a claim has in it: all of it, or what one of its rectangles touches. -/
def Claims (damage : Damage K) (panel : Size) (i j : ℕ) : Prop :=
  (i < panel.width.toNat ∧ j < panel.height.toNat) ∧
    ∀ regions ∈ damage.regions?, ∃ region ∈ regions, Touches region i j

/-- `covering` is in just the rectangles that have every pixel claimed. -/
theorem covering_subset_iff {damage : Damage K} {q : PixelRect} :
    covering damage panel ⊆ q ↔ ∀ i j, Claims damage panel i j → q.Has i j := by
  cases damage with
  | full =>
    have hwhole {i j : ℕ} :
        (whole panel).Has i j ↔ i < panel.width.toNat ∧ j < panel.height.toNat := by
      simp [whole, Has]
    constructor
    · exact fun h i j hclaims => h i j (hwhole.2 hclaims.1)
    · exact fun h i j hhas => h i j ⟨hwhole.1 hhas, fun _ hregions => by cases hregions⟩
  | regions regions =>
    refine (foldl_union_subset_iff regions _).trans ⟨?_, ?_⟩
    · rintro ⟨-, h⟩ i j ⟨hpanel, hclaims⟩
      obtain ⟨region, hregion, htouches⟩ := hclaims regions rfl
      exact h region hregion i j (has_enclosing.2 ⟨hpanel, htouches⟩)
    · refine fun h => ⟨empty_subset rfl, fun region hregion i j hhas => ?_⟩
      obtain ⟨hpanel, htouches⟩ := has_enclosing.1 hhas
      exact h i j ⟨hpanel, fun _ heq => by cases heq; exact ⟨region, hregion, htouches⟩⟩

/-- Nothing is swapped just if nothing of the panel is claimed. -/
theorem covering_isEmpty_iff {damage : Damage K} :
    (covering damage panel).isEmpty = true ↔ ∀ i j, ¬ Claims damage panel i j := by
  have hnone : (⟨0, 0, 0, 0⟩ : PixelRect).isEmpty = true := rfl
  constructor
  · intro h i j hclaims
    exact isEmpty_iff.1 h i j (covering_subset_iff.1 (fun _ _ hhas => hhas) i j hclaims)
  · intro h
    refine isEmpty_iff.2 fun i j hhas => ?_
    have hsub : covering damage panel ⊆ ⟨0, 0, 0, 0⟩ :=
      covering_subset_iff.2 fun i j hclaims => absurd hclaims (h i j)
    exact isEmpty_iff.1 hnone i j (hsub i j hhas)

/-- What is claimed is answered for, and what is answered is swapped. In every run of calls each frame
is answered with everything, or with some rectangles and not too many, every one that was claimed
among them. The rectangle swapped for an answer is in the panel, it has each pixel of the panel that
the answer touches, every rectangle that has those has it, and it is empty just if the answer is off
the panel. -/
theorem damage_reaches_panel (calls : List (DamageCall K)) (panel : Size) :
    ∀ frame ∈ frames calls .new [],
      frame.2.Answers frame.1 ∧
      (covering frame.2 panel).Inside panel ∧
      (frame.2 = .full → covering frame.2 panel = whole panel) ∧
      ∀ regions, frame.2 = .regions regions →
        (∀ region ∈ regions, ∀ i j, i < panel.width.toNat → j < panel.height.toNat →
          Touches region i j → (covering frame.2 panel).Has i j) ∧
        (∀ q : PixelRect,
          (∀ region ∈ regions, ∀ i j, i < panel.width.toNat → j < panel.height.toNat →
            Touches region i j → q.Has i j) → covering frame.2 panel ⊆ q) ∧
        ((covering frame.2 panel).isEmpty = true ↔ ∀ region ∈ regions, ¬ Meets region panel) := by
  intro frame hframe
  have hanswers := frames_answered calls DamageAccumulator.holds_new frame hframe
  refine ⟨hanswers, inside_covering .., ?_, ?_⟩
  · intro hfull
    rw [hfull]
    rfl
  intro regions hregions
  have hclaims {i j : ℕ} : Claims frame.2 panel i j ↔
      (i < panel.width.toNat ∧ j < panel.height.toNat) ∧
        ∃ region ∈ regions, Touches region i j := by
    rw [hregions]
    exact and_congr_right fun _ => ⟨fun h => h regions rfl, fun h _ heq => by cases heq; exact h⟩
  refine ⟨?_, ?_, ?_⟩
  · intro region hregion i j hi hj htouches
    exact covering_subset_iff.1 (fun _ _ hhas => hhas) i j
      (hclaims.2 ⟨⟨hi, hj⟩, region, hregion, htouches⟩)
  · intro q hq
    refine covering_subset_iff.2 fun i j h => ?_
    obtain ⟨⟨hi, hj⟩, region, hregion, htouches⟩ := hclaims.1 h
    exact hq region hregion i j hi hj htouches
  · rw [covering_isEmpty_iff]
    constructor
    · intro hnone region hregion hmeets
      obtain ⟨i, j, hpanel, htouches⟩ := meets_iff.1 hmeets
      exact hnone i j (hclaims.2 ⟨hpanel, region, hregion, htouches⟩)
    · intro hnone i j h
      obtain ⟨hpanel, region, hregion, htouches⟩ := hclaims.1 h
      exact hnone region hregion (meets_iff.2 ⟨i, j, hpanel, htouches⟩)

/-- Half a pixel at the corner of a panel, beside a rectangle that is off it. -/
theorem damage_reaches_panel_half :
    frames [.takeFrame, .claim (.regions [⟨3 / 2, -4, 1 / 4, 9 / 2⟩, ⟨-9, 0, 5, 5⟩]), .takeFrame]
        (.new : DamageAccumulator ℚ) [] =
      [([], .full), ([.regions [⟨3 / 2, -4, 1 / 4, 9 / 2⟩, ⟨-9, 0, 5, 5⟩]],
        .regions [⟨3 / 2, -4, 1 / 4, 9 / 2⟩, ⟨-9, 0, 5, 5⟩])] ∧
    (covering (.regions [(⟨3 / 2, -4, 1 / 4, 9 / 2⟩ : Rect ℚ), ⟨-9, 0, 5, 5⟩]) ⟨4, 4⟩).Inside
      ⟨4, 4⟩ :=
  ⟨rfl, (damage_reaches_panel
    [.takeFrame, .claim (.regions [⟨3 / 2, -4, 1 / 4, 9 / 2⟩, ⟨-9, 0, 5, 5⟩]), .takeFrame] ⟨4, 4⟩ _
    (List.mem_cons_of_mem _ (List.mem_singleton.2 rfl))).2.1⟩

end

end PixelRect

end Paperclip.Device
