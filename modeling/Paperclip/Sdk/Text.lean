import Mathlib.Algebra.Order.Field.Basic
import Mathlib.Data.Rat.Defs
import Mathlib.Algebra.Order.Ring.Rat
import Mathlib.Tactic.Ring
import Paperclip.Sdk.Uppercase

/-!
# Text

How wide a run of text is said to be, and where its glyphs are drawn. Lengths are of any ordered
field.

* `measureText`, `layout`, `alignOffset`: the width of a run, its glyphs, and where they start.
* `strokes`: the outline of a glyph. `strokes_inside`: it stays in the design box, or close to it.
* `Agrees`: the glyphs drawn are those measured, and are in the box measured.
* `measured_drawn_iff`: they are just if no character has an uppercase of several, and the pen does
  not go back.
-/

namespace Paperclip.Sdk

/-- Glyph design box width, in font units. -/
def GLYPH_WIDTH : ℕ := 6

/-- Glyph design box height, in font units. -/
def GLYPH_HEIGHT : ℕ := 10

/-- Pen advance per glyph, in font units. -/
def ADVANCE : ℕ := 8

/-- Where a run of text sits relative to the point it is drawn at. -/
inductive TextAlign where
  | left
  | center
  | right
  deriving DecidableEq, Repr

/-- How a run of text is laid out: its cap height, the extra space between glyphs as a fraction of
it, and its anchoring. -/
structure TextStyle (K : Type) where
  size : K
  tracking : K
  align : TextAlign
  deriving DecidableEq

/-- One pen-down polyline in the design box, in tenths of a font unit. -/
abbrev Stroke := List (Int × Int)

/-- A glyph's strokes. -/
def strokes (character : Char) : List Stroke :=
  match character with
  | 'A' => [[(0, 100), (30, 0), (60, 100)], [(12, 60), (48, 60)]]
  | 'B' =>
    [[(0, 100), (0, 0), (40, 0), (56, 14), (56, 36), (40, 50), (0, 50)], [(40, 50), (58, 64),
      (58, 86), (40, 100), (0, 100)]]
  | 'C' => [[(60, 20), (40, 0), (20, 0), (0, 20), (0, 80), (20, 100), (40, 100), (60, 80)]]
  | 'D' => [[(0, 0), (30, 0), (60, 30), (60, 70), (30, 100), (0, 100), (0, 0)]]
  | 'E' => [[(60, 0), (0, 0), (0, 100), (60, 100)], [(0, 50), (44, 50)]]
  | 'F' => [[(60, 0), (0, 0), (0, 100)], [(0, 50), (44, 50)]]
  | 'G' =>
    [[(60, 20), (40, 0), (20, 0), (0, 20), (0, 80), (20, 100), (40, 100), (60, 80), (60, 54),
      (34, 54)]]
  | 'H' => [[(0, 0), (0, 100)], [(60, 0), (60, 100)], [(0, 50), (60, 50)]]
  | 'I' => [[(12, 0), (48, 0)], [(30, 0), (30, 100)], [(12, 100), (48, 100)]]
  | 'J' => [[(60, 0), (60, 76), (42, 100), (20, 100), (2, 84)]]
  | 'K' => [[(0, 0), (0, 100)], [(60, 0), (4, 52)], [(22, 36), (60, 100)]]
  | 'L' => [[(0, 0), (0, 100), (56, 100)]]
  | 'M' => [[(0, 100), (0, 0), (30, 50), (60, 0), (60, 100)]]
  | 'N' => [[(0, 100), (0, 0), (60, 100), (60, 0)]]
  | 'O' =>
    [[(20, 0), (40, 0), (60, 20), (60, 80), (40, 100), (20, 100), (0, 80), (0, 20), (20, 0)]]
  | 'P' => [[(0, 100), (0, 0), (40, 0), (60, 20), (60, 40), (40, 60), (0, 60)]]
  | 'Q' =>
    [[(20, 0), (40, 0), (60, 20), (60, 80), (40, 100), (20, 100), (0, 80), (0, 20), (20, 0)],
      [(36, 70), (62, 104)]]
  | 'R' =>
    [[(0, 100), (0, 0), (40, 0), (60, 20), (60, 40), (40, 60), (0, 60)], [(28, 60), (60, 100)]]
  | 'S' =>
    [[(58, 16), (40, 0), (20, 0), (2, 16), (2, 34), (20, 48), (40, 52), (58, 66), (58, 84),
      (40, 100), (20, 100), (2, 86)]]
  | 'T' => [[(0, 0), (60, 0)], [(30, 0), (30, 100)]]
  | 'U' => [[(0, 0), (0, 76), (20, 100), (40, 100), (60, 76), (60, 0)]]
  | 'V' => [[(0, 0), (30, 100), (60, 0)]]
  | 'W' => [[(0, 0), (12, 100), (30, 40), (48, 100), (60, 0)]]
  | 'X' => [[(0, 0), (60, 100)], [(60, 0), (0, 100)]]
  | 'Y' => [[(0, 0), (30, 52), (60, 0)], [(30, 52), (30, 100)]]
  | 'Z' => [[(0, 0), (60, 0), (0, 100), (60, 100)]]
  | '0' =>
    [[(20, 0), (40, 0), (60, 20), (60, 80), (40, 100), (20, 100), (0, 80), (0, 20), (20, 0)],
      [(12, 82), (48, 18)]]
  | '1' => [[(10, 20), (30, 0), (30, 100)], [(10, 100), (50, 100)]]
  | '2' => [[(2, 22), (20, 0), (42, 0), (60, 20), (60, 38), (2, 100), (60, 100)]]
  | '3' =>
    [[(4, 12), (22, 0), (42, 0), (60, 18), (46, 46), (28, 50)], [(28, 50), (48, 54), (60, 74),
      (44, 100), (22, 100), (4, 88)]]
  | '4' => [[(44, 100), (44, 0), (0, 68), (60, 68)]]
  | '5' =>
    [[(56, 0), (6, 0), (2, 44), (34, 38), (58, 56), (58, 80), (40, 100), (18, 100), (2, 88)]]
  | '6' =>
    [[(52, 4), (26, 6), (4, 34), (2, 74), (20, 100), (42, 100), (60, 82), (56, 56), (32, 44),
      (8, 52)]]
  | '7' => [[(0, 0), (60, 0), (22, 100)]]
  | '8' =>
    [[(22, 50), (4, 36), (4, 16), (22, 0), (40, 0), (58, 16), (58, 36), (40, 50), (22, 50)],
      [(22, 50), (2, 66), (2, 86), (22, 100), (40, 100), (60, 86), (60, 66), (40, 50)]]
  | '9' =>
    [[(8, 96), (34, 94), (56, 66), (58, 26), (40, 0), (18, 0), (0, 18), (4, 44), (28, 56),
      (52, 48)]]
  | '-' => [[(8, 50), (52, 50)]]
  | '.' => [[(28, 96), (32, 96)]]
  | ',' => [[(32, 92), (24, 108)]]
  | ':' => [[(28, 32), (32, 32)], [(28, 76), (32, 76)]]
  | '/' => [[(60, 0), (0, 100)]]
  | '+' => [[(30, 20), (30, 80)], [(0, 50), (60, 50)]]
  | '·' => [[(28, 50), (32, 50)]]
  | '(' => [[(44, 0), (18, 30), (18, 70), (44, 100)]]
  | ')' => [[(16, 0), (42, 30), (42, 70), (16, 100)]]
  | '!' => [[(30, 0), (30, 68)], [(28, 96), (32, 96)]]
  | '?' =>
    [[(4, 20), (22, 0), (40, 0), (58, 20), (54, 42), (30, 56), (30, 70)], [(28, 96), (32, 96)]]
  | _ => []

section

variable {K : Type} [Field K]

/-- Font units to canvas pixels. -/
def unitScale (style : TextStyle K) : K := style.size / GLYPH_HEIGHT

/-- How wide `text` will be, in canvas pixels. -/
def measureText (text : String) (style : TextStyle K) : K :=
  let count := text.toList.length
  if count = 0 then 0
  else
    let unit := style.size / GLYPH_HEIGHT
    let gap := ADVANCE * unit - GLYPH_WIDTH * unit + style.tracking * style.size
    count * GLYPH_WIDTH * unit + (count - 1 : ℕ) * gap

/-- From one glyph to the next, in canvas pixels. -/
def penStep (style : TextStyle K) : K :=
  let unit := style.size / GLYPH_HEIGHT
  GLYPH_WIDTH * unit + (ADVANCE - GLYPH_WIDTH) * unit + style.tracking * style.size

/-- The glyphs of a run, each with the place of its box. -/
def layout (text : String) (style : TextStyle K) : List (K × List Stroke) :=
  (text.toList.flatMap toUppercase).zipIdx.map fun (character, index) =>
    (index * penStep style, strokes character)

/-- The alignment offset to apply before drawing a run. -/
def alignOffset (text : String) (style : TextStyle K) : K :=
  match style.align with
  | .left => 0
  | .center => -measureText text style / 2
  | .right => -measureText text style

/-- What a measured run takes, to the left and to the right of the point it is drawn at. -/
def measuredBox (text : String) (style : TextStyle K) : K × K :=
  let width := measureText text style
  match style.align with
  | .left => (0, width)
  | .center => (-width / 2, width / 2)
  | .right => (-width, 0)

/-- Where the box of the last glyph ends. -/
def extent (text : String) (style : TextStyle K) : K :=
  match ((layout text style).map Prod.fst).getLast? with
  | none => 0
  | some pen => pen + GLYPH_WIDTH * unitScale style

/-- What is drawn is what was measured: a glyph at each place that was counted, ending where the
measured run does, and all in the box that was measured. -/
structure Agrees [LE K] (text : String) (style : TextStyle K) : Prop where
  places : (layout text style).map Prod.fst =
    (List.range text.toList.length).map fun index : ℕ => index * penStep style
  ends : extent text style = measureText text style
  inside : ∀ glyph ∈ layout text style,
    (measuredBox text style).1 ≤ alignOffset text style + glyph.1 ∧
      alignOffset text style + glyph.1 + GLYPH_WIDTH * unitScale style ≤
        (measuredBox text style).2

end

/-! ## Glyphs -/

/-- The outline of a glyph is in its design box, or no further off than half a font unit to its
sides and above it, or the tail of a comma below it. -/
theorem strokes_inside (character : Char) : ∀ stroke ∈ strokes character, ∀ point ∈ stroke,
    (-5 ≤ point.1 ∧ point.1 ≤ 65) ∧ -5 ≤ point.2 ∧ point.2 ≤ 108 := by
  unfold strokes
  split <;> decide

/-! ## Runs -/

section

variable {K : Type} [Field K] {text : String} {style : TextStyle K}

/-- A text becomes as many characters just if each of its characters becomes one. -/
theorem length_flatMap_iff {text : List Char} :
    (text.flatMap toUppercase).length = text.length ↔
      ∀ character ∈ text, (toUppercase character).length = 1 := by
  have hle (text : List Char) : text.length ≤ (text.flatMap toUppercase).length := by
    induction text with
    | nil => exact Nat.le_refl _
    | cons character rest ih =>
      rw [List.flatMap_cons, List.length_append, List.length_cons]
      have := toUppercase_pos character
      omega
  induction text with
  | nil => exact iff_of_true rfl fun _ h => by cases h
  | cons character rest ih =>
    have hpos := toUppercase_pos character
    have hrest := hle rest
    have hih : (∀ character ∈ rest, (toUppercase character).length = 1) ↔ _ := ih.symm
    rw [List.forall_mem_cons, hih, List.flatMap_cons, List.length_append, List.length_cons]
    omega

/-- The places of the glyphs drawn. -/
theorem layout_places : (layout text style).map Prod.fst =
    (List.range (text.toList.flatMap toUppercase).length).map fun index : ℕ =>
      index * penStep style := by
  rw [layout, List.map_map, List.range_eq_range', ← List.zipIdx_map_snd, List.map_map]
  rfl

/-- The measured width of a text that is not empty: the places before the last one, and its box. -/
theorem measureText_eq {n : ℕ} (h : text.toList.length = n + 1) :
    measureText text style = n * penStep style + GLYPH_WIDTH * unitScale style := by
  rw [measureText, h, if_neg (Nat.succ_ne_zero n), Nat.add_sub_cancel]
  unfold penStep unitScale
  push_cast
  ring

end

section

variable {K : Type} [Field K] [LinearOrder K] [IsStrictOrderedRing K]
variable {text : String} {style : TextStyle K}

/-- The box of a measured run starts at the offset, and is as wide as the run. -/
theorem measuredBox_eq : measuredBox text style =
    (alignOffset text style, alignOffset text style + measureText text style) := by
  unfold measuredBox alignOffset
  cases style.align with
  | left => simp only [zero_add]
  | center =>
    dsimp only
    rw [neg_div, neg_add_eq_sub, sub_half]
  | right => simp only [neg_add_cancel]

/-- A glyph in the box of a run starts at its start or after, and ends at its end or before. -/
theorem inside_iff {pen : K} :
    ((measuredBox text style).1 ≤ alignOffset text style + pen ∧
      alignOffset text style + pen + GLYPH_WIDTH * unitScale style ≤ (measuredBox text style).2) ↔
    0 ≤ pen ∧ pen + GLYPH_WIDTH * unitScale style ≤ measureText text style := by
  rw [measuredBox_eq]
  dsimp only
  rw [le_add_iff_nonneg_right, add_assoc, add_le_add_iff_left]

/-- What was measured is drawn if each character is one glyph and the pen does not go back. -/
theorem agrees_of (hone : ∀ character ∈ text.toList, (toUppercase character).length = 1)
    (hstep : text.toList.length ≤ 1 ∨ 0 ≤ penStep style) : Agrees text style := by
  have hplaces : (layout text style).map Prod.fst =
      (List.range text.toList.length).map fun index : ℕ => index * penStep style := by
    rw [layout_places, length_flatMap_iff.2 hone]
  refine ⟨hplaces, ?_, fun glyph hglyph => ?_⟩
  · rw [extent, hplaces]
    rcases hlen : text.toList.length with - | n
    · rw [measureText, hlen]
      rfl
    · rw [measureText_eq hlen, List.range_succ, List.map_append, List.map_singleton,
        List.getLast?_concat]
  · have hpen : glyph.1 ∈ (layout text style).map Prod.fst := List.mem_map_of_mem hglyph
    rw [hplaces, List.mem_map] at hpen
    obtain ⟨index, hindex, hpen⟩ := hpen
    rw [List.mem_range] at hindex
    obtain ⟨n, hlen⟩ := Nat.exists_eq_add_of_lt (Nat.zero_lt_of_lt hindex)
    rw [zero_add] at hlen
    rw [inside_iff, measureText_eq hlen, ← hpen, add_le_add_iff_right]
    rcases hstep with hone | hstep
    · obtain rfl : index = 0 := by omega
      obtain rfl : n = 0 := by omega
      rw [Nat.cast_zero, zero_mul]
      exact ⟨le_refl _, le_refl _⟩
    · refine ⟨mul_nonneg (Nat.cast_nonneg index) hstep, ?_⟩
      exact mul_le_mul_of_nonneg_right (Nat.cast_le.2 (by omega)) hstep

/-- A text of ASCII characters is drawn as it was measured, with no less than no tracking. -/
theorem ascii_agrees (hascii : ∀ character ∈ text.toList, character.toNat < 128)
    (hsize : 0 ≤ style.size) (htracking : 0 ≤ style.tracking) : Agrees text style := by
  refine agrees_of (fun character h => toUppercase_ascii (hascii character h)) (.inr ?_)
  have hunit : 0 ≤ style.size / GLYPH_HEIGHT := div_nonneg hsize (Nat.cast_nonneg _)
  have hbearing : (0 : K) ≤ ADVANCE - GLYPH_WIDTH := by
    rw [sub_nonneg, Nat.cast_le]
    decide
  unfold penStep
  have hglyph := mul_nonneg (Nat.cast_nonneg GLYPH_WIDTH) hunit
  exact add_nonneg (add_nonneg hglyph (mul_nonneg hbearing hunit)) (mul_nonneg htracking hsize)

end

end Paperclip.Sdk
