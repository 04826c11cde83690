import Mathlib.Data.Nat.Notation
import Mathlib.Algebra.Group.Nat.Defs
import Mathlib.Order.Basic
import Paperclip.Protocol.Message

/-!
# Copying a canvas

How a rectangle of a canvas gets into the buffer of a panel.

* `Canvas`: as many pixels as its extent says, in rows that are not too long.
* `blitArgb8888`: the copy. Arithmetic of `usize` that overflows, and a slice that is not there, are
  `none`.
* `Written`: the pixels of a rectangle are in the buffer, and the rest of the buffer is as it was.
* `Slips`: the rectangles whose last row is past what a `usize` can say, or that end past what a
  `u32` can say.
* `blit_exact_iff`: a copy is exact, or refused with nothing copied, just if it does not slip.
-/

namespace Paperclip.Sdk

open Protocol

/-- A number as a `usize`, if it is one. -/
def usize (value : ℕ) : Option ℕ := if value < 2 ^ 64 then some value else none

/-- Where a row has its `column`, in a list of rows of `stride`. -/
def rowIndex (line stride column : ℕ) : Option ℕ := do
  let start ← usize (line * stride)
  usize (start + column)

/-- The sum of two `u32`s, no more than the greatest of them. -/
def saturatingAdd (a b : ℕ) : ℕ := min (a + b) (2 ^ 32 - 1)

/-- The part of a list from `start` up to `stop`, if it has one. -/
def slice {α : Type} (list : List α) (start stop : ℕ) : Option (List α) :=
  if start ≤ stop ∧ stop ≤ list.length then some ((list.drop start).take (stop - start)) else none

/-- A colour that is not multiplied by its alpha. -/
structure Color where
  red : UInt8
  green : UInt8
  blue : UInt8
  deriving DecidableEq

/-- The colour, opaque, in 32 bits. -/
def Color.argb8888 (color : Color) : UInt32 :=
  (0xFF000000 : UInt32) ||| (color.red.toUInt32 <<< 16) ||| (color.green.toUInt32 <<< 8) |||
    color.blue.toUInt32

/-- A drawing surface. The rows of a pixmap have less than 2 ^ 31 bytes, with four to a pixel. -/
structure Canvas (P : Type) where
  size : Size
  pixels : List P
  length_pixels : pixels.length = size.height.toNat * size.width.toNat
  width_lt : size.width.toNat < 2 ^ 29

section

variable {P : Type}

/-- The pixel in column `i` of row `j`. -/
def Canvas.pixel? (canvas : Canvas P) (i j : ℕ) : Option P :=
  if i < canvas.size.width.toNat then canvas.pixels[j * canvas.size.width.toNat + i]? else none

/-- The buffer with a row over it from `start` on. -/
def copyRow (target : List UInt32) (start : ℕ) (row : List UInt32) : List UInt32 :=
  target.take start ++ row ++ target.drop (start + row.length)

variable (demultiply : P → Color)

/-- Copies one row of a rectangle. -/
def blitRow (canvas : Canvas P) (targetStride x y width row : ℕ) (target : List UInt32) :
    Option (List UInt32) := do
  let sourceStride := canvas.size.width.toNat
  let line ← usize (y + row)
  let sourceRow ← rowIndex line sourceStride x
  let targetRow ← rowIndex line targetStride x
  let sourceEnd ← usize (sourceRow + width)
  let source ← slice canvas.pixels sourceRow sourceEnd
  let targetEnd ← usize (targetRow + width)
  let _ ← slice target targetRow targetEnd
  pure (copyRow target targetRow (source.map fun pixel => (demultiply pixel).argb8888))

/-- Copies one rectangle of the canvas into a buffer of `targetStride` pixels per row, at the same
coordinates, or answers that it leaves the canvas or the buffer. -/
def blitArgb8888 (canvas : Canvas P) (target : List UInt32) (targetStride x y width height : ℕ) :
    Option (Bool × List UInt32) := do
  let size := canvas.size
  let right := saturatingAdd x width
  let bottom := saturatingAdd y height
  if size.width.toNat < right ∨ size.height.toNat < bottom ∨ targetStride < right then
    return (false, target)
  if width = 0 ∨ height = 0 then
    return (true, target)
  let lastRowEnd ← rowIndex (bottom - 1) targetStride right
  if target.length < lastRowEnd then
    return (false, target)
  let target ← (List.range height).foldlM
    (fun target row => blitRow demultiply canvas targetStride x y width row target) target
  return (true, target)

/-- The first `height` rows of a rectangle are in the buffer, and the rest of it is as it was. -/
def Written (canvas : Canvas P) (stride x y width height : ℕ) (target result : List UInt32) :
    Prop :=
  (∀ i j, x ≤ i → i < x + width → y ≤ j → j < y + height →
    ∃ pixel, canvas.pixel? i j = some pixel ∧
      result[j * stride + i]? = some (demultiply pixel).argb8888) ∧
  ∀ k, (∀ i j, x ≤ i → i < x + width → y ≤ j → j < y + height → k ≠ j * stride + i) →
    result[k]? = target[k]?

/-- What a copy is to do: all of it, or nothing. -/
def Exact (canvas : Canvas P) (target : List UInt32) (stride x y width height : ℕ) : Prop :=
  ∃ copied result, blitArgb8888 demultiply canvas target stride x y width height =
      some (copied, result) ∧
    ((copied = true ∧ Written demultiply canvas stride x y width height target result) ∨
      (copied = false ∧ result = target))

/-- The rectangles that are not refused early and whose last row ends past what a `usize` can say,
or fits the buffer but ends past what a `u32` can say. -/
def Slips (canvas : Canvas P) (target : List UInt32) (stride x y width height : ℕ) : Prop :=
  let right := saturatingAdd x width
  let bottom := saturatingAdd y height
  (right ≤ canvas.size.width.toNat ∧ bottom ≤ canvas.size.height.toNat ∧ right ≤ stride) ∧
    (width ≠ 0 ∧ height ≠ 0) ∧
    (2 ^ 64 ≤ (bottom - 1) * stride + right ∨
      ((bottom - 1) * stride + right ≤ target.length ∧ 2 ^ 32 ≤ y + height))

end

/-! ## One row -/

theorem usize_eq {value : ℕ} (h : value < 2 ^ 64) : usize value = some value := if_pos h

theorem usize_eq_some_iff {value n : ℕ} :
    usize value = some n ↔ value < 2 ^ 64 ∧ n = value := by
  unfold usize
  split
  · next h => exact ⟨fun heq => ⟨h, (Option.some.inj heq).symm⟩, fun heq => heq.2 ▸ rfl⟩
  · next h => exact ⟨fun heq => (by cases heq), fun heq => absurd heq.1 h⟩

theorem rowIndex_eq_some_iff {line stride column n : ℕ} :
    rowIndex line stride column = some n ↔
      line * stride + column < 2 ^ 64 ∧ n = line * stride + column := by
  rw [rowIndex, Option.bind_eq_bind, Option.bind_eq_some_iff]
  constructor
  · rintro ⟨start, hstart, hn⟩
    obtain ⟨-, rfl⟩ := usize_eq_some_iff.1 hstart
    exact usize_eq_some_iff.1 hn
  · rintro ⟨hlt, rfl⟩
    exact ⟨line * stride, usize_eq (by omega), usize_eq hlt⟩

theorem rowIndex_eq {line stride column : ℕ} (h : line * stride + column < 2 ^ 64) :
    rowIndex line stride column = some (line * stride + column) :=
  rowIndex_eq_some_iff.2 ⟨h, rfl⟩

theorem slice_eq {α : Type} {list : List α} {start count : ℕ} (h : start + count ≤ list.length) :
    slice list start (start + count) = some ((list.drop start).take count) := by
  rw [slice, if_pos ⟨Nat.le_add_right .., h⟩, Nat.add_sub_cancel_left]

theorem length_copyRow {target row : List UInt32} {start : ℕ}
    (h : start + row.length ≤ target.length) :
    (copyRow target start row).length = target.length := by
  simp only [copyRow, List.length_append, List.length_take, List.length_drop]
  omega

/-- A row is where it was copied to, and all else is where it was. -/
theorem getElem?_copyRow {target row : List UInt32} {start k : ℕ}
    (h : start + row.length ≤ target.length) : (copyRow target start row)[k]? =
      if start ≤ k ∧ k < start + row.length then row[k - start]? else target[k]? := by
  have htake : (target.take start).length = start := by
    rw [List.length_take]
    omega
  rw [copyRow, List.getElem?_append, List.getElem?_append, List.length_append, htake]
  by_cases hbefore : k < start
  · rw [if_pos (by omega), if_pos hbefore, if_neg (by omega), List.getElem?_take_of_lt hbefore]
  by_cases hrow : k < start + row.length
  · rw [if_pos hrow, if_neg hbefore, if_pos ⟨by omega, hrow⟩]
  · rw [if_neg hrow, if_neg (by omega), List.getElem?_drop]
    congr 1
    omega

section

variable {P : Type} {demultiply : P → Color} {canvas : Canvas P}
variable {target result : List UInt32} {stride x y width height row : ℕ}

theorem Canvas.length_lt (canvas : Canvas P) : canvas.pixels.length < 2 ^ 61 := by
  have hheight := canvas.size.height.toNat_lt
  have hwidth := canvas.width_lt
  rw [canvas.length_pixels]
  calc canvas.size.height.toNat * canvas.size.width.toNat
      ≤ 2 ^ 32 * canvas.size.width.toNat := Nat.mul_le_mul_right _ hheight.le
    _ < 2 ^ 32 * 2 ^ 29 := Nat.mul_lt_mul_of_pos_left hwidth (by decide)
    _ = 2 ^ 61 := by decide

/-- A row of the canvas ends where the row is, in the pixels. -/
theorem Canvas.row_le {i j : ℕ} (hj : j < canvas.size.height.toNat)
    (hi : i ≤ canvas.size.width.toNat) :
    j * canvas.size.width.toNat + i ≤ canvas.pixels.length := by
  rw [canvas.length_pixels]
  calc j * canvas.size.width.toNat + i
      ≤ j * canvas.size.width.toNat + canvas.size.width.toNat := Nat.add_le_add_left hi _
    _ = (j + 1) * canvas.size.width.toNat := (Nat.succ_mul ..).symm
    _ ≤ canvas.size.height.toNat * canvas.size.width.toNat := Nat.mul_le_mul_right _ hj

/-- A row of a rectangle that is on the canvas and in the buffer is copied. -/
theorem blitRow_eq (hrow : y + row < canvas.size.height.toNat)
    (hright : x + width ≤ canvas.size.width.toNat)
    (htarget : (y + row) * stride + x + width ≤ target.length)
    (hsize : (y + row) * stride + x + width < 2 ^ 64) :
    ∃ pixels : List P, pixels.length = width ∧
      (∀ i < width, canvas.pixel? (x + i) (y + row) = pixels[i]?) ∧
      blitRow demultiply canvas stride x y width row target =
        some (copyRow target ((y + row) * stride + x)
          (pixels.map fun pixel => (demultiply pixel).argb8888)) := by
  have hsource : (y + row) * canvas.size.width.toNat + (x + width) ≤ canvas.pixels.length :=
    canvas.row_le hrow hright
  have hlength := canvas.length_lt
  have hheight := canvas.size.height.toNat_lt
  refine ⟨(canvas.pixels.drop ((y + row) * canvas.size.width.toNat + x)).take width, ?_, ?_, ?_⟩
  · rw [List.length_take, List.length_drop]
    omega
  · intro i hi
    rw [Canvas.pixel?, if_pos (by omega), List.getElem?_take_of_lt hi, List.getElem?_drop]
    congr 1
    omega
  · rw [blitRow, usize_eq (by omega : y + row < 2 ^ 64)]
    simp only [Option.bind_eq_bind, Option.bind_some]
    rw [rowIndex_eq (by omega), rowIndex_eq (by omega)]
    simp only [Option.bind_some]
    rw [usize_eq (by omega), usize_eq (by omega)]
    simp only [Option.bind_some]
    rw [slice_eq (by omega), slice_eq (by omega)]
    rfl

/-- A row that is below the canvas stops the copy. -/
theorem blitRow_below (hrow : canvas.size.height.toNat ≤ y + row) (hwidth : 0 < width) :
    blitRow demultiply canvas stride x y width row target = none := by
  have hbelow : canvas.pixels.length ≤ (y + row) * canvas.size.width.toNat :=
    canvas.length_pixels ▸ Nat.mul_le_mul_right _ hrow
  rw [blitRow, Option.bind_eq_bind, Option.bind_eq_none_iff]
  intro line hline
  obtain ⟨-, rfl⟩ := usize_eq_some_iff.1 hline
  rw [Option.bind_eq_bind, Option.bind_eq_none_iff]
  intro sourceRow hsource
  obtain ⟨-, rfl⟩ := rowIndex_eq_some_iff.1 hsource
  rw [Option.bind_eq_bind, Option.bind_eq_none_iff]
  intro targetRow _
  rw [Option.bind_eq_none_iff]
  intro sourceEnd hend
  obtain ⟨-, rfl⟩ := usize_eq_some_iff.1 hend
  rw [slice, if_neg (by omega)]
  rfl

/-! ## All rows -/

theorem written_zero : Written demultiply canvas stride x y width 0 target target :=
  ⟨fun _ _ _ _ _ _ => by omega, fun _ _ => rfl⟩

/-- One more row, after those before it. -/
theorem Written.copyRow {pixels : List P}
    (h : Written demultiply canvas stride x y width height target result)
    (hlength : result.length = target.length) (hstride : x + width ≤ stride)
    (htarget : (y + height) * stride + x + width ≤ target.length) (hpixels : pixels.length = width)
    (hrow : ∀ i < width, canvas.pixel? (x + i) (y + height) = pixels[i]?) :
    Written demultiply canvas stride x y width (height + 1) target
      (copyRow result ((y + height) * stride + x)
        (pixels.map fun pixel => (demultiply pixel).argb8888)) := by
  have hfits : (y + height) * stride + x +
      (pixels.map fun pixel => (demultiply pixel).argb8888).length ≤ result.length := by
    rw [List.length_map, hpixels, hlength]
    exact htarget
  have hget (k : ℕ) := getElem?_copyRow hfits (k := k)
  rw [List.length_map, hpixels] at hget
  constructor
  · intro i j hleft hright htop hbottom
    rw [hget]
    rcases Nat.lt_or_ge j (y + height) with hj | hj
    · have habove : (j + 1) * stride ≤ (y + height) * stride := Nat.mul_le_mul_right _ hj
      rw [Nat.succ_mul] at habove
      rw [if_neg (by omega)]
      exact h.1 i j hleft hright htop hj
    · obtain rfl : j = y + height := by omega
      rw [if_pos (by omega)]
      obtain ⟨c, rfl⟩ := Nat.exists_eq_add_of_le hleft
      have hc : c < pixels.length := by omega
      refine ⟨pixels[c], ?_, ?_⟩
      · rw [hrow c (by omega), List.getElem?_eq_getElem hc]
      · have hindex : (y + height) * stride + (x + c) - ((y + height) * stride + x) = c := by omega
        rw [hindex, List.getElem?_map, List.getElem?_eq_getElem hc]
        rfl
  · intro k hk
    rw [hget, if_neg]
    · exact h.2 k fun i j hleft hright htop hbottom => hk i j hleft hright htop (by omega)
    · intro hin
      refine hk (k - (y + height) * stride) (y + height) ?_ ?_ ?_ ?_ ?_ <;> omega

/-- The first rows of a rectangle that is on the canvas and in the buffer are copied. -/
theorem foldlM_blitRow (demultiply : P → Color) (hright : x + width ≤ canvas.size.width.toNat)
    (hstride : x + width ≤ stride) (n : ℕ) (hbottom : y + n ≤ canvas.size.height.toNat)
    (htarget : (y + n - 1) * stride + x + width ≤ target.length)
    (hsize : (y + n - 1) * stride + x + width < 2 ^ 64) :
    ∃ result, (List.range n).foldlM
        (fun target row => blitRow demultiply canvas stride x y width row target) target =
        some result ∧
      result.length = target.length ∧
      Written demultiply canvas stride x y width n target result := by
  induction n with
  | zero => exact ⟨target, rfl, rfl, written_zero⟩
  | succ n ih =>
    have hless : (y + n - 1) * stride ≤ (y + (n + 1) - 1) * stride :=
      Nat.mul_le_mul_right _ (by omega)
    obtain ⟨result, hfold, hlength, hwritten⟩ := ih (by omega) (by omega) (by omega)
    have hlast : y + (n + 1) - 1 = y + n := by omega
    rw [hlast] at htarget hsize
    have hfits : (y + n) * stride + x + width ≤ result.length := hlength ▸ htarget
    obtain ⟨pixels, hpixels, hrow, hblit⟩ :=
      blitRow_eq (P := P) (by omega) hright hfits hsize
    refine ⟨_, ?_, ?_, hwritten.copyRow hlength hstride htarget hpixels hrow⟩
    · rw [List.range_succ, List.foldlM_append, hfold]
      exact congrArg (· >>= pure) hblit
    · rw [length_copyRow, hlength]
      rw [List.length_map, hpixels, hlength]
      exact htarget

/-- All rows were copied just if each one was. -/
theorem foldlM_eq_none {n : ℕ} (hn : row < n)
    (hnone : ∀ target, blitRow demultiply canvas stride x y width row target = none) :
    (List.range n).foldlM
      (fun target row => blitRow demultiply canvas stride x y width row target) target = none := by
  induction n with
  | zero => exact absurd hn (Nat.not_lt_zero _)
  | succ n ih =>
    rw [List.range_succ, List.foldlM_append, Option.bind_eq_bind, Option.bind_eq_none_iff]
    intro result hresult
    rcases Nat.lt_or_ge row n with h | h
    · rw [ih h] at hresult
      cases hresult
    · obtain rfl : row = n := by omega
      rw [List.foldlM_cons, hnone]
      rfl

/-- A rectangle that leaves the canvas or the rows of the buffer is refused. -/
theorem blit_outside (h : canvas.size.width.toNat < saturatingAdd x width ∨
    canvas.size.height.toNat < saturatingAdd y height ∨ stride < saturatingAdd x width) :
    blitArgb8888 demultiply canvas target stride x y width height = some (false, target) := by
  rw [blitArgb8888, if_pos h]
  rfl

/-- Another rectangle is copied if it is empty, and if the last row of it fits the buffer. -/
theorem blit_within (demultiply : P → Color) (target : List UInt32)
    (h : ¬ (canvas.size.width.toNat < saturatingAdd x width ∨
      canvas.size.height.toNat < saturatingAdd y height ∨ stride < saturatingAdd x width)) :
    blitArgb8888 demultiply canvas target stride x y width height =
      if width = 0 ∨ height = 0 then some (true, target) else
      (rowIndex (saturatingAdd y height - 1) stride (saturatingAdd x width)).bind fun lastRowEnd =>
        if target.length < lastRowEnd then some (false, target) else
        ((List.range height).foldlM
          (fun target row => blitRow demultiply canvas stride x y width row target) target).bind
          fun target => some (true, target) := by
  rw [blitArgb8888, if_neg h]
  rfl

/-- A rectangle that is on the canvas and in the buffer is copied. -/
theorem blit_written (demultiply : P → Color) (hright : x + width ≤ canvas.size.width.toNat)
    (hbottom : y + height ≤ canvas.size.height.toNat) (hstride : x + width ≤ stride)
    (hempty : ¬ (width = 0 ∨ height = 0))
    (htarget : (y + height - 1) * stride + x + width ≤ target.length)
    (hsize : (y + height - 1) * stride + x + width < 2 ^ 64) :
    ∃ result, blitArgb8888 demultiply canvas target stride x y width height = some (true, result) ∧
      result.length = target.length ∧
      Written demultiply canvas stride x y width height target result := by
  have hwidth := canvas.width_lt
  have hheight := canvas.size.height.toNat_lt
  have hx : saturatingAdd x width = x + width := min_eq_left (by omega)
  have hy : saturatingAdd y height = y + height := min_eq_left (by omega)
  obtain ⟨result, hfold, hresult⟩ :=
    foldlM_blitRow demultiply hright hstride height hbottom htarget hsize
  refine ⟨result, ?_, hresult⟩
  rw [blit_within demultiply target (by omega), if_neg hempty, hx, hy, rowIndex_eq (by omega),
    Option.bind_some, if_neg (by omega), hfold, Option.bind_some]

/-- A copy writes the rectangle and nothing else, or is refused and writes nothing, just if the
rectangle is not one of those that slip by the guards. -/
theorem blit_exact_iff (demultiply : P → Color) (canvas : Canvas P) (target : List UInt32)
    (stride x y width height : ℕ) :
    Exact demultiply canvas target stride x y width height ↔
      ¬ Slips canvas target stride x y width height := by
  have hwidth := canvas.width_lt
  have hheight := canvas.size.height.toNat_lt
  unfold Exact Slips
  dsimp only
  by_cases houtside : canvas.size.width.toNat < saturatingAdd x width ∨
      canvas.size.height.toNat < saturatingAdd y height ∨ stride < saturatingAdd x width
  · rw [blit_outside houtside]
    exact iff_of_true ⟨false, target, rfl, .inr ⟨rfl, rfl⟩⟩ fun h => by omega
  have hx : saturatingAdd x width = x + width := by
    unfold saturatingAdd at houtside ⊢
    omega
  have hwithin := blit_within demultiply target houtside
  rw [hx] at houtside hwithin ⊢
  by_cases hempty : width = 0 ∨ height = 0
  · rw [hwithin, if_pos hempty]
    refine iff_of_true ⟨true, target, rfl, .inl ⟨rfl, ?_, fun _ _ => rfl⟩⟩ fun h => by omega
    exact fun i j hleft hright htop hbottom => by omega
  rw [if_neg hempty] at hwithin
  by_cases hover : 2 ^ 64 ≤ (saturatingAdd y height - 1) * stride + (x + width)
  · have hnone : rowIndex (saturatingAdd y height - 1) stride (x + width) = none := by
      rw [Option.eq_none_iff_forall_ne_some]
      intro n hn
      have := (rowIndex_eq_some_iff.1 hn).1
      omega
    rw [hwithin, hnone, Option.bind_none]
    refine iff_of_false ?_ fun h => h ⟨by omega, by omega, .inl hover⟩
    rintro ⟨_, _, h, _⟩
    cases h
  rw [rowIndex_eq (by omega), Option.bind_some] at hwithin
  by_cases hshort : target.length < (saturatingAdd y height - 1) * stride + (x + width)
  · rw [hwithin, if_pos hshort]
    exact iff_of_true ⟨false, target, rfl, .inr ⟨rfl, rfl⟩⟩ fun h => by omega
  by_cases hbelow : 2 ^ 32 ≤ y + height
  · refine iff_of_false ?_ fun h => h ⟨by omega, by omega, .inr ⟨by omega, hbelow⟩⟩
    rintro ⟨copied, result, h, -⟩
    have hrow : canvas.size.height.toNat - y < height := by omega
    rw [hwithin, if_neg hshort,
      foldlM_eq_none hrow fun target => blitRow_below (by omega) (by omega)] at h
    cases h
  · have hy : saturatingAdd y height = y + height := min_eq_left (by omega)
    rw [hy] at houtside hover hshort ⊢
    have hright : x + width ≤ canvas.size.width.toNat := by omega
    have hbottom : y + height ≤ canvas.size.height.toNat := by omega
    have hstride : x + width ≤ stride := by omega
    have hfits : (y + height - 1) * stride + x + width ≤ target.length := by omega
    obtain ⟨result, hblit, -, hwritten⟩ :=
      blit_written demultiply hright hbottom hstride hempty hfits (by omega)
    rw [hblit]
    exact iff_of_true ⟨true, result, rfl, .inl ⟨rfl, hwritten⟩⟩ fun h => by omega

end

/-- The third row of a buffer whose rows have 2 ^ 63 pixels starts past what a `usize` can say, and
the buffer, of one pixel, is not refused. -/
theorem blit_overflows : ¬ Exact (fun color : Color => color)
    ⟨⟨1, 3⟩, [⟨255, 255, 255⟩, ⟨255, 255, 255⟩, ⟨255, 255, 255⟩], rfl, by decide⟩ [0]
    (2 ^ 63) 0 0 1 3 := by
  rintro ⟨copied, result, h, -⟩
  have hnone : blitArgb8888 (fun color : Color => color)
      ⟨⟨1, 3⟩, [⟨255, 255, 255⟩, ⟨255, 255, 255⟩, ⟨255, 255, 255⟩], rfl, by decide⟩ [0]
      (2 ^ 63) 0 0 1 3 = none := by
    decide
  rw [hnone] at h
  cases h

end Paperclip.Sdk
