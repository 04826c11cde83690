import Paperclip.Device.PixelRect
import Paperclip.Sdk.Canvas

/-!
# Presenting

How a drawn frame gets from a canvas to the pixels of a panel.

* `MemoryPanel`: the pixels of a panel and the swaps asked of it.
* `present`: a rectangle of the canvas is copied and swapped, or the panel is as it was.
* `present_eq`: a canvas of the panel's size and a rectangle inside it are presented.
* `present_covering`: each pixel that a frame's damage touches is the canvas's, and only the
  rectangle swapped has changed.
-/

namespace Paperclip.Device

open Protocol Sdk

/-- Whether the rectangle fits inside a surface of `size`. -/
def PixelRect.fitsIn (rect : PixelRect) (size : Size) : Bool :=
  saturatingAdd rect.x rect.width ≤ size.width.toNat ∧
    saturatingAdd rect.y rect.height ≤ size.height.toNat

/-- What a panel is told about the pixels it shows. -/
inductive ContentType where
  | mono
  | color
  deriving DecidableEq, Repr

/-- How a panel is driven. -/
structure Waveform where
  content : ContentType
  mode : Int
  deriving DecidableEq, Repr

/-- Whether the rest of the panel flashes. -/
inductive Refresh where
  | partialUpdate
  | full
  deriving DecidableEq, Repr

/-- One recorded swap. -/
structure Swap where
  rect : PixelRect
  waveform : Waveform
  refresh : Refresh
  deriving DecidableEq, Repr

/-- A panel that exists only in memory. -/
structure MemoryPanel where
  size : Size
  pixels : List UInt32
  swaps : List Swap
  deriving DecidableEq

/-- Why a frame is not presented. -/
inductive PresentError where
  | canvasSize (canvas panel : Size)
  | leavesPanel (rect : PixelRect) (size : Size)
  | bufferTooSmall (rect : PixelRect) (stride : ℕ)
  deriving DecidableEq

namespace MemoryPanel

/-- The pixel in column `i` of row `j`. -/
def pixel (panel : MemoryPanel) (i j : ℕ) : Option UInt32 :=
  if i < panel.size.width.toNat ∧ j < panel.size.height.toNat then
    panel.pixels[j * panel.size.width.toNat + i]?
  else
    none

/-- Records that `rect` was driven. -/
def swap (panel : MemoryPanel) (rect : PixelRect) (waveform : Waveform) (refresh : Refresh) :
    Except PresentError Unit × MemoryPanel :=
  if rect.fitsIn panel.size then
    (.ok (), { panel with swaps := panel.swaps ++ [⟨rect, waveform, refresh⟩] })
  else
    (.error (.leavesPanel rect panel.size), panel)

end MemoryPanel

section

variable {P : Type} (demultiply : P → Color)

/-- Copies a rectangle of the canvas into the panel and swaps it. -/
def present (panel : MemoryPanel) (canvas : Canvas P) (rect : PixelRect) (waveform : Waveform)
    (refresh : Refresh) : Option (Except PresentError Unit × MemoryPanel) :=
  let size := panel.size
  if canvas.size ≠ size then
    some (.error (.canvasSize canvas.size size), panel)
  else if rect.fitsIn size = false then
    some (.error (.leavesPanel rect size), panel)
  else if rect.isEmpty then
    some (.ok (), panel)
  else
    let stride := size.width.toNat
    match blitArgb8888 demultiply canvas panel.pixels stride rect.x rect.y rect.width
      rect.height with
    | none => none
    | some (false, pixels) =>
      some (.error (.bufferTooSmall rect stride), { panel with pixels := pixels })
    | some (true, pixels) => some ({ panel with pixels := pixels }.swap rect waveform refresh)

end

/-! ## What is shown -/

section

variable {P : Type} {demultiply : P → Color} {panel : MemoryPanel} {canvas : Canvas P}
variable {rect : PixelRect} {waveform : Waveform} {refresh : Refresh}

theorem PixelRect.Inside.fitsIn {size : Size} (h : rect.Inside size) : rect.fitsIn size = true := by
  obtain ⟨hright, hbottom⟩ := h
  rw [PixelRect.fitsIn, decide_eq_true_eq]
  exact ⟨(min_le_left ..).trans hright, (min_le_left ..).trans hbottom⟩

/-- The last row of a rectangle inside the panel is in its pixels. -/
theorem PixelRect.Inside.last_le {size : Size} (h : rect.Inside size)
    (hempty : ¬ (rect.width = 0 ∨ rect.height = 0)) :
    (rect.y + rect.height - 1) * size.width.toNat + rect.x + rect.width ≤
      size.height.toNat * size.width.toNat := by
  obtain ⟨hright, hbottom⟩ := h
  have hrow : rect.y + rect.height - 1 + 1 ≤ size.height.toNat := by omega
  calc (rect.y + rect.height - 1) * size.width.toNat + rect.x + rect.width
      ≤ (rect.y + rect.height - 1) * size.width.toNat + size.width.toNat := by omega
    _ = (rect.y + rect.height - 1 + 1) * size.width.toNat := (Nat.succ_mul ..).symm
    _ ≤ size.height.toNat * size.width.toNat := Nat.mul_le_mul_right _ hrow

/-- A rectangle inside the panel is presented: it is swapped, its pixels are the canvas's, and the
other pixels are what they were. -/
theorem present_inside (demultiply : P → Color) (waveform : Waveform) (refresh : Refresh)
    (hsize : canvas.size = panel.size)
    (hpixels : panel.pixels.length = panel.size.height.toNat * panel.size.width.toNat)
    (hrect : rect.Inside panel.size) (hempty : rect.isEmpty = false) :
    ∃ pixels, present demultiply panel canvas rect waveform refresh =
        some (.ok (), ⟨panel.size, pixels, panel.swaps ++ [⟨rect, waveform, refresh⟩]⟩) ∧
      pixels.length = panel.pixels.length ∧
      Written demultiply canvas panel.size.width.toNat rect.x rect.y rect.width rect.height
        panel.pixels pixels := by
  have hne : ¬ (rect.width = 0 ∨ rect.height = 0) := by
    rwa [PixelRect.isEmpty, decide_eq_false_iff_not] at hempty
  have hlast := hrect.last_le hne
  have hlength : panel.pixels.length < 2 ^ 61 := by
    rw [hpixels, ← hsize, ← canvas.length_pixels]
    exact canvas.length_lt
  have hright : rect.x + rect.width ≤ canvas.size.width.toNat := hsize ▸ hrect.1
  have hbottom : rect.y + rect.height ≤ canvas.size.height.toNat := hsize ▸ hrect.2
  obtain ⟨pixels, hblit, hwritten⟩ := blit_written demultiply hright hbottom hrect.1 hne
    (hpixels ▸ hlast) (by omega)
  refine ⟨pixels, ?_, hwritten⟩
  rw [present, if_neg (not_not.2 hsize), if_neg (by rw [hrect.fitsIn]; decide), if_neg (by
    rw [hempty]; decide)]
  dsimp only
  rw [hblit]
  dsimp only
  rw [MemoryPanel.swap, if_pos hrect.fitsIn]

/-- Two places in rows of `stride` are one just if they are in one row and one column. -/
theorem place_inj {stride i i' j j' : ℕ} (hi : i < stride) (hi' : i' < stride)
    (h : j * stride + i = j' * stride + i') : i = i' ∧ j = j' := by
  have hmod := congrArg (· % stride) h
  have hdiv := congrArg (· / stride) h
  have hpos : 0 < stride := Nat.zero_lt_of_lt hi
  rw [Nat.mul_add_mod_of_lt hi, Nat.mul_add_mod_of_lt hi'] at hmod
  rw [Nat.mul_comm j, Nat.mul_comm j', Nat.mul_add_div hpos, Nat.mul_add_div hpos,
    Nat.div_eq_of_lt hi, Nat.div_eq_of_lt hi'] at hdiv
  exact ⟨hmod, hdiv⟩

/-- A frame presented for its damage: every pixel of the panel that the damage touches is the
canvas's, and every pixel that is not in the rectangle swapped is what it was. -/
theorem present_covering {K : Type} [Ring K] [LinearOrder K] [IsStrictOrderedRing K] [FloorRing K]
    (demultiply : P → Color) (waveform : Waveform) (refresh : Refresh) (damage : Damage K)
    (hsize : canvas.size = panel.size)
    (hpixels : panel.pixels.length = panel.size.height.toNat * panel.size.width.toNat) :
    ∃ panel', present demultiply panel canvas (PixelRect.covering damage panel.size) waveform
        refresh = some (.ok (), panel') ∧
      (∀ i j, PixelRect.Claims damage panel.size i j →
        ∃ pixel, canvas.pixel? i j = some pixel ∧
          panel'.pixel i j = some (demultiply pixel).argb8888) ∧
      ∀ i j, ¬ (PixelRect.covering damage panel.size).Has i j →
        panel'.pixel i j = panel.pixel i j := by
  have hinside := PixelRect.inside_covering damage panel.size
  have hhas {i j : ℕ} (hclaims : PixelRect.Claims damage panel.size i j) :
      (PixelRect.covering damage panel.size).Has i j :=
    PixelRect.covering_subset_iff.1 (fun _ _ h => h) i j hclaims
  generalize PixelRect.covering damage panel.size = rect at hinside hhas ⊢
  by_cases hempty : rect.isEmpty = true
  · refine ⟨panel, ?_, fun i j hclaims => ?_, fun _ _ _ => rfl⟩
    · rw [present, if_neg (not_not.2 hsize), if_neg (by rw [hinside.fitsIn]; decide), if_pos hempty]
    · exact absurd (hhas hclaims) (PixelRect.isEmpty_iff.1 hempty i j)
  rw [Bool.not_eq_true] at hempty
  obtain ⟨pixels, hpresent, -, hin, hout⟩ :=
    present_inside demultiply waveform refresh hsize hpixels hinside hempty
  refine ⟨_, hpresent, fun i j hclaims => ?_, fun i j hnot => ?_⟩
  · obtain ⟨⟨hleft, hright⟩, htop, hbottom⟩ := hhas hclaims
    rw [MemoryPanel.pixel, if_pos hclaims.1]
    exact hin i j hleft hright htop hbottom
  · unfold MemoryPanel.pixel
    dsimp only
    split
    · next hpanel =>
      refine hout _ fun i' j' hleft hright htop hbottom heq => hnot ?_
      obtain ⟨rfl, rfl⟩ := place_inj hpanel.1 (hright.trans_le hinside.1) heq
      exact ⟨⟨hleft, hright⟩, htop, hbottom⟩
    · rfl

end

end Paperclip.Device
