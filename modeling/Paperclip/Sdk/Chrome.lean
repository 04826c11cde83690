import Mathlib.Algebra.Order.Field.Basic
import Paperclip.Sdk.Damage

/-!
# Where the shared parts of a screen land

The status bar, the headings and the footer that the apps have in common. Coordinates are of any
ordered field.

* `Rect.right`, `Rect.bottom`: the far edges of a rectangle.
* `statusBarContentArea`, `footerActionRect`: the area below the bar, and an action at the bottom.
-/

namespace Paperclip.Sdk

open Protocol

def STATUS_BAR_HEIGHT : ℕ := 132
def FOOTER_HEIGHT : ℕ := 180
def MARGIN : ℕ := 56
def MIN_TOUCH_TARGET : ℕ := 120

/-- The extent of the panel. -/
def SCREEN : Size := ⟨1620, 2160⟩

section

variable {K : Type} [Field K] [LinearOrder K]

def Rect.right (rect : Rect K) : K := rect.x + rect.width
def Rect.bottom (rect : Rect K) : K := rect.y + rect.height

/-- The canvas of an extent. -/
def Rect.ofSize (size : Size) : Rect K := ⟨0, 0, size.width.toNat, size.height.toNat⟩

/-- The content rectangle below the status bar. -/
def statusBarContentArea (bounds : Rect K) : Rect K :=
  ⟨0, STATUS_BAR_HEIGHT, bounds.width, bounds.height - STATUS_BAR_HEIGHT⟩

/-- The status bar itself. -/
def statusBar (bounds : Rect K) : Rect K := ⟨0, 0, bounds.width, STATUS_BAR_HEIGHT⟩

/-- Where the content under a section heading starts. -/
def sectionHeadingContentTop (y : K) : K := y + (52 : ℕ) + (2 : ℕ)

/-- The width of one of `count` actions across the bottom. -/
def footerActionWidth (bounds : Rect K) (count : ℕ) : K :=
  (bounds.width - MARGIN * (2 : ℕ) - (24 : ℕ) * (count - 1 : ℕ)) / count

/-- Where one of `count` actions across the bottom lands. -/
def footerActionRect (bounds : Rect K) (count index : ℕ) : Rect K :=
  ⟨MARGIN + index * (footerActionWidth bounds count + (24 : ℕ)),
    bounds.height - FOOTER_HEIGHT + (24 : ℕ), footerActionWidth bounds count,
    FOOTER_HEIGHT - (48 : ℕ)⟩

end

end Paperclip.Sdk
