import Mathlib.Algebra.Group.Nat.Defs
import Paperclip.Compositor.Surface
import Paperclip.Protocol.Vocabulary

/-!
# Pools of shared memory, and what of them is shown

A pool is two buffers of one layout, back to back. Integers are checked: a sum or a product that its
type cannot hold is a fault, and so is a slice that is not inside what it is taken from.

* `SurfaceDescriptor.bytes`, `ShmPoolDescriptor.poolBytes`, `ShmPoolDescriptor.slotOffset`.
* `Pool.fromFile`: what a pool is made from. `Pool.slotRange`: where a slot is in it.
* `Panel.presentPoolSlot`: copies the rows of a slot to the panel.
* `Addressed`: the slots are apart, and a pixel is read from where the descriptor says.
* `addressed_iff`: which pools are addressed that way.
-/

namespace Paperclip.Compositor

open Protocol

/-! ## Checked integers -/

/-- What a program does not survive. -/
inductive Fault where
  | overflow
  | outOfBounds
  | expect (message : String)
  deriving DecidableEq, Repr

/-- A number that must be below a power of two. -/
def checked (bits n : ℕ) : Except Fault ℕ := if n < 2 ^ bits then .ok n else .error .overflow

/-- The largest 64-bit number is also the largest index. -/
def USIZE_BITS : ℕ := 64

/-- A number as an index, if it is one. -/
def toUsize (n : ℕ) : Option ℕ := if n < 2 ^ USIZE_BITS then some n else none

/-- A value that is there, or a fault. -/
def expect {α : Type} (message : String) : Option α → Except Fault α
  | some a => .ok a
  | none => .error (.expect message)

/-- The part of a list between two indices. -/
def slice {α : Type} (l : List α) (start stop : ℕ) : Except Fault (List α) :=
  if start ≤ stop ∧ stop ≤ l.length then .ok ((l.drop start).take (stop - start))
  else .error .outOfBounds

/-! ## Descriptors -/

/-- Whether there is no pixel in an extent. -/
def Size.isEmpty (size : Size) : Bool := size.width == 0 || size.height == 0

/-- How many bytes a surface takes, if its numbers describe one. -/
def SurfaceDescriptor.bytes (d : SurfaceDescriptor) : Except Fault (Option ℕ) := do
  let minimum ← checked 64 (d.extent.width.toNat * d.format.bytesPerPixel)
  if Size.isEmpty d.extent || decide (d.strideBytes.toNat < minimum) then return none
  else
    let total ← checked 64 (d.strideBytes.toNat * d.extent.height.toNat)
    return some total

/-- The shape of a pool: two slots of one layout. -/
structure ShmPoolDescriptor where
  buffer : SurfaceDescriptor
  deriving DecidableEq

namespace ShmPoolDescriptor

def slotBytes (d : ShmPoolDescriptor) : Except Fault (Option ℕ) :=
  SurfaceDescriptor.bytes d.buffer

/-- Both slots, unless 64 bits cannot hold that. -/
def poolBytes (d : ShmPoolDescriptor) : Except Fault (Option ℕ) := do
  return (← d.slotBytes).bind fun bytes => if bytes * 2 < 2 ^ 64 then some (bytes * 2) else none

def slotOffset (d : ShmPoolDescriptor) (slot : BufferSlot) : Except Fault (Option ℕ) := do
  return (← d.slotBytes).map fun bytes =>
    match slot with
    | .a => 0
    | .b => bytes

end ShmPoolDescriptor

/-- Largest size of a pool. -/
def MAX_POOL_BYTES : ℕ := 64 * 1024 * 1024

/-! ## Pools -/

/-- Why a pool could not be created. -/
inductive PoolError where
  | invalidDescriptor
  | tooLarge (size limit : ℕ)
  | sizeMismatch (expected actual : ℕ)
  | stat (error : String)
  | map (error : String)
  deriving DecidableEq, Repr

/-- What is asked of the file behind a pool: its length, and to be mapped. -/
structure PoolFile where
  metadata : Except String ℕ
  map : Except String Unit

/-- A pool that is mapped. -/
structure Pool where
  descriptor : ShmPoolDescriptor
  len : ℕ
  deriving DecidableEq

namespace Pool

/-- Maps a file as the pool of a descriptor. -/
def fromFile (descriptor : ShmPoolDescriptor) (file : PoolFile) :
    Except Fault (Except PoolError Pool) := do
  match ← descriptor.poolBytes with
  | none => return .error .invalidDescriptor
  | some poolBytes =>
    if poolBytes = 0 then return .error .invalidDescriptor
    else if poolBytes > MAX_POOL_BYTES then return .error (.tooLarge poolBytes MAX_POOL_BYTES)
    else match file.metadata with
    | .error e => return .error (.stat e)
    | .ok actual =>
      if actual ≠ poolBytes then return .error (.sizeMismatch poolBytes actual)
      else match file.map with
      | .error e => return .error (.map e)
      | .ok () => return .ok ⟨descriptor, poolBytes⟩

/-- Where a slot begins in the mapping, and how long it is. -/
def slotRange (pool : Pool) (slot : BufferSlot) : Except Fault (ℕ × ℕ) := do
  let offset ← expect "descriptor was already validated in Self::from_file"
    ((← pool.descriptor.slotOffset slot).bind toUsize)
  let len ← expect "descriptor was already validated in Self::from_file"
    ((← pool.descriptor.slotBytes).bind toUsize)
  let stop ← checked USIZE_BITS (offset + len)
  if stop ≤ pool.len then return (offset, len) else .error .outOfBounds

/-- The bytes of a slot, of the bytes that are mapped. -/
def slot (pool : Pool) (mapping : List UInt8) (slot : BufferSlot) : Except Fault (List UInt8) := do
  let (offset, len) ← pool.slotRange slot
  return (mapping.drop offset).take len

end Pool

/-! ## The panel -/

/-- The pixels of a panel. Rows may be longer than the panel is wide. -/
structure PanelBuffer where
  pixels : List UInt32
  stride : ℕ
  size : Size
  wide : size.width.toNat ≤ stride
  fits : stride * size.height.toNat ≤ pixels.length
  indexed : pixels.length < 2 ^ USIZE_BITS

/-- A list with a row written over it. -/
def overwrite (pixels : List UInt32) (start : ℕ) (row : List UInt32) : List UInt32 :=
  pixels.mapIdx fun i old => if start ≤ i then row.getD (i - start) old else old

namespace PanelBuffer

def write (buffer : PanelBuffer) (start : ℕ) (row : List UInt32) : PanelBuffer where
  pixels := overwrite buffer.pixels start row
  stride := buffer.stride
  size := buffer.size
  wide := buffer.wide
  fits := by rw [overwrite, List.length_mapIdx]; exact buffer.fits
  indexed := by rw [overwrite, List.length_mapIdx]; exact buffer.indexed

/-- The pixel of a row and a column. -/
def pixel (buffer : PanelBuffer) (x y : ℕ) : Option UInt32 := buffer.pixels[y * buffer.stride + x]?

end PanelBuffer

/-- Why the panel does not show something. -/
inductive DeviceError where
  | unexpected (message : String)
  | vendor (code : ℤ) (message : String)
  deriving DecidableEq, Repr

/-- A panel, with what it answers when its pixels are borrowed and when they are shown. The pixels
that are borrowed cover the panel. -/
structure Panel where
  size : Size
  buffer : Except DeviceError PanelBuffer
  swap : Except DeviceError Unit
  sized : ∀ b, buffer = .ok b → b.size = size

/-- A 32-bit number from its bytes, the lowest first. -/
def fromNeBytes (b₀ b₁ b₂ b₃ : UInt8) : UInt32 :=
  b₀.toUInt32 ||| b₁.toUInt32 <<< 8 ||| b₂.toUInt32 <<< 16 ||| b₃.toUInt32 <<< 24

/-- The pixels of a row of bytes. -/
def chunks : List UInt8 → List UInt32
  | b₀ :: b₁ :: b₂ :: b₃ :: rest => fromNeBytes b₀ b₁ b₂ b₃ :: chunks rest
  | _ => []

/-- Copies a row of a slot to the panel. -/
def copyRow (descriptor : ShmPoolDescriptor) (slotBytes : List UInt8) (buffer : PanelBuffer) (y : ℕ) :
    Except Fault PanelBuffer := do
  let width := descriptor.buffer.extent.width.toNat
  let stridePixels := (descriptor.buffer.strideBytes / 4).toNat
  let srcStart ← checked USIZE_BITS ((← checked USIZE_BITS (y * stridePixels)) * 4)
  let srcStop ← checked USIZE_BITS (srcStart + (← checked USIZE_BITS (width * 4)))
  let srcRow ← slice slotBytes srcStart srcStop
  let dstStart ← checked USIZE_BITS (y * buffer.stride)
  let dstStop ← checked USIZE_BITS (dstStart + width)
  let dstRow ← slice buffer.pixels dstStart dstStop
  return buffer.write dstStart ((chunks srcRow).take dstRow.length)

def Size.debug (size : Size) : String :=
  "Size \x7b width: " ++ toString size.width ++ ", height: " ++ toString size.height ++ " \x7d"

/-- Copies a slot to the panel, and shows it. -/
def Panel.presentPoolSlot (panel : Panel) (descriptor : ShmPoolDescriptor) (slotBytes : List UInt8) :
    Except Fault (Except DeviceError PanelBuffer) := do
  if descriptor.buffer.extent ≠ panel.size then
    return .error (.unexpected
      (s!"client surface is {Size.debug descriptor.buffer.extent} but the panel is "
        ++ s!"{Size.debug panel.size}; this compositor only presents a client full-screen"))
  else match panel.buffer with
  | .error e => return .error e
  | .ok buffer =>
    let buffer ← (List.range descriptor.buffer.extent.height.toNat).foldlM
      (copyRow descriptor slotBytes) buffer
    match panel.swap with
    | .error e => return .error e
    | .ok () => return .ok buffer

/-! ## What is promised -/

/-- The pixel whose first byte has an index. -/
def pixelAt (bytes : List UInt8) (i : ℕ) : Option UInt32 := do
  return fromNeBytes (← bytes[i]?) (← bytes[i + 1]?) (← bytes[i + 2]?) (← bytes[i + 3]?)

/-- Two ranges, each an offset and a length, that have no index in common. -/
def Apart (r s : ℕ × ℕ) : Prop := r.1 + r.2 ≤ s.1 ∨ s.1 + s.2 ≤ r.1

/-- No operation of a pool is a fault, its slots are apart and in the mapping, and what the panel
shows at a column and a row is read from where the descriptor says. -/
structure Pool.Addressed (pool : Pool) : Prop where
  inside : ∀ slot, ∃ offset len, pool.slotRange slot = .ok (offset, len) ∧ offset + len ≤ pool.len
  apart : ∀ r s, pool.slotRange .a = .ok r → pool.slotRange .b = .ok s → Apart r s
  shown : ∀ (mapping : List UInt8) (slot : BufferSlot) (panel : Panel), mapping.length = pool.len →
    ∃ bytes result, pool.slot mapping slot = .ok bytes ∧
      panel.presentPoolSlot pool.descriptor bytes = .ok result ∧
      ∀ buffer, result = .ok buffer → ∀ x y, x < pool.descriptor.buffer.extent.width.toNat →
        y < pool.descriptor.buffer.extent.height.toNat →
        ∃ p, buffer.pixel x y = some p ∧
          pixelAt bytes (y * pool.descriptor.buffer.strideBytes.toNat + 4 * x) = some p

/-! ## What `fromFile` accepts -/

theorem checked_eq {bits n : ℕ} (h : n < 2 ^ bits) : checked bits n = .ok n := if_pos h

theorem Size.isEmpty_iff {size : Size} :
    Size.isEmpty size = true ↔ size.width.toNat = 0 ∨ size.height.toNat = 0 := by
  simp [Size.isEmpty, ← UInt32.toNat_inj]

/-- What a surface takes. Its checked products never overflow. -/
theorem SurfaceDescriptor.bytes_eq (d : SurfaceDescriptor) :
    SurfaceDescriptor.bytes d = .ok (if Size.isEmpty d.extent ∨ d.strideBytes.toNat < d.extent.width.toNat * 4 then
      none else some (d.strideBytes.toNat * d.extent.height.toNat)) := by
  have hw := d.extent.width.toNat_lt
  have hprod : d.strideBytes.toNat * d.extent.height.toNat < 2 ^ 64 := by
    have hs := d.strideBytes.toNat_lt
    have hh := d.extent.height.toNat_lt
    calc d.strideBytes.toNat * d.extent.height.toNat
        ≤ (2 ^ 32 - 1) * (2 ^ 32 - 1) := Nat.mul_le_mul (by omega) (by omega)
      _ < 2 ^ 64 := by decide
  have hmin : d.extent.width.toNat * d.format.bytesPerPixel < 2 ^ 64 := by
    simp only [PixelFormat.bytesPerPixel]
    omega
  rw [SurfaceDescriptor.bytes, checked_eq hmin, checked_eq hprod]
  by_cases h : Size.isEmpty d.extent ∨ d.strideBytes.toNat < d.extent.width.toNat * 4
  · have h' : (Size.isEmpty d.extent ||
        decide (d.strideBytes.toNat < d.extent.width.toNat * d.format.bytesPerPixel)) = true := by
      rw [Bool.or_eq_true, decide_eq_true_eq]
      exact h
    simp only [Bind.bind, Except.bind, if_pos h, if_pos h']
    rfl
  · have h' : ¬(Size.isEmpty d.extent ||
        decide (d.strideBytes.toNat < d.extent.width.toNat * d.format.bytesPerPixel)) = true := by
      rw [Bool.or_eq_true, decide_eq_true_eq]
      exact h
    simp only [Bind.bind, Except.bind, if_neg h, if_neg h']
    rfl

namespace Pool

/-- What is known of a pool that was mapped. -/
structure Laid (pool : Pool) : Prop where
  width : 0 < pool.descriptor.buffer.extent.width.toNat
  height : 0 < pool.descriptor.buffer.extent.height.toNat
  wide : 4 * pool.descriptor.buffer.extent.width.toNat ≤ pool.descriptor.buffer.strideBytes.toNat
  len : pool.len =
    2 * (pool.descriptor.buffer.strideBytes.toNat * pool.descriptor.buffer.extent.height.toNat)
  bounded : pool.len ≤ MAX_POOL_BYTES

/-- A pool that was mapped is laid out as its descriptor says. -/
theorem fromFile_laid {d : ShmPoolDescriptor} {file : PoolFile} {pool : Pool}
    (h : fromFile d file = .ok (.ok pool)) : pool.Laid := by
  rw [fromFile, ShmPoolDescriptor.poolBytes, ShmPoolDescriptor.slotBytes, SurfaceDescriptor.bytes_eq] at h
  by_cases hd : Size.isEmpty d.buffer.extent ∨
      d.buffer.strideBytes.toNat < d.buffer.extent.width.toNat * 4
  · rw [if_pos hd] at h
    cases h
  · rw [if_neg hd] at h
    obtain ⟨hempty, hwide⟩ := not_or.1 hd
    rw [Size.isEmpty_iff] at hempty
    have hwidth : 0 < d.buffer.extent.width.toNat := by omega
    have hheight : 0 < d.buffer.extent.height.toNat := by omega
    have hstride : 4 * d.buffer.extent.width.toNat ≤ d.buffer.strideBytes.toNat := by omega
    simp only [Bind.bind, Except.bind, pure, Except.pure, Option.bind_some] at h
    split at h
    · cases h
    · rename_i n hn
      split at hn
      · cases hn
        split at h
        · cases h
        · split at h
          · cases h
          · rename_i hmax
            split at h
            · cases h
            · split at h
              · cases h
              · split at h
                · cases h
                · cases h
                  exact ⟨hwidth, hheight, hstride, Nat.mul_comm _ _, Nat.le_of_not_gt hmax⟩
      · cases hn

theorem Laid.slotBytes {pool : Pool} (h : pool.Laid) : pool.descriptor.slotBytes =
    .ok (some (pool.descriptor.buffer.strideBytes.toNat *
      pool.descriptor.buffer.extent.height.toNat)) := by
  have hw := h.width
  have hh := h.height
  have hwide := h.wide
  rw [ShmPoolDescriptor.slotBytes, SurfaceDescriptor.bytes_eq, if_neg]
  rw [Size.isEmpty_iff]
  omega

/-- Where the slots are: one after the other. -/
theorem Laid.slotRange {pool : Pool} (h : pool.Laid) (slot : BufferSlot) :
    pool.slotRange slot = .ok
      (match slot with
        | .a => 0
        | .b => pool.descriptor.buffer.strideBytes.toNat *
          pool.descriptor.buffer.extent.height.toNat,
      pool.descriptor.buffer.strideBytes.toNat * pool.descriptor.buffer.extent.height.toNat) := by
  have hlen := h.len
  have hmax := h.bounded
  have hbytes := h.slotBytes
  rw [MAX_POOL_BYTES] at hmax
  generalize pool.descriptor.buffer.strideBytes.toNat *
    pool.descriptor.buffer.extent.height.toNat = n at *
  have hn : n < 2 ^ USIZE_BITS := by
    rw [USIZE_BITS]
    omega
  have hindex : toUsize n = some n := if_pos hn
  rw [Pool.slotRange, ShmPoolDescriptor.slotOffset, hbytes]
  cases slot with
  | a =>
    have hzero : toUsize 0 = some 0 := rfl
    have hstop : checked USIZE_BITS (0 + n) = .ok (0 + n) := checked_eq (by omega)
    have hin : 0 + n ≤ pool.len := by omega
    simp only [Bind.bind, Except.bind, pure, Except.pure, Option.map_some, Option.bind_some, hzero,
      hindex, expect, hstop, if_pos hin]
  | b =>
    have hstop : checked USIZE_BITS (n + n) = .ok (n + n) := checked_eq (by
      rw [USIZE_BITS]
      omega)
    have hin : n + n ≤ pool.len := by omega
    simp only [Bind.bind, Except.bind, pure, Except.pure, Option.map_some, Option.bind_some, hindex,
      expect, hstop, if_pos hin]

theorem Laid.slot_first {pool : Pool} (h : pool.Laid) (mapping : List UInt8) :
    pool.slot mapping .a = .ok ((mapping.drop 0).take
      (pool.descriptor.buffer.strideBytes.toNat *
        pool.descriptor.buffer.extent.height.toNat)) := by
  rw [Pool.slot, h.slotRange]
  rfl

theorem Laid.length_first {pool : Pool} (h : pool.Laid) {mapping : List UInt8}
    (hm : mapping.length = pool.len) :
    ((mapping.drop 0).take (pool.descriptor.buffer.strideBytes.toNat *
      pool.descriptor.buffer.extent.height.toNat)).length =
    pool.descriptor.buffer.strideBytes.toNat * pool.descriptor.buffer.extent.height.toNat := by
  have hlen := h.len
  rw [List.length_take, List.length_drop, hm]
  omega

/-- A slot's bytes are there, as many as its layout takes. -/
theorem Laid.slot {pool : Pool} (h : pool.Laid) {mapping : List UInt8}
    (hm : mapping.length = pool.len) (slot : BufferSlot) :
    ∃ bytes, pool.slot mapping slot = .ok bytes ∧ bytes.length =
      pool.descriptor.buffer.strideBytes.toNat * pool.descriptor.buffer.extent.height.toNat := by
  have hlen := h.len
  rw [Pool.slot, h.slotRange]
  refine ⟨_, rfl, ?_⟩
  rw [List.length_take, List.length_drop, hm]
  cases slot <;> simp only <;> omega

end Pool

/-! ## Rows -/

theorem pixelAt_of_lt {bytes : List UInt8} {i : ℕ} (h : i + 3 < bytes.length) :
    pixelAt bytes i = some (fromNeBytes bytes[i] bytes[i + 1] bytes[i + 2] bytes[i + 3]) := by
  rw [pixelAt, List.getElem?_eq_getElem h, List.getElem?_eq_getElem (by omega : i + 2 < _),
    List.getElem?_eq_getElem (by omega : i + 1 < _), List.getElem?_eq_getElem (by omega : i < _)]
  rfl

theorem pixelAt_of_le {bytes : List UInt8} {i : ℕ} (h : bytes.length ≤ i + 3) :
    pixelAt bytes i = none := by
  rw [pixelAt, List.getElem?_eq_none h]
  cases bytes[i]? <;> cases bytes[i + 1]? <;> cases bytes[i + 2]? <;> rfl

/-- The pixels of a row of bytes, by their first bytes. -/
theorem chunks_getElem? (l : List UInt8) (k : ℕ) : (chunks l)[k]? = pixelAt l (4 * k) := by
  induction l using chunks.induct generalizing k with
  | case1 b₀ b₁ b₂ b₃ rest ih =>
    cases k with
    | zero => rfl
    | succ k =>
      rw [chunks, List.getElem?_cons_succ, ih]
      rfl
  | case2 l h =>
    have hlen : l.length ≤ 3 := by
      match l, h with
      | [], _ | [_], _ | [_, _], _ | [_, _, _], _ => simp
      | b₀ :: b₁ :: b₂ :: b₃ :: rest, h => exact absurd rfl (h b₀ b₁ b₂ b₃ rest)
    rw [pixelAt_of_le (by omega), chunks]
    · rfl
    · exact h

theorem length_chunks (l : List UInt8) : (chunks l).length = l.length / 4 := by
  induction l using chunks.induct with
  | case1 b₀ b₁ b₂ b₃ rest ih =>
    rw [chunks, List.length_cons, ih]
    simp only [List.length_cons]
    omega
  | case2 l h =>
    have hlen : l.length ≤ 3 := by
      match l, h with
      | [], _ | [_], _ | [_, _], _ | [_, _, _], _ => simp
      | b₀ :: b₁ :: b₂ :: b₃ :: rest, h => exact absurd rfl (h b₀ b₁ b₂ b₃ rest)
    rw [chunks, List.length_nil]
    · omega
    · exact h

/-- A pixel of a part of the bytes is the pixel that far into them. -/
theorem pixelAt_slice {bytes : List UInt8} {start len i : ℕ} (h : i + 3 < len) :
    pixelAt ((bytes.drop start).take len) i = pixelAt bytes (start + i) := by
  simp only [pixelAt, List.getElem?_take, List.getElem?_drop]
  rw [if_pos (by omega), if_pos (by omega), if_pos (by omega), if_pos h, Nat.add_assoc,
    Nat.add_assoc, Nat.add_assoc]

theorem overwrite_getElem? (pixels row : List UInt32) (start i : ℕ) :
    (overwrite pixels start row)[i]? =
      pixels[i]?.map fun old => if start ≤ i then row.getD (i - start) old else old := by
  rw [overwrite, List.getElem?_mapIdx]

section Rows

variable {d : ShmPoolDescriptor} {bytes : List UInt8}

/-- The layout of a descriptor's slot, and bytes for it. -/
structure Slot (d : ShmPoolDescriptor) (bytes : List UInt8) : Prop where
  wide : 4 * d.buffer.extent.width.toNat ≤ d.buffer.strideBytes.toNat
  length : bytes.length = d.buffer.strideBytes.toNat * d.buffer.extent.height.toNat
  bounded : bytes.length < 2 ^ 62

/-- Where a pixel is read from: rows begin where the stride's whole pixels put them. -/
def sourceOf (d : ShmPoolDescriptor) (x y : ℕ) : ℕ :=
  4 * (y * (d.buffer.strideBytes / 4).toNat + x)

theorem stridePixels_eq (d : ShmPoolDescriptor) :
    (d.buffer.strideBytes / 4).toNat = d.buffer.strideBytes.toNat / 4 := UInt32.toNat_div _ _

/-- A row is inside the slot. -/
theorem Slot.row_le (h : Slot d bytes) {y : ℕ} (hy : y < d.buffer.extent.height.toNat) :
    y * (d.buffer.strideBytes / 4).toNat * 4 + d.buffer.extent.width.toNat * 4 ≤
      bytes.length := by
  have hwide := h.wide
  rw [h.length, stridePixels_eq]
  have hq : d.buffer.extent.width.toNat ≤ d.buffer.strideBytes.toNat / 4 := by omega
  calc y * (d.buffer.strideBytes.toNat / 4) * 4 + d.buffer.extent.width.toNat * 4
      ≤ (y + 1) * (d.buffer.strideBytes.toNat / 4 * 4) := by
        rw [Nat.add_mul, Nat.mul_assoc]
        omega
    _ ≤ d.buffer.extent.height.toNat * d.buffer.strideBytes.toNat :=
        Nat.mul_le_mul hy (Nat.div_mul_le_self _ _)
    _ = _ := Nat.mul_comm _ _

theorem Slot.sourceOf_lt (h : Slot d bytes) {x y : ℕ} (hx : x < d.buffer.extent.width.toNat)
    (hy : y < d.buffer.extent.height.toNat) : sourceOf d x y + 3 < bytes.length := by
  have hrow := h.row_le hy
  rw [sourceOf]
  omega

/-- A row of the panel is inside its pixels. -/
theorem PanelBuffer.row_le (buffer : PanelBuffer) {y : ℕ} (hy : y < buffer.size.height.toNat) :
    y * buffer.stride + buffer.size.width.toNat ≤ buffer.pixels.length := by
  have hfits := buffer.fits
  have hwide := buffer.wide
  calc y * buffer.stride + buffer.size.width.toNat
      ≤ (y + 1) * buffer.stride := by
        rw [Nat.add_mul]
        omega
    _ ≤ buffer.size.height.toNat * buffer.stride := Nat.mul_le_mul hy (Nat.le_refl _)
    _ ≤ buffer.pixels.length := by rwa [Nat.mul_comm]

/-- What is copied to a row of the panel. -/
theorem copyRow_eq (h : Slot d bytes) {buffer : PanelBuffer} (hsize : buffer.size = d.buffer.extent)
    {y : ℕ} (hy : y < d.buffer.extent.height.toNat) :
    ∃ row, copyRow d bytes buffer y = .ok (buffer.write (y * buffer.stride) row) ∧
      row.length = d.buffer.extent.width.toNat ∧
      ∀ x, x < d.buffer.extent.width.toNat → row[x]? = pixelAt bytes (sourceOf d x y) := by
  have hsrc := h.row_le hy
  have hbound := h.bounded
  have hdst := buffer.row_le (hsize ▸ hy)
  have hindexed := buffer.indexed
  rw [hsize] at hdst
  rw [USIZE_BITS] at hindexed
  have h₁ : checked USIZE_BITS (y * (d.buffer.strideBytes / 4).toNat) = .ok _ :=
    checked_eq (by rw [USIZE_BITS]; omega)
  have h₂ : checked USIZE_BITS (y * (d.buffer.strideBytes / 4).toNat * 4) = .ok _ :=
    checked_eq (by rw [USIZE_BITS]; omega)
  have h₃ : checked USIZE_BITS (d.buffer.extent.width.toNat * 4) = .ok _ :=
    checked_eq (by rw [USIZE_BITS]; omega)
  have h₄ : checked USIZE_BITS (y * (d.buffer.strideBytes / 4).toNat * 4 +
      d.buffer.extent.width.toNat * 4) = .ok _ :=
    checked_eq (by rw [USIZE_BITS]; omega)
  have h₅ : checked USIZE_BITS (y * buffer.stride) = .ok _ :=
    checked_eq (by rw [USIZE_BITS]; omega)
  have h₆ : checked USIZE_BITS (y * buffer.stride + d.buffer.extent.width.toNat) = .ok _ :=
    checked_eq (by rw [USIZE_BITS]; omega)
  have hread : slice bytes (y * (d.buffer.strideBytes / 4).toNat * 4)
      (y * (d.buffer.strideBytes / 4).toNat * 4 + d.buffer.extent.width.toNat * 4) = .ok _ :=
    if_pos ⟨Nat.le_add_right _ _, hsrc⟩
  have hwrite : slice buffer.pixels (y * buffer.stride)
      (y * buffer.stride + d.buffer.extent.width.toNat) = .ok _ :=
    if_pos ⟨Nat.le_add_right _ _, hdst⟩
  refine ⟨_, by
    simp only [copyRow, h₁, h₂, h₃, h₄, h₅, h₆, hread, hwrite, Bind.bind, Except.bind, pure,
      Except.pure]
    rfl, ?_, fun x hx => ?_⟩
  · rw [List.length_take, length_chunks, List.length_take, List.length_take, List.length_drop,
      List.length_drop]
    omega
  · rw [List.getElem?_take, if_pos, chunks_getElem?, pixelAt_slice, sourceOf]
    · congr 1
      omega
    · omega
    · rw [List.length_take, List.length_drop]
      omega

/-- The rows below an index are copied one after the other, and stay as they were copied. -/
theorem copyRows_eq (h : Slot d bytes) {start : PanelBuffer}
    (hsize : start.size = d.buffer.extent) {rows : ℕ} (hrows : rows ≤ d.buffer.extent.height.toNat) :
    ∃ buffer, (List.range rows).foldlM (copyRow d bytes) start = .ok buffer ∧
      buffer.size = d.buffer.extent ∧
      ∀ x y, x < d.buffer.extent.width.toNat → y < rows →
        buffer.pixel x y = pixelAt bytes (sourceOf d x y) := by
  induction rows with
  | zero => exact ⟨start, rfl, hsize, fun x y _ hy => absurd hy (Nat.not_lt_zero y)⟩
  | succ k ih =>
    obtain ⟨buffer, hrun, hs, hshown⟩ := ih (Nat.le_of_succ_le hrows)
    obtain ⟨row, hcopy, hlen, hrow⟩ := copyRow_eq h hs (y := k) hrows
    refine ⟨buffer.write (k * buffer.stride) row, ?_, hs, fun x y hx hy => ?_⟩
    · rw [List.range_succ, List.foldlM_append, hrun]
      simp only [List.foldlM_cons, List.foldlM_nil, Bind.bind, Except.bind, hcopy, pure, Except.pure]
    · have hwide := buffer.wide
      have hdst := buffer.row_le (hs ▸ Nat.lt_of_lt_of_le hy hrows)
      rw [hs] at hwide hdst
      have hthere : y * buffer.stride + x < buffer.pixels.length := by omega
      have hpixel : (buffer.write (k * buffer.stride) row).pixel x y =
          (overwrite buffer.pixels (k * buffer.stride) row)[y * buffer.stride + x]? := rfl
      rw [hpixel, overwrite_getElem?]
      rcases Nat.lt_succ_iff_lt_or_eq.1 hy with hlt | rfl
      · -- A row that was there before is not reached by this one.
        have hbelow : y * buffer.stride + x < k * buffer.stride := by
          calc y * buffer.stride + x < (y + 1) * buffer.stride := by
                rw [Nat.add_mul]
                omega
            _ ≤ k * buffer.stride := Nat.mul_le_mul hlt (Nat.le_refl _)
        rw [← hshown x y hx hlt, PanelBuffer.pixel, List.getElem?_eq_getElem hthere, Option.map_some,
          if_neg (by omega)]
      · rw [← hrow x hx, List.getElem?_eq_getElem hthere, Option.map_some, if_pos (by omega),
          Nat.add_sub_cancel_left, List.getD_eq_getElem?_getD, List.getElem?_eq_getElem (by omega)]
        rfl

/-- A slot is presented without a fault, and each pixel is the one at `sourceOf`. -/
theorem presentPoolSlot_eq (h : Slot d bytes) (panel : Panel) :
    ∃ result, panel.presentPoolSlot d bytes = .ok result ∧
      (∀ buffer, result = .ok buffer → ∀ x y, x < d.buffer.extent.width.toNat →
        y < d.buffer.extent.height.toNat → buffer.pixel x y = pixelAt bytes (sourceOf d x y)) ∧
      (panel.size = d.buffer.extent → ∀ b, panel.buffer = .ok b → panel.swap = .ok () →
        ∃ buffer, result = .ok buffer) := by
  by_cases hsize : d.buffer.extent = panel.size
  · cases hbuffer : panel.buffer with
    | error e =>
      refine ⟨.error e, ?_, fun buffer he => (by cases he), fun _ b hb => (by cases hb)⟩
      rw [Panel.presentPoolSlot, if_neg (not_not.2 hsize), hbuffer]
      rfl
    | ok b =>
      obtain ⟨buffer, hrun, -, hshown⟩ :=
        copyRows_eq h ((panel.sized b hbuffer).trans hsize.symm) (Nat.le_refl _)
      cases hswap : panel.swap with
      | error e =>
        refine ⟨.error e, ?_, fun buffer he => (by cases he), fun _ _ _ hok => (by cases hok)⟩
        rw [Panel.presentPoolSlot, if_neg (not_not.2 hsize)]
        simp only [hbuffer, hswap, Bind.bind, Except.bind, pure, Except.pure, hrun]
      | ok _ =>
        refine ⟨.ok buffer, ?_, fun _ he => ?_, fun _ _ _ _ => ⟨buffer, rfl⟩⟩
        · rw [Panel.presentPoolSlot, if_neg (not_not.2 hsize)]
          simp only [hbuffer, hswap, Bind.bind, Except.bind, pure, Except.pure, hrun]
        · cases he
          exact hshown
  · exact ⟨_, if_pos hsize, fun buffer he => (by cases he), fun he => absurd he.symm hsize⟩

end Rows

/-! ## Which pools are addressed as they should be -/

theorem Pool.Laid.rows {pool : Pool} (h : pool.Laid) {bytes : List UInt8}
    (hbytes : bytes.length = pool.descriptor.buffer.strideBytes.toNat *
      pool.descriptor.buffer.extent.height.toNat) : Slot pool.descriptor bytes := by
  have hlen := h.len
  have hmax := h.bounded
  rw [MAX_POOL_BYTES] at hmax
  exact ⟨h.wide, hbytes, by omega⟩

/-- With a stride of whole pixels, or one row, every pixel is read from where it should be. -/
theorem Pool.Laid.addressed {pool : Pool} (h : pool.Laid)
    (hrows : pool.descriptor.buffer.strideBytes.toNat % 4 = 0 ∨
      pool.descriptor.buffer.extent.height.toNat = 1) : pool.Addressed where
  inside slot := by
    refine ⟨_, _, h.slotRange slot, ?_⟩
    have hlen := h.len
    cases slot <;> simp only <;> omega
  apart r s hr hs := by
    rw [h.slotRange] at hr hs
    cases hr
    cases hs
    left
    simp only
    omega
  shown mapping slot panel hm := by
    obtain ⟨bytes, hbytes, hlen⟩ := h.slot hm slot
    obtain ⟨result, hrun, hshown, -⟩ := presentPoolSlot_eq (h.rows hlen) panel
    refine ⟨bytes, result, hbytes, hrun, fun buffer hb x y hx hy => ?_⟩
    have hsource : sourceOf pool.descriptor x y =
        y * pool.descriptor.buffer.strideBytes.toNat + 4 * x := by
      rw [sourceOf, stridePixels_eq]
      rcases hrows with hwhole | hone
      · rw [Nat.mul_add, Nat.mul_left_comm, Nat.mul_div_cancel' (Nat.dvd_of_mod_eq_zero hwhole)]
      · obtain rfl : y = 0 := by omega
        omega
    have hlt := (h.rows hlen).sourceOf_lt hx hy
    rw [hshown buffer hb x y hx hy, ← hsource, pixelAt_of_lt hlt]
    exact ⟨_, rfl, rfl⟩

/-- A panel that is only memory. -/
def MemoryPanel.new (size : Size) (h : size.width.toNat * size.height.toNat < 2 ^ USIZE_BITS) :
    Panel where
  size := size
  buffer := .ok
    { pixels := List.replicate (size.width.toNat * size.height.toNat) 0xFFFFFFFF
      stride := size.width.toNat
      size := size
      wide := Nat.le_refl _
      fits := by rw [List.length_replicate]
      indexed := by rwa [List.length_replicate] }
  swap := .ok ()
  sized b hb := by cases hb; rfl

/-- Bytes that are all zero but one. -/
def markedBytes (len mark : ℕ) : List UInt8 := (List.replicate len 0).set mark 1

theorem markedBytes_getElem? {len mark i : ℕ} (hi : i < len) :
    (markedBytes len mark)[i]? = some (if i = mark then 1 else 0) := by
  rw [markedBytes, List.getElem?_set, List.length_replicate, List.getElem?_replicate, if_pos hi]
  by_cases h : i = mark
  · rw [if_pos h.symm, if_pos h, if_pos (h ▸ hi)]
  · rw [if_neg fun he => h he.symm, if_neg h]

/-- The pixels that end at the mark and before it. -/
theorem markedBytes_pixelAt {len mark i : ℕ} (hi : i + 3 < len) (hmark : i + 3 ≤ mark) :
    pixelAt (markedBytes len mark) i = some (if i + 3 = mark then 0x01000000 else 0) := by
  rw [pixelAt, markedBytes_getElem? (by omega), markedBytes_getElem? (by omega),
    markedBytes_getElem? (by omega), markedBytes_getElem? hi, if_neg (by omega),
    if_neg (by omega), if_neg (by omega)]
  by_cases h : i + 3 = mark
  · rw [if_pos h, if_pos h]
    rfl
  · rw [if_neg h, if_neg h]
    rfl

/-- Otherwise the second row is read from before where it begins. -/
theorem Pool.Laid.not_addressed {pool : Pool} (h : pool.Laid)
    (hstride : pool.descriptor.buffer.strideBytes.toNat % 4 ≠ 0)
    (hheight : pool.descriptor.buffer.extent.height.toNat ≠ 1) : ¬pool.Addressed := by
  intro hA
  have hwidth := h.width
  have hh := h.height
  have hwide := h.wide
  have hlen := h.len
  have hmax := h.bounded
  rw [MAX_POOL_BYTES] at hmax
  have harea : pool.descriptor.buffer.extent.width.toNat *
      pool.descriptor.buffer.extent.height.toNat < 2 ^ USIZE_BITS := by
    have hle := Nat.mul_le_mul_right pool.descriptor.buffer.extent.height.toNat
      (by omega : pool.descriptor.buffer.extent.width.toNat ≤
        pool.descriptor.buffer.strideBytes.toNat)
    rw [USIZE_BITS]
    omega
  have htwo := Nat.mul_le_mul_left pool.descriptor.buffer.strideBytes.toNat
    (by omega : 2 ≤ pool.descriptor.buffer.extent.height.toNat)
  -- The mark is the last byte of the first pixel of the second row.
  have hmapped : (markedBytes pool.len
      (pool.descriptor.buffer.strideBytes.toNat + 3)).length = pool.len := by
    rw [markedBytes, List.length_set, List.length_replicate]
  obtain ⟨bytes, result, hslot, hrun, hshown⟩ := hA.shown _ .a
    (MemoryPanel.new pool.descriptor.buffer.extent harea) hmapped
  rw [h.slot_first] at hslot
  obtain rfl := Except.ok.inj hslot
  obtain ⟨result', hrun', hread, hok⟩ := presentPoolSlot_eq (h.rows (h.length_first hmapped))
    (MemoryPanel.new pool.descriptor.buffer.extent harea)
  obtain rfl := Except.ok.inj (hrun.symm.trans hrun')
  obtain ⟨buffer, rfl⟩ := hok rfl _ rfl rfl
  obtain ⟨p, hp, hwant⟩ := hshown buffer rfl 0 1 hwidth (by omega)
  rw [hread buffer rfl 0 1 hwidth (by omega), sourceOf, stridePixels_eq, pixelAt_slice (by omega),
    markedBytes_pixelAt (by omega) (by omega), if_neg (by omega)] at hp
  rw [pixelAt_slice (by omega), markedBytes_pixelAt (by omega) (by omega), if_pos (by omega),
    ← hp] at hwant
  exact absurd (Option.some.inj hwant) (by decide)

/-- A pool is addressed as its descriptor says when its stride is a whole number of pixels, or when
it has one row, and otherwise not. -/
theorem addressed_iff {d : ShmPoolDescriptor} {file : PoolFile} {pool : Pool}
    (h : Pool.fromFile d file = .ok (.ok pool)) : pool.Addressed ↔
      pool.descriptor.buffer.strideBytes.toNat % 4 = 0 ∨
        pool.descriptor.buffer.extent.height.toNat = 1 := by
  have hlaid := Pool.fromFile_laid h
  refine ⟨fun hA => ?_, hlaid.addressed⟩
  by_contra hbad
  obtain ⟨hstride, hheight⟩ := not_or.1 hbad
  exact hlaid.not_addressed hstride hheight hA

/-- Four rows of four pixels, one directly after the other. -/
theorem addressed_packed : Pool.Addressed ⟨⟨⟨4, 4⟩, 16, .argb8888⟩, 128⟩ :=
  (addressed_iff (show Pool.fromFile ⟨⟨4, 4⟩, 16, .argb8888⟩ ⟨.ok 128, .ok ()⟩ =
    .ok (.ok ⟨⟨⟨4, 4⟩, 16, .argb8888⟩, 128⟩) by rfl)).2 (Or.inl rfl)

/-- Two rows of one pixel, five bytes apart. -/
theorem uneven_stride_shifts_rows : ∃ pool,
    Pool.fromFile ⟨⟨1, 2⟩, 5, .argb8888⟩ ⟨.ok 20, .ok ()⟩ = .ok (.ok pool) ∧ ¬pool.Addressed := by
  have hpool : Pool.fromFile ⟨⟨1, 2⟩, 5, .argb8888⟩ ⟨.ok 20, .ok ()⟩ =
      .ok (.ok ⟨⟨⟨1, 2⟩, 5, .argb8888⟩, 20⟩) := rfl
  exact ⟨_, hpool, (Pool.fromFile_laid hpool).not_addressed (by decide) (by decide)⟩

end Paperclip.Compositor
