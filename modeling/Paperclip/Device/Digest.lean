import Paperclip.Sdk.Canvas

/-!
# The digest of a frame

What two runs are compared by: a hash of the pixels the panel was given.

* `ofArgb`: the digest of a buffer, whose stride is what its length says. A panic is `none`.
* `visible`: the pixels of a buffer that are on the glass, row by row.
* `Digests`: the digest is there, and is that of the visible pixels.
* `digests_iff`: it is so just if the buffer has rows of one length, or the frame no width.
-/

namespace Paperclip.Device

open Protocol Sdk

/-- The bytes of a SHA-256. -/
abbrev Sha256 := Vector UInt8 32

/-- A fingerprint of the exact pixels handed to the engine. -/
structure FrameDigest where
  digest : Sha256
  size : Size
  inkPerMille : ℕ
  deriving DecidableEq

/-- A pixel, its lowest byte first. -/
def toLeBytes (pixel : UInt32) : List UInt8 :=
  [pixel.toUInt8, (pixel >>> 8).toUInt8, (pixel >>> 16).toUInt8, (pixel >>> 24).toUInt8]

/-- The buffer in pieces of `stride`, the last of which may be shorter. -/
def chunks (stride : ℕ) (pixels : List UInt32) : List (List UInt32) :=
  (List.range ((pixels.length + stride - 1) / stride)).map fun i =>
    (pixels.drop (i * stride)).take stride

/-- What the hasher is given: the first `width` pixels of each line. -/
def hashLines (width : ℕ) : List (List UInt32) → Option (List UInt8)
  | [] => some []
  | line :: rest => do
    let row ← slice line 0 width
    let more ← hashLines width rest
    return row.flatMap toLeBytes ++ more

/-- Why a buffer is refused. -/
def tooSmall (pixels : List UInt32) (size : Size) : String :=
  s!"a {size.width}x{size.height} frame needs at least " ++
    s!"{size.height.toNat * size.width.toNat} pixels, got {pixels.length}"

section

variable (hash : List UInt8 → Sha256)

/-- Digests a raw buffer, with the ink that was counted elsewhere. -/
def FrameDigest.ofArgb (pixels : List UInt32) (size : Size) (inkPerMille : ℕ) :
    Option (Except String FrameDigest) :=
  let rows := size.height.toNat
  let width := size.width.toNat
  if rows = 0 ∨ width = 0 ∨ pixels.length < rows * width then
    some (.error (tooSmall pixels size))
  else do
    let stride := pixels.length / rows
    let fed ← hashLines width (chunks stride pixels)
    return .ok ⟨hash fed, size, inkPerMille⟩

end

/-- The pixels of the buffer that are on the glass, row by row. -/
def visible (pixels : List UInt32) (size : Size) : List (List UInt32) :=
  (List.range size.height.toNat).map fun y =>
    (pixels.drop (y * (pixels.length / size.height.toNat))).take size.width.toNat

/-- The bytes of a picture. -/
def pictureBytes (picture : List (List UInt32)) : List UInt8 :=
  picture.flatMap fun row => row.flatMap toLeBytes

/-- The buffer is digested whatever the hash: no panic, no refusal but of a frame without width, and
the digest is that of the visible pixels. -/
structure Digests (pixels : List UInt32) (size : Size) : Prop where
  returns : ∀ hash inkPerMille, ∃ answer,
    FrameDigest.ofArgb hash pixels size inkPerMille = some answer
  refused : ∀ hash inkPerMille message,
    FrameDigest.ofArgb hash pixels size inkPerMille = some (.error message) → size.width = 0
  digest : ∀ hash inkPerMille frame,
    FrameDigest.ofArgb hash pixels size inkPerMille = some (.ok frame) →
      frame = ⟨hash (pictureBytes (visible pixels size)), size, inkPerMille⟩

section

variable {width stride rows : ℕ} {pixels : List UInt32} {size : Size}

theorem slice_zero (line : List UInt32) (width : ℕ) :
    slice line 0 width = if width ≤ line.length then some (line.take width) else none := by
  simp [slice]

/-- Lines that are long enough are hashed. -/
theorem hashLines_eq {lines : List (List UInt32)} (h : ∀ line ∈ lines, width ≤ line.length) :
    hashLines width lines = some (pictureBytes (lines.map (·.take width))) := by
  induction lines with
  | nil => rfl
  | cons line rest ih =>
    rw [hashLines, slice_zero, if_pos (h line List.mem_cons_self),
      ih fun line hm => h line (List.mem_cons_of_mem _ hm)]
    rfl

/-- Every line that is hashed gives the bytes of a whole row. -/
theorem length_of_hashLines {lines : List (List UInt32)} {fed : List UInt8}
    (h : hashLines width lines = some fed) : fed.length = lines.length * (width * 4) := by
  induction lines generalizing fed with
  | nil =>
    obtain rfl := Option.some.inj h
    simp
  | cons line rest ih =>
    obtain ⟨row, hr, h⟩ := Option.bind_eq_some_iff.1 h
    obtain ⟨more, hm, h⟩ := Option.bind_eq_some_iff.1 h
    obtain rfl := Option.some.inj h
    rw [slice_zero] at hr
    split at hr
    · next hl =>
      obtain rfl := Option.some.inj hr
      rw [List.length_append, ih hm, List.length_cons, Nat.add_mul, Nat.one_mul, Nat.add_comm]
      simp [List.length_flatMap, toLeBytes, hl]
    · cases hr

/-- The rows of a picture of which every row is whole have as many bytes. -/
theorem length_pictureBytes {picture : List (List UInt32)}
    (h : ∀ row ∈ picture, row.length = width) :
    (pictureBytes picture).length = picture.length * (width * 4) := by
  induction picture with
  | nil => simp [pictureBytes]
  | cons row rest ih =>
    have hr := h row List.mem_cons_self
    have ih := ih fun row hm => h row (List.mem_cons_of_mem _ hm)
    rw [pictureBytes] at ih
    rw [pictureBytes, List.flatMap_cons, List.length_append, ih, List.length_cons, Nat.add_mul,
      Nat.one_mul, Nat.add_comm]
    simp [List.length_flatMap, toLeBytes, hr]

/-- A pixel is what its bytes are. -/
theorem toLeBytes_injective {a b : UInt32} (h : toLeBytes a = toLeBytes b) : a = b := by
  simp only [toLeBytes, List.cons.injEq, and_true] at h
  obtain ⟨h₀, h₁, h₂, h₃⟩ := h
  have h₀ := congrArg UInt8.toNat h₀
  have h₁ := congrArg UInt8.toNat h₁
  have h₂ := congrArg UInt8.toNat h₂
  have h₃ := congrArg UInt8.toNat h₃
  simp [UInt32.toNat_shiftRight, Nat.shiftRight_eq_div_pow] at h₀ h₁ h₂ h₃
  have ha := a.toNat_lt
  have hb := b.toNat_lt
  apply UInt32.toNat_inj.1
  omega

/-- A row is what its bytes are. -/
theorem row_eq_of_bytes {a b : List UInt32}
    (h : a.flatMap toLeBytes = b.flatMap toLeBytes) : a = b := by
  induction a generalizing b with
  | nil =>
    cases b with
    | nil => rfl
    | cons pixel rest => simp [toLeBytes] at h
  | cons pixel rest ih =>
    cases b with
    | nil => simp [toLeBytes] at h
    | cons pixel' rest' =>
      rw [List.flatMap_cons, List.flatMap_cons] at h
      obtain ⟨hp, hr⟩ := List.append_inj h rfl
      rw [toLeBytes_injective hp, ih hr]

/-- Two pictures of one shape with the same bytes are the same picture. -/
theorem picture_eq_of_bytes {a b : List (List UInt32)} (hl : a.length = b.length)
    (ha : ∀ row ∈ a, row.length = width) (hb : ∀ row ∈ b, row.length = width)
    (h : pictureBytes a = pictureBytes b) : a = b := by
  induction a generalizing b with
  | nil => exact (List.length_eq_zero_iff.1 hl.symm).symm
  | cons row rest ih =>
    cases b with
    | nil => cases hl
    | cons row' rest' =>
      have hr := ha row List.mem_cons_self
      have hr' := hb row' List.mem_cons_self
      rw [pictureBytes, pictureBytes, List.flatMap_cons, List.flatMap_cons] at h
      obtain ⟨hrow, hrest⟩ := List.append_inj h (by simp [List.length_flatMap, toLeBytes, hr, hr'])
      rw [row_eq_of_bytes hrow, ih (Nat.succ.inj hl)
        (fun row hm => ha row (List.mem_cons_of_mem _ hm))
        (fun row hm => hb row (List.mem_cons_of_mem _ hm)) hrest]

/-- The stride of a buffer that is long enough. -/
theorem le_stride (hr : 0 < rows) (hl : rows * width ≤ pixels.length) :
    width ≤ pixels.length / rows := by
  rw [Nat.le_div_iff_mul_le hr, Nat.mul_comm]
  exact hl

/-- A row within the buffer is as long as its stride. -/
theorem length_row {i : ℕ} (hi : i < rows) (hl : rows * stride ≤ pixels.length) :
    ((pixels.drop (i * stride)).take stride).length = stride := by
  have : (i + 1) * stride ≤ rows * stride := Nat.mul_le_mul_right _ hi
  rw [Nat.add_mul, Nat.one_mul] at this
  rw [List.length_take, List.length_drop]
  omega

/-- A buffer of whole rows falls into as many pieces. -/
theorem length_chunks_of_eq (hs : 0 < stride) (hl : pixels.length = rows * stride) :
    (pixels.length + stride - 1) / stride = rows := by
  rw [hl, Nat.add_sub_assoc hs, Nat.mul_comm, Nat.mul_add_div hs,
    Nat.div_eq_of_lt (Nat.sub_lt hs Nat.one_pos), Nat.add_zero]

/-- A buffer with more than its rows falls into more pieces. -/
theorem length_chunks_of_lt (hs : 0 < stride) (hl : rows * stride < pixels.length) :
    rows < (pixels.length + stride - 1) / stride := by
  rw [Nat.lt_iff_add_one_le, Nat.le_div_iff_mul_le hs, Nat.add_mul, Nat.one_mul]
  omega

theorem ofArgb_of_width_eq_zero (hash : List UInt8 → Sha256) (inkPerMille : ℕ)
    (hw : size.width.toNat = 0) :
    FrameDigest.ofArgb hash pixels size inkPerMille = some (.error (tooSmall pixels size)) := by
  rw [FrameDigest.ofArgb, if_pos (.inr (.inl hw))]

/-- What a buffer that is long enough is digested to. -/
theorem ofArgb_of_le (hash : List UInt8 → Sha256) (inkPerMille : ℕ)
    (hr : 0 < size.height.toNat) (hw : 0 < size.width.toNat)
    (hl : size.height.toNat * size.width.toNat ≤ pixels.length) :
    FrameDigest.ofArgb hash pixels size inkPerMille =
      (hashLines size.width.toNat (chunks (pixels.length / size.height.toNat) pixels)).bind
        fun fed => some (.ok ⟨hash fed, size, inkPerMille⟩) := by
  rw [FrameDigest.ofArgb, if_neg (by omega)]
  rfl

/-- A buffer of whole rows is hashed by its visible pixels. -/
theorem hashLines_of_mod_eq_zero (hr : 0 < size.height.toNat) (hw : 0 < size.width.toNat)
    (hl : size.height.toNat * size.width.toNat ≤ pixels.length)
    (hm : pixels.length % size.height.toNat = 0) :
    hashLines size.width.toNat (chunks (pixels.length / size.height.toNat) pixels) =
      some (pictureBytes (visible pixels size)) := by
  have hs := le_stride hr hl
  have hn : pixels.length = size.height.toNat * (pixels.length / size.height.toNat) :=
    (Nat.mul_div_cancel' (Nat.dvd_of_mod_eq_zero hm)).symm
  rw [chunks, length_chunks_of_eq (by omega) hn, hashLines_eq, List.map_map]
  · rw [visible]
    congr 2
    apply List.map_congr_left
    intro i _
    rw [Function.comp_apply, List.take_take, Nat.min_eq_left hs]
  · intro line hline
    obtain ⟨i, hi, rfl⟩ := List.mem_map.1 hline
    rw [length_row (List.mem_range.1 hi) hn.ge]
    exact hs

/-- A visible row is whole. -/
theorem length_visible (hr : 0 < size.height.toNat)
    (hl : size.height.toNat * size.width.toNat ≤ pixels.length) :
    ∀ row ∈ visible pixels size, row.length = size.width.toNat := by
  intro row hm
  obtain ⟨y, hy, rfl⟩ := List.mem_map.1 hm
  have hs := le_stride hr hl
  have := length_row (List.mem_range.1 hy) (Nat.mul_div_le pixels.length size.height.toNat)
  rw [List.length_take] at this ⊢
  omega

/-- A buffer with a rest after its rows is hashed with more bytes than are visible, if at all. -/
theorem lt_length_of_mod_ne_zero {fed : List UInt8} (hr : 0 < size.height.toNat)
    (hw : 0 < size.width.toNat) (hl : size.height.toNat * size.width.toNat ≤ pixels.length)
    (hm : pixels.length % size.height.toNat ≠ 0)
    (h : hashLines size.width.toNat (chunks (pixels.length / size.height.toNat) pixels) =
      some fed) : (pictureBytes (visible pixels size)).length < fed.length := by
  have hs := le_stride hr hl
  have hn : size.height.toNat * (pixels.length / size.height.toNat) < pixels.length := by
    have := Nat.div_add_mod pixels.length size.height.toNat
    omega
  have hc := length_chunks_of_lt (by omega) hn
  rw [length_of_hashLines h, length_pictureBytes (length_visible hr hl), chunks, visible,
    List.length_map, List.length_map, List.length_range, List.length_range]
  exact Nat.mul_lt_mul_of_pos_right hc (by omega)

/-- With a rest after its rows a buffer is not digested by its visible pixels. -/
theorem not_digests_of_mod_ne_zero (hr : 0 < size.height.toNat) (hw : 0 < size.width.toNat)
    (hl : size.height.toNat * size.width.toNat ≤ pixels.length)
    (hm : pixels.length % size.height.toNat ≠ 0) : ¬ Digests pixels size := by
  intro h
  rcases hh : hashLines size.width.toNat (chunks (pixels.length / size.height.toNat) pixels) with
    _ | fed
  · obtain ⟨answer, ha⟩ := h.returns (fun _ => Vector.replicate 32 0) 0
    rw [ofArgb_of_le _ _ hr hw hl, hh] at ha
    cases ha
  · have hlt := lt_length_of_mod_ne_zero hr hw hl hm hh
    -- A hash that tells the bytes that were fed from those that are visible.
    have hd := h.digest
      (fun bytes => Vector.replicate 32 (if bytes.length = fed.length then 1 else 0)) 0 _
      (by rw [ofArgb_of_le _ _ hr hw hl, hh]; rfl)
    have := congrArg (fun frame : FrameDigest => frame.digest.toList) hd
    simp [hlt.ne, List.replicate_succ] at this

/-- Two buffers that are digested, with the same visible pixels, have the same digest. -/
theorem Digests.eq_of_visible {pixels' : List UInt32} (h : Digests pixels size)
    (h' : Digests pixels' size) (hv : visible pixels size = visible pixels' size)
    {hash : List UInt8 → Sha256} {inkPerMille : ℕ} {frame frame' : FrameDigest}
    (hf : FrameDigest.ofArgb hash pixels size inkPerMille = some (.ok frame))
    (hf' : FrameDigest.ofArgb hash pixels' size inkPerMille = some (.ok frame')) :
    frame = frame' := by
  rw [h.digest _ _ _ hf, h'.digest _ _ _ hf', hv]

/-- Buffers with one digest have the same visible pixels, unless the hash collides on them. -/
theorem Digests.visible_of_eq {pixels' : List UInt32} (h : Digests pixels size)
    (h' : Digests pixels' size) (hr : 0 < size.height.toNat)
    (hl : size.height.toNat * size.width.toNat ≤ pixels.length)
    (hl' : size.height.toNat * size.width.toNat ≤ pixels'.length)
    {hash : List UInt8 → Sha256} {inkPerMille : ℕ} {frame : FrameDigest}
    (hi : hash (pictureBytes (visible pixels size)) = hash (pictureBytes (visible pixels' size)) →
      pictureBytes (visible pixels size) = pictureBytes (visible pixels' size))
    (hf : FrameDigest.ofArgb hash pixels size inkPerMille = some (.ok frame))
    (hf' : FrameDigest.ofArgb hash pixels' size inkPerMille = some (.ok frame)) :
    visible pixels size = visible pixels' size := by
  have he := (h.digest _ _ _ hf).symm.trans (h'.digest _ _ _ hf')
  refine picture_eq_of_bytes ?_ (length_visible hr hl) (length_visible hr hl')
    (hi (congrArg FrameDigest.digest he))
  rw [visible, visible, List.length_map, List.length_map]

end

/-- A buffer with at least the pixels of its frame is digested by the visible ones just if the frame
has no width, or the buffer is of whole rows. -/
theorem digests_iff (pixels : List UInt32) (size : Size) (hr : 0 < size.height.toNat)
    (hl : size.height.toNat * size.width.toNat ≤ pixels.length) :
    Digests pixels size ↔ size.width.toNat = 0 ∨ pixels.length % size.height.toNat = 0 := by
  rcases Nat.eq_zero_or_pos size.width.toNat with hw | hw
  · refine iff_of_true ⟨fun hash ink => ⟨_, ofArgb_of_width_eq_zero hash ink hw⟩,
      fun hash ink message hf => UInt32.toNat_inj.1 hw, fun hash ink frame hf => ?_⟩ (.inl hw)
    rw [ofArgb_of_width_eq_zero hash ink hw] at hf
    cases hf
  · constructor
    · intro h
      by_contra hn
      exact not_digests_of_mod_ne_zero hr hw hl (by omega) h
    · intro h
      have hm : pixels.length % size.height.toNat = 0 := by omega
      have hf : ∀ hash ink, FrameDigest.ofArgb hash pixels size ink =
          some (.ok ⟨hash (pictureBytes (visible pixels size)), size, ink⟩) := by
        intro hash ink
        rw [ofArgb_of_le _ _ hr hw hl, hashLines_of_mod_eq_zero hr hw hl hm]
        rfl
      refine ⟨fun hash ink => ⟨_, hf hash ink⟩, fun hash ink message h => ?_,
        fun hash ink frame h => ?_⟩
      · rw [hf] at h
        cases h
      · rw [hf] at h
        exact (Except.ok.inj (Option.some.inj h)).symm

/-- Two rows of one pixel, padded to a stride of two. -/
theorem digests_padded : Digests [1, 9, 2, 9] ⟨1, 2⟩ :=
  (digests_iff [1, 9, 2, 9] ⟨1, 2⟩ (by decide) (by decide)).2 (.inr (by decide))

/-- Two rows of two pixels with one pixel after them: the piece after the rows is too short. -/
theorem trailing_pixel_panics : ¬ Digests [1, 2, 3, 4, 9] ⟨2, 2⟩ := by
  intro h
  obtain ⟨answer, ha⟩ := h.returns (fun _ => Vector.replicate 32 0) 0
  have hn : FrameDigest.ofArgb (fun _ => Vector.replicate 32 0) [1, 2, 3, 4, 9] ⟨2, 2⟩ 0 = none :=
    by decide
  rw [hn] at ha
  cases ha

end Paperclip.Device
