import Paperclip.Packages.Archive

/-!
# Bounded decoding

An archive is a gzipped tar, read through two bounds: one on the compressed bytes, in front of the
decompression, and one on what the decompression makes of them, in front of the tar reader.

* `BoundedReader.next`: one read; a reader hands on no more than its limit, and none of what it read
  past it. `BoundedReader.Reads`: reading to the end, whatever the sizes of the reads.
* `Codec`: the two decoders. They are parameters: what an attacker can make them say is any stream.
* `Codec.Decodes`: the streams that the bounded decoders can make of an archive.
-/

namespace Paperclip.Packages

open Files

/-- Bytes, and the error that they may end with. -/
structure ByteStream where
  bytes : Bytes
  ending : Option IoError

namespace ByteStream

/-- A read that gives `n` bytes, as far as they are there. -/
def read (s : ByteStream) (n : Nat) : Except IoError Bytes × ByteStream :=
  if s.bytes = [] then
    match s.ending with
    | some e => (.error e, s)
    | none => (.ok [], s)
  else (.ok (s.bytes.take n), ⟨s.bytes.drop n, s.ending⟩)

variable {s s' : ByteStream} {n : Nat} {bytes : Bytes}

theorem read_ok (h : s.read n = (.ok bytes, s')) :
    s.bytes = bytes ++ s'.bytes ∧ s'.ending = s.ending := by
  unfold read at h
  split at h
  · split at h
    · cases h
    · cases h
      exact ⟨rfl, rfl⟩
  · cases h
    exact ⟨(List.take_append_drop n _).symm, rfl⟩

/-- A read that finds nothing is at the end. -/
theorem read_nil (hn : 0 < n) (h : s.read n = (.ok [], s')) : s = ⟨[], none⟩ := by
  obtain ⟨bytes, ending⟩ := s
  unfold read at h
  split at h
  · next hb =>
    cases ending with
    | some e => cases h
    | none => rw [show bytes = [] from hb]
  · next hb =>
    have htake := Except.ok.inj (Prod.mk.inj h).1
    rcases List.take_eq_nil_iff.mp htake with hzero | hnil
    · omega
    · exact absurd hnil hb

theorem read_error {e : IoError} (h : s.read n = (.error e, s')) : s = ⟨[], some e⟩ := by
  obtain ⟨bytes, ending⟩ := s
  unfold read at h
  split at h
  · next hb =>
    cases ending with
    | some e =>
      cases h
      rw [show bytes = [] from hb]
    | none => cases h
  · cases h

end ByteStream

/-- A reader that stops once its source has produced more than `limit` bytes, with `tooFar`. `read`
counts what it read. -/
structure BoundedReader where
  inner : ByteStream
  read : Nat
  limit : Nat
  tooFar : IoError

/-- The reader of the compressed bytes, without the digest it takes of them. -/
def MeasuredReader.new (inner : ByteStream) (limit : Nat) : BoundedReader where
  inner
  read := 0
  limit
  tooFar := .other s!"input exceeds the {limit} byte limit"

/-- The reader of what a decompression produces. -/
def LimitedReader.new (inner : ByteStream) (limit : Nat) : BoundedReader where
  inner
  read := 0
  limit
  tooFar := .other s!"the package expands past its {limit} byte limit"

namespace BoundedReader

/-- One read into a buffer of `buf` bytes, of which the source has `ready` at once. -/
def next (r : BoundedReader) (buf ready : Nat) : Except IoError Bytes × BoundedReader :=
  if r.limit < r.read then (.error r.tooFar, r)
  else
    let room := r.limit + 1 - r.read
    match r.inner.read (min ready (min buf room)) with
    | (.error e, inner) => (.error e, { r with inner })
    | (.ok bytes, inner) =>
      let read := r.read + bytes.length
      if r.limit < read then (.error r.tooFar, { r with inner, read })
      else (.ok bytes, { r with inner, read })

/-- Reading to the end, or to the first error, hands on `out`. -/
inductive Reads : BoundedReader → ByteStream → Prop
  | ended {r r' : BoundedReader} {buf ready : Nat} (hbuf : 0 < buf) (hready : 0 < ready)
      (h : r.next buf ready = (.ok [], r')) : Reads r ⟨[], none⟩
  | failed {r r' : BoundedReader} {buf ready : Nat} {e : IoError}
      (h : r.next buf ready = (.error e, r')) : Reads r ⟨[], some e⟩
  | more {r r' : BoundedReader} {buf ready : Nat} {bytes : Bytes} {out : ByteStream}
      (h : r.next buf ready = (.ok bytes, r')) (hrest : Reads r' out) :
      Reads r ⟨bytes ++ out.bytes, out.ending⟩

variable {r r' : BoundedReader} {buf ready : Nat} {bytes : Bytes} {out : ByteStream}

/-- What a read that succeeds takes from the source. -/
theorem next_ok (h : r.next buf ready = (.ok bytes, r')) :
    r.inner.bytes = bytes ++ r'.inner.bytes ∧ r'.inner.ending = r.inner.ending ∧
      r'.read = r.read + bytes.length ∧ r'.limit = r.limit ∧ r'.read ≤ r'.limit := by
  unfold next at h
  split at h
  · cases h
  dsimp only at h
  split at h
  · cases h
  next got inner hread =>
  obtain ⟨hbytes, hending⟩ := ByteStream.read_ok hread
  split at h
  · cases h
  · next hle =>
    cases h
    exact ⟨hbytes, hending, rfl, rfl, not_lt.mp hle⟩

/-- A read that finds nothing is at the end of the source. -/
theorem next_nil (hbuf : 0 < buf) (hready : 0 < ready) (h : r.next buf ready = (.ok [], r')) :
    r.inner = ⟨[], none⟩ := by
  unfold next at h
  split at h
  · cases h
  next hle =>
  dsimp only at h
  split at h
  · cases h
  next got inner hread =>
  split at h
  · cases h
  · cases h
    exact ByteStream.read_nil (by omega) hread

/-- A read fails where the source does, or past the limit. -/
theorem next_error {e : IoError} (h : r.next buf ready = (.error e, r')) :
    r.inner = ⟨[], some e⟩ ∨ r.limit < r.read + r.inner.bytes.length := by
  unfold next at h
  split at h
  · exact .inr (by omega)
  dsimp only at h
  split at h
  · next hread =>
    cases h
    exact .inl (ByteStream.read_error hread)
  next got inner hread =>
  split at h
  · next hlt =>
    rw [(ByteStream.read_ok hread).1, List.length_append]
    exact .inr (by omega)
  · cases h

/-- What a reader hands on is what its source starts with, within the limit. -/
theorem Reads.bounded (h : Reads r out) (hr : r.read ≤ r.limit) :
    out.bytes <+: r.inner.bytes ∧ r.read + out.bytes.length ≤ r.limit := by
  induction h with
  | ended | failed => exact ⟨List.nil_prefix, hr⟩
  | more h hrest ih =>
    obtain ⟨hbytes, -, hread, hlimit, hle⟩ := next_ok h
    obtain ⟨hstart, hout⟩ := ih hle
    rw [hbytes, List.length_append]
    exact ⟨(List.prefix_append_right_inj _).mpr hstart, by omega⟩

/-- A source within the limit is handed on whole. -/
theorem Reads.eq (h : Reads r out) (hr : r.read + r.inner.bytes.length ≤ r.limit) :
    out = r.inner := by
  induction h with
  | ended hbuf hready h => exact (next_nil hbuf hready h).symm
  | failed h =>
    rcases next_error h with hinner | hfar
    · exact hinner.symm
    · omega
  | @more r r' buf ready bytes out h hrest ih =>
    obtain ⟨hbytes, hending, hread, hlimit, -⟩ := next_ok h
    have hout := ih (by rw [hbytes, List.length_append] at hr; omega)
    cases hinner : r.inner with
    | mk whole ending =>
      rw [hinner] at hbytes hending
      rw [hout, hending, ← hbytes]

/-- A source within the limit can be read to its end. -/
theorem reads_inner (hr : r.read + r.inner.bytes.length ≤ r.limit) : r.Reads r.inner := by
  have hend : ∀ r : BoundedReader, r.read ≤ r.limit → r.inner.bytes = [] → r.Reads r.inner := by
    rintro ⟨⟨bytes, ending⟩, read, limit, tooFar⟩ hle rfl
    have hlt : ¬ limit < read := not_lt.mpr hle
    cases ending with
    | none =>
      have hnext : next ⟨⟨[], none⟩, read, limit, tooFar⟩ 1 1 =
          (.ok [], ⟨⟨[], none⟩, read, limit, tooFar⟩) := by
        simp [next, ByteStream.read, hlt]
      exact .ended Nat.one_pos Nat.one_pos hnext
    | some e =>
      have hnext : next ⟨⟨[], some e⟩, read, limit, tooFar⟩ 1 1 =
          (.error e, ⟨⟨[], some e⟩, read, limit, tooFar⟩) := by
        simp [next, ByteStream.read, hlt]
      exact .failed hnext
  obtain ⟨⟨bytes, ending⟩, read, limit, tooFar⟩ := r
  by_cases hb : bytes = []
  · exact hend _ (by omega) hb
  · -- one read takes everything
    have hall : min bytes.length (min bytes.length (limit + 1 - read)) = bytes.length := by
      dsimp only at hr
      omega
    have hnext : next ⟨⟨bytes, ending⟩, read, limit, tooFar⟩ bytes.length bytes.length =
        (.ok bytes, ⟨⟨[], ending⟩, read + bytes.length, limit, tooFar⟩) := by
      dsimp only at hr
      simp only [next, ByteStream.read, hall, if_neg hb, List.take_length, List.drop_length]
      rw [if_neg (by omega), if_neg (by omega)]
    have hrest := hend ⟨⟨[], ending⟩, read + bytes.length, limit, tooFar⟩ hr rfl
    have hmore := Reads.more hnext hrest
    rwa [List.append_nil] at hmore

end BoundedReader

/-- The decoders of an archive. The contents of the entries are parts of the stream they are in. -/
structure Codec where
  gunzip : ByteStream → ByteStream
  untar : ByteStream → TarStream
  fits : ∀ s, ((untar s).entries.map fun entry => entry.available.length).sum ≤ s.bytes.length

namespace Codec

variable {codec : Codec} {limits : ArchiveLimits} {archive : ByteStream} {stream : TarStream}

/-- `stream` is what the decoders make of an archive that they read through the two bounds. -/
def Decodes (codec : Codec) (limits : ArchiveLimits) (archive : ByteStream)
    (stream : TarStream) : Prop :=
  ∃ compressed uncompressed,
    (MeasuredReader.new archive limits.compressedBytes).Reads compressed ∧
    (LimitedReader.new (codec.gunzip compressed) limits.uncompressedBytes).Reads uncompressed ∧
    stream = codec.untar uncompressed

/-- However an archive expands, the contents of its entries are within the bound. -/
theorem Decodes.fits (h : codec.Decodes limits archive stream) :
    (stream.entries.map fun entry => entry.available.length).sum ≤ limits.uncompressedBytes := by
  obtain ⟨compressed, uncompressed, -, hreads, rfl⟩ := h
  have hle := (hreads.bounded (Nat.zero_le _)).2
  rw [show (LimitedReader.new (codec.gunzip compressed) limits.uncompressedBytes).read = 0 from rfl,
    Nat.zero_add] at hle
  exact (codec.fits uncompressed).trans hle

/-- An archive within the bounds is decoded whole. -/
theorem Decodes.eq (h : codec.Decodes limits archive stream)
    (hcompressed : archive.bytes.length ≤ limits.compressedBytes)
    (huncompressed : (codec.gunzip archive).bytes.length ≤ limits.uncompressedBytes) :
    stream = codec.untar (codec.gunzip archive) := by
  obtain ⟨compressed, uncompressed, hcompress, hreads, rfl⟩ := h
  have hwhole : compressed = archive := hcompress.eq ((Nat.zero_add _).trans_le hcompressed)
  subst hwhole
  rw [hreads.eq ((Nat.zero_add _).trans_le huncompressed)]
  rfl

/-- An archive within the bounds can be decoded. -/
theorem decodes (codec : Codec) (hcompressed : archive.bytes.length ≤ limits.compressedBytes)
    (huncompressed : (codec.gunzip archive).bytes.length ≤ limits.uncompressedBytes) :
    codec.Decodes limits archive (codec.untar (codec.gunzip archive)) :=
  ⟨archive, codec.gunzip archive,
    BoundedReader.reads_inner (r := MeasuredReader.new archive limits.compressedBytes)
      ((Nat.zero_add _).trans_le hcompressed),
    BoundedReader.reads_inner
      (r := LimitedReader.new (codec.gunzip archive) limits.uncompressedBytes)
      ((Nat.zero_add _).trans_le huncompressed), rfl⟩

/-- The decoders as far as one archive goes, with `tar` compressed in it and `entries` in that. -/
def knowing (archive tar : Bytes) (entries : List TarEntry)
    (h : (entries.map fun entry => entry.available.length).sum ≤ tar.length) : Codec where
  gunzip s :=
    if s.bytes = archive then ⟨tar, s.ending⟩ else ⟨[], some (.other "invalid gzip header")⟩
  untar s :=
    if s.bytes = tar then ⟨entries, s.ending⟩
    else ⟨[], some (.other "failed to read entire block")⟩
  fits s := by
    split
    · next hs => rwa [hs]
    · exact Nat.zero_le _

theorem gunzip_knowing (archive : Bytes) {tar : Bytes} {entries : List TarEntry} (h) :
    (knowing archive tar entries h).gunzip ⟨archive, none⟩ = ⟨tar, none⟩ := by
  simp [knowing]

theorem untar_knowing {archive tar : Bytes} {entries : List TarEntry} (h) :
    (knowing archive tar entries h).untar ((knowing archive tar entries h).gunzip ⟨archive, none⟩) =
      ⟨entries, none⟩ := by
  simp [knowing]

theorem decodes_knowing {archive tar : Bytes} {entries : List TarEntry} (h)
    (hcompressed : archive.length ≤ limits.compressedBytes)
    (huncompressed : tar.length ≤ limits.uncompressedBytes) :
    (knowing archive tar entries h).Decodes limits ⟨archive, none⟩ ⟨entries, none⟩ := by
  have hgunzip := gunzip_knowing archive h
  rw [← untar_knowing h]
  exact decodes _ hcompressed (by rwa [hgunzip])

end Codec

/-! ## The tar format, as far as it is needed for an archive of a few small files -/

/-- A text as bytes, one for each of its characters. -/
def ascii (text : String) : Bytes := text.toList.map fun c : Char => c.toNat.toUInt8

/-- A field of a tar header, or the content of a file in blocks of its own. -/
def tarField (bytes : Bytes) (width : Nat) : Bytes := (bytes ++ List.replicate width 0).take width

@[simp] theorem length_tarField (bytes : Bytes) (width : Nat) :
    (tarField bytes width).length = width := by
  simp [tarField]

/-- The header of a regular file. -/
def tarHeader (name mode size checksum : String) : Bytes :=
  tarField (ascii name) 100 ++ tarField (ascii mode) 8 ++ tarField (ascii "0000000") 8 ++
    tarField (ascii "0000000") 8 ++ tarField (ascii size) 12 ++ tarField (ascii "00000000000") 12 ++
    tarField (ascii checksum) 8 ++ tarField (ascii "0") 1 ++ tarField [] 100 ++
    tarField (ascii "ustar  ") 8 ++ tarField [] 247

@[simp] theorem length_tarHeader (name mode size checksum : String) :
    (tarHeader name mode size checksum).length = 512 := by
  simp [tarHeader]

end Paperclip.Packages
