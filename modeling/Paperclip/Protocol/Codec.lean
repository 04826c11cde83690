import Mathlib.Algebra.Group.Nat.Defs
import Mathlib.Data.List.Forall2
import Paperclip.Protocol.Message
import Paperclip.Wire.Framing
import Paperclip.Wire.Source

/-!
# Framing of messages

A frame is a four-byte little-endian length followed by that many bytes of JSON.

* `encode`, `writeMessage`, `readMessage`: the codec. How a message is written as JSON is a
  parameter, `BodyCodec`. A `Reader` remembers the buffers it allocated.
* `readMessage_eq`: what a read answers depends on the bytes that are going to arrive, not on how
  they arrive.
* `RoundTrips`: what was written is read back, however the bytes arrive and wherever they end.
* `framing_round_trip`, `roundTrips_iff`: so it is just if the body of each message is.
-/

namespace Paperclip.Protocol

open Wire

abbrev Bytes := List UInt8

/-- Bytes of length prefix in front of every frame. -/
def LENGTH_PREFIX_BYTES : Nat := 4

/-- Why a frame could not be read or written. -/
inductive CodecError where
  | closed
  | tooLarge (len max : Nat)
  | truncated (read expected : Nat)
  | malformed
  | encode
  | io
  deriving DecidableEq, Repr

/-- How messages are written as JSON, and read. -/
structure BodyCodec (M : Type*) where
  toVec : M → Option Bytes
  fromSlice : Bytes → Option M

/-- Whether a message is read back from its body. -/
def BodyCodec.Keeps {M : Type*} (c : BodyCodec M) (m : M) : Prop :=
  ∀ body, c.toVec m = some body → c.fromSlice body = some m

/-- The four bytes of a `u32`, the low one first. -/
def toLeBytes (n : Nat) : Bytes :=
  [.ofNat n, .ofNat (n / 256), .ofNat (n / 65536), .ofNat (n / 16777216)]

/-- The number that little-endian bytes stand for. -/
def fromLeBytes (bytes : Bytes) : Nat := bytes.foldr (fun b n => b.toNat + 256 * n) 0

theorem fromLeBytes_toLeBytes {n : Nat} (h : n < 2 ^ 32) : fromLeBytes (toLeBytes n) = n := by
  simp only [fromLeBytes, toLeBytes, List.foldr_cons, List.foldr_nil, UInt8.toNat_ofNat']
  omega

/-- The frames of the protocol. -/
def frames : Framing UInt8 where
  width := LENGTH_PREFIX_BYTES
  limit := MAX_MESSAGE_BYTES
  header := toLeBytes
  length := fromLeBytes
  width_pos := by decide
  header_length _ := rfl
  length_header n h := fromLeBytes_toLeBytes (Nat.lt_of_le_of_lt h (by decide))

section Codec

variable {M : Type*} (c : BodyCodec M)

/-- The body of a message. -/
def encode (message : M) : Except CodecError Bytes :=
  match c.toVec message with
  | none => .error .encode
  | some body =>
    if body.length > MAX_MESSAGE_BYTES then .error (.tooLarge body.length MAX_MESSAGE_BYTES)
    else .ok body

/-- The message of a body. -/
def decode (body : Bytes) : Except CodecError M :=
  match c.fromSlice body with
  | none => .error .malformed
  | some message => .ok message

/-- Write one framed message, the prefix and the body in one write. -/
def writeMessage (writer : Sink UInt8) (message : M) : Except CodecError Unit × Sink UInt8 :=
  match encode c message with
  | .error e => (.error e, writer)
  | .ok body =>
    match writer.send (toLeBytes body.length ++ body) with
    | (true, writer) => (.ok (), writer)
    | (false, writer) => (.error .io, writer)

/-- Write messages until one is refused. -/
def writeMessages (writer : Sink UInt8) : List M → Except CodecError Unit × Sink UInt8
  | [] => (.ok (), writer)
  | message :: rest =>
    match writeMessage c writer message with
    | (.error e, writer) => (.error e, writer)
    | (.ok (), writer) => writeMessages writer rest

/-- Fill a buffer of `len` bytes, of which `filled` are there. It is shorter if the end comes
first. -/
def readExactOrEof (len : Nat) (source : Source UInt8) (filled : Bytes) :
    Except CodecError Bytes × Source UInt8 :=
  if filled.length < len then
    match _h : source.read (len - filled.length) with
    | (.ok [], source) => (.ok filled, source)
    | (.ok (b :: bs), source) => readExactOrEof len source (filled ++ b :: bs)
    | (.interrupted, source) => readExactOrEof len source filled
    | (.failed, source) => (.error .io, source)
  else (.ok filled, source)
termination_by source.size
decreasing_by
  · exact Source.size_read (List.cons_ne_nil b bs) _h
  · exact Source.size_interrupted _h

/-- A reader, and the sizes of the buffers that were allocated to read from it. -/
structure Reader where
  source : Source UInt8
  buffers : List Nat := []

/-- Read one framed message. -/
def readMessage (reader : Reader) : Except CodecError M × Reader :=
  match readExactOrEof LENGTH_PREFIX_BYTES reader.source [] with
  | (.error e, source) => (.error e, { reader with source })
  | (.ok header, source) =>
    if header.length = 0 then (.error .closed, { reader with source })
    else if header.length < LENGTH_PREFIX_BYTES then
      (.error (.truncated header.length LENGTH_PREFIX_BYTES), { reader with source })
    else
      let len := fromLeBytes header
      if len > MAX_MESSAGE_BYTES then
        (.error (.tooLarge len MAX_MESSAGE_BYTES), { reader with source })
      else
        let buffers := reader.buffers ++ [len]
        match readExactOrEof len source [] with
        | (.error e, source) => (.error e, { source, buffers })
        | (.ok body, source) =>
          if body.length < len then (.error (.truncated body.length len), { source, buffers })
          else (decode c body, { source, buffers })

/-- Read `n` times. -/
def readMessages : Nat → Reader → List (Except CodecError M) × Reader
  | 0, reader => ([], reader)
  | n + 1, reader =>
    let first := readMessage c reader
    let others := readMessages n first.2
    (first.1 :: others.1, others.2)

end Codec

/-! ## What is written -/

section Writing

variable {M : Type*} {c : BodyCodec M}

theorem encode_ok {m : M} {body : Bytes} (h : encode c m = .ok body) :
    c.toVec m = some body ∧ body.length ≤ MAX_MESSAGE_BYTES := by
  unfold encode at h
  split at h
  · simp at h
  split at h
  · simp at h
  next body' hbody hlen =>
    rw [Except.ok.injEq] at h
    subst h
    exact ⟨hbody, by omega⟩

theorem decode_ok {m : M} {body : Bytes} : decode c body = .ok m ↔ c.fromSlice body = some m := by
  unfold decode
  split
  · next hbody => simp [hbody]
  · next m' hbody => simp [hbody]

/-- What is encoded is decoded just if the message is read back from its body. -/
theorem keeps_iff {m : M} {body : Bytes} (h : encode c m = .ok body) :
    c.Keeps m ↔ decode c body = .ok m := by
  have hbody := (encode_ok h).1
  rw [decode_ok]
  refine ⟨fun hk => hk body hbody, fun hd body' hbody' => ?_⟩
  rw [hbody] at hbody'
  cases hbody'
  exact hd

theorem writeMessage_ok {s s' : Sink UInt8} {m : M} (h : writeMessage c s m = (.ok (), s')) :
    ∃ body, encode c m = .ok body ∧ s'.written = s.written ++ frames.frame body := by
  unfold writeMessage at h
  split at h
  · simp at h
  next body hbody =>
    split at h
    · next hsend =>
      rw [Prod.mk.injEq] at h
      exact ⟨body, hbody, by rw [← h.2, Sink.send_true hsend]; rfl⟩
    · simp at h

/-- What was written are the frames of the bodies. -/
theorem writeMessages_ok {s s' : Sink UInt8} {ms : List M}
    (h : writeMessages c s ms = (.ok (), s')) :
    ∃ bodies, List.Forall₂ (fun m body => encode c m = .ok body) ms bodies ∧
      s'.written = s.written ++ frames.stream bodies := by
  induction ms generalizing s with
  | nil =>
    rw [writeMessages, Prod.mk.injEq] at h
    exact ⟨[], .nil, by rw [← h.2]; simp⟩
  | cons m ms ih =>
    rw [writeMessages] at h
    split at h
    · simp at h
    next s₁ hm =>
      obtain ⟨body, hbody, hs₁⟩ := writeMessage_ok hm
      obtain ⟨bodies, hbodies, hs'⟩ := ih h
      exact ⟨body :: bodies, .cons hbody hbodies, by rw [hs', hs₁]; simp⟩

/-- Each message that was written could be encoded. -/
theorem encoded_of_mem {s s' : Sink UInt8} {ms : List M}
    (h : writeMessages c s ms = (.ok (), s')) {m : M} (hm : m ∈ ms) :
    ∃ body, encode c m = .ok body := by
  obtain ⟨bodies, hbodies, -⟩ := writeMessages_ok h
  clear h
  induction hbodies with
  | nil => cases hm
  | cons hencode _ ih =>
    rcases List.mem_cons.1 hm with rfl | hm
    · exact ⟨_, hencode⟩
    · exact ih hm

/-- A writer that never fails writes every message that can be encoded. -/
theorem writeMessages_of_encode {ms : List M} {bodies : List Bytes}
    (h : List.Forall₂ (fun m body => encode c m = .ok body) ms bodies) (written : Bytes) :
    writeMessages c ⟨written, []⟩ ms = (.ok (), ⟨written ++ frames.stream bodies, []⟩) := by
  induction h generalizing written with
  | nil => simp [writeMessages]
  | cons hm _ ih =>
    simp only [writeMessages, writeMessage, hm, Sink.send, List.tail_nil, ih]
    simp [Framing.frame, frames]

end Writing

/-! ## What is read -/

section Reading

variable {M : Type*} {c : BodyCodec M}

/-- The loop fills the buffer from the front of what is going to arrive. -/
theorem readExactOrEof_eq {len : Nat} {source : Source UInt8} (hs : source.Intact)
    {b : Bytes} (hlen : b.length ≤ len) :
    ∃ source', readExactOrEof len source b
        = (.ok (b ++ source.items.take (len - b.length)), source') ∧
      source'.Intact ∧ source'.items = source.items.drop (len - b.length) := by
  fun_induction readExactOrEof len source b with
  | case1 source filled hlt s h =>
    obtain ⟨rfl, rfl⟩ := Source.read_end (by omega) h
    exact ⟨[], by simp, hs, by simp⟩
  | case2 source filled hlt b bs s h ih =>
    obtain ⟨hitems, hroom⟩ := Source.read_ok h
    have hfilled : (filled ++ b :: bs).length = filled.length + (b :: bs).length :=
      List.length_append
    obtain ⟨s', heq, hs', hrest⟩ := ih (Source.Intact.read hs h).2 (by omega)
    refine ⟨s', ?_, hs', ?_⟩
    · rw [heq, hitems, List.take_append, List.take_of_length_le hroom, hfilled, Nat.sub_add_eq,
        List.append_assoc]
    · rw [hrest, hitems, List.drop_append, List.drop_of_length_le hroom, hfilled, Nat.sub_add_eq,
        List.nil_append]
  | case3 source filled hlt s h ih =>
    obtain ⟨s', heq, hs', hrest⟩ := ih (Source.Intact.read hs h).2 hlen
    rw [Source.read_interrupted h]
    exact ⟨s', heq, hs', hrest⟩
  | case4 source filled hlt s h => exact absurd rfl (Source.Intact.read hs h).1
  | case5 source filled hge =>
    have : len - filled.length = 0 := by omega
    exact ⟨source, by simp [this], hs, by simp [this]⟩

/-- What a reader answers for what stands at the head of the bytes. -/
def answer (c : BodyCodec M) : Head UInt8 → Except CodecError M
  | .frame body _ => decode c body
  | .tooLarge len _ => .error (.tooLarge len MAX_MESSAGE_BYTES)
  | .header 0 => .error .closed
  | .header (read + 1) => .error (.truncated (read + 1) LENGTH_PREFIX_BYTES)
  | .body read expected => .error (.truncated read expected)

/-- What a read answers depends only on the bytes that are going to arrive. -/
theorem readMessage_eq {reader : Reader} (hs : reader.source.Intact) :
    (readMessage c reader).1 = answer c (frames.head reader.source.items) ∧
      (readMessage c reader).2.source.Intact ∧
      (readMessage c reader).2.source.items = (frames.head reader.source.items).rest := by
  obtain ⟨source, hheader, hsource, hitems⟩ :=
    readExactOrEof_eq hs (Nat.zero_le LENGTH_PREFIX_BYTES) (b := [])
  simp only [List.length_nil, Nat.sub_zero, List.nil_append] at hheader hitems
  have hwidth : frames.width = LENGTH_PREFIX_BYTES := rfl
  have hpos : 0 < LENGTH_PREFIX_BYTES := by decide
  have hlen : (reader.source.items.take LENGTH_PREFIX_BYTES).length
      = min LENGTH_PREFIX_BYTES reader.source.items.length := List.length_take
  simp only [readMessage, hheader, Framing.head, hwidth]
  by_cases hshort : reader.source.items.length < LENGTH_PREFIX_BYTES
  · -- The header is cut, or nothing is there at all.
    have htake : reader.source.items.take LENGTH_PREFIX_BYTES = reader.source.items :=
      List.take_of_length_le (Nat.le_of_lt hshort)
    have hrest : source.items = [] := by rw [hitems, List.drop_of_length_le (Nat.le_of_lt hshort)]
    rw [htake, if_pos hshort]
    split
    · next hzero => exact ⟨by rw [hzero]; rfl, hsource, hrest⟩
    · next hne =>
      obtain ⟨n, hn⟩ := Nat.exists_eq_succ_of_ne_zero hne
      exact ⟨by rw [hn]; rfl, hsource, hrest⟩
  rw [if_neg (by omega), if_neg (by omega), if_neg hshort]
  have hlimit : frames.limit = MAX_MESSAGE_BYTES := rfl
  have hlength : frames.length = fromLeBytes := rfl
  simp only [hlimit, hlength]
  split
  · exact ⟨rfl, hsource, hitems⟩
  next hle =>
  rw [← hitems]
  generalize fromLeBytes (reader.source.items.take LENGTH_PREFIX_BYTES) = len
  obtain ⟨source', hbody, hsource', hitems'⟩ :=
    readExactOrEof_eq hsource (Nat.zero_le len) (b := [])
  simp only [List.length_nil, Nat.sub_zero, List.nil_append] at hbody hitems'
  simp only [hbody, List.length_take]
  by_cases hcut : source.items.length < len
  · rw [if_pos (by omega), if_pos hcut, Nat.min_eq_right (Nat.le_of_lt hcut)]
    exact ⟨rfl, hsource', by rw [hitems', List.drop_of_length_le (Nat.le_of_lt hcut)]; rfl⟩
  · rw [if_neg (by omega), if_neg hcut]
    exact ⟨rfl, hsource', hitems'⟩

theorem readMessages_add (n k : Nat) (reader : Reader) :
    (readMessages c (n + k) reader).1 =
      (readMessages c n reader).1 ++ (readMessages c k (readMessages c n reader).2).1 := by
  induction n generalizing reader with
  | zero => simp [readMessages]
  | succ n ih => rw [Nat.add_right_comm, readMessages, readMessages, ih, List.cons_append]

/-- The frames that a stream passes are read one after the other. -/
theorem readMessages_passes {r : Reader} {bs : List Bytes} {rest : Bytes}
    (hs : r.source.Intact) (h : frames.Passes bs r.source.items rest) :
    (readMessages c bs.length r).1 = bs.map (decode c) ∧
      (readMessages c bs.length r).2.source.Intact ∧
      (readMessages c bs.length r).2.source.items = rest := by
  generalize hitems : r.source.items = items at h
  induction h generalizing r with
  | nil s => exact ⟨rfl, hs, hitems⟩
  | cons head _ ih =>
    obtain ⟨hanswer, hs', hrest⟩ := readMessage_eq (c := c) hs
    rw [hitems, head] at hanswer hrest
    obtain ⟨hothers, hs'', hafter⟩ := ih hs' hrest
    refine ⟨?_, hs'', hafter⟩
    rw [List.length_cons, readMessages, hanswer, hothers, List.map_cons, answer]

/-- Once the end was found it is found again. -/
theorem readMessages_closed {reader : Reader} (hs : reader.source.Intact)
    (hitems : reader.source.items = []) (k : Nat) :
    (readMessages c k reader).1 = List.replicate k (.error .closed) := by
  induction k generalizing reader with
  | zero => rfl
  | succ k ih =>
    obtain ⟨hanswer, hs', hrest⟩ := readMessage_eq (c := c) hs
    rw [hitems, Framing.head_nil] at hanswer hrest
    rw [readMessages, hanswer, ih hs' hrest, answer, List.replicate_succ]

/-- No buffer is allocated that is larger than the limit, whatever arrives. -/
theorem readMessage_buffers (reader : Reader) :
    ∃ new, (readMessage c reader).2.buffers = reader.buffers ++ new ∧
      ∀ b ∈ new, b ≤ MAX_MESSAGE_BYTES := by
  have hnone : ∃ new, reader.buffers = reader.buffers ++ new ∧ ∀ b ∈ new, b ≤ MAX_MESSAGE_BYTES :=
    ⟨[], (List.append_nil _).symm, by simp⟩
  unfold readMessage
  split
  · exact hnone
  split
  · exact hnone
  split
  · exact hnone
  extract_lets len buffers
  split
  · exact hnone
  have hsome : ∃ new, buffers = reader.buffers ++ new ∧ ∀ b ∈ new, b ≤ MAX_MESSAGE_BYTES :=
    ⟨[len], rfl, by simp only [List.mem_singleton]; omega⟩
  split
  · exact hsome
  split
  · exact hsome
  · exact hsome

theorem readMessages_buffers (n : Nat) {reader : Reader}
    (h : ∀ b ∈ reader.buffers, b ≤ MAX_MESSAGE_BYTES) :
    ∀ b ∈ (readMessages c n reader).2.buffers, b ≤ MAX_MESSAGE_BYTES := by
  induction n generalizing reader with
  | zero => exact h
  | succ n ih =>
    obtain ⟨new, hbuffers, hnew⟩ := readMessage_buffers (c := c) reader
    refine ih ?_
    rw [hbuffers]
    intro b hb
    rcases List.mem_append.mp hb with hb | hb
    · exact h b hb
    · exact hnew b hb

end Reading

/-! ## The round trip -/

section RoundTrip

variable {M : Type*} {c : BodyCodec M}

theorem encoded_length {ms : List M} {bodies : List Bytes}
    (h : List.Forall₂ (fun m body => encode c m = .ok body) ms bodies) :
    ∀ b ∈ bodies, b.length ≤ MAX_MESSAGE_BYTES := by
  induction h with
  | nil => simp
  | cons hm _ ih =>
    intro b hb
    rcases List.mem_cons.mp hb with rfl | hb
    · exact (encode_ok hm).2
    · exact ih b hb

theorem decode_encoded {ms : List M} {bodies : List Bytes}
    (h : List.Forall₂ (fun m body => encode c m = .ok body) ms bodies) :
    bodies.map (decode c) = ms.map .ok ↔ ∀ m ∈ ms, c.Keeps m := by
  induction h with
  | nil => simp
  | cons hm _ ih =>
    rw [List.map_cons, List.map_cons, List.cons.injEq, ih, List.forall_mem_cons, keeps_iff hm]

/-- What is left of a stream that was cut does not read as a message. -/
theorem answer_cut {body q : Bytes} (hlen : body.length ≤ MAX_MESSAGE_BYTES)
    (hq : q <+: frames.frame body) (hne : q ≠ frames.frame body) (hpos : q ≠ []) :
    ∃ read expected, answer c (frames.head q) = .error (.truncated read expected) := by
  rw [Framing.head_cut hlen hq hne]
  split
  · obtain ⟨n, hn⟩ := Nat.exists_eq_succ_of_ne_zero (mt List.length_eq_zero_iff.mp hpos)
    exact ⟨_, _, by rw [hn]; rfl⟩
  · exact ⟨_, _, rfl⟩

/-- What is promised of messages that were written: they are read back, however the bytes arrive. A
stream that ends early holds the messages that are whole, and then it is closed, or truncated inside a
message. No buffer that is larger than the limit is allocated for any input. -/
structure RoundTrips (c : BodyCodec M) (ms : List M) (written : Bytes) : Prop where
  whole : ∀ source : Source UInt8, source.Intact → source.items = written → ∀ k,
    (readMessages c (ms.length + k) ⟨source, []⟩).1 =
      ms.map .ok ++ List.replicate k (.error .closed)
  cut : ∀ source : Source UInt8, source.Intact → source.items <+: written →
    source.items ≠ written →
    ∃ n < ms.length,
      (∀ j ≤ ms.length, (writeMessages c {} (ms.take j)).2.written <+: source.items ↔ j ≤ n) ∧
      ∃ e, (readMessages c (n + 1) ⟨source, []⟩).1 = (ms.take n).map .ok ++ [.error e] ∧
        if source.items = (writeMessages c {} (ms.take n)).2.written then e = .closed
        else ∃ read expected, e = .truncated read expected
  bounded : ∀ (source : Source UInt8) (k : Nat),
    ∀ b ∈ (readMessages c k ⟨source, []⟩).2.buffers, b ≤ MAX_MESSAGE_BYTES

section

variable {ms : List M} {outcomes : List Outcome} {writer : Sink UInt8}

/-- A stream of messages each of which is read back from its body. -/
theorem roundTrips_of_keeps (hw : writeMessages c ⟨[], outcomes⟩ ms = (.ok (), writer))
    (hkeeps : ∀ m ∈ ms, c.Keeps m) : RoundTrips c ms writer.written := by
  obtain ⟨bodies, hbodies, hwritten⟩ := writeMessages_ok hw
  have hdecode := (decode_encoded hbodies).2 hkeeps
  have hlens := encoded_length hbodies
  rw [List.nil_append] at hwritten
  refine ⟨fun source hs hitems k => ?_, fun source hs hcut hne => ?_, fun source k => ?_⟩
  · have hpasses : frames.Passes bodies source.items [] := by
      rw [hitems, hwritten]
      simpa using Framing.passes_stream hlens []
    obtain ⟨hread, hs', hrest⟩ := readMessages_passes (c := c) (r := ⟨source, []⟩) hs hpasses
    rw [readMessages_add, hbodies.length_eq, hread, hdecode, readMessages_closed hs' hrest]
  · rw [hwritten] at hcut hne
    obtain ⟨n, hn, q, hitems, hq⟩ := Framing.cut_stream hcut
    have hwrote (j : Nat) :
        (writeMessages c {} (ms.take j)).2.written = frames.stream (bodies.take j) := by
      rw [writeMessages_of_encode (List.forall₂_take j hbodies)]
      rfl
    have hlt : n < bodies.length := by
      rcases hq with ⟨rfl, rfl⟩ | ⟨body, hbody, -⟩
      · rw [List.take_length, List.append_nil] at hitems
        exact absurd hitems hne
      · exact (List.getElem?_eq_some_iff.mp hbody).1
    refine ⟨n, by rw [hbodies.length_eq]; exact hlt, fun j hj => ?_, ?_⟩
    · rw [hwrote, hitems]
      exact Framing.stream_take_prefix hn (by rw [← hbodies.length_eq]; exact hj) hq
    have hpasses : frames.Passes (bodies.take n) source.items q := by
      rw [hitems]
      exact Framing.passes_stream (fun b hb => hlens b (List.mem_of_mem_take hb)) q
    obtain ⟨hread, hs', hrest⟩ := readMessages_passes (c := c) (r := ⟨source, []⟩) hs hpasses
    have hlast := (readMessage_eq (c := c) hs').1
    rw [hrest] at hlast
    rw [List.length_take, Nat.min_eq_left hn] at hread hlast
    have hreads : (readMessages c (n + 1) ⟨source, []⟩).1
        = (ms.take n).map .ok ++ [answer c (frames.head q)] := by
      rw [readMessages_add, hread, List.map_take, hdecode, ← List.map_take, ← hlast]
      rfl
    obtain ⟨body, hbody, hqbody, hqne⟩ := hq.resolve_left fun h => by omega
    by_cases hend : q = []
    · subst hend
      rw [Framing.head_nil] at hreads
      refine ⟨.closed, hreads, ?_⟩
      rw [if_pos (by rw [hitems, hwrote, List.append_nil])]
    · obtain ⟨read, expected, hanswer⟩ := answer_cut (c := c)
        (hlens body (List.mem_of_getElem? hbody)) hqbody hqne hend
      refine ⟨.truncated read expected, by rw [hreads, hanswer], ?_⟩
      rw [if_neg (by rw [hitems, hwrote]; simpa using hend)]
      exact ⟨read, expected, rfl⟩
  · exact readMessages_buffers k (by simp)

/-- All of the bytes, as one chunk. -/
theorem exists_source (items : Bytes) : ∃ source : Source UInt8, source.Intact ∧
    source.items = items := by
  cases items with
  | nil => exact ⟨[], by simp [Source.Intact], rfl⟩
  | cons b bs =>
    exact ⟨[.chunk (b :: bs) (List.cons_ne_nil b bs)], by simp [Source.Intact],
      by simp [Source.items, Arrival.items]⟩

/-- A stream of messages is read back just if each message is read back from its body. -/
theorem roundTrips_iff (hw : writeMessages c ⟨[], outcomes⟩ ms = (.ok (), writer)) :
    RoundTrips c ms writer.written ↔ ∀ m ∈ ms, c.Keeps m := by
  refine ⟨fun h => ?_, roundTrips_of_keeps hw⟩
  obtain ⟨bodies, hbodies, hwritten⟩ := writeMessages_ok hw
  rw [List.nil_append] at hwritten
  obtain ⟨source, hintact, hitems⟩ := exists_source writer.written
  have hpasses : frames.Passes bodies source.items [] := by
    rw [hitems, hwritten]
    simpa using Framing.passes_stream (encoded_length hbodies) []
  have hread := (readMessages_passes (c := c) (r := ⟨source, []⟩) hintact hpasses).1
  have hwhole := h.whole source hintact hitems 0
  rw [Nat.add_zero, List.replicate_zero, List.append_nil, hbodies.length_eq, hread] at hwhole
  exact (decode_encoded hbodies).1 hwhole

/-- Framing round trips for every codec that loses no message. -/
theorem framing_round_trip (hkeeps : ∀ m, c.Keeps m)
    (hw : writeMessages c ⟨[], outcomes⟩ ms = (.ok (), writer)) : RoundTrips c ms writer.written :=
  roundTrips_of_keeps hw fun m _ => hkeeps m

end

/-- Messages that are single bits. -/
def Sample.bools : BodyCodec Bool where
  toVec b := some [if b then 1 else 0]
  fromSlice
    | [byte] => some (byte == 1)
    | _ => none

theorem framing_round_trip_bools :
    RoundTrips Sample.bools [true, false] [1, 0, 0, 0, 1, 1, 0, 0, 0, 0] :=
  @framing_round_trip Bool Sample.bools [true, false] [] ⟨[1, 0, 0, 0, 1, 1, 0, 0, 0, 0], []⟩
    (fun m body h => by cases m <;> cases h <;> rfl) rfl

end RoundTrip

end Paperclip.Protocol
