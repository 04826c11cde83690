import Paperclip.Packages.Fields
import Paperclip.Wire.Source

/-!
# Bounded readers

Two readers that stop once what they read from has produced more than a limit. One hashes and
counts what it reads, the other one stands on top of it. The decoding of an archive asks only for
the stream that they leave (`BoundedReader.Reads`); here it is each read, and what was measured by
then.

* `boundedRead`: what both do. They ask for one byte more than the limit leaves, which is enough to
  know that there is too much.
* `MeasuredReader`, `LimitedReader`, `read`: one read of each.
* `readAll`: one read after the other, each with a buffer of its own size, and the `Log` of what
  they answered.
* `Alive`, `Over`: what holds until a limit is passed, and from then on.
* `stacked_spec`: what the reads deliver, how they end, and what was measured.
-/

namespace Paperclip.Packages.Measuring

open Files

/-- Why a read fails. -/
inductive ReadError where
  | interrupted
  | failed
  | invalidData (message : String)
  deriving DecidableEq

/-- What a read answers. No bytes for a buffer with room are the end. -/
abbrev Reading := Except ReadError Bytes

/-- A reader with the state `σ`: one read into a buffer of some size. -/
abbrev Reads (σ : Type) := ℕ → σ → Reading × σ

/-- One read from a byte source. -/
def readSource : Reads (Wire.Source UInt8) := fun room source =>
  match source.read room with
  | (.ok got, source) => (.ok got, source)
  | (.interrupted, source) => (.error .interrupted, source)
  | (.failed, source) => (.error .failed, source)

/-- The largest 64-bit number. -/
def U64_MAX : ℕ := 0xFFFFFFFFFFFFFFFF

/-- One read of a reader that has read `read` bytes of at most `limit`. -/
def boundedRead {σ : Type} (inner : Reads σ) (refuse : ℕ → ReadError) (limit buf read : ℕ)
    (state : σ) : Reading × ℕ × σ :=
  if limit < read then (.error (refuse limit), read, state)
  else
    let room := min (limit + 1) U64_MAX - read
    match inner (min buf room) state with
    | (.error e, state) => (.error e, read, state)
    | (.ok got, state) =>
      if limit < read + got.length then (.error (refuse limit), read + got.length, state)
      else (.ok got, read + got.length, state)

/-! ## The readers -/

/-- Hashes and counts what is read through it. `hasher` is what was hashed. -/
structure MeasuredReader (σ : Type) where
  inner : σ
  hasher : Bytes
  read : ℕ
  limit : ℕ

def over_limit (limit : ℕ) : ReadError :=
  .invalidData ("input exceeds the " ++ toString limit ++ " byte limit")

namespace MeasuredReader

variable {σ : Type}

def new (inner : σ) (limit : ℕ) : MeasuredReader σ where
  inner := inner
  hasher := []
  read := 0
  limit := limit

def bytes_read (reader : MeasuredReader σ) : ℕ := reader.read

def digest {K : Type} (crates : Crates K) (reader : MeasuredReader σ) : Digest :=
  Digest.ofBytes crates reader.hasher

/-- One read: what is handed on is hashed. -/
def reads (inner : Reads σ) : Reads (MeasuredReader σ) := fun buf reader =>
  match boundedRead inner over_limit reader.limit buf reader.read reader.inner with
  | (.ok got, read, inner) =>
    (.ok got, { reader with inner := inner, read := read, hasher := reader.hasher ++ got })
  | (.error e, read, inner) => (.error e, { reader with inner := inner, read := read })

end MeasuredReader

/-- Stops once its source has produced more than a limit. -/
structure LimitedReader (σ : Type) where
  inner : σ
  read : ℕ
  limit : ℕ

def expanded_too_far (limit : ℕ) : ReadError :=
  .invalidData ("the package expands past its " ++ toString limit ++ " byte limit")

namespace LimitedReader

variable {σ : Type}

def new (inner : σ) (limit : ℕ) : LimitedReader σ where
  inner := inner
  read := 0
  limit := limit

/-- One read. -/
def reads (inner : Reads σ) : Reads (LimitedReader σ) := fun buf reader =>
  match boundedRead inner expanded_too_far reader.limit buf reader.read reader.inner with
  | (answer, read, inner) => (answer, { reader with inner := inner, read := read })

end LimitedReader

/-! ## Runs -/

/-- The sizes of the buffers, and what the reads answered. -/
abbrev Log := List (ℕ × Reading)

/-- One read after the other. -/
def readAll {σ : Type} (reads : Reads σ) (state : σ) : List ℕ → Log × σ
  | [] => ([], state)
  | buf :: bufs =>
    let first := reads buf state
    let rest := readAll reads first.2 bufs
    ((buf, first.1) :: rest.1, rest.2)

/-- The bytes that an answer hands on. -/
def Reading.bytes : Reading → Bytes
  | .ok got => got
  | .error _ => []

namespace Log

/-- The bytes that the reads handed on. -/
def delivered (log : Log) : Bytes := log.flatMap fun entry => Reading.bytes entry.2

/-- A read had room, and found the end. -/
def Ended (log : Log) : Prop := ∃ buf, 0 < buf ∧ (buf, .ok []) ∈ log

/-- A read failed at a limit. -/
def Refused (log : Log) : Prop := ∃ buf message, (buf, .error (.invalidData message)) ∈ log

end Log

/-- The one reader over the other, as they read from a source. -/
abbrev Stacked := LimitedReader (MeasuredReader (Wire.Source UInt8))

namespace Stacked

def new (source : Wire.Source UInt8) (measured limited : ℕ) : Stacked :=
  LimitedReader.new (MeasuredReader.new source measured) limited

def reads : Reads Stacked := LimitedReader.reads (MeasuredReader.reads readSource)

/-- How many bytes both limits allow. -/
def allowed (stacked : Stacked) : ℕ := min stacked.limit stacked.inner.limit

/-- The digest that is reported. -/
def digest {K : Type} (crates : Crates K) (stacked : Stacked) : Digest :=
  stacked.inner.digest crates

/-- The length that is reported. -/
def bytes_read (stacked : Stacked) : ℕ := stacked.inner.bytes_read

end Stacked

/-! ## One read -/

theorem length_read_le (source : Wire.Source UInt8) (room : ℕ) :
    (source.read room).2.length ≤ source.length := by
  unfold Wire.Source.read
  split
  · simp
  · split <;> simp
  · simp
  · simp

/-- What one read from a source does. -/
theorem readSource_spec (room : ℕ) (source : Wire.Source UInt8) :
    (readSource room source).2.size ≤ source.size ∧
    ((∃ got, (readSource room source).1 = .ok got ∧ got.length ≤ room ∧
        source.items = got ++ (readSource room source).2.items ∧
        (got = [] → 0 < room → source.items = []) ∧
        (got ≠ [] → (readSource room source).2.size < source.size)) ∨
      ∃ e, (∀ message, e ≠ .invalidData message) ∧ (readSource room source).1 = .error e ∧
        source.items = (readSource room source).2.items ∧
        (readSource room source).2.size < source.size) := by
  have hle := length_read_le source room
  rw [readSource]
  rcases hread : source.read room with ⟨_ | _ | _, rest⟩ <;> rw [hread] at hle
  · next got =>
    obtain ⟨hitems, hlen⟩ := Wire.Source.read_ok hread
    refine ⟨?_, .inl ⟨got, rfl, hlen, hitems, ?_, fun hne => Wire.Source.size_read hne hread⟩⟩
    · have hrest : rest.length ≤ source.length := hle
      simp only [Wire.Source.size, hitems, List.length_append]
      omega
    · rintro rfl hroom
      rw [(Wire.Source.read_end hroom hread).1]
      rfl
  · have hsize := Wire.Source.size_interrupted hread
    refine ⟨hsize.le, .inr ⟨.interrupted, by simp, rfl, ?_, hsize⟩⟩
    rw [Wire.Source.read_interrupted hread]
    rfl
  · have hsource := Wire.Source.read_failed hread
    have hsize : rest.size < source.size := by
      rw [hsource, Wire.Source.size, Wire.Source.size, Wire.Source.items_cons, List.length_cons]
      simp [Wire.Arrival.items]
    refine ⟨hsize.le, .inr ⟨.failed, by simp, rfl, ?_, hsize⟩⟩
    rw [hsource]
    rfl

namespace Stacked

/-- What holds until a limit is passed, where `all` is what the source had, and `done` what was
handed on. -/
structure Alive (all : Bytes) (s : Stacked) (done : Bytes) : Prop where
  items : all = done ++ s.inner.inner.items
  hashed : s.inner.hasher = done
  measured : s.inner.read = done.length
  limited : s.read = done.length
  within : done.length ≤ s.allowed

/-- What holds from then on. -/
structure Over (all : Bytes) (s : Stacked) (done : Bytes) : Prop where
  passed : s.limit < s.read ∨ s.inner.limit < s.inner.read
  start : done <+: all
  within : done.length ≤ s.allowed
  long : s.allowed < all.length

/-- The limits are those of another state. -/
structure SameLimits (s s' : Stacked) : Prop where
  limited : s'.limit = s.limit
  measured : s'.inner.limit = s.inner.limit

theorem SameLimits.allowed {s s' : Stacked} (h : SameLimits s s') : s'.allowed = s.allowed := by
  rw [Stacked.allowed, Stacked.allowed, h.limited, h.measured]

theorem SameLimits.trans {s s' s'' : Stacked} (h : SameLimits s s') (h' : SameLimits s' s'') :
    SameLimits s s'' := ⟨h'.limited.trans h.limited, h'.measured.trans h.measured⟩

variable {all done : Bytes} {s : Stacked} {buf : ℕ}

/-- Past a limit every read is refused. -/
theorem Over.step (h : Over all s done) (buf : ℕ) :
    ∃ message, (reads buf s).1 = .error (.invalidData message) ∧ Over all (reads buf s).2 done ∧
      SameLimits s (reads buf s).2 := by
  by_cases hlimited : s.limit < s.read
  · rw [reads, LimitedReader.reads, boundedRead, if_pos hlimited]
    exact ⟨_, rfl, h, rfl, rfl⟩
  · have hmeasured := h.passed.resolve_left hlimited
    rw [reads, LimitedReader.reads, boundedRead, if_neg hlimited]
    simp only [MeasuredReader.reads, boundedRead, if_pos hmeasured]
    exact ⟨_, rfl, h, rfl, rfl⟩

/-- How many bytes the source is asked for. -/
def room (s : Stacked) (buf : ℕ) : ℕ :=
  min (min buf (min (s.limit + 1) U64_MAX - s.read))
    (min (s.inner.limit + 1) U64_MAX - s.inner.read)

/-- What is asked for, where there is room for it, is more than nothing. -/
theorem asks_more {limit read top : ℕ} (h : read ≤ limit) (htop : limit < top) :
    0 < min (limit + 1) top - read := by omega

/-- The state after the source handed over some bytes. -/
def after (s : Stacked) (source : Wire.Source UInt8) (got : Bytes) : Stacked where
  inner := { s.inner with
    inner := source, read := s.inner.read + got.length, hasher := s.inner.hasher ++ got }
  read := s.read + got.length
  limit := s.limit

/-- One read before a limit is passed. -/
theorem stacked_reads (hlimited : s.read ≤ s.limit) (hmeasured : s.inner.read ≤ s.inner.limit) :
    reads buf s = match readSource (s.room buf) s.inner.inner with
      | (.error e, source) => (.error e, { s with inner := { s.inner with inner := source } })
      | (.ok got, source) =>
        if s.inner.limit < s.inner.read + got.length then
          (.error (over_limit s.inner.limit),
            { s with inner :=
                { s.inner with inner := source, read := s.inner.read + got.length } })
        else if s.limit < s.read + got.length then
          (.error (expanded_too_far s.limit), s.after source got)
        else (.ok got, s.after source got) := by
  have hinner : ¬ s.inner.limit < s.inner.read := by omega
  rw [reads, LimitedReader.reads, boundedRead, if_neg (by omega)]
  simp only [MeasuredReader.reads, boundedRead, if_neg hinner]
  rcases hread : readSource (s.room buf) s.inner.inner with ⟨e | got, source⟩ <;>
    rw [room] at hread <;> simp only [hread]
  by_cases hover : s.inner.limit < s.inner.read + got.length
  · simp only [if_pos hover]
  · simp only [if_neg hover]
    split <;> rfl

/-- One read, before a limit is passed: bytes are handed on, or the source fails, or the limit is
passed. -/
theorem Alive.step (h : Alive all s done) (hl : s.limit < U64_MAX) (hm : s.inner.limit < U64_MAX)
    (buf : ℕ) :
    SameLimits s (reads buf s).2 ∧
    ((∃ got, (reads buf s).1 = .ok got ∧ Alive all (reads buf s).2 (done ++ got) ∧
        (got = [] → 0 < buf → all = done) ∧
        (reads buf s).2.inner.inner.size ≤ s.inner.inner.size ∧
        (got ≠ [] → (reads buf s).2.inner.inner.size < s.inner.inner.size)) ∨
      (∃ e, (∀ message, e ≠ .invalidData message) ∧ (reads buf s).1 = .error e ∧
        Alive all (reads buf s).2 done ∧
        (reads buf s).2.inner.inner.size < s.inner.inner.size) ∨
      ∃ message, (reads buf s).1 = .error (.invalidData message) ∧
        Over all (reads buf s).2 done) := by
  have hwithin := h.within
  have hread := h.limited
  have hmread := h.measured
  rw [allowed] at hwithin
  obtain ⟨hle, hcases⟩ := readSource_spec (s.room buf) s.inner.inner
  rw [stacked_reads (by omega) (by omega)]
  rcases hcases with ⟨got, hgot, hlen, hitems, hend, hsize⟩ | ⟨e, hne, he, hitems, hsize⟩
  · obtain ⟨source, hsource⟩ :
        ∃ source, readSource (s.room buf) s.inner.inner = (.ok got, source) :=
      ⟨_, Prod.ext hgot rfl⟩
    rw [hsource] at hitems hsize hle
    simp only [hsource]
    have hall : all = (done ++ got) ++ source.items := by
      rw [h.items, hitems, List.append_assoc]
    have hlong := congrArg List.length hall
    simp only [List.length_append] at hlong
    have hstart : done <+: all := h.items ▸ List.prefix_append _ _
    split_ifs with hmover hlover
    · -- the measured reader refuses
      exact ⟨⟨rfl, rfl⟩, .inr (.inr ⟨_, rfl, .inr hmover, hstart, h.within, by
        simp only [allowed]; omega⟩)⟩
    · exact ⟨⟨rfl, rfl⟩, .inr (.inr ⟨_, rfl, .inl hlover, hstart, h.within, by
        simp only [allowed, after]; omega⟩)⟩
    · refine ⟨⟨rfl, rfl⟩, .inl ⟨got, rfl, ⟨hall, ?_, ?_, ?_, ?_⟩, ?_, hle, hsize⟩⟩
      · simp only [after, h.hashed]
      · simp only [after, List.length_append]; omega
      · simp only [after, List.length_append]; omega
      · simp only [allowed, after, List.length_append]; omega
      · intro hnil hbuf
        have hroom : 0 < s.room buf := Nat.lt_min.2
          ⟨Nat.lt_min.2 ⟨hbuf, asks_more (by omega) hl⟩, asks_more (by omega) hm⟩
        rw [h.items, hend hnil hroom, List.append_nil]
  · obtain ⟨source, hsource⟩ :
        ∃ source, readSource (s.room buf) s.inner.inner = (.error e, source) := ⟨_, Prod.ext he rfl⟩
    rw [hsource] at hitems hsize
    simp only [hsource]
    exact ⟨⟨rfl, rfl⟩, .inr (.inl ⟨e, hne, rfl,
      ⟨by rw [h.items, hitems], h.hashed, h.measured, h.limited, h.within⟩, hsize⟩)⟩

/-! ## All reads -/

theorem readAll_cons {σ : Type} {reads : Reads σ} {state : σ} {bufs : List ℕ} :
    readAll reads state (buf :: bufs) =
      ((buf, (reads buf state).1) :: (readAll reads (reads buf state).2 bufs).1,
        (readAll reads (reads buf state).2 bufs).2) := rfl

section

variable {log : Log} {answer : Reading}

theorem delivered_cons : Log.delivered ((buf, answer) :: log) = answer.bytes ++ log.delivered := rfl

theorem ended_cons : Log.Ended ((buf, answer) :: log) ↔ 0 < buf ∧ answer = .ok [] ∨ log.Ended := by
  constructor
  · rintro ⟨buf', hbuf, hmem⟩
    rcases List.mem_cons.1 hmem with heq | hmem
    · obtain ⟨rfl, rfl⟩ := Prod.mk.inj heq
      exact .inl ⟨hbuf, rfl⟩
    · exact .inr ⟨buf', hbuf, hmem⟩
  · rintro (⟨hbuf, rfl⟩ | ⟨buf', hbuf, hmem⟩)
    · exact ⟨buf, hbuf, List.mem_cons_self⟩
    · exact ⟨buf', hbuf, List.mem_cons_of_mem _ hmem⟩

theorem refused_cons : Log.Refused ((buf, answer) :: log) ↔
    (∃ message, answer = .error (.invalidData message)) ∨ log.Refused := by
  constructor
  · rintro ⟨buf', message, hmem⟩
    rcases List.mem_cons.1 hmem with heq | hmem
    · exact .inl ⟨message, (Prod.mk.inj heq).2.symm⟩
    · exact .inr ⟨buf', message, hmem⟩
  · rintro (⟨message, rfl⟩ | ⟨buf', message, hmem⟩)
    · exact ⟨buf, message, List.mem_cons_self⟩
    · exact ⟨buf', message, List.mem_cons_of_mem _ hmem⟩

theorem not_ended_nil : ¬ Log.Ended [] := fun ⟨_, _, h⟩ => List.not_mem_nil h

theorem not_refused_nil : ¬ Log.Refused [] := fun ⟨_, _, h⟩ => List.not_mem_nil h

end

/-- Past a limit nothing is handed on any more, and the end is not found. -/
theorem Over.readAll (h : Over all s done) (bufs : List ℕ) :
    Log.delivered (readAll reads s bufs).1 = [] ∧ ¬ Log.Ended (readAll reads s bufs).1 := by
  induction bufs generalizing s with
  | nil => exact ⟨rfl, not_ended_nil⟩
  | cons buf bufs ih =>
    obtain ⟨message, hanswer, hover, -⟩ := h.step buf
    obtain ⟨hdelivered, hended⟩ := ih hover
    rw [readAll_cons, hanswer, delivered_cons, hdelivered, ended_cons]
    refine ⟨rfl, ?_⟩
    rintro (⟨-, hnil⟩ | hend)
    · cases hnil
    · exact hended hend

/-- How the reads go from a state in which no limit is passed. -/
structure Course (all : Bytes) (s : Stacked) (done : Bytes) (bufs : List ℕ) : Prop where
  state : (Alive all (readAll reads s bufs).2 (done ++ Log.delivered (readAll reads s bufs).1) ∧
      (readAll reads s bufs).2.allowed = s.allowed ∧ ¬ Log.Refused (readAll reads s bufs).1) ∨
    (done ++ Log.delivered (readAll reads s bufs).1 <+: all ∧
      (done ++ Log.delivered (readAll reads s bufs).1).length ≤ s.allowed ∧
      s.allowed < all.length ∧ Log.Refused (readAll reads s bufs).1)
  ended : Log.Ended (readAll reads s bufs).1 → all.length ≤ s.allowed
  comes : s.inner.inner.size < bufs.countP (0 < ·) →
    Log.Ended (readAll reads s bufs).1 ∨ Log.Refused (readAll reads s bufs).1

theorem Alive.course (h : Alive all s done) (hl : s.limit < U64_MAX) (hm : s.inner.limit < U64_MAX)
    (bufs : List ℕ) : Course all s done bufs := by
  induction bufs generalizing s done with
  | nil =>
    exact ⟨.inl ⟨by simpa [Log.delivered, Measuring.readAll] using h, rfl, not_refused_nil⟩,
      fun hend => absurd hend not_ended_nil, fun hlt => by simp at hlt⟩
  | cons buf bufs ih =>
    have hcount : (buf :: bufs).countP (0 < ·) ≤ bufs.countP (0 < ·) + 1 := by
      rw [List.countP_cons]
      split <;> omega
    obtain ⟨hsame, hstep⟩ := h.step hl hm buf
    have hl' : (reads buf s).2.limit < U64_MAX := hsame.limited.symm ▸ hl
    have hm' : (reads buf s).2.inner.limit < U64_MAX := hsame.measured.symm ▸ hm
    rcases hstep with ⟨got, hans, halive, hend, hle, hlt⟩ | ⟨e, hne, hans, halive, hlt⟩ |
      ⟨message, hans, hover⟩
    · have hrest := ih halive hl' hm'
      refine ⟨?_, ?_, ?_⟩ <;> rw [readAll_cons, hans]
      · have hstate := hrest.state
        rw [hsame.allowed, List.append_assoc] at hstate
        simpa [delivered_cons, refused_cons, Reading.bytes] using hstate
      · rw [ended_cons]
        rintro (⟨hbuf, hnil⟩ | hended)
        · rw [hend (by simpa using hnil) hbuf]
          exact h.within
        · exact hsame.allowed ▸ hrest.ended hended
      · intro hmany
        rw [ended_cons, refused_cons]
        by_cases hstop : 0 < buf ∧ got = []
        · exact .inl (.inl ⟨hstop.1, by rw [hstop.2]⟩)
        · have hfew : (reads buf s).2.inner.inner.size < bufs.countP (0 < ·) := by
            by_cases hbuf : 0 < buf
            · have := hlt fun hnil => hstop ⟨hbuf, hnil⟩
              omega
            · simp only [List.countP_cons, hbuf, decide_false, Bool.false_eq_true,
                if_false] at hmany
              omega
          exact (hrest.comes hfew).imp .inr .inr
    · have hrest := ih halive hl' hm'
      refine ⟨?_, ?_, ?_⟩ <;> rw [readAll_cons, hans]
      · have hstate := hrest.state
        rw [hsame.allowed] at hstate
        simpa [delivered_cons, refused_cons, Reading.bytes, hne] using hstate
      · rw [ended_cons]
        rintro (⟨-, hnil⟩ | hended)
        · cases hnil
        · exact hsame.allowed ▸ hrest.ended hended
      · intro hmany
        rw [ended_cons, refused_cons]
        exact (hrest.comes (by omega)).imp .inr .inr
    · obtain ⟨hdelivered, hended⟩ := hover.readAll bufs
      have hrefused : ∃ message', Except.error (ReadError.invalidData message) =
          (.error (.invalidData message') : Reading) := ⟨message, rfl⟩
      refine ⟨.inr ?_, ?_, ?_⟩ <;> rw [readAll_cons, hans]
      · rw [delivered_cons, hdelivered]
        exact ⟨by simpa [Reading.bytes] using hover.start, by simpa [Reading.bytes] using h.within,
          hsame.allowed ▸ hover.long, refused_cons.2 (.inl hrefused)⟩
      · rw [ended_cons]
        rintro (⟨-, hnil⟩ | hend)
        · cases hnil
        · exact absurd hend hended
      · exact fun _ => .inr (refused_cons.2 (.inl hrefused))

theorem alive_new (source : Wire.Source UInt8) (measured limited : ℕ) :
    Alive source.items (new source measured limited) [] where
  items := rfl
  hashed := rfl
  measured := rfl
  limited := rfl
  within := Nat.zero_le _

end Stacked

/-- What is handed on is the first part of the source, and no more than the limits allow; the end is
found, and no read is refused, just if the source has no more than that; and as long as no read is
refused, the digest and the length are those of what was handed on. -/
theorem stacked_spec {K : Type} (crates : Crates K) (source : Wire.Source UInt8)
    (measured limited : ℕ) (hm : measured < U64_MAX) (hl : limited < U64_MAX) (bufs : List ℕ) :
    let log := (readAll Stacked.reads (Stacked.new source measured limited) bufs).1
    let final := (readAll Stacked.reads (Stacked.new source measured limited) bufs).2
    log.delivered <+: source.items ∧ log.delivered.length ≤ min limited measured ∧
      (log.Ended → ¬ log.Refused ∧ source.items.length ≤ min limited measured) ∧
      (source.items.length ≤ min limited measured →
        ¬ log.Refused ∧ (source.size < bufs.countP (0 < ·) → log.Ended)) ∧
      (¬ log.Refused → final.digest crates = Digest.ofBytes crates log.delivered ∧
        final.bytes_read = log.delivered.length) := by
  intro log final
  have hcourse := (Stacked.alive_new source measured limited).course hl hm bufs
  rcases hcourse.state with ⟨halive, hallowed, hkept⟩ | ⟨hstart, hwithin, hlong, hrefused⟩
  · have hwithin : log.delivered.length ≤ (Stacked.new source measured limited).allowed :=
      hallowed ▸ halive.within
    refine ⟨?_, hwithin, fun hended => ⟨hkept, hcourse.ended hended⟩, fun _ => ⟨hkept, fun hmany =>
      (hcourse.comes hmany).resolve_right hkept⟩, fun _ => ⟨?_, halive.measured⟩⟩
    · rw [halive.items]
      exact List.prefix_append _ _
    · exact congrArg (Digest.ofBytes crates) halive.hashed
  · exact ⟨hstart, hwithin, fun hended => absurd (hcourse.ended hended) (Nat.not_le.2 hlong),
      fun hle => absurd hle (Nat.not_le.2 hlong), fun hkept => absurd hrefused hkept⟩

/-- A source of just as many bytes as the limits allow is read to its end. -/
theorem stacked_exact :
    let start := Stacked.new [.chunk [1, 2] (by simp), .interrupted, .chunk [3] (by simp)] 3 3
    (readAll Stacked.reads start [1, 0, 8, 8, 8, 8, 8, 8]).1.Ended :=
  ((stacked_spec (K := Unit) ⟨fun _ _ _ => true, fun _ => ⟨List.replicate 32 0, rfl⟩,
    fun _ => .error "", fun _ => .error "", fun _ => none⟩ _ 3 3 (by decide) (by decide)
      _).2.2.2.1 (by decide)).2 (by decide)

/-- A source of a byte more than the limits allow: nothing is handed on, and two bytes counted. -/
theorem refused_counted :
    let start := Stacked.new [.chunk [1, 2] (by simp)] 1 1
    (readAll Stacked.reads start [8]).2.bytes_read ≠
      (readAll Stacked.reads start [8]).1.delivered.length := by
  decide

end Paperclip.Packages.Measuring
