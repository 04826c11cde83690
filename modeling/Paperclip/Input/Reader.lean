import Paperclip.Input.Evdev
import Paperclip.Wire.Chunks

/-!
# Reading an input node

The bytes of a node become raw events. A read ends where the kernel's queue did, so a record may
come in pieces.

* `RawEvent.from_bytes`, `RawEvent.decode_all`: one record, and the records of some bytes.
* `absorb`: what a read adds; the bytes of a record that has not come whole are carried.
* `reads`: one read after the other. `reads_eq`: they yield what the whole stream does.
-/

namespace Paperclip.Input

/-- How many bytes the kernel writes for an event. -/
def EVENT_BYTES : ℕ := 24

theorem event_bytes_pos : 0 < EVENT_BYTES := by decide

/-- The bytes of one event. -/
abbrev Frame := { bytes : List UInt8 // bytes.length = EVENT_BYTES }

/-- Bytes as a number, the lowest first. -/
def fromLeBytes : List UInt8 → ℕ
  | [] => 0
  | b :: rest => b.toNat + 256 * fromLeBytes rest

/-- Four bytes as a number with a sign. -/
def i32FromLeBytes (bytes : List UInt8) : Int := (BitVec.ofNat 32 (fromLeBytes bytes)).toInt

/-- Decodes one event. The time before it is dropped. -/
def RawEvent.from_bytes (frame : Frame) : RawEvent where
  kind := fromLeBytes (frame.1.extract 16 18)
  code := fromLeBytes (frame.1.extract 18 20)
  value := i32FromLeBytes (frame.1.extract 20 24)

/-- Decodes the whole events of some bytes, and says how many bytes are left. -/
def RawEvent.decode_all (bytes : List UInt8) : List RawEvent × ℕ :=
  ((Wire.chunks event_bytes_pos bytes).map RawEvent.from_bytes, bytes.length % EVENT_BYTES)

/-- Decodes what the carried bytes and those read make, and carries the rest. -/
def absorb (carry chunk : List UInt8) : List RawEvent × List UInt8 :=
  let bytes := carry ++ chunk
  let (events, leftover) := RawEvent.decode_all bytes
  (events, bytes.drop (bytes.length - leftover))

/-- Absorbs one read after the other. -/
def reads (carry : List UInt8) (chunks : List (List UInt8)) : List RawEvent × List UInt8 :=
  Wire.feedAll absorb carry chunks

theorem absorb_eq : absorb = Wire.feed event_bytes_pos RawEvent.from_bytes := rfl

/-- However a stream is read, its events are those of the whole, in their order, and less than one
event is carried. -/
theorem reads_eq (chunks : List (List UInt8)) :
    (reads [] chunks).1 = (RawEvent.decode_all chunks.flatten).1 ∧
      (reads [] chunks).2.length = (RawEvent.decode_all chunks.flatten).2 ∧
      (reads [] chunks).2.length < EVENT_BYTES := by
  have hnil : ([] : List UInt8).length < EVENT_BYTES := event_bytes_pos
  have hreads : reads [] chunks =
      Wire.feed event_bytes_pos RawEvent.from_bytes [] chunks.flatten := by
    rw [reads, absorb_eq]
    exact Wire.feedAll_eq RawEvent.from_bytes hnil chunks
  rw [hreads, Wire.feed, List.nil_append]
  exact ⟨rfl, Wire.length_left _, Wire.length_left_lt event_bytes_pos _⟩

end Paperclip.Input
