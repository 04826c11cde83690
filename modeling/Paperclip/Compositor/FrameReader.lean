import Paperclip.Protocol.Codec

/-!
# Frames over a non-blocking connection

The compositor reads what has arrived and hands back the frames that are whole. `FrameReader` keeps
what is left over. `take_frame_agrees`: at every moment it has handed back what `readMessage` reads
from the whole of the bytes, and it goes on as `readMessage` does.
-/

namespace Paperclip.Compositor

open Wire Protocol

/-- The bytes that have arrived and are not yet handed back. -/
structure FrameReader where
  buf : Bytes := []

namespace FrameReader

def feed (reader : FrameReader) (chunk : Bytes) : FrameReader := ⟨reader.buf ++ chunk⟩

/-- Take the body of the oldest frame, if all of it has arrived. -/
def takeFrame (reader : FrameReader) : Except CodecError (Option Bytes) × FrameReader :=
  if reader.buf.length < LENGTH_PREFIX_BYTES then (.ok none, reader)
  else
    let len := fromLeBytes (reader.buf.take LENGTH_PREFIX_BYTES)
    if len > MAX_MESSAGE_BYTES then (.error (.tooLarge len MAX_MESSAGE_BYTES), reader)
    else
      let frameLen := LENGTH_PREFIX_BYTES + len
      if reader.buf.length < frameLen then (.ok none, reader)
      else
        let body := (reader.buf.take frameLen).drop LENGTH_PREFIX_BYTES
        (.ok (some body), ⟨reader.buf.drop frameLen⟩)

/-- A call on the reader. -/
inductive Step where
  | feed (chunk : Bytes)
  | takeFrame

/-- The bytes that a call brings. -/
def Step.fed : Step → Bytes
  | feed chunk => chunk
  | takeFrame => []

/-- The answers of a sequence of calls, and the reader after it. -/
def run (reader : FrameReader) : List Step → List (Except CodecError (Option Bytes)) × FrameReader
  | [] => ([], reader)
  | .feed chunk :: rest => (reader.feed chunk).run rest
  | .takeFrame :: rest =>
    let taken := reader.takeFrame
    let others := taken.2.run rest
    (taken.1 :: others.1, others.2)

/-- The bytes that a sequence of calls brings. -/
def fed (steps : List Step) : Bytes := steps.flatMap Step.fed

/-- The body that an answer hands back. -/
def handed : Except CodecError (Option Bytes) → Option Bytes
  | .ok body => body
  | .error _ => none

/-- The bodies that are handed back. -/
def bodies (answers : List (Except CodecError (Option Bytes))) : List Bytes :=
  answers.filterMap handed

@[simp] theorem bodies_some (body : Bytes) (answers : List (Except CodecError (Option Bytes))) :
    bodies (.ok (some body) :: answers) = body :: bodies answers := rfl

@[simp] theorem bodies_none (answers : List (Except CodecError (Option Bytes))) :
    bodies (.ok none :: answers) = bodies answers := rfl

@[simp] theorem bodies_error (e : CodecError)
    (answers : List (Except CodecError (Option Bytes))) :
    bodies (.error e :: answers) = bodies answers := rfl

/-- What `takeFrame` answers, by what stands at the head of the buffer. -/
theorem takeFrame_eq (reader : FrameReader) :
    reader.takeFrame = match frames.head reader.buf with
      | .frame body rest => (.ok (some body), ⟨rest⟩)
      | .tooLarge len _ => (.error (.tooLarge len MAX_MESSAGE_BYTES), reader)
      | .header _ | .body _ _ => (.ok none, reader) := by
  have hwidth : frames.width = LENGTH_PREFIX_BYTES := rfl
  have hlimit : frames.limit = MAX_MESSAGE_BYTES := rfl
  have hlength : frames.length = fromLeBytes := rfl
  simp only [takeFrame, Framing.head, hwidth, hlimit, hlength]
  by_cases hshort : reader.buf.length < LENGTH_PREFIX_BYTES
  · rw [if_pos hshort, if_pos hshort]
  rw [if_neg hshort, if_neg hshort]
  generalize fromLeBytes (reader.buf.take LENGTH_PREFIX_BYTES) = len
  by_cases hlarge : MAX_MESSAGE_BYTES < len
  · rw [if_pos hlarge, if_pos hlarge]
  rw [if_neg hlarge, if_neg hlarge, List.length_drop]
  by_cases hcut : reader.buf.length < LENGTH_PREFIX_BYTES + len
  · rw [if_pos hcut, if_pos (by omega)]
  · rw [if_neg hcut, if_neg (by omega), List.drop_take, List.drop_drop, Nat.add_sub_cancel_left]

/-- The frames that were handed back are the first of the bytes that were fed, and the buffer holds
what follows them. -/
theorem run_passes {reader : FrameReader} {steps : List Step} {bs : List Bytes} {past : Bytes}
    (h : frames.Passes bs past reader.buf) :
    frames.Passes (bs ++ bodies (reader.run steps).1) (past ++ fed steps)
      (reader.run steps).2.buf := by
  induction steps generalizing reader bs past with
  | nil => simpa [run, bodies, fed] using h
  | cons step rest ih =>
    cases step with
    | feed chunk =>
      have := @ih (reader.feed chunk) _ _ (h.append chunk)
      simpa [run, fed, Step.fed, List.append_assoc] using this
    | takeFrame =>
      have htaken := takeFrame_eq reader
      simp only [run]
      cases hhead : frames.head reader.buf with
      | frame body after =>
        rw [hhead] at htaken
        have := @ih ⟨after⟩ _ _ (h.concat hhead)
        rw [htaken, bodies_some]
        simpa [fed, Step.fed] using this
      | tooLarge len after =>
        rw [hhead] at htaken
        rw [htaken, bodies_error]
        exact ih h
      | header read =>
        rw [hhead] at htaken
        rw [htaken, bodies_none]
        exact ih h
      | body read expected =>
        rw [hhead] at htaken
        rw [htaken, bodies_none]
        exact ih h

/-- The next answer of `takeFrame` beside the next result of `readMessage`, which is going to see
`more` after what has been fed. -/
def Agrees {M : Type*} (c : BodyCodec M) (more : Bytes) :
    Except CodecError (Option Bytes) → Except CodecError M → Prop
  | .ok (some body), result => result = decode c body
  | .ok none, result => more = [] →
    result = .error .closed ∨ ∃ read expected, result = .error (.truncated read expected)
  | .error e, result => result = .error e

theorem agrees_answer {M : Type*} (c : BodyCodec M) (reader : FrameReader) (more : Bytes) :
    Agrees c more reader.takeFrame.1 (answer c (frames.head (reader.buf ++ more))) := by
  rw [takeFrame_eq]
  cases hhead : frames.head reader.buf with
  | frame body after => rw [Framing.head_frame_append hhead]; rfl
  | tooLarge len after => rw [Framing.head_tooLarge_append hhead]; rfl
  | header read =>
    rintro rfl
    rw [List.append_nil, hhead]
    cases read with
    | zero => exact .inl rfl
    | succ read => exact .inr ⟨_, _, rfl⟩
  | body read expected =>
    rintro rfl
    rw [List.append_nil, hhead]
    exact .inr ⟨_, _, rfl⟩

/-- The two decoders agree. After any calls, the bodies that were handed back are what the first
reads of the whole of the bytes answer, however these arrive, and the read after them answers as
`takeFrame` does next: the same body, or the same error. -/
theorem take_frame_agrees {M : Type*} (c : BodyCodec M) (steps : List Step) (more : Bytes)
    (source : Source UInt8) (hs : source.Intact) (hitems : source.items = fed steps ++ more) :
    let ran := (FrameReader.mk []).run steps
    ∃ result, (readMessages c ((bodies ran.1).length + 1) ⟨source, []⟩).1 =
        (bodies ran.1).map (decode c) ++ [result] ∧
      Agrees c more ran.2.takeFrame.1 result := by
  intro ran
  have hpasses : frames.Passes (bodies ran.1) (fed steps ++ more) (ran.2.buf ++ more) := by
    have := @run_passes ⟨[]⟩ steps [] [] (.nil [])
    exact this.append more
  rw [← hitems] at hpasses
  obtain ⟨hread, hs', hrest⟩ := readMessages_passes (c := c) (r := ⟨source, []⟩) hs hpasses
  have hlast := (readMessage_eq (c := c) hs').1
  rw [hrest] at hlast
  refine ⟨answer c (frames.head (ran.2.buf ++ more)), ?_, agrees_answer c ran.2 more⟩
  rw [readMessages_add, hread, ← hlast]
  rfl

/-- Bodies as they are. -/
def Sample.raw : BodyCodec Bytes where
  toVec := some
  fromSlice := some

/-- A frame whose header arrives in two pieces, and after it a length that is over the limit. -/
theorem take_frame_agrees_split :
    let steps : List Step := [.feed [1, 0], .takeFrame, .feed [0, 0, 7, 0, 0, 0, 1], .takeFrame]
    let wire : Bytes := [1, 0, 0, 0, 7, 0, 0, 0, 1]
    ((FrameReader.mk []).run steps).1 = [.ok none, .ok (some [7])] ∧
      ((FrameReader.mk []).run steps).2.takeFrame.1 =
        .error (.tooLarge (16777216) MAX_MESSAGE_BYTES) ∧
      (readMessages Sample.raw 2 ⟨[.chunk wire (by simp)], []⟩).1 =
        [.ok [7], .error (.tooLarge (16777216) MAX_MESSAGE_BYTES)] := by
  intro steps wire
  have hran : ((FrameReader.mk []).run steps).1 = [.ok none, .ok (some [7])] := rfl
  have htaken : ((FrameReader.mk []).run steps).2.takeFrame.1 =
      .error (.tooLarge (16777216) MAX_MESSAGE_BYTES) := rfl
  obtain ⟨result, hread, hagrees⟩ := take_frame_agrees Sample.raw steps []
    [.chunk wire (by simp)] (by simp [Source.Intact]) rfl
  rw [htaken] at hagrees
  rw [hran, show result = .error (.tooLarge (16777216) MAX_MESSAGE_BYTES) from hagrees] at hread
  exact ⟨hran, htaken, hread⟩

end FrameReader

end Paperclip.Compositor
