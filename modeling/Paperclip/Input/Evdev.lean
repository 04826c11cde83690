import Mathlib.Logic.Function.Basic

/-!
# Decoding input events

Raw kernel events of two nodes, the touchscreen and the pen, become pointer events. Everything waits
for the report that ends a frame.

* `ContactIds`: hands out contact ids; both decoders draw from one.
* `TouchDecoder.feed`: multitouch protocol B, where the kernel names a slot and then describes it.
* `PenDecoder.feed`: one contact at a time, which may hover before it touches.

The arithmetic of the transform to panel coordinates is a parameter.
-/

namespace Paperclip.Input

/-- How many simultaneous contacts the touchscreen reports. -/
def MAX_TOUCH_SLOTS : Nat := 10

def EV_SYN : Nat := 0x00
def EV_KEY : Nat := 0x01
def EV_ABS : Nat := 0x03

def SYN_REPORT : Nat := 0x00
def SYN_DROPPED : Nat := 0x03

def ABS_X : Nat := 0x00
def ABS_Y : Nat := 0x01
def ABS_PRESSURE : Nat := 0x18
def ABS_TILT_X : Nat := 0x1A
def ABS_TILT_Y : Nat := 0x1B
def ABS_MT_SLOT : Nat := 0x2F
def ABS_MT_POSITION_X : Nat := 0x35
def ABS_MT_POSITION_Y : Nat := 0x36
def ABS_MT_TRACKING_ID : Nat := 0x39

def BTN_TOUCH : Nat := 0x14A
def BTN_TOOL_PEN : Nat := 0x140
def BTN_TOOL_RUBBER : Nat := 0x141

/-- One raw kernel input event, timestamp discarded. -/
structure RawEvent where
  kind : Nat
  code : Nat
  value : Int
  deriving DecidableEq, Repr

/-- Where in a contact's life an event sits. -/
inductive PointerPhase where
  | hover
  | down
  | moved
  | up
  | cancelled
  deriving DecidableEq, Repr

/-- Which implement produced an event. -/
inductive Pointer where
  | touch
  | pen
  | eraser
  deriving DecidableEq, Repr

/-- Whether this came from the stylus, either way up. -/
def Pointer.isStylus : Pointer → Bool
  | pen | eraser => true
  | touch => false

/-- Which contact an event belongs to. -/
structure ContactId where
  value : UInt64
  deriving DecidableEq, Repr

def ContactId.FIRST : ContactId := ⟨0⟩

/-- A pressure reading as a fraction of full scale. -/
structure Pressure where
  raw : Int
  fullScale : Int
  deriving DecidableEq, Repr

/-- The reading, if the axis can make it. -/
def Pressure.fromRaw (raw fullScale : Int) : Option Pressure :=
  if fullScale ≤ 0 ∨ raw < 0 ∨ fullScale < raw then none else some ⟨raw, fullScale⟩

/-- How far the pen leans, in hundredths of a degree. -/
structure Tilt where
  x : Int
  y : Int
  deriving DecidableEq, Repr

/-- The reading, if the axes can make it. -/
def Tilt.fromHundredths (x y fullScale : Int) : Option Tilt :=
  if fullScale ≤ 0 ∨ fullScale < x.natAbs ∨ fullScale < y.natAbs then none else some ⟨x, y⟩

/-- The digitizer's full-scale pressure reading. -/
def PEN_PRESSURE_FULL_SCALE : Int := 4096

/-- The pen's full-scale tilt reading, in hundredths of a degree. -/
def PEN_TILT_FULL_SCALE : Int := 9000

/-- A pointer event, at a point of the panel. -/
structure PointerEvent (Pt : Type) where
  at_ : Pt
  phase : PointerPhase
  pointer : Pointer
  contact : ContactId
  pressure : Option Pressure
  tilt : Option Tilt
  deriving DecidableEq, Repr

/-- An event without the axes that only a pen has. -/
def PointerEvent.new {Pt : Type} (at_ : Pt) (phase : PointerPhase) (pointer : Pointer)
    (contact : ContactId) : PointerEvent Pt :=
  ⟨at_, phase, pointer, contact, none, none⟩

/-- Hands out contact ids. -/
structure ContactIds where
  next : ContactId
  deriving DecidableEq, Repr

namespace ContactIds

def new : ContactIds := ⟨.FIRST⟩

/-- The next id. The counter wraps after `2 ^ 64` of them. -/
def allocate (ids : ContactIds) : ContactId × ContactIds := (ids.next, ⟨⟨ids.next.value + 1⟩⟩)

end ContactIds

variable {Pt : Type}

/-! ## The touchscreen -/

/-- What an event says to the decoder of the touchscreen. -/
inductive TouchAxis where
  | report
  | dropped
  | slot (value : Int)
  | trackingId (value : Int)
  | positionX (value : Int)
  | positionY (value : Int)
  | other
  deriving DecidableEq, Repr

/-- Reads the type and the code of an event. -/
def RawEvent.touch (event : RawEvent) : TouchAxis :=
  if event.kind = EV_SYN ∧ event.code = SYN_REPORT then .report
  else if event.kind = EV_SYN ∧ event.code = SYN_DROPPED then .dropped
  else if event.kind = EV_ABS ∧ event.code = ABS_MT_SLOT then .slot event.value
  else if event.kind = EV_ABS ∧ event.code = ABS_MT_TRACKING_ID then .trackingId event.value
  else if event.kind = EV_ABS ∧ event.code = ABS_MT_POSITION_X then .positionX event.value
  else if event.kind = EV_ABS ∧ event.code = ABS_MT_POSITION_Y then .positionY event.value
  else .other

/-- The index of a slot. -/
abbrev SlotIndex := Fin MAX_TOUCH_SLOTS

structure Slot where
  tracking : Option Int
  /-- The id this contact was given when it began. -/
  contact : Option ContactId
  x : Int
  y : Int
  down : Bool
  dirty : Bool
  lifted : Bool
  deriving DecidableEq, Repr

/-- A slot of which nothing was reported. -/
def Slot.default : Slot := ⟨none, none, 0, 0, false, false, false⟩

/-- Turns touchscreen reports into contact events. -/
structure TouchDecoder (Pt : Type) where
  transform : Int → Int → Pt
  slots : SlotIndex → Slot
  current : SlotIndex

/-- The slot that a value names. One the kernel should never report is parked on the last slot. -/
def slotIndex (value : Int) : SlotIndex :=
  if h : 0 ≤ value ∧ value < MAX_TOUCH_SLOTS then ⟨value.toNat, by omega⟩
  else ⟨MAX_TOUCH_SLOTS - 1, by decide⟩

/-- What a tracking id does to a slot. -/
def Slot.track (slot : Slot) (ids : ContactIds) (value : Int) : Slot × ContactIds :=
  if value < 0 then
    let slot := if slot.down then { slot with lifted := true, dirty := true } else slot
    ({ slot with tracking := none }, ids)
  else
    let (slot, ids) :=
      match slot.tracking with
      | none => ({ slot with contact := some ids.allocate.1 }, ids.allocate.2)
      | some _ => (slot, ids)
    ({ slot with tracking := some value, dirty := true }, ids)

/-- The contact of a slot. One without an id is given one. -/
def Slot.identify (slot : Slot) (ids : ContactIds) : ContactId × ContactIds :=
  match slot.contact with
  | some contact => (contact, ids)
  | none => ids.allocate

/-- What a report makes of a slot: its event, if it has one, and what is left of it. -/
def Slot.flush (transform : Int → Int → Pt) (slot : Slot) (ids : ContactIds) :
    Option (PointerEvent Pt) × Slot × ContactIds :=
  if slot.dirty = false then (none, slot, ids)
  else
    let phase :=
      if slot.lifted then some PointerPhase.up
      else if slot.down then some .moved
      else if slot.tracking.isSome then some .down
      else none
    match phase with
    -- Dirtied, then released inside the same frame without ever having been down.
    | none => (none, .default, ids)
    | some phase =>
      let (contact, ids) := slot.identify ids
      let event := .new (transform slot.x slot.y) phase .touch contact
      if slot.lifted then (some event, .default, ids)
      else (some event, { slot with contact := some contact, dirty := false, down := true }, ids)

/-- What a dropped report makes of a slot. -/
def Slot.resync (transform : Int → Int → Pt) (slot : Slot) (ids : ContactIds) :
    Option (PointerEvent Pt) × Slot × ContactIds :=
  if slot.down then
    let (contact, ids) := slot.identify ids
    (some (.new (transform slot.x slot.y) .cancelled .touch contact), .default, ids)
  else (none, .default, ids)

/-- Goes through some slots in turn. -/
def sweep (f : Slot → ContactIds → Option (PointerEvent Pt) × Slot × ContactIds) :
    List SlotIndex → (SlotIndex → Slot) → ContactIds →
      List (PointerEvent Pt) × (SlotIndex → Slot) × ContactIds
  | [], slots, ids => ([], slots, ids)
  | i :: rest, slots, ids =>
    let (event, slot, ids) := f (slots i) ids
    let (events, slots, ids) := sweep f rest (Function.update slots i slot) ids
    (event.toList ++ events, slots, ids)

namespace TouchDecoder

def new (transform : Int → Int → Pt) : TouchDecoder Pt :=
  ⟨transform, fun _ => .default, slotIndex 0⟩

/-- The decoder with another current slot. -/
def setSlot (d : TouchDecoder Pt) (slot : Slot) : TouchDecoder Pt :=
  { d with slots := Function.update d.slots d.current slot }

def flush (d : TouchDecoder Pt) (ids : ContactIds) :
    List (PointerEvent Pt) × TouchDecoder Pt × ContactIds :=
  let (events, slots, ids) := sweep (Slot.flush d.transform) (List.finRange _) d.slots ids
  (events, { d with slots }, ids)

def resync (d : TouchDecoder Pt) (ids : ContactIds) :
    List (PointerEvent Pt) × TouchDecoder Pt × ContactIds :=
  let (events, slots, ids) := sweep (Slot.resync d.transform) (List.finRange _) d.slots ids
  (events, { d with slots, current := slotIndex 0 }, ids)

/-- Feeds one raw event: the events of the frame that it completes. -/
def feed (d : TouchDecoder Pt) (ids : ContactIds) (event : RawEvent) :
    List (PointerEvent Pt) × TouchDecoder Pt × ContactIds :=
  let slot := d.slots d.current
  match event.touch with
  | .report => d.flush ids
  | .dropped => d.resync ids
  | .slot value => ([], { d with current := slotIndex value }, ids)
  | .trackingId value =>
    let (slot, ids) := slot.track ids value
    ([], d.setSlot slot, ids)
  | .positionX value => ([], d.setSlot { slot with x := value, dirty := true }, ids)
  | .positionY value => ([], d.setSlot { slot with y := value, dirty := true }, ids)
  | .other => ([], d, ids)

end TouchDecoder

/-! ## The pen -/

/-- What an event says to the decoder of the pen. -/
inductive PenAxis where
  | report
  | dropped
  | x (value : Int)
  | y (value : Int)
  | pressure (value : Int)
  | tiltX (value : Int)
  | tiltY (value : Int)
  | touch (value : Int)
  | tool (tool : Pointer) (value : Int)
  | other
  deriving DecidableEq, Repr

/-- Reads the type and the code of an event. -/
def RawEvent.pen (event : RawEvent) : PenAxis :=
  if event.kind = EV_SYN ∧ event.code = SYN_REPORT then .report
  else if event.kind = EV_SYN ∧ event.code = SYN_DROPPED then .dropped
  else if event.kind = EV_ABS ∧ event.code = ABS_X then .x event.value
  else if event.kind = EV_ABS ∧ event.code = ABS_Y then .y event.value
  else if event.kind = EV_ABS ∧ event.code = ABS_PRESSURE then .pressure event.value
  else if event.kind = EV_ABS ∧ event.code = ABS_TILT_X then .tiltX event.value
  else if event.kind = EV_ABS ∧ event.code = ABS_TILT_Y then .tiltY event.value
  else if event.kind = EV_KEY ∧ event.code = BTN_TOUCH then .touch event.value
  else if event.kind = EV_KEY ∧ event.code = BTN_TOOL_PEN then .tool .pen event.value
  else if event.kind = EV_KEY ∧ event.code = BTN_TOOL_RUBBER then .tool .eraser event.value
  else .other

/-- Turns pen reports into pointer events. -/
structure PenDecoder (Pt : Type) where
  transform : Int → Int → Pt
  x : Int
  y : Int
  pressure : Int
  tilt : Int × Int
  tool : Pointer
  /-- The digitizer can see the pen. -/
  inRange : Bool
  touching : Bool
  down : Bool
  dirty : Bool
  /-- The id the current hover-or-press run is using. -/
  contact : Option ContactId

namespace PenDecoder

def new (transform : Int → Int → Pt) : PenDecoder Pt where
  transform
  x := 0
  y := 0
  pressure := 0
  tilt := (0, 0)
  tool := .pen
  inRange := false
  touching := false
  down := false
  dirty := false
  contact := none

/-- The event that a frame completed. A hovering pen is not pressing. -/
def event (d : PenDecoder Pt) (ids : ContactIds) (phase : PointerPhase) :
    PointerEvent Pt × PenDecoder Pt × ContactIds :=
  let (contact, ids) :=
    match d.contact with
    | some contact => (contact, ids)
    | none => ids.allocate
  let event := PointerEvent.new (d.transform d.x d.y) phase d.tool contact
  let tilt := Tilt.fromHundredths d.tilt.1 d.tilt.2 PEN_TILT_FULL_SCALE
  let event :=
    if phase = .hover then { event with tilt }
    else { event with tilt, pressure := Pressure.fromRaw d.pressure PEN_PRESSURE_FULL_SCALE }
  (event, { d with contact := some contact }, ids)

/-- The phase of a frame. -/
def phase (d : PenDecoder Pt) : Option PointerPhase :=
  match d.down, d.touching, d.inRange with
  | false, true, _ => some .down
  | true, true, _ => some .moved
  | true, false, _ => some .up
  | false, false, true => some .hover
  | false, false, false => none

def flush (d : PenDecoder Pt) (ids : ContactIds) :
    List (PointerEvent Pt) × PenDecoder Pt × ContactIds :=
  if d.dirty = false then ([], d, ids)
  else
    let d := { d with dirty := false }
    match d.phase with
    -- Out of range and not touching: any run that was in progress is over.
    | none => ([], { d with contact := none }, ids)
    | some phase =>
      let (event, d, ids) := { d with down := d.touching }.event ids phase
      -- The hover that follows a lift belongs to the next press.
      ([event], if phase = .up then { d with contact := none } else d, ids)

def resync (d : PenDecoder Pt) (ids : ContactIds) :
    List (PointerEvent Pt) × PenDecoder Pt × ContactIds :=
  let d := { d with dirty := false, touching := false }
  if d.down = false then ([], { d with contact := none }, ids)
  else
    let (event, d, ids) := { d with down := false }.event ids .cancelled
    ([event], { d with contact := none }, ids)

/-- Feeds one raw event: the events of the frame that it completes. -/
def feed (d : PenDecoder Pt) (ids : ContactIds) (event : RawEvent) :
    List (PointerEvent Pt) × PenDecoder Pt × ContactIds :=
  match event.pen with
  | .report => d.flush ids
  | .dropped => d.resync ids
  | .x value => ([], { d with x := value, dirty := true }, ids)
  | .y value => ([], { d with y := value, dirty := true }, ids)
  | .pressure value => ([], { d with pressure := value }, ids)
  | .tiltX value => ([], { d with tilt := (value, d.tilt.2) }, ids)
  | .tiltY value => ([], { d with tilt := (d.tilt.1, value) }, ids)
  | .touch value => ([], { d with touching := value ≠ 0, dirty := true }, ids)
  | .tool tool value =>
    ([], { d with inRange := value ≠ 0, tool := if value ≠ 0 then tool else d.tool, dirty := true },
      ids)
  | .other => ([], d, ids)

end PenDecoder

/-! ## Both nodes of a session -/

/-- Which node an event comes from. -/
inductive Node where
  | touch
  | pen
  deriving DecidableEq, Repr

/-- A raw event of one of the nodes. -/
structure Incoming where
  node : Node
  raw : RawEvent
  deriving DecidableEq, Repr

/-- The two decoders of a session, and the allocator that they share. -/
structure Decoders (Pt : Type) where
  touch : TouchDecoder Pt
  pen : PenDecoder Pt
  ids : ContactIds

namespace Decoders

def new (touch pen : Int → Int → Pt) : Decoders Pt := ⟨.new touch, .new pen, .new⟩

/-- Feeds one raw event to the decoder of its node. -/
def feed (s : Decoders Pt) (e : Incoming) : List (PointerEvent Pt) × Decoders Pt :=
  match e.node with
  | .touch =>
    let (events, touch, ids) := s.touch.feed s.ids e.raw
    (events, { s with touch, ids })
  | .pen =>
    let (events, pen, ids) := s.pen.feed s.ids e.raw
    (events, { s with pen, ids })

/-- Feeds some raw events. -/
def run (s : Decoders Pt) : List Incoming → List (PointerEvent Pt) × Decoders Pt
  | [] => ([], s)
  | e :: rest =>
    let (events, s) := s.feed e
    let (later, s) := s.run rest
    (events ++ later, s)

end Decoders

/-- What holds of every place of a list holds of the first and of those of the rest. -/
theorem places_cons {α : Type} {P : List α → α → Prop} {e : α} {rest : List α} (h : P [] e)
    (hr : ∀ before e' after, rest = before ++ e' :: after → P (e :: before) e') :
    ∀ before e' after, e :: rest = before ++ e' :: after → P before e' := by
  intro before e' after heq
  cases before with
  | nil =>
    cases heq
    exact h
  | cons first before =>
    cases heq
    exact hr before e' after rfl

end Paperclip.Input
