import Paperclip.Input.Contacts
import Mathlib.Algebra.Group.Nat.Defs

/-!
# Contacts from their first event to their last

The two decoders are a roster whose holders are the slots of the touchscreen and the pen.

* `LifeCycle`: what the events of a run say about the contacts.
* `Orderly`: what the kernel must not do within a frame for that to hold.
* `Decoders.Depicts`: the roster that a state of the decoders stands for.
-/

namespace Paperclip.Input

variable {Pt : Type}

/-! ## What a run is to show -/

/-- The event completes a frame of the node, or says that one was lost. -/
def Incoming.Completes (e : Incoming) (node : Node) : Prop :=
  e.node = node ∧ e.raw.kind = EV_SYN ∧ (e.raw.code = SYN_REPORT ∨ e.raw.code = SYN_DROPPED)

/-- The pen leaves the glass, or the sight of the digitizer. -/
def RawEvent.PenAway (raw : RawEvent) : Prop :=
  raw.kind = EV_KEY ∧ raw.value = 0 ∧
    (raw.code = BTN_TOUCH ∨ raw.code = BTN_TOOL_PEN ∨ raw.code = BTN_TOOL_RUBBER)

/-- The kernel tracks a contact in the current slot. -/
def TouchAxis.tracks : TouchAxis → Bool
  | .trackingId value => !decide (value < 0)
  | _ => false

namespace Decoders

/-- The slot that the events of the touchscreen are about. -/
def slot (s : Decoders Pt) : Slot := s.touch.slots s.touch.current

/-- With this event the kernel ends a contact that is down. -/
def Ends (s : Decoders Pt) (e : Incoming) (c : ContactId) : Prop :=
  match e.node with
  | .touch =>
    (∃ value, e.raw.touch = .trackingId value ∧ value < 0 ∧
      s.slot.down = true ∧ s.slot.contact = some c) ∨
    (e.raw.touch = .dropped ∧
      ∃ i, (s.touch.slots i).down = true ∧ (s.touch.slots i).contact = some c)
  | .pen =>
    (e.raw.PenAway ∨ e.raw.pen = .dropped) ∧ s.pen.down = true ∧ s.pen.contact = some c

/-- A tracking id for a slot whose contact was lifted in the same frame. -/
def Retracks (s : Decoders Pt) (e : Incoming) : Prop :=
  e.node = .touch ∧ e.raw.touch.tracks = true ∧ s.slot.lifted = true

instance (s : Decoders Pt) (e : Incoming) : Decidable (s.Retracks e) :=
  inferInstanceAs (Decidable (_ ∧ _ ∧ _))

/-- The event takes a fresh id. -/
def allocates (s : Decoders Pt) (e : Incoming) : Bool :=
  match e.node with
  | .touch => e.raw.touch.tracks && s.slot.tracking.isNone
  | .pen =>
    match e.raw.pen with
    | .report => s.pen.dirty && s.pen.phase.isSome && s.pen.contact.isNone
    | _ => false

/-- How many fresh ids a run takes. -/
def allocated (s : Decoders Pt) : List Incoming → Nat
  | [] => 0
  | e :: rest => (s.allocates e).toNat + (s.feed e).2.allocated rest

end Decoders

/-- The phases of the events of a contact. -/
def phases (events : List (PointerEvent Pt)) (c : ContactId) : List PointerPhase :=
  (events.filter (·.contact = c)).map (·.phase)

/-- What the events of a run say about the contacts. -/
structure LifeCycle (s : Decoders Pt) (inputs : List Incoming) : Prop where
  /-- An id belongs to one device, which tells one life under it. -/
  lives : ∀ event ∈ (s.run inputs).1,
    (∀ other ∈ (s.run inputs).1, other.contact = event.contact →
      other.pointer.isStylus = event.pointer.isStylus) ∧
    Begins (Life event.pointer.isStylus) (phases (s.run inputs).1 event.contact)
  /-- A contact that the kernel ends is ended by the report that ends the frame. -/
  prompt : ∀ before e mid r after c, inputs = before ++ e :: mid ++ r :: after →
    (s.run before).2.Ends e c → (∀ m ∈ mid, ¬ m.Completes e.node) → r.Completes e.node →
    ∃ event ∈ ((s.run before).2.run (e :: mid ++ [r])).1,
      event.contact = c ∧ (event.phase = .up ∨ event.phase = .cancelled)

/-- What the kernel must not do within a frame. -/
structure Orderly (s : Decoders Pt) (inputs : List Incoming) : Prop where
  /-- No slot is given a new contact in the frame that lifts its old one. -/
  kept : ∀ before e after, inputs = before ++ e :: after → ¬ (s.run before).2.Retracks e
  /-- A pen that went away during a stroke does not touch at the report. -/
  gone : ∀ before e mid r after, inputs = before ++ e :: mid ++ r :: after →
    e.node = .pen → e.raw.PenAway → (s.run before).2.pen.down = true →
    (∀ m ∈ mid, ¬ m.Completes .pen) → r.Completes .pen → r.raw.pen = .report →
    (s.run (before ++ e :: mid)).2.pen.touching = false
  /-- The counter of the ids does not come round. -/
  ids : s.allocated inputs ≤ 2 ^ 64

/-! ## The decoders as a roster -/

/-- Who may hold a contact. -/
inductive Holder where
  | slot (i : SlotIndex)
  | pen
  deriving DecidableEq

/-- Only the pen hovers. -/
def Holder.hovers : Holder → Bool
  | slot _ => false
  | pen => true

/-- The id that a number is handed out as. -/
def ContactId.ofNat (n : Nat) : ContactId := ⟨.ofNat n⟩

theorem ContactId.ofNat_succ (n : Nat) :
    (⟨(ContactId.ofNat n).value + 1⟩ : ContactId) = .ofNat (n + 1) := by
  simp [ContactId.ofNat, UInt64.ofNat_add]

/-- Below the bound the numbers are told apart by their ids. -/
theorem ContactId.ofNat_inj {m n : Nat} (hm : m < 2 ^ 64) (hn : n < 2 ^ 64)
    (h : ContactId.ofNat m = .ofNat n) : m = n := by
  have hv : UInt64.ofNat m = .ofNat n := congrArg ContactId.value h
  have := congrArg UInt64.toNat hv
  rwa [UInt64.toNat_ofNat_of_lt' hm, UInt64.toNat_ofNat_of_lt' hn] at this

/-- The slot has the contact that the roster says. -/
def Slot.Depicts (slot : Slot) : Option (Nat × Bool) → Prop
  | none => slot.down = false ∧ slot.lifted = false ∧ slot.tracking = none
  | some (c, false) => slot.down = false ∧ slot.lifted = false ∧ slot.tracking.isSome = true ∧
      slot.contact = some (.ofNat c)
  | some (c, true) => slot.down = true ∧ (slot.tracking = none → slot.lifted = true) ∧
      slot.contact = some (.ofNat c)

/-- The pen has the contact that the roster says. -/
def PenDecoder.Depicts (pen : PenDecoder Pt) : Option (Nat × Bool) → Prop
  | none => pen.down = false ∧ pen.contact = none
  | some (c, pressed) => pen.down = pressed ∧ pen.contact = some (.ofNat c)

/-- The roster that the decoders stand for. -/
structure Decoders.Depicts (s : Decoders Pt) (r : Roster Holder) : Prop where
  slots : ∀ i, (s.touch.slots i).Depicts (r.held (.slot i))
  pen : s.pen.Depicts (r.held .pen)
  ids : s.ids.next = .ofNat r.next
  stylus : s.pen.tool.isStylus = true

theorem Decoders.depicts_new (touch pen : Int → Int → Pt) :
    (Decoders.new touch pen).Depicts .empty :=
  ⟨fun _ => ⟨rfl, rfl, rfl⟩, ⟨rfl, rfl⟩, rfl, rfl⟩

/-- What an event says about its contact. -/
def PointerEvent.gist (event : PointerEvent Pt) : ContactId × PointerPhase × Bool :=
  (event.contact, event.phase, event.pointer.isStylus)

/-- What the roster says of it. -/
def Emission.gist (e : Emission Holder) : ContactId × PointerPhase × Bool :=
  (.ofNat e.contact, e.phase, e.holder.hovers)

/-- The events are those that the roster emits. -/
def Tells (events : List (PointerEvent Pt)) (out : List (Emission Holder)) : Prop :=
  events.map (·.gist) = out.map (·.gist)

theorem Tells.append {events events' : List (PointerEvent Pt)} {out out' : List (Emission Holder)}
    (h : Tells events out) (h' : Tells events' out') : Tells (events ++ events') (out ++ out') := by
  rw [Tells, List.map_append, List.map_append, h, h']

/-! ### The slots -/

/-- What a pass makes of a slot is what the roster lets its holder do. -/
def Allowed (f : Slot → ContactIds → Option (PointerEvent Pt) × Slot × ContactIds) : Prop :=
  ∀ (i : SlotIndex) (slot : Slot) (ids : ContactIds) (r : Roster Holder),
    slot.Depicts (r.held (.slot i)) → ∃ out held,
      Roster.Steps Holder.hovers r out (r.put (.slot i) held) ∧
      (f slot ids).2.1.Depicts held ∧ (f slot ids).2.2 = ids ∧ Tells (f slot ids).1.toList out

theorem Slot.depicts_default : Slot.default.Depicts none := ⟨rfl, rfl, rfl⟩

/-- A holder of nothing, or of a contact that is not down yet, may give it up. -/
theorem steps_abandon {r : Roster Holder} {h : Holder} (hu : ∀ c, r.held h ≠ some (c, true)) :
    Roster.Steps Holder.hovers r [] (r.put h none) := (Roster.Step.abandon hu).steps

theorem allowed_flush (transform : Int → Int → Pt) : Allowed (Slot.flush transform) := by
  intro i slot ids r hd
  cases hdirty : slot.dirty with
  | false =>
    refine ⟨[], _, by rw [Roster.put_held rfl]; exact .refl, ?_⟩
    rw [Slot.flush, if_pos hdirty]
    exact ⟨hd, rfl, rfl⟩
  | true =>
    match hheld : r.held (.slot i) with
    | none =>
      rw [hheld] at hd
      obtain ⟨hdown, hlifted, htrack⟩ := hd
      refine ⟨[], none, steps_abandon (by rw [hheld]; exact nofun), ?_⟩
      simp [Slot.flush, hdirty, hdown, hlifted, htrack, Tells, Slot.depicts_default]
    | some (c, false) =>
      rw [hheld] at hd
      obtain ⟨hdown, hlifted, htrack, hc⟩ := hd
      refine ⟨_, _, (Roster.Step.press hheld).steps, ?_⟩
      simp [Slot.flush, Slot.identify, Slot.Depicts, hdirty, hdown, hlifted, htrack, hc, Tells,
        PointerEvent.gist, Emission.gist, PointerEvent.new, Pointer.isStylus, Holder.hovers]
      intro hn
      rw [hn] at htrack
      cases htrack
    | some (c, true) =>
      rw [hheld] at hd
      obtain ⟨hdown, htrack, hc⟩ := hd
      cases hlifted : slot.lifted with
      | true =>
        refine ⟨_, none, (Roster.Step.finish hheld (.inl rfl)).steps, ?_⟩
        simp [Slot.flush, Slot.identify, Slot.depicts_default, hdirty, hlifted, hc, Tells,
          PointerEvent.gist, Emission.gist, PointerEvent.new, Pointer.isStylus, Holder.hovers]
      | false =>
        refine ⟨[⟨.slot i, c, .moved⟩], some (c, true), ?_, ?_⟩
        · rw [Roster.put_held hheld]
          exact (Roster.Step.move hheld).steps
        simp [Slot.flush, Slot.identify, Slot.Depicts, hdirty, hdown, hlifted, hc, Tells,
          PointerEvent.gist, Emission.gist, PointerEvent.new, Pointer.isStylus, Holder.hovers]
        simpa [hlifted] using htrack

theorem allowed_resync (transform : Int → Int → Pt) : Allowed (Slot.resync transform) := by
  intro i slot ids r hd
  match hheld : r.held (.slot i) with
  | none =>
    rw [hheld] at hd
    refine ⟨[], none, steps_abandon (by rw [hheld]; exact nofun), ?_⟩
    simp [Slot.resync, hd.1, Tells, Slot.depicts_default]
  | some (c, false) =>
    rw [hheld] at hd
    refine ⟨[], none, steps_abandon (by rw [hheld]; exact nofun), ?_⟩
    simp [Slot.resync, hd.1, Tells, Slot.depicts_default]
  | some (c, true) =>
    rw [hheld] at hd
    obtain ⟨hdown, -, hc⟩ := hd
    refine ⟨_, none, (Roster.Step.finish hheld (.inr rfl)).steps, ?_⟩
    simp [Slot.resync, Slot.identify, Slot.depicts_default, hdown, hc, Tells, PointerEvent.gist,
      Emission.gist, PointerEvent.new, Pointer.isStylus, Holder.hovers]

/-- A pass over some slots, of which each is allowed, is allowed. -/
theorem sweep_allowed {f : Slot → ContactIds → Option (PointerEvent Pt) × Slot × ContactIds}
    (hf : Allowed f) (l : List SlotIndex) {slots : SlotIndex → Slot} (ids : ContactIds)
    {r : Roster Holder} (hd : ∀ i, (slots i).Depicts (r.held (.slot i))) :
    ∃ out r', Roster.Steps Holder.hovers r out r' ∧
      (∀ i, ((sweep f l slots ids).2.1 i).Depicts (r'.held (.slot i))) ∧
      r'.held .pen = r.held .pen ∧ r'.next = r.next ∧
      (sweep f l slots ids).2.2 = ids ∧ Tells (sweep f l slots ids).1 out := by
  induction l generalizing slots ids r with
  | nil => exact ⟨[], r, .refl, hd, rfl, rfl, rfl, rfl⟩
  | cons i rest ih =>
    obtain ⟨out, held, hsteps, hslot, hids, htell⟩ := hf i (slots i) ids r (hd i)
    have hd' (j : SlotIndex) : (Function.update slots i (f (slots i) ids).2.1 j).Depicts
        ((r.put (.slot i) held).held (.slot j)) := by
      rcases eq_or_ne j i with rfl | hne
      · rw [Function.update_self, Roster.put_held_self]
        exact hslot
      · rw [Function.update_of_ne hne, Roster.put_held_of_ne (fun h => hne (Holder.slot.inj h))]
        exact hd j
    obtain ⟨out', r', hsteps', hslots, hpen, hnext, hids', htell'⟩ :=
      ih (f (slots i) ids).2.2 hd'
    refine ⟨out ++ out', r', hsteps.trans hsteps', hslots, ?_, hnext, hids'.trans hids,
      htell.append htell'⟩
    rw [hpen, Roster.put_held_of_ne (by simp)]

/-- A tracking id begins a contact, gives one up that is not down yet, or changes nothing. -/
theorem track_allowed {i : SlotIndex} {slot : Slot} {ids : ContactIds} {r : Roster Holder}
    (value : Int) (hd : slot.Depicts (r.held (.slot i))) (hids : ids.next = .ofNat r.next)
    (hk : ¬ (0 ≤ value ∧ slot.lifted = true)) : ∃ r', Roster.Steps Holder.hovers r [] r' ∧
      (∀ h, h ≠ .slot i → r'.held h = r.held h) ∧
      (slot.track ids value).1.Depicts (r'.held (.slot i)) ∧
      (slot.track ids value).2.next = .ofNat r'.next ∧
      r'.next = r.next + (!decide (value < 0) && slot.tracking.isNone).toNat := by
  by_cases hv : value < 0
  · rw [Slot.track, if_pos hv]
    cases hdown : slot.down with
    | true =>
      refine ⟨r, .refl, fun _ _ => rfl, ?_, by simpa using hids, by simp [hv]⟩
      match hheld : r.held (.slot i) with
      | none => rw [hheld] at hd; simp [hd.1] at hdown
      | some (c, false) => rw [hheld] at hd; simp [hd.1] at hdown
      | some (c, true) => rw [hheld] at hd; simp [Slot.Depicts, hd.2.2]
    | false =>
      have hu : ∀ c, r.held (.slot i) ≠ some (c, true) := by
        intro c hc
        rw [hc] at hd
        simp [hd.1] at hdown
      have hlifted : slot.lifted = false := by
        match hheld : r.held (.slot i) with
        | none => rw [hheld] at hd; exact hd.2.1
        | some (c, false) => rw [hheld] at hd; exact hd.2.1
        | some (c, true) => exact absurd hheld (hu c)
      refine ⟨_, steps_abandon hu, fun h hne => Roster.put_held_of_ne hne, ?_, by simpa using hids,
        by simp [hv]⟩
      rw [Roster.put_held_self]
      simp [Slot.Depicts, hdown, hlifted]
  · rw [Slot.track, if_neg hv]
    match hheld : r.held (.slot i) with
    | none =>
      rw [hheld] at hd
      obtain ⟨hdown, hlifted, htrack⟩ := hd
      refine ⟨_, (Roster.Step.begin (h := .slot i) (by rw [hheld]; exact nofun)).steps,
        fun h hne => Roster.put_held_of_ne hne, ?_, ?_, by simp [hv, htrack]⟩
      · rw [show (Roster.put r (.slot i) (some (r.next, false))).held (.slot i) = _ from
          Roster.put_held_self ..]
        simp [Slot.Depicts, htrack, hdown, hlifted, ContactIds.allocate, hids]
      · simp [htrack, ContactIds.allocate, hids, ContactId.ofNat_succ]
    | some (c, false) =>
      rw [hheld] at hd
      obtain ⟨hdown, hlifted, htrack, hc⟩ := hd
      obtain ⟨id, hid⟩ := Option.isSome_iff_exists.1 htrack
      refine ⟨r, .refl, fun _ _ => rfl, ?_, by simpa [hid] using hids, by simp [hid]⟩
      rw [hheld]
      simp [Slot.Depicts, hid, hdown, hlifted, hc]
    | some (c, true) =>
      rw [hheld] at hd
      obtain ⟨hdown, htrack, hc⟩ := hd
      obtain ⟨id, hid⟩ : ∃ id, slot.tracking = some id := by
        rw [← Option.ne_none_iff_exists']
        exact fun hn => hk ⟨Int.not_lt.1 hv, htrack hn⟩
      refine ⟨r, .refl, fun _ _ => rfl, ?_, by simpa [hid] using hids, by simp [hid]⟩
      rw [hheld]
      simp [Slot.Depicts, hid, hdown, hc]

/-- The decoder of the touchscreen does what the roster allows. -/
theorem touch_feed {s : Decoders Pt} {r : Roster Holder} {raw : RawEvent} (hd : s.Depicts r)
    (hk : ¬ s.Retracks ⟨.touch, raw⟩) : ∃ out r', Roster.Steps Holder.hovers r out r' ∧
      (s.feed ⟨.touch, raw⟩).2.Depicts r' ∧
      r'.next = r.next + (s.allocates ⟨.touch, raw⟩).toNat ∧
      Tells (s.feed ⟨.touch, raw⟩).1 out := by
  have kept {slot : Slot} {ids : ContactIds} {r' : Roster Holder}
      (hother : ∀ h, h ≠ .slot s.touch.current → r'.held h = r.held h)
      (hslot : slot.Depicts (r'.held (.slot s.touch.current))) (hids : ids.next = .ofNat r'.next) :
      Decoders.Depicts ⟨s.touch.setSlot slot, s.pen, ids⟩ r' := by
    refine ⟨fun i => ?_, ?_, hids, hd.stylus⟩
    · rcases eq_or_ne i s.touch.current with rfl | hne
      · simpa [TouchDecoder.setSlot] using hslot
      · rw [hother _ (fun h => hne (Holder.slot.inj h))]
        simpa [TouchDecoder.setSlot, Function.update_of_ne hne] using hd.slots i
    · rw [hother _ (by simp)]
      exact hd.pen
  cases hraw : raw.touch with
  | report =>
    obtain ⟨out, r', hsteps, hslots, hpen, hnext, hids, htell⟩ :=
      sweep_allowed (allowed_flush s.touch.transform) (List.finRange _) s.ids hd.slots
    refine ⟨out, r', hsteps, ?_, ?_, ?_⟩ <;>
      simp only [Decoders.feed, Decoders.allocates, TouchDecoder.feed, TouchDecoder.flush,
        TouchAxis.tracks, hraw]
    · exact ⟨hslots, hpen ▸ hd.pen, by rw [hids, hnext]; exact hd.ids, hd.stylus⟩
    · exact hnext
    · exact htell
  | dropped =>
    obtain ⟨out, r', hsteps, hslots, hpen, hnext, hids, htell⟩ :=
      sweep_allowed (allowed_resync s.touch.transform) (List.finRange _) s.ids hd.slots
    refine ⟨out, r', hsteps, ?_, ?_, ?_⟩ <;>
      simp only [Decoders.feed, Decoders.allocates, TouchDecoder.feed, TouchDecoder.resync,
        TouchAxis.tracks, hraw]
    · exact ⟨hslots, hpen ▸ hd.pen, by rw [hids, hnext]; exact hd.ids, hd.stylus⟩
    · exact hnext
    · exact htell
  | trackingId value =>
    obtain ⟨r', hsteps, hother, hslot, hids, hnext⟩ := track_allowed value
      (hd.slots s.touch.current) hd.ids
      (fun h => hk ⟨rfl, by simpa [hraw, TouchAxis.tracks] using h.1, h.2⟩)
    refine ⟨[], r', hsteps, ?_, ?_, ?_⟩ <;>
      simp only [Decoders.feed, Decoders.allocates, TouchDecoder.feed, TouchAxis.tracks, hraw]
    · exact kept hother hslot hids
    · exact hnext
    · rfl
  | slot value =>
    refine ⟨[], r, .refl, ?_, ?_, ?_⟩ <;>
      simp only [Decoders.feed, Decoders.allocates, TouchDecoder.feed, TouchAxis.tracks, hraw]
    · exact ⟨hd.slots, hd.pen, hd.ids, hd.stylus⟩
    · rfl
    · rfl
  | positionX value =>
    refine ⟨[], r, .refl, ?_, ?_, ?_⟩ <;>
      simp only [Decoders.feed, Decoders.allocates, TouchDecoder.feed, TouchAxis.tracks, hraw]
    · exact kept (fun _ _ => rfl) (hd.slots s.touch.current) hd.ids
    · rfl
    · rfl
  | positionY value =>
    refine ⟨[], r, .refl, ?_, ?_, ?_⟩ <;>
      simp only [Decoders.feed, Decoders.allocates, TouchDecoder.feed, TouchAxis.tracks, hraw]
    · exact kept (fun _ _ => rfl) (hd.slots s.touch.current) hd.ids
    · rfl
    · rfl
  | other =>
    refine ⟨[], r, .refl, ?_, ?_, ?_⟩ <;>
      simp only [Decoders.feed, Decoders.allocates, TouchDecoder.feed, TouchAxis.tracks, hraw]
    · exact ⟨hd.slots, hd.pen, hd.ids, hd.stylus⟩
    · rfl
    · rfl

/-! ### The pen -/

/-- An event of the pen is about its contact, or about a fresh one if it has none. -/
theorem pen_event {pen : PenDecoder Pt} {ids : ContactIds} {r : Roster Holder}
    (pen' : PenDecoder Pt) (phase : PointerPhase) (hd : pen.Depicts (r.held .pen)) (hids : ids.next = .ofNat r.next)
    (hc : pen'.contact = pen.contact) : ∃ c r',
      Roster.Steps Holder.hovers r [] r' ∧ (∀ h, h ≠ .pen → r'.held h = r.held h) ∧
      r'.held .pen = some (c, pen.down) ∧ r'.next = r.next + pen.contact.isNone.toNat ∧
      (pen'.event ids phase).2.1 = { pen' with contact := some (.ofNat c) } ∧
      (pen'.event ids phase).2.2.next = .ofNat r'.next ∧
      (pen'.event ids phase).1.gist = (.ofNat c, phase, pen'.tool.isStylus) := by
  match hheld : r.held .pen with
  | none =>
    rw [hheld] at hd
    rw [hd.2] at hc
    refine ⟨r.next, _, (Roster.Step.begin (h := .pen) (by rw [hheld]; exact nofun)).steps,
      fun h hne => Roster.put_held_of_ne hne, ?_, ?_, ?_, ?_, ?_⟩
    · rw [hd.1]
      exact Roster.put_held_self r .pen _
    · simp [hd.2]
    · simp [PenDecoder.event, hc, ContactIds.allocate, hids]
    · simp [PenDecoder.event, hc, ContactIds.allocate, hids, ContactId.ofNat_succ]
    · simp only [PenDecoder.event, hc, PointerEvent.gist]
      split <;> simp [PointerEvent.new, ContactIds.allocate, hids]
  | some (c, pressed) =>
    rw [hheld] at hd
    rw [hd.2] at hc
    refine ⟨c, r, .refl, fun _ _ => rfl, ?_, ?_, ?_, ?_, ?_⟩
    · rw [hheld, hd.1]
    · simp [hd.2]
    · simp [PenDecoder.event, hc]
    · simpa [PenDecoder.event, hc] using hids
    · simp only [PenDecoder.event, hc, PointerEvent.gist]
      split <;> simp [PointerEvent.new]

/-- What a pass makes of the pen is what the roster lets it do, with so many fresh ids. -/
def PenAllowed (r : Roster Holder) (pen : PenDecoder Pt) (fresh : Nat)
    (result : List (PointerEvent Pt) × PenDecoder Pt × ContactIds) : Prop :=
  ∃ out r', Roster.Steps Holder.hovers r out r' ∧ (∀ h, h ≠ .pen → r'.held h = r.held h) ∧
    result.2.1.Depicts (r'.held .pen) ∧ result.2.1.tool = pen.tool ∧
    result.2.2.next = .ofNat r'.next ∧ r'.next = r.next + fresh ∧ Tells result.1 out

section
variable {pen : PenDecoder Pt} {ids : ContactIds} {r : Roster Holder}

/-- A pen that is not down may forget its contact. -/
theorem pen_abandon (hd : pen.Depicts (r.held .pen)) (hids : ids.next = .ofNat r.next)
    (hdown : pen.down = false) {pen' : PenDecoder Pt} (hd' : pen'.Depicts none)
    (ht : pen'.tool = pen.tool) : PenAllowed r pen 0 ([], pen', ids) := by
  refine ⟨[], _, steps_abandon (h := .pen) ?_, fun h hne => Roster.put_held_of_ne hne, ?_, ht, hids,
    rfl, rfl⟩
  · intro c hc
    rw [hc] at hd
    rw [hd.1] at hdown
    cases hdown
  · rw [Roster.put_held_self]
    exact hd'

/-- A pen with a fresh contact, or the one it had, does one step with it. -/
theorem pen_emit (pen' : PenDecoder Pt) (phase : PointerPhase) (clear : Bool)
    (hd : pen.Depicts (r.held .pen)) (hids : ids.next = .ofNat r.next)
    (hst : pen.tool.isStylus = true) (hc : pen'.contact = pen.contact) (ht : pen'.tool = pen.tool)
    (hstep : ∀ c r₁, r₁.held .pen = some (c, pen.down) → Roster.Step Holder.hovers r₁
      [⟨.pen, c, phase⟩] (r₁.put .pen (if clear then none else some (c, pen'.down))))
    (hclear : clear = true → pen'.down = false) :
    PenAllowed r pen pen.contact.isNone.toNat ([(pen'.event ids phase).1],
      if clear then { (pen'.event ids phase).2.1 with contact := none }
      else (pen'.event ids phase).2.1, (pen'.event ids phase).2.2) := by
  obtain ⟨c, r₁, hsteps, hother, hheld, hnext, hpen, hids', hgist⟩ :=
    pen_event pen' phase hd hids hc
  refine ⟨[⟨.pen, c, phase⟩], _, hsteps.trans (hstep c r₁ hheld).steps,
    fun h hne => (Roster.put_held_of_ne hne).trans (hother h hne), ?_, ?_, hids', hnext, ?_⟩
  · rw [Roster.put_held_self]
    cases clear with
    | true => exact ⟨by simp [hpen, hclear rfl], rfl⟩
    | false => simp [hpen, PenDecoder.Depicts]
  · cases clear <;> simp [hpen, ht]
  · simp [Tells, hgist, Emission.gist, Holder.hovers, ht, hst]

/-- A frame of the pen is a step of its contact. -/
theorem phase_step {phase : PointerPhase} {c : Nat} (hp : pen.phase = some phase)
    (hh : r.held .pen = some (c, pen.down)) : Roster.Step Holder.hovers r [⟨.pen, c, phase⟩]
      (r.put .pen (if decide (phase = .up) then none else some (c, pen.touching))) := by
  unfold PenDecoder.phase at hp
  split at hp <;> cases hp
  next _ hdown htouch =>
    rw [hdown] at hh
    rw [htouch]
    exact .press hh
  next _ hdown htouch =>
    rw [hdown] at hh
    rw [htouch, Roster.put_held (by simpa using hh)]
    exact .move hh
  next _ hdown htouch =>
    rw [hdown] at hh
    exact .finish hh (.inl rfl)
  next hdown htouch _ =>
    rw [hdown] at hh
    rw [htouch, Roster.put_held (by simpa using hh)]
    exact .hover hh rfl

/-- A frame without a phase is one of a pen that is neither down nor touching. -/
theorem phase_eq_none (hp : pen.phase = none) : pen.down = false := by
  unfold PenDecoder.phase at hp
  split at hp <;> cases hp
  assumption

/-- Only a pen that does not touch is lifted. -/
theorem phase_eq_up (hp : pen.phase = some .up) : pen.touching = false := by
  unfold PenDecoder.phase at hp
  split at hp <;> cases hp
  assumption

theorem pen_flush (hd : pen.Depicts (r.held .pen)) (hids : ids.next = .ofNat r.next)
    (hst : pen.tool.isStylus = true) : PenAllowed r pen
      (pen.dirty && pen.phase.isSome && pen.contact.isNone).toNat (pen.flush ids) := by
  cases hdirty : pen.dirty with
  | false =>
    rw [PenDecoder.flush, if_pos hdirty]
    exact ⟨[], r, .refl, fun _ _ => rfl, hd, rfl, hids, rfl, rfl⟩
  | true =>
    rw [PenDecoder.flush, if_neg (by rw [hdirty]; decide)]
    have hsame : ({ pen with dirty := false } : PenDecoder Pt).phase = pen.phase := rfl
    simp only [hsame]
    cases hp : pen.phase with
    | none => exact pen_abandon hd hids (phase_eq_none hp) ⟨phase_eq_none hp, rfl⟩ rfl
    | some phase =>
      have := pen_emit { pen with dirty := false, down := pen.touching } phase
        (decide (phase = .up)) hd hids hst rfl rfl (fun c r₁ hh => phase_step hp hh)
        (fun hu => phase_eq_up (by rw [hp, of_decide_eq_true hu]))
      simpa using this

theorem pen_resync (hd : pen.Depicts (r.held .pen)) (hids : ids.next = .ofNat r.next)
    (hst : pen.tool.isStylus = true) : PenAllowed r pen 0 (pen.resync ids) := by
  rw [PenDecoder.resync]
  cases hdown : pen.down with
  | false => exact pen_abandon hd hids hdown ⟨rfl, rfl⟩ rfl
  | true =>
    have hc : pen.contact.isNone = false := by
      match hheld : r.held .pen with
      | none => rw [hheld] at hd; simp [hd.1] at hdown
      | some (c, pressed) => rw [hheld] at hd; simp [hd.2]
    have := pen_emit { pen with dirty := false, touching := false, down := false }
      .cancelled true hd hids hst rfl rfl
      (fun c r₁ hh => .finish (hdown ▸ hh) (.inr rfl)) (fun _ => rfl)
    simpa [hc] using this

end

/-- What a pass of the decoder of the pen is allowed, the two decoders are. -/
theorem PenAllowed.depicts {s : Decoders Pt} {r : Roster Holder} {fresh : Nat}
    {result : List (PointerEvent Pt) × PenDecoder Pt × ContactIds}
    (h : PenAllowed r s.pen fresh result) (hd : s.Depicts r) : ∃ out r',
      Roster.Steps Holder.hovers r out r' ∧
      (⟨s.touch, result.2.1, result.2.2⟩ : Decoders Pt).Depicts r' ∧
      r'.next = r.next + fresh ∧ Tells result.1 out := by
  obtain ⟨out, r', hsteps, hother, hpen, htool, hids, hnext, htell⟩ := h
  refine ⟨out, r', hsteps, ⟨fun i => ?_, hpen, hids, by rw [htool]; exact hd.stylus⟩, hnext, htell⟩
  rw [hother _ (by simp)]
  exact hd.slots i

/-- The tools of the pen are those of a stylus. -/
theorem pen_tool {raw : RawEvent} {tool : Pointer} {value : Int} (h : raw.pen = .tool tool value) :
    tool.isStylus = true := by
  unfold RawEvent.pen at h
  split_ifs at h <;> cases h <;> rfl

/-- The decoder of the pen does what the roster allows. -/
theorem pen_feed {s : Decoders Pt} {r : Roster Holder} {raw : RawEvent} (hd : s.Depicts r) :
    ∃ out r', Roster.Steps Holder.hovers r out r' ∧ (s.feed ⟨.pen, raw⟩).2.Depicts r' ∧
      r'.next = r.next + (s.allocates ⟨.pen, raw⟩).toNat ∧ Tells (s.feed ⟨.pen, raw⟩).1 out := by
  -- What only touches the axes and the buttons leaves the roster alone.
  have kept {pen : PenDecoder Pt} (hpen : pen.Depicts (r.held .pen))
      (htool : pen.tool.isStylus = true) : ∃ out r', Roster.Steps Holder.hovers r out r' ∧
        ({ s with pen } : Decoders Pt).Depicts r' ∧ r'.next = r.next + 0 ∧
        Tells ([] : List (PointerEvent Pt)) out :=
    ⟨[], r, .refl, ⟨hd.slots, hpen, hd.ids, htool⟩, rfl, rfl⟩
  cases hraw : raw.pen <;> simp only [Decoders.feed, Decoders.allocates, PenDecoder.feed, hraw]
  case report => exact (pen_flush hd.pen hd.ids hd.stylus).depicts hd
  case dropped => exact (pen_resync hd.pen hd.ids hd.stylus).depicts hd
  case tool tool value =>
    refine kept hd.pen ?_
    dsimp only
    split
    · exact pen_tool hraw
    · exact hd.stylus
  all_goals exact kept hd.pen hd.stylus

/-! ### Runs -/

namespace Decoders

variable {s : Decoders Pt} {r : Roster Holder}

theorem run_append (s : Decoders Pt) (a b : List Incoming) :
    s.run (a ++ b) = ((s.run a).1 ++ ((s.run a).2.run b).1, ((s.run a).2.run b).2) := by
  induction a generalizing s with
  | nil => rfl
  | cons e rest ih => simp [run, ih, List.append_assoc]

/-- One raw event is some steps of the roster. -/
theorem feed_steps {e : Incoming} (hd : s.Depicts r) (hk : ¬ s.Retracks e) : ∃ out r',
    Roster.Steps Holder.hovers r out r' ∧ (s.feed e).2.Depicts r' ∧
    r'.next = r.next + (s.allocates e).toNat ∧ Tells (s.feed e).1 out := by
  obtain ⟨_ | _, raw⟩ := e
  · exact touch_feed hd hk
  · exact pen_feed hd

/-- A run is some steps of the roster. -/
theorem run_steps {inputs : List Incoming} (hd : s.Depicts r)
    (hk : ∀ before e after, inputs = before ++ e :: after → ¬ (s.run before).2.Retracks e) :
    ∃ out r', Roster.Steps Holder.hovers r out r' ∧ r'.next = r.next + s.allocated inputs ∧
      Tells (s.run inputs).1 out := by
  induction inputs generalizing s r with
  | nil => exact ⟨[], r, .refl, rfl, rfl⟩
  | cons e rest ih =>
    obtain ⟨out, r₁, hsteps, hd₁, hnext, htell⟩ := feed_steps hd (hk [] e rest rfl)
    obtain ⟨out', r₂, hsteps', hnext', htell'⟩ := ih hd₁
      (fun before e' after h => hk (e :: before) e' after (by rw [h]; rfl))
    exact ⟨out ++ out', r₂, hsteps.trans hsteps', by rw [hnext', hnext, allocated]; omega,
      htell.append htell'⟩

end Decoders

end Paperclip.Input
