import Paperclip.Input.LifeCycle

/-!
# The end of a contact

* `lives_of_kept`: what was emitted for a contact begins a life, since the roster's does.
* `Lifted`, `Gone`: a contact that the kernel ended within the frame. Nothing in the frame but a new
  contact in its place can save it, and the report ends it.
-/

namespace Paperclip.Input

variable {Pt : Type}

/-! ## Lives -/

section
variable {events : List (PointerEvent Pt)} {out : List (Emission Holder)}

/-- A contact's phases are its word in the roster. -/
theorem phases_eq {c : Nat} (ht : Tells events out) (hb : ∀ e ∈ out, e.contact < 2 ^ 64)
    (hc : c < 2 ^ 64) : phases events (.ofNat c) = word out c := by
  have hleft : phases events (.ofNat c) =
      ((events.map (·.gist)).filter (·.1 = ContactId.ofNat c)).map (·.2.1) := by
    simp only [phases, List.filter_map, List.map_map]
    rfl
  have hright : ((out.map (·.gist)).filter (·.1 = ContactId.ofNat c)).map (·.2.1) =
      (out.filter fun e => ContactId.ofNat e.contact = .ofNat c).map (·.phase) := by
    simp only [List.filter_map, List.map_map]
    rfl
  rw [hleft, ht, hright, word]
  congr 1
  refine List.filter_congr fun e he => decide_eq_decide.2 ⟨fun h => ?_, fun h => by rw [h]⟩
  exact ContactId.ofNat_inj (hb e he) hc h

/-- An event has its counterpart in the roster. -/
theorem Tells.exists_mem (ht : Tells events out) {event : PointerEvent Pt} (he : event ∈ events) :
    ∃ e ∈ out, event.contact = .ofNat e.contact ∧ event.pointer.isStylus = e.holder.hovers := by
  have hmem : event.gist ∈ out.map (·.gist) := by
    rw [← ht]
    exact List.mem_map_of_mem he
  obtain ⟨e, he, hg⟩ := List.mem_map.1 hmem
  exact ⟨e, he, (congrArg (·.1) hg).symm, (congrArg (·.2.2) hg).symm⟩

end

/-- Events that the roster emits, with no more ids than there are, tell lives. -/
theorem lives_of_traced {events : List (PointerEvent Pt)} {out : List (Emission Holder)}
    {r : Roster Holder} (ht : Tells events out) (t : Traced Holder.hovers out r)
    (hn : r.next ≤ 2 ^ 64) {event : PointerEvent Pt} (hevent : event ∈ events) :
    (∀ other ∈ events, other.contact = event.contact →
      other.pointer.isStylus = event.pointer.isStylus) ∧
    Begins (Life event.pointer.isStylus) (phases events event.contact) := by
  have bound {e} (he : e ∈ out) : e.contact < 2 ^ 64 := Nat.lt_of_lt_of_le (t.spent e he) hn
  obtain ⟨e, he, hc, hs⟩ := ht.exists_mem hevent
  refine ⟨fun other hother hsame => ?_, ?_⟩
  · obtain ⟨e', he', hc', hs'⟩ := ht.exists_mem hother
    have : e'.contact = e.contact :=
      ContactId.ofNat_inj (bound he') (bound he) (hc'.symm.trans (hsame.trans hc))
    rw [hs, hs', (t.life e he).1 e' he' this]
  · rw [hs, hc, phases_eq ht (fun _ => bound) (bound he)]
    exact (t.life e he).2

/-! ## The touchscreen -/

section
variable {f : Slot → ContactIds → Option (PointerEvent Pt) × Slot × ContactIds}
  {slots : SlotIndex → Slot} {ids : ContactIds} {i : SlotIndex} {event : PointerEvent Pt}

/-- A pass over the slots emits what it does of each. -/
theorem mem_sweep {l : List SlotIndex} (hi : i ∈ l) (hf : ∀ ids, (f (slots i) ids).1 = some event) :
    event ∈ (sweep f l slots ids).1 := by
  induction l generalizing slots ids with
  | nil => cases hi
  | cons j rest ih =>
    simp only [sweep, List.mem_append, Option.mem_toList]
    by_cases hj : j = i
    · subst hj
      exact .inl (hf ids)
    · refine .inr (ih ((List.mem_cons.1 hi).resolve_left (Ne.symm hj)) ?_)
      rw [Function.update_of_ne (Ne.symm hj)]
      exact hf

end

/-- The slot's contact was lifted in this frame. -/
def Lifted (slot : Slot) (c : ContactId) : Prop :=
  slot.down = true ∧ slot.lifted = true ∧ slot.dirty = true ∧ slot.contact = some c

/-- The report ends a lifted contact. -/
theorem Lifted.flush {slot : Slot} {c : ContactId} (h : Lifted slot c)
    (transform : Int → Int → Pt) (ids : ContactIds) : (slot.flush transform ids).1 =
      some (.new (transform slot.x slot.y) .up .touch c) := by
  obtain ⟨-, hl, hd, hc⟩ := h
  simp [Slot.flush, Slot.identify, hl, hd, hc]

/-- A dropped report ends a contact that is down. -/
theorem Slot.resync_down {slot : Slot} {c : ContactId} (hd : slot.down = true)
    (hc : slot.contact = some c) (transform : Int → Int → Pt) (ids : ContactIds) :
    (slot.resync transform ids).1 = some (.new (transform slot.x slot.y) .cancelled .touch c) := by
  simp [Slot.resync, Slot.identify, hd, hc]

/-- A contact has its last event among these. -/
def Ended (events : List (PointerEvent Pt)) (c : ContactId) : Prop :=
  ∃ event ∈ events, event.contact = c ∧ (event.phase = .up ∨ event.phase = .cancelled)

theorem Ended.of_mem {events : List (PointerEvent Pt)} {at_ : Pt} {phase : PointerPhase}
    {c : ContactId} (h : PointerEvent.new at_ phase .touch c ∈ events)
    (hp : phase = .up ∨ phase = .cancelled) : Ended events c := ⟨_, h, rfl, hp⟩

theorem Ended.append_left {events : List (PointerEvent Pt)} {c : ContactId} (h : Ended events c)
    (later : List (PointerEvent Pt)) : Ended (events ++ later) c := by
  obtain ⟨event, he, h⟩ := h
  exact ⟨event, List.mem_append_left _ he, h⟩

theorem Ended.append_right {events : List (PointerEvent Pt)} {c : ContactId} (h : Ended events c)
    (earlier : List (PointerEvent Pt)) : Ended (earlier ++ events) c := by
  obtain ⟨event, he, h⟩ := h
  exact ⟨event, List.mem_append_right _ he, h⟩

/-- What completes a frame of the touchscreen is a report or a dropped one. -/
theorem completes_touch {raw : RawEvent} :
    Incoming.Completes ⟨.touch, raw⟩ .touch ↔ raw.touch = .report ∨ raw.touch = .dropped := by
  constructor
  · rintro ⟨-, hk, hc | hc⟩ <;> simp_all [RawEvent.touch, SYN_REPORT, SYN_DROPPED]
  · intro h
    unfold RawEvent.touch at h
    split_ifs at h with h₁ h₂
    · exact ⟨rfl, h₁.1, .inl h₁.2⟩
    · exact ⟨rfl, h₂.1, .inr h₂.2⟩
    all_goals simp at h

/-- What completes a frame of the pen is a report or a dropped one. -/
theorem completes_pen {raw : RawEvent} :
    Incoming.Completes ⟨.pen, raw⟩ .pen ↔ raw.pen = .report ∨ raw.pen = .dropped := by
  constructor
  · rintro ⟨-, hk, hc | hc⟩ <;> simp_all [RawEvent.pen, SYN_REPORT, SYN_DROPPED]
  · intro h
    unfold RawEvent.pen at h
    split_ifs at h with h₁ h₂
    · exact ⟨rfl, h₁.1, .inl h₁.2⟩
    · exact ⟨rfl, h₂.1, .inr h₂.2⟩
    all_goals simp at h

namespace Decoders

variable {s : Decoders Pt} {c : ContactId}

section
variable {i : SlotIndex}

/-- What does not complete a frame of the touchscreen spares a lifted contact, unless its slot is
given a new one. -/
theorem feed_lifted {e : Incoming} (h : Lifted (s.touch.slots i) c) (hc : ¬ e.Completes .touch)
    (hk : ¬ s.Retracks e) : Lifted ((s.feed e).2.touch.slots i) c := by
  obtain ⟨_ | _, raw⟩ := e
  case pen => exact h
  have kept {slot : Slot} (hs : i = s.touch.current → Lifted slot c) :
      Lifted ((s.touch.setSlot slot).slots i) c := by
    rcases eq_or_ne i s.touch.current with hi | hne
    · subst hi
      simpa [TouchDecoder.setSlot] using hs rfl
    · simpa [TouchDecoder.setSlot, hne] using h
  rw [completes_touch, not_or] at hc
  cases hraw : raw.touch <;> simp only [Decoders.feed, TouchDecoder.feed, hraw]
  case report => exact absurd hraw hc.1
  case dropped => exact absurd hraw hc.2
  case trackingId value =>
    refine kept fun hi => ?_
    subst hi
    have hv : value < 0 := by
      by_contra hv
      exact hk ⟨rfl, by simp [hraw, TouchAxis.tracks, hv], h.2.1⟩
    rw [Slot.track, if_pos hv]
    simpa [Lifted, h.1] using h.2.2.2
  case positionX value => exact kept fun hi => by subst hi; exact ⟨h.1, h.2.1, rfl, h.2.2.2⟩
  case positionY value => exact kept fun hi => by subst hi; exact ⟨h.1, h.2.1, rfl, h.2.2.2⟩
  all_goals exact h

/-- So does what follows up to the report. -/
theorem run_lifted {mid : List Incoming} (h : Lifted (s.touch.slots i) c)
    (hc : ∀ m ∈ mid, ¬ m.Completes .touch)
    (hk : ∀ before e after, mid = before ++ e :: after → ¬ (s.run before).2.Retracks e) :
    Lifted ((s.run mid).2.touch.slots i) c := by
  induction mid generalizing s with
  | nil => exact h
  | cons e rest ih =>
    exact ih (feed_lifted h (hc e (List.mem_cons_self ..)) (hk [] e rest rfl))
      (fun m hm => hc m (List.mem_cons_of_mem _ hm))
      (fun before e' after hr => hk (e :: before) e' after (by rw [hr]; rfl))

/-- A dropped report ends every contact of the touchscreen that is down. -/
theorem ended_dropped {raw : RawEvent} (hraw : raw.touch = .dropped)
    (hd : (s.touch.slots i).down = true) (hc : (s.touch.slots i).contact = some c) :
    Ended (s.feed ⟨.touch, raw⟩).1 c := by
  simp only [feed, TouchDecoder.feed, hraw, TouchDecoder.resync]
  exact .of_mem (mem_sweep (List.mem_finRange i) (Slot.resync_down hd hc s.touch.transform))
    (.inr rfl)

/-- The end of the frame ends a lifted contact. -/
theorem ended_lifted {raw : RawEvent} (h : Lifted (s.touch.slots i) c)
    (hr : Incoming.Completes ⟨.touch, raw⟩ .touch) : Ended (s.feed ⟨.touch, raw⟩).1 c := by
  rcases completes_touch.1 hr with hraw | hraw
  · simp only [feed, TouchDecoder.feed, hraw, TouchDecoder.flush]
    exact .of_mem (mem_sweep (List.mem_finRange i) (h.flush s.touch.transform)) (.inl rfl)
  · exact ended_dropped hraw h.1 h.2.2.2

/-- A tracking id of -1 lifts the contact of the current slot. -/
theorem lifted_track {raw : RawEvent} {value : Int} (hraw : raw.touch = .trackingId value)
    (hv : value < 0) (hd : s.slot.down = true) (hc : s.slot.contact = some c) :
    Lifted ((s.feed ⟨.touch, raw⟩).2.touch.slots s.touch.current) c := by
  simp only [slot] at hd hc
  simp [feed, TouchDecoder.feed, hraw, TouchDecoder.setSlot, Slot.track, hv, Lifted, hd, hc]

end

/-! ## The pen -/

/-- The pen is down with the contact, and the frame will say something. -/
def Gone (pen : PenDecoder Pt) (c : ContactId) : Prop :=
  pen.down = true ∧ pen.dirty = true ∧ pen.contact = some c

/-- What does not complete a frame of the pen leaves its contact to the report. -/
theorem feed_gone {e : Incoming} (h : Gone s.pen c) (hc : ¬ e.Completes .pen) :
    Gone (s.feed e).2.pen c := by
  obtain ⟨_ | _, raw⟩ := e
  case touch => exact h
  rw [completes_pen, not_or] at hc
  cases hraw : raw.pen <;> simp only [Decoders.feed, PenDecoder.feed, hraw]
  case report => exact absurd hraw hc.1
  case dropped => exact absurd hraw hc.2
  all_goals first | exact h | exact ⟨h.1, rfl, h.2.2⟩

theorem run_gone {mid : List Incoming} (h : Gone s.pen c) (hc : ∀ m ∈ mid, ¬ m.Completes .pen) :
    Gone (s.run mid).2.pen c := by
  induction mid generalizing s with
  | nil => exact h
  | cons e rest ih =>
    exact ih (feed_gone h (hc e (List.mem_cons_self ..)))
      (fun m hm => hc m (List.mem_cons_of_mem _ hm))

/-- A pen that goes away is gone by the report. -/
theorem gone_away {raw : RawEvent} (ha : raw.PenAway) (hd : s.pen.down = true)
    (hc : s.pen.contact = some c) : Gone (s.feed ⟨.pen, raw⟩).2.pen c := by
  obtain ⟨hk, -, hcode | hcode | hcode⟩ := ha <;>
    simp [feed, PenDecoder.feed, RawEvent.pen, hk, hcode, EV_SYN, EV_KEY, EV_ABS, BTN_TOUCH,
      BTN_TOOL_PEN, BTN_TOOL_RUBBER, Gone, hd, hc]

/-- A dropped report ends a stroke. -/
theorem ended_pen_dropped {raw : RawEvent} (hraw : raw.pen = .dropped) (hd : s.pen.down = true)
    (hc : s.pen.contact = some c) : Ended (s.feed ⟨.pen, raw⟩).1 c := by
  simp [feed, PenDecoder.feed, hraw, PenDecoder.resync, hd, PenDecoder.event, hc, Ended,
    PointerEvent.new]

/-- The report ends a stroke whose pen does not touch any more. -/
theorem ended_gone {raw : RawEvent} (hraw : raw.pen = .report) (h : Gone s.pen c)
    (ht : s.pen.touching = false) : Ended (s.feed ⟨.pen, raw⟩).1 c := by
  obtain ⟨hd, hdirty, hc⟩ := h
  simp [feed, PenDecoder.feed, hraw, PenDecoder.flush, hd, hdirty, PenDecoder.phase, ht,
    PenDecoder.event, hc, Ended, PointerEvent.new]

end Decoders

/-! ## The life cycle -/

/-- The events of a frame, from one of its raw events to the report. -/
theorem run_frame (s : Decoders Pt) (e r : Incoming) (mid : List Incoming) :
    (s.run (e :: mid ++ [r])).1 =
      (s.feed e).1 ++ ((s.feed e).2.run mid).1 ++ ((s.run (e :: mid)).2.feed r).1 := by
  rw [Decoders.run_append]
  simp [Decoders.run]

/-- Contacts live and end in order when the kernel starts none in the place of one that it ends in
the same frame. -/
theorem life_cycle (touch pen : Int → Int → Pt) (inputs : List Incoming)
    (h : Orderly (.new touch pen) inputs) : LifeCycle (.new touch pen) inputs where
  lives event hevent := by
    obtain ⟨out, r, hsteps, hnext, htell⟩ :=
      Decoders.run_steps (Decoders.depicts_new touch pen) h.kept
    have t : Traced Holder.hovers out r := by simpa using Traced.empty.steps hsteps
    refine lives_of_traced htell t ?_ hevent
    rw [hnext]
    simpa [Roster.empty] using h.ids
  prompt before e mid r after c hin hends hmid hr := by
    rw [run_frame]
    have hrun (b : List Incoming) : ((Decoders.new touch pen).run (before ++ e :: b)).2 =
        ((((Decoders.new touch pen).run before).2.feed e).2.run b).2 := by
      rw [Decoders.run_append]
      rfl
    obtain ⟨_ | _, raw⟩ := e <;> obtain ⟨_ | _, raw'⟩ := r
    case touch.pen => cases hr.1
    case pen.touch => cases hr.1
    case touch.touch =>
      rcases hends with ⟨value, hraw, hv, hd, hc⟩ | ⟨hraw, i, hd, hc⟩
      · refine (Decoders.ended_lifted (Decoders.run_lifted (Decoders.lifted_track hraw hv hd hc) hmid
          fun b m a hm => ?_) hr).append_right _
        rw [← hrun]
        exact h.kept _ m (a ++ ⟨.touch, raw'⟩ :: after) (by rw [hin, hm]; simp)
      · exact ((Decoders.ended_dropped hraw hd hc).append_left _).append_left _
    case pen.pen =>
      obtain ⟨haway | hraw, hd, hc⟩ := hends
      · have hgone := Decoders.run_gone (Decoders.gone_away haway hd hc) hmid
        refine Ended.append_right ?_ _
        rcases completes_pen.1 hr with hraw' | hraw'
        · refine Decoders.ended_gone hraw' hgone ?_
          rw [← h.gone before _ mid _ after hin rfl haway hd hmid hr hraw', hrun]
          rfl
        · exact Decoders.ended_pen_dropped hraw' hgone.1 hgone.2.2
      · exact ((Decoders.ended_pen_dropped hraw hd hc).append_left _).append_left _

/-- An event of the touchscreen. -/
def touchEvent (code : Nat) (value : Int) : Incoming := ⟨.touch, EV_ABS, code, value⟩

/-- The report of a node. -/
def report (node : Node) : Incoming := ⟨node, EV_SYN, SYN_REPORT, 0⟩

/-- A finger touches and lifts, and the next touches in a frame of its own. -/
def twoTaps : List Incoming :=
  [touchEvent ABS_MT_TRACKING_ID 5, report .touch, touchEvent ABS_MT_TRACKING_ID (-1),
    report .touch, touchEvent ABS_MT_TRACKING_ID 6, report .touch]

theorem two_taps_live : LifeCycle (.new Prod.mk Prod.mk) twoTaps := by
  refine life_cycle Prod.mk Prod.mk twoTaps ⟨?_, ?_, by decide⟩
  · repeat refine places_cons (by decide) ?_
    simp
  · intro before e mid r after heq hpen
    have hmem : e ∈ twoTaps := by rw [heq]; simp
    have htouch : ∀ e ∈ twoTaps, e.node = .touch := by decide
    rw [htouch e hmem] at hpen
    cases hpen

/-- A finger lifts and the next one touches within a frame. -/
def swiftTaps : List Incoming :=
  [touchEvent ABS_MT_TRACKING_ID 5, report .touch, touchEvent ABS_MT_TRACKING_ID (-1),
    touchEvent ABS_MT_TRACKING_ID 6, report .touch]

/-- The first finger never lifts, and the second lifts without having touched. -/
theorem swift_taps_mixed : ¬ LifeCycle (.new Prod.mk Prod.mk) swiftTaps := by
  intro h
  have hup : PointerEvent.new ((0 : Int), (0 : Int)) .up .touch ⟨1⟩ ∈
      ((Decoders.new Prod.mk Prod.mk).run swiftTaps).1 := by decide
  obtain ⟨later, n, last, -, hw⟩ := (h.lives _ hup).2
  have : phases ((Decoders.new Prod.mk Prod.mk).run swiftTaps).1 ⟨1⟩ = [.up] := by decide
  simp [PointerEvent.new, this] at hw

end Paperclip.Input
