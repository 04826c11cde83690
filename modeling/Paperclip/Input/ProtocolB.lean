import Paperclip.Input.Evdev
import Mathlib.Data.Fintype.Basic
import Mathlib.Data.List.FinRange

/-!
# Multitouch protocol B

What the kernel means by the events of the touchscreen: it says which slot it is about to describe
and then only what has changed there, so each slot keeps its tracking id and its axes until they are
sent again.

* `Kernel.feed`: the state that the events describe.
* `Faithful`: the contacts of the decoder are those of the kernel, where the kernel has them.
* `Resent`: what the kernel must send for that to hold of this decoder, which forgets a slot that it
  has lifted.
-/

namespace Paperclip.Input

variable {Pt : Type}

/-- What the kernel has said of a slot. -/
structure KernelSlot where
  /-- Negative when no contact is in the slot. -/
  tracking : Int
  x : Int
  y : Int
  /-- The axes that this frame has sent. -/
  sentX : Bool
  sentY : Bool

/-- What the kernel has said. -/
structure Kernel where
  slots : Int → KernelSlot
  current : Int

namespace Kernel

def new : Kernel := ⟨fun _ => ⟨-1, 0, 0, false, false⟩, 0⟩

/-- The slot that the kernel is describing. -/
def slot (k : Kernel) : KernelSlot := k.slots k.current

/-- The state with another current slot. -/
def setSlot (k : Kernel) (slot : KernelSlot) : Kernel :=
  { k with slots := Function.update k.slots k.current slot }

/-- What an event changes. A report begins a new frame. -/
def feed (k : Kernel) (event : RawEvent) : Kernel :=
  match event.touch with
  | .report => { k with slots := fun i => { k.slots i with sentX := false, sentY := false } }
  | .dropped => k
  | .slot value => { k with current := value }
  | .trackingId value => k.setSlot { k.slot with tracking := value }
  | .positionX value => k.setSlot { k.slot with x := value, sentX := true }
  | .positionY value => k.setSlot { k.slot with y := value, sentY := true }
  | .other => k

def run (k : Kernel) (events : List RawEvent) : Kernel := events.foldl feed k

end Kernel

/-- The decoder after some events. -/
def TouchDecoder.run (d : TouchDecoder Pt) (ids : ContactIds) :
    List RawEvent → TouchDecoder Pt × ContactIds
  | [] => (d, ids)
  | e :: rest => let (_, d, ids) := d.feed ids e; d.run ids rest

/-! ## What a report is to show -/

/-- The contacts that are live after a report are those that the kernel tracks. -/
def SameContacts (d : TouchDecoder Pt) (k : Kernel) : Prop :=
  ∀ i : Int, 0 ≤ (k.slots i).tracking ↔ ∃ j : SlotIndex, (j.val : Int) = i ∧ (d.slots j).down = true

/-- The events of a report stand where the kernel last had the contact's slot. -/
def SamePlaces (d : TouchDecoder Pt) (k : Kernel) (events : List (PointerEvent Pt)) : Prop :=
  ∀ event ∈ events, ∃ i : SlotIndex, (d.slots i).contact = some event.contact ∧
    event.at_ = d.transform (k.slots i.val).x (k.slots i.val).y

/-- At every report the decoder has what the kernel said. -/
def Faithful (d : TouchDecoder Pt) (ids : ContactIds) (events : List RawEvent) : Prop :=
  ∀ before e after, events = before ++ e :: after → e.touch = .report →
    SameContacts ((d.run ids before).1.feed (d.run ids before).2 e).2.1
      ((Kernel.new.run before).feed e) ∧
    SamePlaces (d.run ids before).1 (Kernel.new.run before)
      ((d.run ids before).1.feed (d.run ids before).2 e).1

/-- The event says something about the current slot. -/
def TouchAxis.describes : TouchAxis → Bool
  | .trackingId _ | .positionX _ | .positionY _ => true
  | _ => false

/-- A frame is fit to be reported: no contact took the place of one that it lifted, and one that it
begins comes with its axes, unless they are at zero. -/
def Fit (slot : Slot) (k : KernelSlot) : Prop :=
  slot.tracking.isSome = true → slot.lifted = false ∧
    (slot.down = false → (k.sentX = true ∨ k.x = 0) ∧ (k.sentY = true ∨ k.y = 0))

instance (slot : Slot) (k : KernelSlot) : Decidable (Fit slot k) :=
  inferInstanceAs (Decidable (_ → _))

/-- What the kernel must send. -/
structure Resent (d : TouchDecoder Pt) (ids : ContactIds) (events : List RawEvent) : Prop where
  /-- Only slots that the touchscreen has are described. -/
  slots : ∀ before e after, events = before ++ e :: after → e.touch.describes = true →
    0 ≤ (Kernel.new.run before).current ∧ (Kernel.new.run before).current < MAX_TOUCH_SLOTS
  frames : ∀ before e after, events = before ++ e :: after → e.touch = .report →
    ∀ i, Fit ((d.run ids before).1.slots i) ((Kernel.new.run before).slots i.val)

/-! ## The two states between reports -/

/-- A slot of the decoder has what the kernel said of it. -/
structure Slot.Mirrors (slot : Slot) (k : KernelSlot) : Prop where
  tracked : slot.tracking.isSome = true ↔ 0 ≤ k.tracking
  lifted : slot.lifted = true → slot.down = true ∧ slot.dirty = true
  ending : slot.down = true → slot.tracking = none → slot.lifted = true
  beginning : slot.tracking.isSome = true → slot.down = false → slot.dirty = true
  contact : slot.tracking.isSome = true ∨ slot.down = true → slot.contact.isSome = true
  /-- A contact that is down is where the kernel has it. -/
  down : slot.down = true → slot.x = k.x ∧ slot.y = k.y
  /-- One that is not knows what this frame sent. -/
  sentX : slot.down = false → if k.sentX then slot.x = k.x ∧ slot.dirty = true else slot.x = 0
  sentY : slot.down = false → if k.sentY then slot.y = k.y ∧ slot.dirty = true else slot.y = 0

/-- The decoder has what the kernel said. -/
structure TouchDecoder.Mirrors (d : TouchDecoder Pt) (k : Kernel) : Prop where
  slots : ∀ i : SlotIndex, (d.slots i).Mirrors (k.slots i.val)
  current : 0 ≤ k.current → k.current < MAX_TOUCH_SLOTS → (d.current.val : Int) = k.current
  /-- Nothing was said of a slot that the touchscreen does not have. -/
  outside : ∀ i : Int, (∀ j : SlotIndex, (j.val : Int) ≠ i) → (k.slots i).tracking < 0

theorem Slot.mirrors_default {k : KernelSlot} (ht : k.tracking < 0) :
    Slot.default.Mirrors { k with sentX := false, sentY := false } where
  tracked := by simp [Slot.default]; omega
  lifted := nofun
  ending := nofun
  beginning := nofun
  contact := by simp [Slot.default]
  down := nofun
  sentX := by simp [Slot.default]
  sentY := by simp [Slot.default]

theorem mirrors_new (transform : Int → Int → Pt) :
    (TouchDecoder.new transform).Mirrors .new where
  slots _ := Slot.mirrors_default (k := ⟨-1, 0, 0, false, false⟩) (by decide)
  current _ _ := by simp [TouchDecoder.new, Kernel.new, slotIndex, MAX_TOUCH_SLOTS]
  outside _ _ := by simp [Kernel.new]

/-! ## A report -/

section
variable {slot : Slot} {k : KernelSlot} {ids : ContactIds} {transform : Int → Int → Pt}

/-- A contact of a fit frame is where the kernel has it. -/
theorem Slot.Mirrors.place (h : slot.Mirrors k) (hf : Fit slot k)
    (hl : slot.tracking.isSome = true ∨ slot.down = true) : slot.x = k.x ∧ slot.y = k.y := by
  cases hd : slot.down with
  | true => exact h.down hd
  | false =>
    have ht := hl.resolve_right (by simp [hd])
    obtain ⟨hx, hy⟩ := (hf ht).2 hd
    have hsx := h.sentX hd
    have hsy := h.sentY hd
    constructor
    · split at hsx
      · exact hsx.1
      next hn => rw [hsx, hx.resolve_left hn]
    · split at hsy
      · exact hsy.1
      next hn => rw [hsy, hy.resolve_left hn]

/-- A slot that the report does not touch has nothing new. -/
theorem Slot.Mirrors.idle (h : slot.Mirrors k) (hd : slot.dirty = false) :
    slot.Mirrors { k with sentX := false, sentY := false } := by
  have notSent {b : Bool} {p : Prop} {x y : Int}
      (hs : if b then x = y ∧ slot.dirty = true else p) : p := by
    cases b with
    | true => simp [hd] at hs
    | false => exact hs
  exact ⟨h.tracked, h.lifted, h.ending, h.beginning, h.contact, h.down,
    fun hn => notSent (h.sentX hn), fun hn => notSent (h.sentY hn)⟩

/-- A contact that the report has shown is down, and where the kernel has it. -/
theorem Slot.Mirrors.shown (h : slot.Mirrors k) (hl : slot.lifted = false)
    (ht : slot.tracking.isSome = true) (hp : slot.x = k.x ∧ slot.y = k.y) (c : ContactId) :
    ({ slot with contact := some c, dirty := false, down := true } : Slot).Mirrors
      { k with sentX := false, sentY := false } where
  tracked := h.tracked
  lifted hn := by rw [show slot.lifted = true from hn] at hl; cases hl
  ending _ hn := by rw [show slot.tracking = none from hn] at ht; cases ht
  beginning _ := nofun
  contact _ := rfl
  down _ := hp
  sentX := nofun
  sentY := nofun

/-- What the report of a fit frame leaves of a slot, and where its event stands. -/
theorem Slot.Mirrors.flush (h : slot.Mirrors k) (hf : Fit slot k) :
    (slot.flush transform ids).2.1.Mirrors { k with sentX := false, sentY := false } ∧
    ((slot.flush transform ids).2.1.down = true ↔ 0 ≤ k.tracking) ∧
    ∀ event, (slot.flush transform ids).1 = some event →
      slot.contact = some event.contact ∧ event.at_ = transform k.x k.y := by
  cases hdirty : slot.dirty with
  | false =>
    rw [Slot.flush, if_pos hdirty]
    refine ⟨h.idle hdirty, ?_, nofun⟩
    rw [← h.tracked]
    constructor
    · intro hd
      cases ht : slot.tracking with
      | some id => rfl
      | none =>
        have := (h.lifted (h.ending hd ht)).2
        rw [hdirty] at this
        cases this
    · intro ht
      by_contra hd
      have := h.beginning ht (Bool.eq_false_iff.2 hd)
      rw [hdirty] at this
      cases this
  | true =>
    have gone (ht : slot.tracking = none) : k.tracking < 0 := by
      have := h.tracked
      rw [ht] at this
      simpa using this
    cases hl : slot.lifted with
    | true =>
      have ht : slot.tracking = none := by
        cases ht : slot.tracking with
        | none => rfl
        | some id => simp [(hf (by rw [ht]; rfl)).1] at hl
      obtain ⟨c, hc⟩ := Option.isSome_iff_exists.1 (h.contact (.inr (h.lifted hl).1))
      obtain ⟨hx, hy⟩ := h.down (h.lifted hl).1
      simp only [Slot.flush, hdirty, hl, identify, hc, if_true, Bool.true_eq_false, if_false]
      refine ⟨mirrors_default (gone ht), ?_, ?_⟩
      · simpa [Slot.default] using gone ht
      · rintro _ ⟨⟩
        exact ⟨rfl, by rw [PointerEvent.new, hx, hy]⟩
    | false =>
      cases ht : slot.tracking with
      | none =>
        have hd : slot.down = false := by
          by_contra hd
          simp [h.ending (by simpa using hd) ht] at hl
        simp only [Slot.flush, hdirty, hl, ht, hd, Bool.true_eq_false, Bool.false_eq_true, if_false,
          Option.isSome_none]
        refine ⟨mirrors_default (gone ht), ?_, nofun⟩
        simpa [Slot.default] using gone ht
      | some id =>
        have hsome : slot.tracking.isSome = true := by rw [ht]; rfl
        obtain ⟨c, hc⟩ := Option.isSome_iff_exists.1 (h.contact (.inl hsome))
        have hp := h.place hf (.inl hsome)
        have hshown := h.shown hl hsome hp c
        have hk := h.tracked.1 hsome
        rw [hl] at hshown
        cases hd : slot.down <;>
          simp only [Slot.flush, hdirty, hl, hd, hsome, identify, hc, Bool.true_eq_false,
            Bool.false_eq_true, if_false, if_true]
        all_goals
          refine ⟨hshown, by simpa using hk, ?_⟩
          rintro _ ⟨⟩
          exact ⟨rfl, by rw [PointerEvent.new, hp.1, hp.2]⟩

end

section
variable {f : Slot → ContactIds → Option (PointerEvent Pt) × Slot × ContactIds}
  {slots : SlotIndex → Slot} {ids : ContactIds} {i : SlotIndex} {l : List SlotIndex}

theorem sweep_of_notMem (hi : i ∉ l) : (sweep f l slots ids).2.1 i = slots i := by
  induction l generalizing slots ids with
  | nil => rfl
  | cons j rest ih =>
    rw [List.mem_cons, not_or] at hi
    rw [sweep, ih hi.2, Function.update_of_ne hi.1]

/-- A pass leaves of each slot what it does of that slot. -/
theorem sweep_slot (hn : l.Nodup) (hi : i ∈ l) :
    ∃ ids', (sweep f l slots ids).2.1 i = (f (slots i) ids').2.1 := by
  induction l generalizing slots ids with
  | nil => cases hi
  | cons j rest ih =>
    obtain ⟨hj, hn⟩ := List.nodup_cons.1 hn
    rcases List.mem_cons.1 hi with rfl | hi
    · exact ⟨ids, by rw [sweep, sweep_of_notMem hj, Function.update_self]⟩
    · obtain ⟨ids', h⟩ := @ih (Function.update slots j (f (slots j) ids).2.1)
        (f (slots j) ids).2.2 hn hi
      have hne : i ≠ j := fun h => hj (h ▸ hi)
      exact ⟨ids', by rw [sweep, h, Function.update_of_ne hne]⟩

/-- What a pass emits, it emits of some slot. -/
theorem sweep_event {event : PointerEvent Pt} (hn : l.Nodup)
    (he : event ∈ (sweep f l slots ids).1) : ∃ i ∈ l, ∃ ids', (f (slots i) ids').1 = some event := by
  induction l generalizing slots ids with
  | nil => cases he
  | cons j rest ih =>
    obtain ⟨hj, hn⟩ := List.nodup_cons.1 hn
    rw [sweep, List.mem_append, Option.mem_toList] at he
    rcases he with he | he
    · exact ⟨j, List.mem_cons_self .., ids, he⟩
    · obtain ⟨i, hi, ids', h⟩ := ih hn he
      have hne : i ≠ j := fun h => hj (h ▸ hi)
      rw [Function.update_of_ne hne] at h
      exact ⟨i, List.mem_cons_of_mem _ hi, ids', h⟩

end

section
variable {d : TouchDecoder Pt} {k : Kernel} {ids : ContactIds}

theorem TouchDecoder.flush_slot (d : TouchDecoder Pt) (ids : ContactIds) (i : SlotIndex) : ∃ ids', (d.flush ids).2.1.slots i =
    ((d.slots i).flush d.transform ids').2.1 :=
  sweep_slot (f := Slot.flush d.transform) (List.nodup_finRange MAX_TOUCH_SLOTS)
    (List.mem_finRange i)

theorem TouchDecoder.flush_event {event : PointerEvent Pt} (h : event ∈ (d.flush ids).1) :
    ∃ i ids', ((d.slots i).flush d.transform ids').1 = some event := by
  obtain ⟨i, -, h⟩ := sweep_event (f := Slot.flush d.transform)
    (List.nodup_finRange MAX_TOUCH_SLOTS) h
  exact ⟨i, h⟩

/-- The report of a fit frame keeps the mirror, and shows what the kernel said. -/
theorem report_faithful {e : RawEvent} (h : d.Mirrors k) (he : e.touch = .report)
    (hf : ∀ i, Fit (d.slots i) (k.slots i.val)) :
    (d.feed ids e).2.1.Mirrors (k.feed e) ∧ SameContacts (d.feed ids e).2.1 (k.feed e) ∧
      SamePlaces d k (d.feed ids e).1 := by
  have hd : d.feed ids e = d.flush ids := by rw [TouchDecoder.feed, he]
  have hk : k.feed e =
      { k with slots := fun i => { k.slots i with sentX := false, sentY := false } } := by
    rw [Kernel.feed, he]
  rw [hd, hk]
  refine ⟨⟨fun i => ?_, h.current, h.outside⟩, fun i => ⟨fun ht => ?_, ?_⟩, fun event hev => ?_⟩
  · obtain ⟨ids', hi⟩ := d.flush_slot ids i
    rw [hi]
    exact ((h.slots i).flush (hf i)).1
  · by_contra hn
    rw [not_exists] at hn
    by_cases hi : ∃ j : SlotIndex, (j.val : Int) = i
    · obtain ⟨j, rfl⟩ := hi
      obtain ⟨ids', hj⟩ := d.flush_slot ids j
      exact hn j ⟨rfl, by rw [hj]; exact ((h.slots j).flush (hf j)).2.1.2 ht⟩
    · exact Int.not_lt.2 ht (h.outside i (not_exists.1 hi))
  · rintro ⟨j, rfl, hdown⟩
    obtain ⟨ids', hj⟩ := d.flush_slot ids j
    rw [hj] at hdown
    exact ((h.slots j).flush (hf j)).2.1.1 hdown
  · obtain ⟨i, ids', hi⟩ := TouchDecoder.flush_event hev
    exact ⟨i, ((h.slots i).flush (hf i)).2.2 event hi⟩

/-- What describes the current slot keeps the mirror, if it does so for that slot. -/
theorem TouchDecoder.Mirrors.setSlot {slot : Slot} {kslot : KernelSlot} (h : d.Mirrors k)
    (hr : 0 ≤ k.current ∧ k.current < MAX_TOUCH_SLOTS)
    (hs : (d.slots d.current).Mirrors k.slot → slot.Mirrors kslot) :
    (d.setSlot slot).Mirrors (k.setSlot kslot) := by
  have hc := h.current hr.1 hr.2
  refine ⟨fun i => ?_, h.current, fun i hi => ?_⟩
  · rcases eq_or_ne i d.current with rfl | hne
    · simpa [TouchDecoder.setSlot, Kernel.setSlot, ← hc] using
        hs (by rw [Kernel.slot, ← hc]; exact h.slots _)
    · have : (i.val : Int) ≠ k.current := by
        rw [← hc]
        exact fun hn => hne (Fin.ext (by exact_mod_cast hn))
      simpa [TouchDecoder.setSlot, Kernel.setSlot, hne, this] using h.slots i
  · have : i ≠ k.current := by
      rw [← hc]
      exact (hi d.current).symm
    simpa [Kernel.setSlot, this] using h.outside i hi

/-- What a frame sent of an axis, it has sent when the slot is dirtied again. -/
theorem sent_dirty {b dirty : Bool} {x y : Int}
    (h : if b then x = y ∧ dirty = true else x = 0) : if b then x = y ∧ true = true else x = 0 := by
  cases b with
  | true => exact ⟨h.1, rfl⟩
  | false => exact h

variable {slot : Slot} {kslot : KernelSlot}

/-- A tracking id says the same to both. -/
theorem Slot.Mirrors.track (h : slot.Mirrors kslot) (value : Int) :
    (slot.track ids value).1.Mirrors { kslot with tracking := value } := by
  by_cases hv : value < 0
  · have hk : ¬ 0 ≤ value := Int.not_le.2 hv
    rw [Slot.track, if_pos hv]
    cases hd : slot.down with
    | true =>
      exact ⟨by simp [hk], fun _ => ⟨rfl, rfl⟩, fun _ _ => rfl, nofun, fun _ => h.contact (.inr hd),
        fun _ => h.down hd, nofun, nofun⟩
    | false =>
      exact ⟨by simp [hk], h.lifted, fun hn => by simp [hd] at hn, nofun,
        fun hn => by simp [hd] at hn, h.down, h.sentX, h.sentY⟩
  · have hk : 0 ≤ value := Int.not_lt.1 hv
    rw [Slot.track, if_neg hv]
    have hlifted (hl : slot.lifted = true) := (h.lifted hl).1
    cases ht : slot.tracking with
    | none =>
      exact ⟨by simp [hk], fun hl => ⟨hlifted hl, rfl⟩, nofun, fun _ _ => rfl, fun _ => rfl, h.down,
        fun hn => sent_dirty (h.sentX hn), fun hn => sent_dirty (h.sentY hn)⟩
    | some id =>
      exact ⟨by simp [hk], fun hl => ⟨hlifted hl, rfl⟩, nofun, fun _ _ => rfl,
        fun _ => h.contact (.inl (by rw [ht]; rfl)), h.down,
        fun hn => sent_dirty (h.sentX hn), fun hn => sent_dirty (h.sentY hn)⟩

/-- An X says the same to both. -/
theorem Slot.Mirrors.setX (h : slot.Mirrors kslot) (value : Int) :
    ({ slot with x := value, dirty := true } : Slot).Mirrors
      { kslot with x := value, sentX := true } :=
  ⟨h.tracked, fun hl => ⟨(h.lifted hl).1, rfl⟩, h.ending, fun _ _ => rfl, h.contact,
    fun hd => ⟨rfl, (h.down hd).2⟩, fun _ => ⟨rfl, rfl⟩, fun hd => sent_dirty (h.sentY hd)⟩

/-- A Y says the same to both. -/
theorem Slot.Mirrors.setY (h : slot.Mirrors kslot) (value : Int) :
    ({ slot with y := value, dirty := true } : Slot).Mirrors
      { kslot with y := value, sentY := true } :=
  ⟨h.tracked, fun hl => ⟨(h.lifted hl).1, rfl⟩, h.ending, fun _ _ => rfl, h.contact,
    fun hd => ⟨(h.down hd).1, rfl⟩, fun hd => sent_dirty (h.sentX hd), fun _ => ⟨rfl, rfl⟩⟩

/-- A slot that the touchscreen has is the one selected. -/
theorem slotIndex_val {value : Int} (h : 0 ≤ value) (h' : value < MAX_TOUCH_SLOTS) :
    ((slotIndex value).val : Int) = value := by
  rw [slotIndex, dif_pos ⟨h, h'⟩]
  exact Int.toNat_of_nonneg h

/-- Every raw event keeps the mirror. -/
theorem TouchDecoder.Mirrors.feed {e : RawEvent} (h : d.Mirrors k) (hdrop : e.touch ≠ .dropped)
    (hr : e.touch.describes = true → 0 ≤ k.current ∧ k.current < MAX_TOUCH_SLOTS)
    (hf : e.touch = .report → ∀ i, Fit (d.slots i) (k.slots i.val)) :
    (d.feed ids e).2.1.Mirrors (k.feed e) := by
  cases he : e.touch with
  | report => exact (report_faithful h he (hf he)).1
  | dropped => exact absurd he hdrop
  | slot value =>
    simp only [TouchDecoder.feed, Kernel.feed, he]
    exact ⟨h.slots, slotIndex_val, h.outside⟩
  | trackingId value =>
    simp only [TouchDecoder.feed, Kernel.feed, he]
    exact h.setSlot (hr (by rw [he]; rfl)) fun hs => hs.track value
  | positionX value =>
    simp only [TouchDecoder.feed, Kernel.feed, he]
    exact h.setSlot (hr (by rw [he]; rfl)) fun hs => hs.setX value
  | positionY value =>
    simp only [TouchDecoder.feed, Kernel.feed, he]
    exact h.setSlot (hr (by rw [he]; rfl)) fun hs => hs.setY value
  | other =>
    simp only [TouchDecoder.feed, Kernel.feed, he]
    exact h

end

theorem TouchDecoder.run_concat (d : TouchDecoder Pt) (ids : ContactIds) (events : List RawEvent)
    (e : RawEvent) : d.run ids (events ++ [e]) =
      ((d.run ids events).1.feed (d.run ids events).2 e).2 := by
  induction events generalizing d ids with
  | nil => rfl
  | cons first rest ih => exact ih ..

/-- The mirror is kept along a run. -/
theorem mirrors_run {transform : Int → Int → Pt} {ids : ContactIds} {events : List RawEvent}
    (hdrop : ∀ e ∈ events, e.touch ≠ .dropped) (h : Resent (.new transform) ids events)
    (before : List RawEvent) : ∀ after, events = before ++ after →
      ((TouchDecoder.new transform).run ids before).1.Mirrors (Kernel.new.run before) := by
  induction before using List.reverseRecOn with
  | nil =>
    intro after _
    exact mirrors_new transform
  | append_singleton before e ih =>
    intro after heq
    rw [List.append_assoc] at heq
    have hk : Kernel.new.run (before ++ [e]) = (Kernel.new.run before).feed e := by
      rw [Kernel.run, List.foldl_concat]
      rfl
    rw [TouchDecoder.run_concat, hk]
    exact (ih _ heq).feed (hdrop e (by rw [heq]; simp)) (h.slots before e after heq)
      (h.frames before e after heq)

/-- The decoder has what the kernel said, as long as the kernel sends again what the decoder
forgets. -/
theorem touch_faithful (transform : Int → Int → Pt) (ids : ContactIds) (events : List RawEvent)
    (hdrop : ∀ e ∈ events, e.touch ≠ .dropped) (h : Resent (.new transform) ids events) :
    Faithful (.new transform) ids events := by
  intro before e after heq he
  exact (report_faithful (mirrors_run hdrop h before _ heq) he (h.frames before e after heq he)).2

/-- An event of the touchscreen. -/
def axis (code : Nat) (value : Int) : RawEvent := ⟨EV_ABS, code, value⟩

def syn : RawEvent := ⟨EV_SYN, SYN_REPORT, 0⟩

/-- Two taps in one slot, each with both axes. -/
def tapsInFull : List RawEvent :=
  [axis ABS_MT_TRACKING_ID 5, axis ABS_MT_POSITION_X 700, axis ABS_MT_POSITION_Y 300, syn,
    axis ABS_MT_TRACKING_ID (-1), syn,
    axis ABS_MT_TRACKING_ID 6, axis ABS_MT_POSITION_X 800, axis ABS_MT_POSITION_Y 300, syn]

theorem taps_in_full_faithful : Faithful (.new Prod.mk) .new tapsInFull := by
  refine touch_faithful Prod.mk .new tapsInFull (by decide) ⟨?_, ?_⟩
  · repeat refine places_cons (by decide) ?_
    simp
  · repeat refine places_cons (by decide) ?_
    simp

/-- Two taps in one slot, of which the second is at the height of the first. -/
def tapsInLine : List RawEvent :=
  [axis ABS_MT_TRACKING_ID 5, axis ABS_MT_POSITION_X 700, axis ABS_MT_POSITION_Y 300, syn,
    axis ABS_MT_TRACKING_ID (-1), syn, axis ABS_MT_TRACKING_ID 6, axis ABS_MT_POSITION_X 800, syn]

/-- The second tap is shown at the edge of the panel. -/
theorem taps_in_line_misplaced : ¬ ∀ events : List RawEvent, (∀ e ∈ events, e.touch ≠ .dropped) →
    Faithful (.new Prod.mk) .new events := by
  intro h
  have hplaces := (h tapsInLine (by decide) (tapsInLine.take 8) syn [] rfl rfl).2
  have hevent : PointerEvent.new ((800 : Int), (0 : Int)) .down .touch ⟨1⟩ ∈
      (((TouchDecoder.new Prod.mk).run .new (tapsInLine.take 8)).1.feed
        ((TouchDecoder.new Prod.mk).run .new (tapsInLine.take 8)).2 syn).1 := by decide
  obtain ⟨i, -, hat⟩ := hplaces _ hevent
  revert i
  decide

end Paperclip.Input
