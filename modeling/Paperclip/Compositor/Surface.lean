import Mathlib.Logic.Function.Basic
import Paperclip.Protocol.Message

/-!
# The surface of a client

Which of the two buffers of a client is whose: `attach` and `commit` take a buffer from the client,
`release` gives it back.
-/

namespace Paperclip.Compositor

open Protocol

/-- The two buffers of a pool. -/
inductive BufferSlot where
  | a
  | b
  deriving DecidableEq, Repr

namespace BufferSlot

/-- The other slot. -/
def other : BufferSlot → BufferSlot
  | a => b
  | b => a

@[simp] theorem other_other (slot : BufferSlot) : slot.other.other = slot := by
  cases slot <;> rfl

@[simp] theorem other_ne (slot : BufferSlot) : slot.other ≠ slot := by
  cases slot <;> decide

theorem eq_or_eq_other (slot s : BufferSlot) : s = slot ∨ s = slot.other := by
  cases slot <;> cases s <;> decide

end BufferSlot

/-- Why a client's message was refused. -/
inductive SurfaceError where
  | bufferBusy (slot : BufferSlot)
  | nothingAttached
  | tooManyDamageRects (count : Nat)
  | damageOutOfBounds (rect : Rect)
  | notInFlight (slot : BufferSlot)
  deriving DecidableEq

/-- Where a buffer is in the cycle of attach, commit and release. -/
inductive SlotState where
  | free
  | attached
  | presenting
  deriving DecidableEq, Repr

/-- The frame that was committed last. -/
structure Committed where
  buffer : BufferSlot
  damage : Damage
  deriving DecidableEq

/-- The surface of one client. -/
structure Surface where
  extent : Size
  slots : BufferSlot → SlotState
  pendingBuffer : Option BufferSlot
  current : Option Committed

/-- A damage rectangle must be finite, not negative, and inside the surface. -/
def validateRect (rect : Rect) (extent : Size) : Except SurfaceError Unit :=
  let finite := rect.x.isFinite && rect.y.isFinite && rect.width.isFinite && rect.height.isFinite
  let nonNegative :=
    decide (rect.x ≥ 0) && decide (rect.y ≥ 0) && decide (rect.width ≥ 0) &&
      decide (rect.height ≥ 0)
  let within :=
    decide (rect.x + rect.width ≤ extent.width.toFloat32) &&
      decide (rect.y + rect.height ≤ extent.height.toFloat32)
  if finite && nonNegative && within then .ok () else .error (.damageOutOfBounds rect)

def validateDamage (damage : Damage) (extent : Size) : Except SurfaceError Unit :=
  match damage.regions? with
  | none => .ok ()
  | some regions =>
    if regions.length > MAX_DAMAGE_RECTS then .error (.tooManyDamageRects regions.length)
    else regions.forM fun rect => validateRect rect extent

namespace Surface

/-- A surface that has nothing to show, both of its buffers with the client. -/
def new (extent : Size) : Surface where
  extent
  slots _ := .free
  pendingBuffer := none
  current := none

def setSlotState (s : Surface) (slot : BufferSlot) (state : SlotState) : Surface :=
  { s with slots := Function.update s.slots slot state }

/-- Record the buffer that the next commit is going to show. -/
def attach (s : Surface) (slot : BufferSlot) : Except SurfaceError Surface :=
  if s.slots slot ≠ .free then .error (.bufferBusy slot)
  else
    let s := match s.pendingBuffer with
      | some previous =>
        if previous ≠ slot then
          { s with pendingBuffer := none }.setSlotState previous .free
        else { s with pendingBuffer := none }
      | none => s
    .ok { s.setSlotState slot .attached with pendingBuffer := some slot }

/-- Make the attached buffer the current frame. -/
def commit (s : Surface) (damage : Damage) : Except SurfaceError (BufferSlot × Surface) :=
  match s.pendingBuffer with
  | none => .error .nothingAttached
  | some slot =>
    match validateDamage damage s.extent with
    | .error e => .error e
    | .ok () =>
      .ok (slot, { s.setSlotState slot .presenting with
        pendingBuffer := none
        current := some { buffer := slot, damage } })

/-- Give a buffer back to the client. -/
def release (s : Surface) (slot : BufferSlot) : Except SurfaceError Surface :=
  if s.slots slot ≠ .presenting then .error (.notInFlight slot)
  else .ok (s.setSlotState slot .free)

variable {s s' : Surface} {slot other : BufferSlot} {state : SlotState} {damage : Damage}

@[simp] theorem setSlotState_slots :
    (s.setSlotState slot state).slots = Function.update s.slots slot state := rfl

@[simp] theorem setSlotState_current : (s.setSlotState slot state).current = s.current := rfl

@[simp] theorem setSlotState_pendingBuffer :
    (s.setSlotState slot state).pendingBuffer = s.pendingBuffer := rfl

@[simp] theorem setSlotState_extent : (s.setSlotState slot state).extent = s.extent := rfl

/-- Attaching takes a free buffer, and gives back one that was attached before. -/
theorem attach_ok (h : s.attach slot = .ok s') :
    s.slots slot = .free ∧ s'.current = s.current ∧ s'.extent = s.extent ∧
      s'.pendingBuffer = some slot ∧ s'.slots slot = .attached ∧
      s'.slots slot.other =
        if s.pendingBuffer = some slot.other then .free else s.slots slot.other := by
  unfold attach at h
  split at h
  · simp at h
  next hfree =>
    rw [ne_eq, not_not] at hfree
    rw [Except.ok.injEq] at h
    subst h
    cases hp : s.pendingBuffer with
    | none => simp [hfree]
    | some previous =>
      rcases slot.eq_or_eq_other previous with rfl | rfl
      · simp [hfree, (BufferSlot.other_ne _).symm]
      · simp [hfree]

/-- Committing takes the attached buffer from the client. -/
theorem commit_ok (h : s.commit damage = .ok (slot, s')) :
    s.pendingBuffer = some slot ∧ validateDamage damage s.extent = .ok () ∧
      s' = { s.setSlotState slot .presenting with
        pendingBuffer := none
        current := some { buffer := slot, damage } } := by
  unfold commit at h
  split at h
  · simp at h
  split at h
  · simp at h
  next slot' hp _ hd =>
    rw [Except.ok.injEq, Prod.mk.injEq] at h
    obtain ⟨rfl, rfl⟩ := h
    exact ⟨hp, hd, rfl⟩

theorem validateDamage_error {damage : Damage} {extent : Size} {e : SurfaceError}
    (h : validateDamage damage extent = .error e) (slot : BufferSlot) : e ≠ .bufferBusy slot := by
  have hrects : ∀ rects : List Rect, (rects.forM fun rect => validateRect rect extent) = .error e →
      e ≠ .bufferBusy slot := by
    intro rects
    induction rects with
    | nil => intro h; cases h
    | cons rect rects ih =>
      intro h
      change (validateRect rect extent >>= fun _ =>
        rects.forM fun rect => validateRect rect extent) = _ at h
      cases hrect : validateRect rect extent with
      | ok => rw [hrect] at h; exact ih h
      | error e' =>
        rw [hrect] at h
        obtain rfl := Except.error.inj h
        simp only [validateRect] at hrect
        split at hrect
        · simp at hrect
        · rw [← Except.error.inj hrect]
          simp
  unfold validateDamage at h
  split at h
  · simp at h
  split at h
  · rw [← Except.error.inj h]
    simp
  · exact hrects _ h

/-- A commit is never refused because a buffer is busy. -/
theorem commit_error {e : SurfaceError} (h : s.commit damage = .error e) (slot : BufferSlot) :
    e ≠ .bufferBusy slot := by
  unfold commit at h
  split at h
  · rw [← Except.error.inj h]
    simp
  split at h
  · next hd =>
    rw [← Except.error.inj h]
    exact validateDamage_error hd slot
  · simp at h

/-- Releasing gives a buffer back that was committed. -/
theorem release_ok (h : s.release slot = .ok s') :
    s.slots slot = .presenting ∧ s' = s.setSlotState slot .free := by
  unfold release at h
  split at h
  · simp at h
  next hp =>
    rw [ne_eq, not_not] at hp
    rw [Except.ok.injEq] at h
    exact ⟨hp, h.symm⟩

/-- The compositor still has the buffer of the current frame. -/
def Keeps (s : Surface) : Prop := ∀ c ∈ s.current, s.slots c.buffer = .presenting

instance (s : Surface) : Decidable s.Keeps :=
  inferInstanceAs (Decidable (∀ c ∈ s.current, s.slots c.buffer = .presenting))

end Surface

end Paperclip.Compositor
