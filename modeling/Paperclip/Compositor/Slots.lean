import Paperclip.Compositor.Surface

/-!
# The slots of a surface, call by call

The calls as they change a surface in place: what a call has written stays, also where it ends with
an error.

* `attach`, `commit`, `release`: the calls, one statement after another.
* `act_cases`: they do what `Surface.attach`, `Surface.commit` and `Surface.release` say, and a call
  that is refused has written nothing.
* `IsValid`: the damage that a commit takes.
* `Consistent`: the attached slot is the pending one, which every call keeps.
* `slot_machine`: what holds of a surface after any calls, and of the next one.
-/

namespace Paperclip.Compositor

open Protocol

/-- A call on a surface that can be refused. -/
abbrev SurfaceM (α : Type) := ExceptT SurfaceError (StateM Surface) α

namespace SurfaceM

def setSlotState (slot : BufferSlot) (state : SlotState) : SurfaceM Unit :=
  modify (·.setSlotState slot state)

/-- Frees a slot that was pending, unless it is the one that is attached now. -/
def freePrevious (previous : Option BufferSlot) (slot : BufferSlot) : SurfaceM Unit :=
  match previous with
  | some previous => if previous ≠ slot then setSlotState previous .free else pure ()
  | none => pure ()

/-- Record the buffer that the next commit is going to show. -/
def attach (slot : BufferSlot) : SurfaceM Unit := do
  if (← get).slots slot ≠ .free then throw (.bufferBusy slot)
  else
    let previous := (← get).pendingBuffer
    modify ({ · with pendingBuffer := none })
    freePrevious previous slot
    setSlotState slot .attached
    modify ({ · with pendingBuffer := some slot })

/-- Make the attached buffer the current frame. -/
def commit (damage : Damage) : SurfaceM BufferSlot := do
  match (← get).pendingBuffer with
  | none => throw .nothingAttached
  | some slot =>
    liftExcept (validateDamage damage (← get).extent)
    setSlotState slot .presenting
    modify ({ · with pendingBuffer := none })
    modify ({ · with current := some { buffer := slot, damage } })
    return slot

/-- Give a buffer back to the client. -/
def release (slot : BufferSlot) : SurfaceM Unit := do
  if (← get).slots slot ≠ .presenting then throw (.notInFlight slot)
  else setSlotState slot .free

end SurfaceM

/-- A call on a surface. -/
inductive Call where
  | attach (slot : BufferSlot)
  | commit (damage : Damage)
  | release (slot : BufferSlot)

def Call.perform : Call → SurfaceM Unit
  | .attach slot => SurfaceM.attach slot
  | .commit damage => discard (SurfaceM.commit damage)
  | .release slot => SurfaceM.release slot

namespace Surface

/-- What a call answers, and the surface that it leaves. -/
def act (s : Surface) (call : Call) : Except SurfaceError Unit × Surface := call.perform.run.run s

/-- A surface after some calls, whatever they answered. -/
def run (s : Surface) (calls : List Call) : Surface :=
  calls.foldl (fun s call => (s.act call).2) s

/-- A refused call leaves the surface that it found. -/
def settle (s : Surface) (res : Except SurfaceError Surface) : Except SurfaceError Unit × Surface :=
  match res with
  | .ok s' => (.ok (), s')
  | .error e => (.error e, s)

/-- The attached slot is the pending one. -/
def Consistent (s : Surface) : Prop :=
  ∀ slot, s.pendingBuffer = some slot ↔ s.slots slot = .attached

end Surface

/-- Whether a rectangle is finite, not negative, and inside a surface. -/
def IsWithin (rect : Rect) (extent : Size) : Prop :=
  (rect.x.isFinite ∧ rect.y.isFinite ∧ rect.width.isFinite ∧ rect.height.isFinite) ∧
    (rect.x ≥ 0 ∧ rect.y ≥ 0 ∧ rect.width ≥ 0 ∧ rect.height ≥ 0) ∧
      rect.x + rect.width ≤ extent.width.toFloat32 ∧ rect.y + rect.height ≤ extent.height.toFloat32

/-- Whether damage is all of a surface, or not too many rectangles inside it. -/
def IsValid (damage : Damage) (extent : Size) : Prop :=
  ∀ regions ∈ damage.regions?, regions.length ≤ MAX_DAMAGE_RECTS ∧
    ∀ rect ∈ regions, IsWithin rect extent

/-- What a surface keeps to. -/
structure Surface.Orderly (s : Surface) (extent : Size) : Prop where
  /-- The pending buffer is the attached one. -/
  pending : ∀ slot, s.pendingBuffer = some slot ↔ s.slots slot = .attached
  /-- At most one buffer is attached. -/
  attached : ∀ slot other, s.slots slot = .attached → s.slots other = .attached → slot = other
  /-- Only a commit with valid damage changes the current frame. -/
  current : ∀ call, (s.act call).2.current ≠ s.current → ∃ damage slot, call = .commit damage ∧
    IsValid damage extent ∧ s.pendingBuffer = some slot ∧
      (s.act call).2.current = some ⟨slot, damage⟩
  /-- A refused call changes nothing. -/
  refused : ∀ call e, (s.act call).1 = .error e → (s.act call).2 = s

section Damage

variable {rect : Rect} {extent : Size} {damage : Damage}

theorem validateRect_ok_iff : validateRect rect extent = .ok () ↔ IsWithin rect extent := by
  unfold validateRect IsWithin
  dsimp only
  split
  · next h => simpa [and_assoc] using h
  · next h =>
    refine ⟨fun hok => ?_, fun hwithin => absurd ?_ h⟩
    · cases hok
    · simpa [and_assoc] using hwithin

theorem validateDamage_ok_iff : validateDamage damage extent = .ok () ↔ IsValid damage extent := by
  have hrects : ∀ rects : List Rect, (rects.forM fun rect => validateRect rect extent) = .ok () ↔
      ∀ rect ∈ rects, IsWithin rect extent := by
    intro rects
    induction rects with
    | nil => exact ⟨fun _ rect hm => absurd hm List.not_mem_nil, fun _ => rfl⟩
    | cons rect rects ih =>
      rw [List.forall_mem_cons, ← ih, ← validateRect_ok_iff]
      change (validateRect rect extent >>= fun _ =>
        rects.forM fun rect => validateRect rect extent) = _ ↔ _
      cases validateRect rect extent with
      | ok => exact (and_iff_right rfl).symm
      | error e =>
        constructor
        · intro h
          cases h
        · rintro ⟨h, -⟩
          cases h
  unfold validateDamage IsValid
  cases hr : damage.regions? with
  | none => simp
  | some regions =>
    dsimp only
    by_cases hmany : regions.length > MAX_DAMAGE_RECTS
    · rw [if_pos hmany]
      simp [Nat.not_le_of_lt hmany]
    · rw [if_neg hmany, hrects]
      simp [Nat.le_of_not_lt hmany]

end Damage

namespace Surface

variable {s s' : Surface} {slot : BufferSlot} {damage : Damage} {call : Call} {extent : Size}

/-! ## What the calls do -/

theorem act_attach : s.act (.attach slot) = s.settle (s.attach slot) := by
  change (if s.slots slot ≠ .free then _ else _ : SurfaceM Unit).run.run s = _
  unfold attach
  by_cases hfree : s.slots slot ≠ .free
  · rw [if_pos hfree, if_pos hfree]
    rfl
  rw [if_neg hfree, if_neg hfree]
  change (SurfaceM.freePrevious s.pendingBuffer slot >>= fun _ => _ : SurfaceM Unit).run.run
    { s with pendingBuffer := none } = _
  cases hp : s.pendingBuffer with
  | none =>
    obtain ⟨extent, slots, pending, current⟩ := s
    cases hp
    rfl
  | some previous =>
    unfold SurfaceM.freePrevious
    dsimp only
    by_cases hne : previous ≠ slot
    · rw [if_pos hne, if_pos hne]
      rfl
    · rw [if_neg hne, if_neg hne]
      rfl

theorem act_commit : s.act (.commit damage) = s.settle ((s.commit damage).map (·.2)) := by
  obtain ⟨extent, slots, pending, current⟩ := s
  cases pending with
  | none => rfl
  | some slot =>
    unfold commit
    change (discard (liftExcept (validateDamage damage extent) >>= fun _ => _ :
      SurfaceM BufferSlot)).run.run ⟨extent, slots, some slot, current⟩ = _
    dsimp only
    cases validateDamage damage extent with
    | ok => rfl
    | error e => rfl

theorem act_release : s.act (.release slot) = s.settle (s.release slot) := by
  change (if s.slots slot ≠ .presenting then _ else _ : SurfaceM Unit).run.run s = _
  unfold release
  by_cases hp : s.slots slot ≠ .presenting
  · rw [if_pos hp, if_pos hp]
    rfl
  · rw [if_neg hp, if_neg hp]
    rfl

/-- A call does to a surface what the function of its name says, or nothing if it is refused. -/
theorem act_cases : (∃ e, s.act call = (.error e, s)) ∨
    (∃ slot s', call = .attach slot ∧ s.attach slot = .ok s' ∧ s.act call = (.ok (), s')) ∨
    (∃ damage slot s', call = .commit damage ∧ s.commit damage = .ok (slot, s') ∧
      s.act call = (.ok (), s')) ∨
    ∃ slot s', call = .release slot ∧ s.release slot = .ok s' ∧ s.act call = (.ok (), s') := by
  cases call with
  | attach slot =>
    rw [act_attach]
    cases h : s.attach slot with
    | ok s' => exact .inr (.inl ⟨slot, s', rfl, h, rfl⟩)
    | error e => exact .inl ⟨e, rfl⟩
  | commit damage =>
    rw [act_commit]
    cases h : s.commit damage with
    | ok done => exact .inr (.inr (.inl ⟨damage, done.1, done.2, rfl, h, rfl⟩))
    | error e => exact .inl ⟨e, rfl⟩
  | release slot =>
    rw [act_release]
    cases h : s.release slot with
    | ok s' => exact .inr (.inr (.inr ⟨slot, s', rfl, h, rfl⟩))
    | error e => exact .inl ⟨e, rfl⟩

/-! ## What stays so -/

theorem consistent_new : (new extent).Consistent := by
  intro slot
  simp [new]

theorem Consistent.attach (h : s.Consistent) (ha : s.attach slot = .ok s') : s'.Consistent := by
  obtain ⟨hfree, -, -, hpending, hattached, hother⟩ := attach_ok ha
  intro x
  rcases slot.eq_or_eq_other x with rfl | rfl
  · simp [hpending, hattached]
  · rw [hpending, hother]
    refine ⟨fun h => absurd (Option.some.inj h).symm (BufferSlot.other_ne slot), fun hx => ?_⟩
    split at hx
    · cases hx
    · next hnot => exact absurd ((h _).mpr hx) hnot

theorem Consistent.commit (h : s.Consistent) (hc : s.commit damage = .ok (slot, s')) :
    s'.Consistent := by
  obtain ⟨hpending, -, rfl⟩ := commit_ok hc
  intro x
  by_cases hx : x = slot
  · simp [hx]
  · have hnot : s.slots x ≠ .attached := fun hattached =>
      hx (Option.some.inj (((h x).mpr hattached).symm.trans hpending))
    simp [Function.update_of_ne hx, hnot]

theorem Consistent.release (h : s.Consistent) (hr : s.release slot = .ok s') : s'.Consistent := by
  obtain ⟨hpresenting, rfl⟩ := release_ok hr
  intro x
  by_cases hx : x = slot
  · subst hx
    have hpending : s.pendingBuffer ≠ some x := by
      rw [ne_eq, h x, hpresenting]
      simp
    simp [hpending]
  · simpa [Function.update_of_ne hx] using h x

/-- Every call keeps the two indices apart, and the extent. -/
theorem Consistent.act (h : s.Consistent) (call : Call) :
    (s.act call).2.Consistent ∧ (s.act call).2.extent = s.extent := by
  rcases @act_cases s call with ⟨e, he⟩ | ⟨slot, s', -, hok, he⟩ | ⟨damage, slot, s', -, hok, he⟩ |
    ⟨slot, s', -, hok, he⟩
  · rw [he]
    exact ⟨h, rfl⟩
  · rw [he]
    exact ⟨h.attach hok, (attach_ok hok).2.2.1⟩
  · have hnext := h.commit hok
    obtain ⟨-, -, rfl⟩ := commit_ok hok
    rw [he]
    exact ⟨hnext, rfl⟩
  · have hnext := h.release hok
    obtain ⟨-, rfl⟩ := release_ok hok
    rw [he]
    exact ⟨hnext, rfl⟩

theorem Consistent.run (h : s.Consistent) (calls : List Call) :
    (s.run calls).Consistent ∧ (s.run calls).extent = s.extent := by
  induction calls generalizing s with
  | nil => exact ⟨h, rfl⟩
  | cons call calls ih =>
    obtain ⟨hact, hextent⟩ := h.act call
    obtain ⟨hrun, hrest⟩ := ih hact
    exact ⟨hrun, hrest.trans hextent⟩

/-- A call that changes the current frame commits the attached buffer, with damage that is valid. -/
theorem current_of_act (h : (s.act call).2.current ≠ s.current) : ∃ damage slot,
    call = .commit damage ∧ (s.act call).1 = .ok () ∧ IsValid damage s.extent ∧
      s.pendingBuffer = some slot ∧ (s.act call).2.current = some ⟨slot, damage⟩ := by
  rcases @act_cases s call with ⟨e, he⟩ | ⟨slot, s', -, hok, he⟩ | ⟨damage, slot, s', rfl, hok, he⟩ |
    ⟨slot, s', -, hok, he⟩
  · rw [he] at h
    exact absurd rfl h
  · rw [he] at h
    exact absurd (attach_ok hok).2.1 h
  · rw [he]
    obtain ⟨hpending, hvalid, rfl⟩ := commit_ok hok
    exact ⟨damage, slot, rfl, rfl, validateDamage_ok_iff.mp hvalid, hpending, rfl⟩
  · rw [he] at h
    obtain ⟨-, rfl⟩ := release_ok hok
    exact absurd rfl h

/-- A refused call changes nothing. -/
theorem act_error {e : SurfaceError} (h : (s.act call).1 = .error e) : (s.act call).2 = s := by
  rcases @act_cases s call with ⟨e, he⟩ | ⟨slot, s', -, -, he⟩ | ⟨damage, slot, s', -, -, he⟩ |
    ⟨slot, s', -, -, he⟩
  · rw [he]
  all_goals
    rw [he] at h
    cases h

end Surface

/-- After any calls the attached slot is the pending one, and there is one at most. Whatever is called
next, only a commit with valid damage changes the current frame, and a refusal changes nothing. -/
theorem slot_machine (extent : Size) (calls : List Call) :
    ((Surface.new extent).run calls).Orderly extent := by
  obtain ⟨hconsistent, hextent⟩ := (@Surface.consistent_new extent).run calls
  refine ⟨hconsistent, fun slot other hs ho => ?_, fun call h => ?_, fun call e h => Surface.act_error h⟩
  · have hpending := (hconsistent slot).mpr hs
    exact Option.some.inj (hpending.symm.trans ((hconsistent other).mpr ho))
  · obtain ⟨damage, slot, hcall, -, hvalid, hpending, hcurrent⟩ := Surface.current_of_act h
    rw [hextent] at hvalid
    exact ⟨damage, slot, hcall, hvalid, hpending, hcurrent⟩

end Paperclip.Compositor
