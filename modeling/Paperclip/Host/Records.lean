import Paperclip.Host.Effects

/-!
# The records of a machine

Three optional records go with the state of a machine. `Consistent m`: each is there exactly where
it belongs. `Turn.Kept`: only a person moves a machine out of `failed`, and no restore failure that
belongs to no recovery moves a settled one into it.

`Strays m input`: a restore failure comes where the machine does not wait for one. The handler does
not look at the state, and that is the one way in which the records come apart: `represented_iff`.
-/

namespace Paperclip.Host

/-- Whether the foreground is where it was last confirmed to be. -/
def SessionState.settled : SessionState → Bool
  | stock | home | app => true
  | _ => false

/-- The records of the machine are those of its state. -/
structure Consistent (m : Machine) : Prop where
  pending : m.pending.isSome ↔ m.state = .switching
  recovery : m.recovery.isSome ↔ m.state = .recovering
  diagnosis : m.state = .failed → m.diagnosis.isSome

/-- The turn leaves `failed` alone, and stays out of it if it may not enter. -/
structure Turn.Kept (turn : Turn) : Prop where
  left : turn.before.state = .failed → turn.after.state ≠ .failed → turn.input = .operatorRetry
  entered : turn.before.state.settled → turn.before.recovery = none →
    (∃ reason, turn.input = .event (.restoreFailed reason)) → turn.after.state ≠ .failed

/-- Every state of the run is consistent, and every turn keeps to the rules of `failed`. -/
def Represented (m : Machine) (moments : List Moment) : Prop :=
  Consistent m ∧ ∀ turn ∈ m.turns moments, Consistent turn.after ∧ turn.Kept

/-- A restore failure comes to a settled machine, or to one that is switching and may try again. -/
def Strays (m : Machine) (input : Input) : Prop :=
  (∃ reason, input = .event (.restoreFailed reason)) ∧
    (m.state.settled ∨ m.state = .switching ∧ 1 < m.policy.restoreAttempts)

section Steps

variable {m m' : Machine} {now : ℕ} {input : Input} {actions : List Action}

theorem consistent_new (budget : Budget) (policy : FailurePolicy) :
    Consistent (.new budget policy) :=
  ⟨by simp [Machine.new], by simp [Machine.new], fun h => by cases h⟩

theorem Consistent.shape (h : Consistent m) : Shape m := ⟨h.pending, h.recovery.mpr⟩

/-- A restore attempt that fails without a recovery counts as the first. -/
theorem attempt_of_none (h : m.recovery = none) : m.attempt = 1 := by
  rw [Machine.attempt, h]
  rfl

theorem Consistent.recovery_none (h : Consistent m) (hs : m.state ≠ .recovering) :
    m.recovery = none :=
  Option.not_isSome_iff_eq_none.mp fun hr => hs (h.recovery.mp hr)

/-- A restore that is tried again is one of a recovery, unless its failure strays. -/
theorem Consistent.recovering (h : Consistent m) (hf : m.state ≠ .failed)
    (hr : RestoreFails m input) (ha : m.attempt < m.policy.restoreAttempts)
    (hn : ¬ Strays m input) : m.state = .recovering := by
  rcases hr with hr | ⟨-, hr⟩
  · cases hs : m.state with
    | recovering => rfl
    | failed => exact absurd hs hf
    | switching =>
      rw [attempt_of_none (h.recovery_none (by rw [hs]; simp))] at ha
      exact absurd ⟨hr, .inr ⟨hs, ha⟩⟩ hn
    | stock | home | app => exact absurd ⟨hr, .inl (by rw [hs]; rfl)⟩ hn
  · exact h.recovery.mp hr

theorem Consistent.effect (h : Consistent m) (he : Effect m now input actions m')
    (hn : ¬ Strays m input) : Consistent m' := by
  have hshape := h.shape.effect he
  refine ⟨hshape.pending, ⟨?_, hshape.recovery⟩, ?_⟩
  · intro hr
    cases he with
    | same | marked | counted | cleared => exact h.recovery.mp hr
    | arrived event mark p he hp =>
      have hs : m.state = .switching := h.pending.mp (by rw [hp]; rfl)
      have hrecovering := h.recovery.mp hr
      rw [hs] at hrecovering
      cases hrecovering
    | began to_ input hs => exact absurd (h.recovery.mp hr) hs
    | restored | halted => cases hr
    | recover | retried => rfl
    | again input reason hf hfails ha => exact h.recovering hf hfails ha hn
  · intro hs
    cases he with
    | same | marked => exact h.diagnosis hs
    | arrived event mark p => exact absurd hs p.target.arrivedState_ne.2.2
    | restored | began | recover | retried => cases hs
    | counted event extra hr =>
      rw [hr] at hs
      cases hs
    | again input reason hf | cleared hf => exact absurd hs hf
    | halted => rfl

theorem Consistent.kept (h : Consistent m) (moment : Moment) (hn : ¬ Strays m moment.input) :
    (m.turn moment).Kept := by
  refine ⟨fun hfailed hleft => ?_, fun hsettled _ hr => absurd ⟨hr, .inl hsettled⟩ hn⟩
  have he := step_effect m moment
  change m.state = .failed at hfailed
  change (m.step moment).2.state ≠ .failed at hleft
  show moment.input = .operatorRetry
  generalize moment.input = input at he ⊢
  generalize (m.step moment).1 = actions at he
  generalize (m.step moment).2 = after at he hleft
  cases he with
  | same | marked | counted => exact absurd hfailed hleft
  | arrived event mark p he hp =>
    have hs : m.state = .switching := h.pending.mp (by rw [hp]; rfl)
    rw [hs] at hfailed
    cases hfailed
  | restored hs =>
    rw [hs] at hfailed
    cases hfailed
  | began to_ input hs hf | recover event reason extra hs hf
  | again input reason hf | halted input reason hf => exact absurd hfailed hf
  | cleared | retried => rfl

/-- A restore failure that strays leaves a record where none belongs, or fails a settled machine. -/
theorem Strays.breaks (h : Strays m input) (hm : Consistent m) :
    ¬ (Consistent (m.turn ⟨input, now⟩).after ∧ (m.turn ⟨input, now⟩).Kept) := by
  obtain ⟨⟨reason, rfl⟩, hwhere⟩ := h
  have hstate : m.state ≠ .failed ∧ m.state ≠ .recovering := by
    rcases hwhere with hs | ⟨hs, -⟩
    · constructor <;> intro h <;> rw [h] at hs <;> cases hs
    · rw [hs]
      simp
  have hnone := hm.recovery_none hstate.2
  have hstep : (m.turn ⟨.event (.restoreFailed reason), now⟩).after =
      (m.restoreFailed reason now).2 := by
    show (m.handle (.restoreFailed reason) now).2 = _
    rw [Machine.handle, if_neg hstate.1]
  rintro ⟨hafter, hkept⟩
  by_cases ha : m.policy.restoreAttempts ≤ 1
  · have hsettled : m.state.settled := by
      rcases hwhere with hs | ⟨-, hlt⟩
      · exact hs
      · omega
    refine hkept.entered hsettled hnone ⟨reason, rfl⟩ ?_
    rw [hstep]
    simp [Machine.restoreFailed, hnone, ha, Machine.halt]
  · rw [hstep] at hafter
    have hrecord := hafter.recovery
    simp [Machine.restoreFailed, hnone, ha, hstate.2] at hrecord

end Steps

/-- A run keeps its records if and only if no restore failure strays. -/
theorem represented_iff (budget : Budget) (policy : FailurePolicy) (moments : List Moment) :
    Represented (.new budget policy) moments ↔
      ∀ turn ∈ (Machine.new budget policy).turns moments, ¬ Strays turn.before turn.input := by
  have hnew := consistent_new budget policy
  generalize Machine.new budget policy = m at hnew ⊢
  induction moments generalizing m with
  | nil => exact ⟨fun _ _ h => (by cases h), fun _ => ⟨hnew, fun _ h => (by cases h)⟩⟩
  | cons moment moments ih =>
    unfold Represented
    show (_ ∧ ∀ turn ∈ m.turn moment :: _, _) ↔ ∀ turn ∈ m.turn moment :: _, _
    rw [List.forall_mem_cons, List.forall_mem_cons, and_iff_right hnew]
    constructor
    · rintro ⟨hturn, hrest⟩
      exact ⟨fun hs => hs.breaks hnew hturn, (ih _ hturn.1).mp ⟨hturn.1, hrest⟩⟩
    · rintro ⟨hturn, hrest⟩
      have hafter := hnew.effect (step_effect m moment) hturn
      exact ⟨⟨hafter, hnew.kept moment hturn⟩, ((ih _ hafter).mpr hrest).2⟩

/-- A device that is at stock, with one restore attempt, is failed by a late restore failure. -/
theorem stock_is_failed :
    ¬ Represented (.new .default .default) [⟨.event (.restoreFailed "late"), 0⟩] := by
  rintro ⟨-, h⟩
  exact (h _ (List.mem_singleton_self _)).2.entered rfl rfl ⟨_, rfl⟩ rfl

end Paperclip.Host
