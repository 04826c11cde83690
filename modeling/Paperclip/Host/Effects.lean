import Paperclip.Host.Machine

/-!
# What a turn of the machine can do

`Effect m now input actions m'` lists the ways in which a machine can answer an input, guards
included, and `step_effect` says that there are no others. A proof about all turns is by cases on it
and never unfolds a handler.

* `Event.mark`: what an observation notes on a pending switch.
* `Machine.fails`: the exits that the ledger counts; `Machine.tally`: what it makes of them.
* `Begins`: the inputs that begin a switch. `RestoreFails`: the inputs that end a restore attempt.
* `Quiet`: actions that start nothing.
* `Shape`: a switch is pending exactly in `switching`, and a recovery never lacks its record.
-/

namespace Paperclip.Host

/-- What an observation notes on a pending switch. -/
def Event.mark : Event → Option (Pending → Pending)
  | .processReady owner =>
    some fun p => if p.target = owner then { p with processReady := true } else p
  | .displayOwned owner =>
    some fun p => if p.target = owner then { p with displayOwned := true } else p
  | .displayReleased => some fun p => { p with displayReleased := true }
  | .stockRunning => some fun p => { p with stockRunning := true }
  | _ => none

/-- A mark is about the switch that is pending. -/
theorem Event.mark_target {event : Event} {mark : Pending → Pending} (h : event.mark = some mark)
    (p : Pending) : (mark p).target = p.target := by
  cases event <;> simp only [Event.mark, reduceCtorEq, Option.some.injEq] at h <;> subst h
  case processReady => dsimp only; split <;> rfl
  case displayOwned => dsimp only; split <;> rfl
  all_goals rfl

namespace Machine

/-- A machine that has begun a switch. -/
def switching (m : Machine) (to_ : Foreground) (now : ℕ) : Machine :=
  { m with
    pending := some (.new to_ (now + m.budget.switch)), state := .switching
    stopping := if m.state.ownsDisplay then some now else m.stopping }

/-- What begins a switch. -/
def switchActions (m : Machine) (to_ : Foreground) (now : ℕ) : List Action :=
  (if m.state.ownsDisplay then [.terminateSession .switching m.budget.escalation] else []) ++
    (if to_ = .stock then [.releaseDisplay] else []) ++
    [.startForeground to_ (now + m.budget.switch)]

/-- A machine whose switch has arrived. -/
def arrivedAt (m : Machine) (target : Foreground) : Machine :=
  { m with
    foreground := target, state := target.arrivedState, pending := none, stopping := none
    ledger := if target.arrivedState = .stock then [] else m.ledger }

/-- A machine that has begun to recover. -/
def intoRecovery (m : Machine) (now : ℕ) : Machine :=
  { m with
    state := .recovering, pending := none, stopping := none
    recovery := some ⟨1, now + m.budget.restore, ""⟩ }

/-- What begins a recovery. -/
def recoveryActions (m : Machine) (reason : StopReason) (now : ℕ) : List Action :=
  [.captureDiagnostics reason, .terminateSession reason m.budget.escalation, .releaseDisplay,
    .restoreStock 1 (now + m.budget.restore)]

/-- The attempt that a failed restore was. -/
def attempt (m : Machine) : ℕ := (m.recovery.map (·.attempt)).getD 1

/-- Whether this is the exit of the session that is in the foreground, or on its way there, and one
that the ledger counts. -/
def fails (m : Machine) : Event → Bool
  | .sessionExited owner status => m.ours owner && owner != .stock && status.isFailure
  | _ => false

/-- The ledger and the diagnosis after an event. -/
def tally (m : Machine) (event : Event) (now : ℕ) : Ledger × Option Diagnosis :=
  if m.fails event then
    let (failures, ledger) := m.ledger.record now m.policy.failureWindow
    (ledger, if m.policy.sessionFailures ≤ failures then
      some (.repeatedSessionFailures failures m.policy.failureWindow) else m.diagnosis)
  else (m.ledger, m.diagnosis)

end Machine

/-- The inputs on which a machine that can begin a switch to `to_` begins one. -/
def Begins (m : Machine) (to_ : Foreground) (input : Input) : Prop :=
  input = .event (.switchRequested to_) ∨
    to_ = .stock ∧ ∃ owner status, input = .event (.sessionExited owner status) ∧
      m.ours owner ∧ owner ≠ .stock ∧ status.isFailure = false

/-- The inputs that say that a restore attempt did not work. -/
def RestoreFails (m : Machine) (input : Input) : Prop :=
  (∃ reason, input = .event (.restoreFailed reason)) ∨
    input = .event .tick ∧ m.recovery.isSome

/-- What a machine can do with an input. -/
inductive Effect (m : Machine) (now : ℕ) : Input → List Action → Machine → Prop where
  | same (event : Event) (hn : m.state = .failed ∨ m.fails event = false) :
      Effect m now (.event event) [] m
  | marked (event : Event) (mark : Pending → Pending) (p : Pending) (he : event.mark = some mark)
      (hp : m.pending = some p) (ha : (mark p).arrived = false) :
      Effect m now (.event event) [] { m with pending := some (mark p) }
  | arrived (event : Event) (mark : Pending → Pending) (p : Pending) (he : event.mark = some mark)
      (hp : m.pending = some p) (ha : (mark p).arrived) :
      Effect m now (.event event) [] (m.arrivedAt p.target)
  | restored (hs : m.state = .recovering) :
      Effect m now (.event .stockRunning) [] { m with
        recovery := none, stopping := none, pending := none, state := .stock, foreground := .stock }
  | began (to_ : Foreground) (input : Input) (hs : m.state ≠ .recovering) (hf : m.state ≠ .failed)
      (hto : to_ = .stock ∨ m.mayRelaunch) (hb : Begins m to_ input) :
      Effect m now input (m.switchActions to_ now) (m.switching to_ now)
  | recover (event : Event) (reason : StopReason) (extra : List Action)
      (hs : m.state ≠ .recovering) (hf : m.state ≠ .failed)
      (hx : ∀ action ∈ extra, action = .captureDiagnostics reason) :
      Effect m now (.event event) (m.recoveryActions reason now ++ extra) { m.intoRecovery now with
        ledger := (m.tally event now).1, diagnosis := (m.tally event now).2 }
  | counted (event : Event) (extra : List Action) (hs : m.state = .recovering)
      (hx : ∀ action ∈ extra, action = .captureDiagnostics .crashed) :
      Effect m now (.event event) extra { m with
        ledger := (m.tally event now).1, diagnosis := (m.tally event now).2 }
  | again (input : Input) (reason : String) (hf : m.state ≠ .failed) (hr : RestoreFails m input)
      (ha : m.attempt < m.policy.restoreAttempts) :
      Effect m now input [.restoreStock (m.attempt + 1) (now + m.budget.restore)]
        { m with recovery := some ⟨m.attempt + 1, now + m.budget.restore, reason⟩ }
  | halted (input : Input) (reason : String) (hf : m.state ≠ .failed) (hr : RestoreFails m input)
      (ha : m.policy.restoreAttempts ≤ m.attempt) :
      Effect m now input (m.halt (.stockUnavailable reason m.attempt)).1
        (m.halt (.stockUnavailable reason m.attempt)).2
  | cleared (hf : m.state ≠ .failed) :
      Effect m now .operatorRetry [] { m with diagnosis := none, ledger := [] }
  | retried (hf : m.state = .failed) :
      Effect m now .operatorRetry (m.recoveryActions .crashed now)
        { m.intoRecovery now with diagnosis := none, ledger := [] }

section Handlers

variable {m : Machine} {now : ℕ} {input : Input}

/-- Begins a switch, or does nothing. -/
theorem beginSwitch_cases (to_ : Foreground) :
    m.beginSwitch to_ now = ([], m) ∨
      (m.state ≠ .recovering ∧ (to_ = .stock ∨ m.mayRelaunch)) ∧
        m.beginSwitch to_ now = (m.switchActions to_ now, m.switching to_ now) := by
  unfold Machine.beginSwitch
  split
  · exact .inl rfl
  next hs =>
  split
  · exact .inl rfl
  next hto =>
  split
  · exact .inl rfl
  refine .inr ⟨⟨hs, ?_⟩, rfl⟩
  by_cases h : to_ = .stock
  · exact .inl h
  · exact .inr (by simpa [h] using hto)

theorem tally_of_not_fails {event : Event} (hn : m.fails event = false) :
    m.tally event now = (m.ledger, m.diagnosis) := by
  rw [Machine.tally, hn]
  rfl

/-- What begins a switch is no failure. -/
theorem Begins.not_fails {event : Event} {to_ : Foreground} (hb : Begins m to_ (.event event)) :
    m.fails event = false := by
  rcases hb with h | ⟨-, owner, status, h, -, -, hclean⟩
  · rw [Input.event.inj h]
    rfl
  · rw [Input.event.inj h]
    simp [Machine.fails, hclean]

theorem Event.mark_not_fails {event : Event} {mark : Pending → Pending}
    (he : event.mark = some mark) : m.fails event = false := by
  cases event <;> first | rfl | cases he

theorem beginSwitch_effect (hf : m.state ≠ .failed) {event : Event} {to_ : Foreground}
    (hb : Begins m to_ (.event event)) :
    Effect m now (.event event) (m.beginSwitch to_ now).1 (m.beginSwitch to_ now).2 := by
  rcases @beginSwitch_cases m now to_ with h | ⟨⟨hs, hto⟩, h⟩
  · rw [h]
    exact .same event (.inr hb.not_fails)
  · rw [h]
    exact .began to_ _ hs hf hto hb

theorem observe_effect {event : Event} {mark : Pending → Pending} (he : event.mark = some mark) :
    Effect m now (.event event) (m.observe mark).1 (m.observe mark).2 := by
  unfold Machine.observe
  split
  · exact .same event (.inr (Event.mark_not_fails he))
  · next p hp =>
    unfold Machine.settle
    dsimp only
    split
    · next ha =>
      rw [Event.mark_target he]
      exact .arrived event mark p he hp ha
    · next ha => exact .marked event mark p he hp (by simpa using ha)

theorem enterRecovery_effect (hf : m.state ≠ .failed) {event : Event} (hn : m.fails event = false)
    (reason : StopReason) :
    Effect m now (.event event) (m.enterRecovery reason now).1 (m.enterRecovery reason now).2 := by
  unfold Machine.enterRecovery
  split
  · exact .same event (.inr hn)
  · next hs =>
    have h := @Effect.recover m now event reason [] hs hf (by simp)
    rwa [List.append_nil, tally_of_not_fails hn] at h

theorem restoreFailed_effect (hf : m.state ≠ .failed) (hr : RestoreFails m input)
    (reason : String) :
    Effect m now input (m.restoreFailed reason now).1 (m.restoreFailed reason now).2 := by
  unfold Machine.restoreFailed
  dsimp only
  split
  · next ha => exact .halted input reason hf hr ha
  · next ha => exact .again input reason hf hr (Nat.lt_of_not_le ha)

theorem tick_effect (hf : m.state ≠ .failed) :
    Effect m now (.event .tick) (m.tick now).1 (m.tick now).2 := by
  have hrecovery : Effect m now (.event .tick) (m.recoveryExpired now).1
      (m.recoveryExpired now).2 := by
    unfold Machine.recoveryExpired
    split
    · exact .same _ (.inr rfl)
    · next r hr =>
      split
      · exact restoreFailed_effect hf (.inr ⟨rfl, by rw [hr]; rfl⟩) _
      · exact .same _ (.inr rfl)
  unfold Machine.tick
  split
  · exact hrecovery
  · split
    · exact enterRecovery_effect hf rfl _
    · exact hrecovery

theorem sessionExited_effect (hf : m.state ≠ .failed) (owner : Foreground) (status : ExitKind) :
    Effect m now (.event (.sessionExited owner status)) (m.sessionExited owner status now).1
      (m.sessionExited owner status now).2 := by
  unfold Machine.sessionExited
  split
  · next hours =>
    refine .same _ (.inr ?_)
    rcases hours with hours | hours <;> simp [Machine.fails, hours]
  next hours =>
  rw [not_or] at hours
  split
  · next hclean =>
    exact beginSwitch_effect hf
      (.inr ⟨rfl, owner, status, rfl, by simpa using hours.1, hours.2, hclean⟩)
  next hfailure =>
  have hfails : m.fails (.sessionExited owner status) := by
    simp only [Bool.not_eq_false] at hours hfailure
    simp [Machine.fails, hours, hfailure]
  have htally : m.tally (.sessionExited owner status) now =
      ((m.ledger.record now m.policy.failureWindow).2,
        if m.policy.sessionFailures ≤ (m.ledger.record now m.policy.failureWindow).1 then
          some (.repeatedSessionFailures (m.ledger.record now m.policy.failureWindow).1
            m.policy.failureWindow) else m.diagnosis) := by
    rw [Machine.tally, if_pos hfails]
  dsimp only
  unfold Machine.enterRecovery
  dsimp only
  by_cases hs : m.state = .recovering
  · rw [if_pos hs]
    split
    · next hspent =>
      have h := @Effect.counted m now (.sessionExited owner status)
        [.captureDiagnostics .crashed] hs (by simp)
      rwa [htally, if_pos hspent] at h
    · next hspent =>
      have h := @Effect.counted m now (.sessionExited owner status) [] hs (by simp)
      rwa [htally, if_neg hspent] at h
  · rw [if_neg hs]
    split
    · next hspent =>
      have h := @Effect.recover m now (.sessionExited owner status) .crashed
        [.captureDiagnostics .crashed] hs hf (by simp)
      rwa [htally, if_pos hspent] at h
    · next hspent =>
      have h := @Effect.recover m now (.sessionExited owner status) .crashed [] hs hf (by simp)
      rwa [htally, if_neg hspent] at h

/-- There is nothing else that a turn can do. -/
theorem step_effect (m : Machine) (moment : Moment) :
    Effect m moment.now moment.input (m.step moment).1 (m.step moment).2 := by
  obtain ⟨event | -, now⟩ := moment
  · show Effect m now (.event event) (m.handle event now).1 (m.handle event now).2
    unfold Machine.handle
    split
    · next hf => exact .same event (.inl hf)
    next hf =>
    cases event with
    | switchRequested to_ => exact beginSwitch_effect hf (.inl rfl)
    | processReady owner => exact observe_effect rfl
    | displayOwned owner => exact observe_effect rfl
    | displayReleased => exact observe_effect rfl
    | stockRunning =>
      dsimp only
      unfold Machine.stockRunning
      split
      · next hs => exact .restored hs
      · exact observe_effect rfl
    | sessionExited owner status => exact sessionExited_effect hf owner status
    | progressStalled owner stalledFor =>
      dsimp only
      unfold Machine.progressStalled
      split
      · exact .same _ (.inr rfl)
      · exact enterRecovery_effect hf rfl _
    | displayHostLost =>
      dsimp only
      unfold Machine.displayHostLost
      split
      · exact .same _ (.inr rfl)
      · exact enterRecovery_effect hf rfl _
    | restoreFailed reason => exact restoreFailed_effect hf (.inl ⟨reason, rfl⟩) _
    | tick => exact tick_effect hf
  · show Effect m now .operatorRetry (m.operatorRetry now).1 (m.operatorRetry now).2
    unfold Machine.operatorRetry
    dsimp only
    split
    · next hf =>
      unfold Machine.enterRecovery
      rw [if_neg (by rw [hf]; simp)]
      exact .retried hf
    · next hf => exact .cleared hf

end Handlers

/-! ## Starts -/

/-- Actions that are not starts. -/
def Quiet (actions : List Action) : Prop :=
  ∀ action ∈ actions, ∀ target deadline, action ≠ .startForeground target deadline

section Quiet

variable {m : Machine} {now : ℕ} {reason : StopReason} {extra : List Action}

theorem quiet_nil : Quiet [] := by simp [Quiet]

theorem quiet_captured (hx : ∀ action ∈ extra, action = .captureDiagnostics reason) :
    Quiet extra := by
  intro action hm target deadline
  rw [hx action hm]
  simp

theorem quiet_recoveryActions (hx : ∀ action ∈ extra, action = .captureDiagnostics reason) :
    Quiet (m.recoveryActions reason now ++ extra) := by
  intro action hm target deadline
  rcases List.mem_append.mp hm with hm | hm
  · simp only [Machine.recoveryActions, List.mem_cons, List.not_mem_nil, or_false] at hm
    rcases hm with rfl | rfl | rfl | rfl <;> simp
  · exact quiet_captured hx action hm target deadline

end Quiet

/-! ## The shape of a machine -/

/-- A switch is pending exactly in `switching`, and a recovery has its record. -/
structure Shape (m : Machine) : Prop where
  pending : m.pending.isSome ↔ m.state = .switching
  recovery : m.state = .recovering → m.recovery.isSome

theorem shape_new (budget : Budget) (policy : FailurePolicy) : Shape (.new budget policy) where
  pending := by simp [Machine.new]
  recovery h := by cases h

theorem Foreground.arrivedState_ne (target : Foreground) :
    target.arrivedState ≠ .switching ∧ target.arrivedState ≠ .recovering ∧
      target.arrivedState ≠ .failed := by
  cases target <;> simp [Foreground.arrivedState]

theorem Shape.effect {m m' : Machine} {now : ℕ} {input : Input} {actions : List Action}
    (h : Shape m) (he : Effect m now input actions m') : Shape m' := by
  cases he with
  | same => exact h
  | marked event mark p _ hp => exact ⟨by simpa [hp] using h.pending, h.recovery⟩
  | arrived event mark p =>
    obtain ⟨hs, hr, -⟩ := p.target.arrivedState_ne
    exact ⟨by simp [Machine.arrivedAt, hs], fun h => absurd h hr⟩
  | restored => exact ⟨by simp, by simp⟩
  | began => exact ⟨by simp [Machine.switching], by simp [Machine.switching]⟩
  | recover => exact ⟨by simp [Machine.intoRecovery], fun _ => rfl⟩
  | counted => exact ⟨h.pending, h.recovery⟩
  | again => exact ⟨h.pending, fun _ => rfl⟩
  | halted => exact ⟨by simp [Machine.halt], by simp [Machine.halt]⟩
  | cleared => exact ⟨h.pending, h.recovery⟩
  | retried => exact ⟨by simp [Machine.intoRecovery], fun _ => rfl⟩

theorem Shape.run {m : Machine} (h : Shape m) (moments : List Moment) : Shape (m.run moments) := by
  induction moments generalizing m with
  | nil => exact h
  | cons moment rest ih => exact ih (h.effect (step_effect m moment))

end Paperclip.Host
