import Paperclip.Host.Effects

/-!
# How long a switch can take

A switch has a deadline, and a tick that finds it past takes the machine to recovery. What begins a
switch while one is pending begins it over, with a deadline of its own and nothing observed.

* `Machine.renews`: the inputs that begin a pending switch over.
* `Machine.begunAt`: when a switch was begun last. `Machine.Stays`: a run that is all one switch.
* `run_deadline`: the deadline of a switch is counted from when it was begun last.
* `leaves_switching_iff`: which ticks end a switch.
* `requests_stay`: requests can follow each other for ever, and no tick ends the switch.
-/

namespace Paperclip.Host

namespace Machine

/-- Whether an input begins a switch over, where one is pending. -/
def renews (m : Machine) : Input → Bool
  | .event (.switchRequested to_) => to_ == .stock || m.mayRelaunch
  | .event (.sessionExited owner status) => m.ours owner && owner != .stock && !status.isFailure
  | _ => false

/-- When a switch was begun last that was first begun at `began`. -/
def begunAt (m : Machine) (began : ℕ) : List Moment → ℕ
  | [] => began
  | moment :: rest =>
    (m.step moment).2.begunAt (if m.renews moment.input then moment.now else began) rest

/-- A machine that is in `switching` and that nothing takes out of it. -/
def Stays (m : Machine) : List Moment → Prop
  | [] => m.state = .switching
  | moment :: rest => m.state = .switching ∧ (m.step moment).2.Stays rest

/-- Whether the deadline of a restore has come that was the last attempt at it. -/
def Spent (m : Machine) (now : ℕ) : Prop :=
  ∃ r ∈ m.recovery, r.deadline ≤ now ∧ m.policy.restoreAttempts ≤ r.attempt

instance decidableStays (m : Machine) (moments : List Moment) : Decidable (m.Stays moments) := by
  induction moments generalizing m with
  | nil => exact inferInstanceAs (Decidable (m.state = .switching))
  | cons moment rest ih =>
    exact @instDecidableAnd _ _ (inferInstanceAs (Decidable (m.state = .switching)))
      (ih (m.step moment).2)

instance (m : Machine) (now : ℕ) : Decidable (m.Spent now) :=
  inferInstanceAs (Decidable (∃ r ∈ m.recovery, r.deadline ≤ now ∧
    m.policy.restoreAttempts ≤ r.attempt))

end Machine

variable {m m' : Machine} {p : Pending} {now began : ℕ} {input : Input} {actions : List Action}
  {moment : Moment} {rest : List Moment}

/-! ## A turn -/

theorem Event.mark_deadline {event : Event} {mark : Pending → Pending}
    (h : event.mark = some mark) (p : Pending) : (mark p).deadline = p.deadline := by
  cases event <;> simp only [Event.mark, reduceCtorEq, Option.some.injEq] at h <;> subst h
  case processReady => dsimp only; split <;> rfl
  case displayOwned => dsimp only; split <;> rfl
  all_goals rfl

/-- A machine is built with its budget and its policy. -/
theorem Effect.fixed (he : Effect m now input actions m') :
    m'.budget = m.budget ∧ m'.policy = m.policy := by
  cases he <;> exact ⟨rfl, rfl⟩

theorem run_fixed : (m.run rest).budget = m.budget ∧ (m.run rest).policy = m.policy := by
  induction rest generalizing m with
  | nil => exact ⟨rfl, rfl⟩
  | cons moment rest ih =>
    obtain ⟨hbudget, hpolicy⟩ := (step_effect m moment).fixed
    obtain ⟨ihbudget, ihpolicy⟩ := @ih (m.step moment).2
    exact ⟨ihbudget.trans hbudget, ihpolicy.trans hpolicy⟩

/-- A switch that is pending is no reason not to begin one. -/
theorem beginSwitch_pending (hs : m.state = .switching) (hp : m.pending = some p)
    {to_ : Foreground} (hto : to_ = .stock ∨ m.mayRelaunch) :
    m.beginSwitch to_ now = (m.switchActions to_ now, m.switching to_ now) := by
  have hrecovering : ¬ m.state = .recovering := by rw [hs]; simp
  have hspent : ¬ (to_ ≠ .stock ∧ m.mayRelaunch = false) := by
    rintro ⟨hne, hfalse⟩
    rcases hto with h | h
    · exact hne h
    · rw [hfalse] at h
      cases h
  have hsame : ¬ (m.foreground = to_ ∧ m.pending = none) := by rw [hp]; simp
  unfold Machine.beginSwitch
  rw [if_neg hrecovering, if_neg hspent, if_neg hsame]
  rfl

/-- What begins a pending switch over does so for some owner. -/
theorem step_renews (hs : m.state = .switching) (hp : m.pending = some p)
    (hr : m.renews moment.input) : ∃ to_, (m.step moment).2 = m.switching to_ moment.now := by
  obtain ⟨input, now⟩ := moment
  have hf : ¬ m.state = .failed := by rw [hs]; simp
  cases input with
  | operatorRetry => cases hr
  | event event =>
  show ∃ to_, (m.handle event now).2 = m.switching to_ now
  unfold Machine.handle
  rw [if_neg hf]
  cases event with
  | switchRequested to_ =>
    refine ⟨to_, ?_⟩
    dsimp only
    rw [beginSwitch_pending hs hp (by simpa [Machine.renews] using hr)]
  | sessionExited owner status =>
    refine ⟨.stock, ?_⟩
    simp only [Machine.renews, Bool.and_eq_true, bne_iff_ne, ne_eq, Bool.not_eq_true'] at hr
    obtain ⟨⟨hours, hstock⟩, hclean⟩ := hr
    dsimp only
    unfold Machine.sessionExited
    rw [if_neg (by simp [hours, hstock]), if_pos hclean, beginSwitch_pending hs hp (.inl rfl)]
  | processReady owner | displayOwned owner | progressStalled owner stalledFor => cases hr
  | displayReleased | stockRunning | displayHostLost | tick => cases hr
  | restoreFailed reason => cases hr

/-- What a begin needs is what `renews` asks for. -/
theorem Begins.renews {to_ : Foreground} (hb : Begins m to_ input)
    (hto : to_ = .stock ∨ m.mayRelaunch) : m.renews input := by
  rcases hb with rfl | ⟨rfl, owner, status, rfl, hours, hstock, hclean⟩
  · simpa [Machine.renews] using hto
  · simp [Machine.renews, hours, hstock, hclean]

/-- A switch that goes on has the deadline that it had, where it is not begun over. -/
theorem step_deadline (hs : m.state = .switching) (hp : m.pending = some p)
    (hs' : (m.step moment).2.state = .switching) : ∃ q, (m.step moment).2.pending = some q ∧
      q.deadline = if m.renews moment.input then moment.now + m.budget.switch else p.deadline := by
  by_cases hr : m.renews moment.input
  · obtain ⟨to_, h⟩ := step_renews hs hp hr
    rw [h, if_pos hr]
    exact ⟨_, rfl, rfl⟩
  rw [if_neg hr]
  have he := step_effect m moment
  obtain ⟨input, now⟩ := moment
  generalize m.step ⟨input, now⟩ = result at he hs'
  obtain ⟨actions, after⟩ := result
  dsimp only at he hs' hr ⊢
  cases he with
  | same => exact ⟨p, hp, rfl⟩
  | marked event mark p' hmark hp' =>
    obtain rfl := Option.some.inj (hp.symm.trans hp')
    exact ⟨_, rfl, Event.mark_deadline hmark p⟩
  | arrived event mark p' => exact absurd hs' p'.target.arrivedState_ne.1
  | restored => cases hs'
  | began to_ _ _ _ hto hb => exact absurd (hb.renews hto) hr
  | recover => cases hs'
  | counted => exact ⟨p, hp, rfl⟩
  | again => exact ⟨p, hp, rfl⟩
  | halted => cases hs'
  | cleared => exact ⟨p, hp, rfl⟩
  | retried => cases hs'

/-- A switch begins with a deadline that is counted from then. -/
theorem began_deadline (h : Shape m) (hs : m.state ≠ .switching)
    (hs' : (m.step moment).2.state = .switching) : ∃ q, (m.step moment).2.pending = some q ∧
      q.deadline = moment.now + m.budget.switch := by
  have hp : m.pending = none := by
    rw [← Option.not_isSome_iff_eq_none, h.pending]
    exact hs
  have he := step_effect m moment
  obtain ⟨input, now⟩ := moment
  generalize m.step ⟨input, now⟩ = result at he hs'
  obtain ⟨actions, after⟩ := result
  dsimp only at he hs' ⊢
  cases he with
  | same => exact absurd hs' hs
  | marked event mark p' _ hp' => rw [hp] at hp'; cases hp'
  | arrived event mark p' => exact absurd hs' p'.target.arrivedState_ne.1
  | restored => cases hs'
  | began => exact ⟨_, rfl, rfl⟩
  | recover => cases hs'
  | counted => exact absurd hs' hs
  | again => exact absurd hs' hs
  | halted => cases hs'
  | cleared => exact absurd hs' hs
  | retried => cases hs'

/-! ## A run -/

theorem Machine.Stays.state (h : m.Stays rest) : m.state = .switching := by
  cases rest with
  | nil => exact h
  | cons moment rest => exact h.1

/-- The deadline of a switch is counted from when it was begun last. -/
theorem run_deadline (h : m.Stays rest) (hp : m.pending = some p)
    (hd : p.deadline = began + m.budget.switch) : (m.run rest).state = .switching ∧
      ∃ q, (m.run rest).pending = some q ∧
        q.deadline = m.begunAt began rest + m.budget.switch := by
  induction rest generalizing m p began with
  | nil => exact ⟨h, p, hp, hd⟩
  | cons moment rest ih =>
    obtain ⟨hs, hrest⟩ := h
    obtain ⟨q, hq, hdeadline⟩ := step_deadline hs hp hrest.state
    have hbudget := (step_effect m moment).fixed.1
    rw [hd, ← ite_add, ← hbudget] at hdeadline
    have hrun := ih hrest hq hdeadline
    rw [hbudget] at hrun
    exact hrun

/-- A tick ends a switch whose deadline has come, or gives up on a restore. -/
theorem tick_leaves_iff (hs : m.state = .switching) (hp : m.pending = some p) :
    (m.step ⟨.event .tick, now⟩).2.state ≠ .switching ↔ p.deadline ≤ now ∨ m.Spent now := by
  have hstep : (m.step ⟨.event .tick, now⟩).2 = (m.tick now).2 := by
    show (m.handle .tick now).2 = _
    unfold Machine.handle
    rw [if_neg (by rw [hs]; simp)]
  rw [hstep, Machine.tick, hp]
  dsimp only
  split
  · next hdue =>
    unfold Machine.enterRecovery
    rw [if_neg (by rw [hs]; simp)]
    simp [hdue]
  next hdue =>
  unfold Machine.recoveryExpired
  split
  · next hr => simp [Machine.Spent, hr, hdue, hs]
  next r hr =>
  split
  · next hexpired =>
    unfold Machine.restoreFailed
    have hattempt : (m.recovery.map (·.attempt)).getD 1 = r.attempt := by rw [hr]; rfl
    dsimp only
    rw [hattempt]
    split
    · next hspent => simp [Machine.halt, Machine.Spent, hr, hexpired, hspent]
    · next hspent => simp [Machine.Spent, hr, hdue, hspent, hs]
  · next hexpired => simp [Machine.Spent, hr, hdue, hexpired, hs]

/-- A tick after the budget of a switch that was not ended leaves it exactly where the budget is
over that is counted from when it was begun last, or a restore is given up. -/
theorem leaves_switching_iff (budget : Budget) (policy : FailurePolicy) (past rest : List Moment)
    (first : Moment) (now : ℕ)
    (hbefore : ((Machine.new budget policy).run past).state ≠ .switching)
    (hstays : ((Machine.new budget policy).run (past ++ [first])).Stays rest)
    (_hlate : first.now + budget.switch ≤ now) :
    (((Machine.new budget policy).run (past ++ [first] ++ rest)).step ⟨.event .tick, now⟩).2.state
        ≠ .switching ↔
      ((Machine.new budget policy).run (past ++ [first])).begunAt first.now rest + budget.switch
          ≤ now ∨
        ((Machine.new budget policy).run (past ++ [first] ++ rest)).Spent now := by
  have hshape := (shape_new budget policy).run past
  have hbudget : ∀ moments, ((Machine.new budget policy).run moments).budget = budget :=
    fun moments => run_fixed.1
  have hfirst := hstays.state
  rw [Machine.run_concat] at hfirst
  obtain ⟨q, hq, hdeadline⟩ := began_deadline hshape hbefore hfirst
  rw [← Machine.run_concat] at hq
  rw [hbudget, ← hbudget (past ++ [first])] at hdeadline
  obtain ⟨hs, q', hq', hdeadline'⟩ := run_deadline hstays hq hdeadline
  rw [← Machine.run_append] at hs hq'
  rw [hbudget] at hdeadline'
  rw [tick_leaves_iff hs hq', hdeadline']

/-- The home screen is asked for, asked for again after seven seconds, and does not come: a tick
after ten seconds ends nothing, and one after fifteen does. -/
theorem leaves_switching_home :
    (((Machine.new .default .default).run ([] ++ [⟨.event (.switchRequested .home), 0⟩] ++
        [⟨.event (.switchRequested .home), 7 * second⟩])).step
          ⟨.event .tick, 15 * second⟩).2.state ≠ .switching ↔
      ((Machine.new .default .default).run ([] ++ [⟨.event (.switchRequested .home), 0⟩])).begunAt 0
          [⟨.event (.switchRequested .home), 7 * second⟩] + 8 * second ≤ 15 * second ∨
        ((Machine.new .default .default).run ([] ++ [⟨.event (.switchRequested .home), 0⟩] ++
          [⟨.event (.switchRequested .home), 7 * second⟩])).Spent (15 * second) :=
  leaves_switching_iff .default .default [] [⟨.event (.switchRequested .home), 7 * second⟩]
    ⟨.event (.switchRequested .home), 0⟩ (15 * second) (by decide) (by decide) (by decide)

/-- A machine that is asked again is still switching after the budget of its switch. -/
theorem request_prolongs_switch :
    ¬ ∀ (budget : Budget) (policy : FailurePolicy) (past rest : List Moment) (first : Moment)
      (now : ℕ), ((Machine.new budget policy).run past).state ≠ .switching →
        ((Machine.new budget policy).run (past ++ [first])).Stays rest →
          first.now + budget.switch ≤ now →
            (((Machine.new budget policy).run (past ++ [first] ++ rest)).step
              ⟨.event .tick, now⟩).2.state ≠ .switching := by
  intro h
  exact h .default .default [] [⟨.event (.switchRequested .home), 7 * second⟩]
    ⟨.event (.switchRequested .home), 0⟩ (10 * second) (by decide) (by decide) (by decide)
    (by decide)

/-- Requests can follow each other for ever: each begins the switch over. -/
theorem requests_stay (hs : m.state = .switching) (hp : m.pending.isSome) (times : List ℕ) :
    m.Stays (times.map fun now => ⟨.event (.switchRequested .stock), now⟩) := by
  induction times generalizing m with
  | nil => exact hs
  | cons now times ih =>
    obtain ⟨p, hp⟩ := Option.isSome_iff_exists.mp hp
    obtain ⟨to_, h⟩ := @step_renews m p ⟨.event (.switchRequested .stock), now⟩ hs hp rfl
    refine ⟨hs, ?_⟩
    rw [h]
    exact ih rfl rfl

end Paperclip.Host
