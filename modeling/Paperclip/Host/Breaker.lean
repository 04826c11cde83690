import Paperclip.Host.Effects

/-!
# The crash-loop breaker

* `Tripped m`: the machine starts nothing but stock until a person clears it. It stays so through
  every turn but an operator retry.
* `Spends policy seg last`: the failures of these turns spend the budget of the policy. They trip
  the machine, whatever its ledger held before.
* `Episode turns`: a recovery, from the turn that enters it on. The attempt in its record counts the
  restores that were asked for.
-/

namespace Paperclip.Host

/-- Whether the turn is a failure of the session in the foreground, or on its way there. -/
def Turn.fails (turn : Turn) : Bool :=
  match turn.input with
  | .event event => turn.before.fails event
  | .operatorRetry => false

/-- The turn completes a switch to stock. -/
def Turn.ReachesStock (turn : Turn) : Prop :=
  turn.before.state = .switching ∧ turn.after.state = .stock

/-- The turn starts nothing but stock. -/
def Turn.StartsOnlyStock (turn : Turn) : Prop :=
  ∀ target deadline, .startForeground target deadline ∈ turn.actions → target = .stock

/-- The failures of these turns, the last one included, spend the budget: there are enough of them,
none before the window, and nothing between them makes a machine forget. -/
structure Spends (policy : FailurePolicy) (seg : List Turn) (last : Turn) : Prop where
  fails : last.fails
  enough : policy.sessionFailures ≤ (seg ++ [last]).countP (·.fails)
  inside : ∀ turn ∈ seg, turn.fails → last.now ≤ turn.now + policy.failureWindow
  kept : ∀ turn ∈ seg, ¬ turn.ReachesStock ∧ turn.input ≠ .operatorRetry

/-- Nothing but stock is started until a person clears this. -/
def Tripped (m : Machine) : Prop := Machine.isRepeated m.diagnosis ∨ m.state = .failed

def Action.isRestore : Action → Bool
  | .restoreStock _ _ => true
  | _ => false

/-- How many restores the turns ask for. -/
def restores (turns : List Turn) : ℕ := (turns.flatMap (·.actions)).countP (·.isRestore)

/-- A recovery, from the turn that enters it on. -/
def Episode (turns : List Turn) : Prop := ∃ first rest, turns = first :: rest ∧
  first.before.state ≠ .recovering ∧ first.after.state = .recovering ∧
    ∀ turn ∈ rest, turn.before.state = .recovering

section Steps

variable {m m' : Machine} {now : ℕ} {input : Input} {actions : List Action} {moment : Moment}

theorem Effect.policy (h : Effect m now input actions m') : m'.policy = m.policy := by
  cases h <;> rfl

theorem policy_run (m : Machine) (moments : List Moment) : (m.run moments).policy = m.policy := by
  induction moments generalizing m with
  | nil => rfl
  | cons moment rest ih => exact (ih _).trans (step_effect m moment).policy

/-- Nothing but a person moves a machine that has failed. -/
theorem step_of_failed (hf : m.state = .failed) (hne : moment.input ≠ .operatorRetry) :
    m.step moment = ([], m) := by
  obtain ⟨event | -, now⟩ := moment
  · show m.handle event now = _
    unfold Machine.handle
    rw [if_pos hf]
  · exact absurd rfl hne

/-- A diagnosis of repeated failures is not taken back by an event. -/
theorem isRepeated_tally (h : Machine.isRepeated m.diagnosis) (event : Event) :
    Machine.isRepeated (m.tally event now).2 := by
  unfold Machine.tally
  split
  · dsimp only
    split
    · rfl
    · exact h
  · exact h

/-- A machine that has tripped stays so, and starts nothing but stock. -/
theorem Tripped.step (h : Tripped m) (hne : moment.input ≠ .operatorRetry) :
    Tripped (m.turn moment).after ∧ (m.turn moment).StartsOnlyStock := by
  rcases h with h | hf
  · have he := step_effect m moment
    show Tripped (m.step moment).2 ∧
      ∀ target deadline, .startForeground target deadline ∈ (m.step moment).1 → target = .stock
    generalize moment.input = input at he hne
    generalize (m.step moment).1 = actions at he ⊢
    generalize (m.step moment).2 = after at he ⊢
    cases he with
    | same | marked | arrived | restored => exact ⟨.inl h, by simp⟩
    | began to_ input hs hf hto =>
      refine ⟨.inl h, fun target deadline hm => ?_⟩
      have htarget : target = to_ := by
        simp only [Machine.switchActions, List.mem_append, List.mem_singleton] at hm
        rcases hm with (hm | hm) | hm
        · split at hm <;> simp at hm
        · split at hm <;> simp at hm
        · exact (Action.startForeground.inj hm).1
      rcases hto with rfl | hto
      · exact htarget
      · simp [Machine.mayRelaunch, h] at hto
    | recover event reason extra hs hf hx =>
      exact ⟨.inl (isRepeated_tally h event), fun target deadline hm =>
        absurd rfl (quiet_recoveryActions hx _ hm target deadline)⟩
    | counted event extra hs hx =>
      exact ⟨.inl (isRepeated_tally h event), fun target deadline hm => by cases hx _ hm⟩
    | again => exact ⟨.inl h, by simp⟩
    | halted => exact ⟨.inr rfl, by simp [Machine.halt]⟩
    | cleared | retried => exact absurd rfl hne
  · have hstep := step_of_failed hf hne
    refine ⟨.inr ?_, fun target deadline hm => ?_⟩
    · show (m.step moment).2.state = .failed
      rw [hstep]
      exact hf
    · change _ ∈ (m.step moment).1 at hm
      rw [hstep] at hm
      cases hm

theorem Tripped.run {moments : List Moment} (h : Tripped m)
    (hne : ∀ turn ∈ m.turns moments, turn.input ≠ .operatorRetry) :
    ∀ turn ∈ m.turns moments, turn.StartsOnlyStock := by
  induction moments generalizing m with
  | nil => exact fun _ ht => by cases ht
  | cons moment moments ih =>
    obtain ⟨hfirst, hrest⟩ := List.forall_mem_cons.mp hne
    obtain ⟨hafter, hstarts⟩ := h.step hfirst
    exact List.forall_mem_cons.mpr ⟨hstarts, ih hafter hrest⟩

/-! ## Failures in the window -/

/-- The failures that the ledger holds from the window that ends at `last`. -/
def inWindow (m : Machine) (last : ℕ) : Ledger :=
  m.ledger.filter fun seen => last - seen ≤ m.policy.failureWindow

/-- The ledger holds `n` failures of the window that ends at `last`, or the machine has failed. -/
def Holds (m : Machine) (last n : ℕ) : Prop := m.state = .failed ∨ n ≤ (inWindow m last).length

theorem inWindow_record {last : ℕ} (hle : now ≤ last) (hin : last ≤ now + m.policy.failureWindow) :
    ((m.ledger.record now m.policy.failureWindow).2.filter
      fun seen => last - seen ≤ m.policy.failureWindow) = inWindow m last ++ [now] := by
  have hboth : ∀ seen, (decide (last - seen ≤ m.policy.failureWindow) &&
      decide (now - seen ≤ m.policy.failureWindow)) =
        decide (last - seen ≤ m.policy.failureWindow) := by
    intro seen
    by_cases h : last - seen ≤ m.policy.failureWindow
    · have hnow : now - seen ≤ m.policy.failureWindow := by omega
      simp [h, hnow]
    · simp [h]
  unfold Ledger.record inWindow
  dsimp only
  rw [List.filter_filter]
  simp only [hboth]
  rw [List.filter_append, List.filter_singleton]
  have hself : last - now ≤ m.policy.failureWindow := by omega
  simp [hself]

/-- A turn forgets no failure of the window, and adds its own. -/
theorem Holds.step {last n : ℕ} (h : Holds m last n) (hm : Shape m)
    (hne : moment.input ≠ .operatorRetry) (hstock : ¬ (m.turn moment).ReachesStock)
    (hle : moment.now ≤ last)
    (hin : (m.turn moment).fails → last ≤ moment.now + m.policy.failureWindow) :
    Holds (m.turn moment).after last (n + if (m.turn moment).fails then 1 else 0) := by
  rcases h with hf | h
  · refine .inl ?_
    show (m.step moment).2.state = .failed
    rw [step_of_failed hf hne]
    exact hf
  have he := step_effect m moment
  obtain ⟨input, now⟩ := moment
  change ¬ (m.state = .switching ∧ (m.step ⟨input, now⟩).2.state = .stock) at hstock
  show Holds (m.step ⟨input, now⟩).2 last _
  dsimp only at he hne hle hin
  have hfails (event : Event) (hi : input = .event event) :
      (m.turn ⟨input, now⟩).fails = m.fails event := by
    rw [hi]
    rfl
  generalize (m.turn ⟨input, now⟩).fails = fails at hfails hin ⊢
  generalize (m.step ⟨input, now⟩).1 = actions at he
  generalize (m.step ⟨input, now⟩).2 = after at he hstock ⊢
  have hkept (hn : fails = false) (hl : after.ledger = m.ledger) (hp : after.policy = m.policy) :
      Holds after last (n + if fails then 1 else 0) := by
    refine .inr ?_
    rw [hn, inWindow, hl, hp]
    exact h
  have htally (event : Event) (hi : input = .event event)
      (hl : after.ledger = (m.tally event now).1) (hp : after.policy = m.policy) :
      Holds after last (n + if fails then 1 else 0) := by
    by_cases hfail : m.fails event
    · refine .inr ?_
      rw [hfails event hi, if_pos hfail, inWindow, hl, hp, Machine.tally, if_pos hfail,
        inWindow_record hle (hin ((hfails event hi).trans hfail)), List.length_append]
      exact Nat.add_le_add_right h 1
    · rw [Bool.not_eq_true] at hfail
      rw [tally_of_not_fails hfail] at hl
      exact hkept ((hfails event hi).trans hfail) hl hp
  cases he with
  | same event hn =>
    rcases hn with hf | hn
    · exact .inl hf
    · exact hkept ((hfails event rfl).trans hn) rfl rfl
  | marked event mark p he => exact hkept ((hfails event rfl).trans (Event.mark_not_fails he)) rfl rfl
  | arrived event mark p he hp =>
    refine hkept ((hfails event rfl).trans (Event.mark_not_fails he)) ?_ rfl
    have hs : m.state = .switching := hm.pending.mp (by rw [hp]; rfl)
    exact if_neg fun ht => hstock ⟨hs, ht⟩
  | restored => exact hkept (hfails .stockRunning rfl) rfl rfl
  | began to_ input hs hf hto hb =>
    refine hkept ?_ rfl rfl
    cases input with
    | event event => exact (hfails event rfl).trans hb.not_fails
    | operatorRetry => exact absurd rfl hne
  | recover event => exact htally event rfl rfl rfl
  | counted event => exact htally event rfl rfl rfl
  | again input reason hf hr =>
    refine hkept ?_ rfl rfl
    rcases hr with ⟨reason', rfl⟩ | ⟨rfl, -⟩ <;> exact hfails _ rfl
  | halted => exact .inl rfl
  | cleared | retried => exact absurd rfl hne

/-- The failure that spends the budget trips the machine, and starts nothing. -/
theorem Holds.trips {n : ℕ} (h : Holds m moment.now n) (hfails : (m.turn moment).fails)
    (hn : m.policy.sessionFailures ≤ n + 1) :
    Tripped (m.turn moment).after ∧ (m.turn moment).StartsOnlyStock := by
  obtain ⟨input, now⟩ := moment
  cases input with
  | operatorRetry => cases hfails
  | event event =>
  change m.fails event = true at hfails
  by_cases hf : m.state = .failed
  · exact Tripped.step (.inr hf) (by simp)
  have hheld : n ≤ (inWindow m now).length := h.resolve_left hf
  have hcount : m.policy.sessionFailures ≤ (m.ledger.record now m.policy.failureWindow).1 := by
    have hlength : ((m.ledger ++ [now]).filter fun seen => now - seen ≤ m.policy.failureWindow).length =
        (inWindow m now).length + 1 := by
      simp [inWindow]
    show _ ≤ min _ _
    rw [hlength]
    exact le_min (hn.trans (Nat.add_le_add_right hheld 1)) m.policy.sessionFailures_le
  have htrips : Machine.isRepeated (m.tally event now).2 := by
    rw [Machine.tally, if_pos hfails]
    dsimp only
    rw [if_pos hcount]
    rfl
  have he := step_effect m ⟨.event event, now⟩
  dsimp only at he
  show Tripped (m.step ⟨.event event, now⟩).2 ∧ ∀ target deadline,
    .startForeground target deadline ∈ (m.step ⟨.event event, now⟩).1 → target = .stock
  generalize (m.step ⟨.event event, now⟩).1 = actions at he ⊢
  generalize (m.step ⟨.event event, now⟩).2 = after at he ⊢
  generalize hinput : Input.event event = input at he
  have hquiet (other : Event) (ho : m.fails other = false) : Input.event event ≠ .event other := by
    intro h
    rw [Input.event.inj h, ho] at hfails
    cases hfails
  cases he with
  | same event' hn =>
    rcases hn with hfailed | hn
    · exact absurd hfailed hf
    · exact absurd hinput (hquiet _ hn)
  | marked event' mark p he | arrived event' mark p he =>
    exact absurd hinput (hquiet _ (Event.mark_not_fails he))
  | restored => exact absurd hinput (hquiet _ rfl)
  | began to_ input hs hf hto hb =>
    subst hinput
    exact absurd rfl (hquiet _ hb.not_fails)
  | recover event' reason extra hs hf hx =>
    obtain rfl := Input.event.inj hinput
    exact ⟨.inl htrips, fun target deadline hm =>
      absurd rfl (quiet_recoveryActions hx _ hm target deadline)⟩
  | counted event' extra hs hx =>
    obtain rfl := Input.event.inj hinput
    exact ⟨.inl htrips, fun target deadline hm => by cases hx _ hm⟩
  | again input reason hf hr | halted input reason hf hr =>
    subst hinput
    rcases hr with ⟨reason', h⟩ | ⟨h, -⟩ <;> exact absurd h (hquiet _ rfl)
  | cleared | retried => cases hinput

/-- Failures that spend the budget trip any machine. -/
theorem holds_run {moments : List Moment} (hm : Shape m) {last : ℕ}
    (h : ∀ turn ∈ m.turns moments, turn.now ≤ last ∧ ¬ turn.ReachesStock ∧
      turn.input ≠ .operatorRetry ∧ (turn.fails → last ≤ turn.now + m.policy.failureWindow)) :
    Holds (m.run moments) last ((m.turns moments).countP (·.fails)) := by
  induction moments using List.reverseRecOn with
  | nil => exact .inr (Nat.zero_le _)
  | append_singleton moments moment ih =>
    rw [Machine.turns_concat] at h ⊢
    rw [Machine.run_concat, List.countP_append, List.countP_singleton]
    obtain ⟨hle, hstock, hne, hin⟩ := h _ (List.mem_append_right _ (List.mem_singleton_self _))
    have hpast := ih fun turn ht => h turn (List.mem_append_left _ ht)
    exact hpast.step (hm.run moments) hne hstock hle (by rw [policy_run]; exact hin)

/-! ## Restores -/

theorem restores_cons (turn : Turn) (turns : List Turn) :
    restores (turn :: turns) = turn.actions.countP (·.isRestore) + restores turns := by
  simp [restores]

theorem countP_captured {reason : StopReason} {extra : List Action}
    (hx : ∀ action ∈ extra, action = .captureDiagnostics reason) :
    extra.countP (·.isRestore) = 0 := by
  rw [List.countP_eq_zero]
  intro action hm
  rw [hx action hm]
  simp [Action.isRestore]

/-- A turn of a recovery goes on with its attempt, ends it, or makes one more. -/
theorem attempt_step (hs : m.state = .recovering) (hm : Shape m) :
    let turn := m.turn moment
    turn.actions.countP (·.isRestore) = 0 ∧
        (turn.after.attempt = m.attempt ∨ turn.after.state ≠ .recovering) ∨
      turn.actions.countP (·.isRestore) = 1 ∧ turn.after.attempt = m.attempt + 1 ∧
        m.attempt < m.policy.restoreAttempts := by
  have he := step_effect m moment
  show (m.step moment).1.countP (·.isRestore) = 0 ∧
      ((m.step moment).2.attempt = m.attempt ∨ (m.step moment).2.state ≠ .recovering) ∨
    (m.step moment).1.countP (·.isRestore) = 1 ∧ (m.step moment).2.attempt = m.attempt + 1 ∧ _
  generalize moment.input = input at he
  generalize (m.step moment).1 = actions at he ⊢
  generalize (m.step moment).2 = after at he ⊢
  cases he with
  | same | marked | cleared => exact .inl ⟨rfl, .inl rfl⟩
  | arrived event mark p he hp =>
    have hpending : m.state = .switching := hm.pending.mp (by rw [hp]; rfl)
    rw [hs] at hpending
    cases hpending
  | restored => exact .inl ⟨rfl, .inr (by simp)⟩
  | began to_ input hn | recover event reason extra hn => exact absurd hs hn
  | counted event extra hs hx => exact .inl ⟨countP_captured hx, .inl rfl⟩
  | again input reason hf hr ha => exact .inr ⟨rfl, rfl, ha⟩
  | halted => exact .inl ⟨rfl, .inr (by simp [Machine.halt])⟩
  | retried hf =>
    rw [hs] at hf
    cases hf

/-- What is left of a recovery makes no more attempts than are left. -/
theorem restores_recovering {moments : List Moment} (hm : Shape m)
    (h : ∀ turn ∈ m.turns moments, turn.before.state = .recovering) :
    restores (m.turns moments) ≤ m.policy.restoreAttempts - m.attempt := by
  induction moments generalizing m with
  | nil => exact Nat.zero_le _
  | cons moment moments ih =>
    obtain ⟨hs, hrest⟩ := List.forall_mem_cons.mp h
    change m.state = .recovering at hs
    have hafter := hm.effect (step_effect m moment)
    have hpolicy : (m.turn moment).after.policy = m.policy := (step_effect m moment).policy
    have hmore := ih hafter hrest
    change restores (Machine.turns _ moments) ≤
      (m.turn moment).after.policy.restoreAttempts - (m.turn moment).after.attempt at hmore
    rw [hpolicy] at hmore
    show restores (m.turn moment :: _) ≤ _
    rw [restores_cons]
    rcases @attempt_step m moment hs hm with ⟨hnone, hattempt | hends⟩ | ⟨hone, hattempt, hlt⟩
    · rw [hattempt] at hmore
      omega
    · cases moments with
      | nil => exact hnone ▸ Nat.zero_le _
      | cons next moments => exact absurd (hrest _ (List.mem_cons_self ..)) hends
    · rw [hattempt] at hmore
      omega

/-- A recovery begins with one attempt. -/
theorem attempt_entered (hs : m.state ≠ .recovering)
    (hafter : (m.turn moment).after.state = .recovering) :
    (m.turn moment).actions.countP (·.isRestore) = 1 ∧ (m.turn moment).after.attempt = 1 := by
  have he := step_effect m moment
  change (m.step moment).2.state = .recovering at hafter
  show (m.step moment).1.countP (·.isRestore) = 1 ∧ (m.step moment).2.attempt = 1
  generalize moment.input = input at he
  generalize (m.step moment).1 = actions at he ⊢
  generalize (m.step moment).2 = after at he hafter ⊢
  cases he with
  | same | marked | counted | again | cleared => exact absurd hafter hs
  | arrived event mark p => exact absurd hafter p.target.arrivedState_ne.2.1
  | restored | began | halted => cases hafter
  | recover event reason extra hn hf hx =>
    refine ⟨?_, rfl⟩
    rw [List.countP_append, countP_captured hx]
    rfl
  | retried => exact ⟨rfl, rfl⟩

end Steps

/-- The budget of failures, once spent, keeps everything but stock from being started until a person
clears it; and a recovery asks for no more restores than the policy has attempts, if it has any. -/
theorem crash_loop_breaker (budget : Budget) (policy : FailurePolicy) (moments : List Moment)
    (hsorted : moments.Pairwise (·.now ≤ ·.now)) :
    (∀ past seg last free rest,
      (Machine.new budget policy).turns moments = past ++ (seg ++ last :: (free ++ rest)) →
      Spends policy seg last → (∀ turn ∈ free, turn.input ≠ .operatorRetry) →
      ∀ turn ∈ last :: free, turn.StartsOnlyStock) ∧
    ∀ past episode rest, (Machine.new budget policy).turns moments = past ++ (episode ++ rest) →
      Episode episode → restores episode ≤ max 1 policy.restoreAttempts := by
  have hshape := shape_new budget policy
  have hpolicy : (Machine.new budget policy).policy = policy := rfl
  generalize Machine.new budget policy = m at hshape hpolicy ⊢
  subst hpolicy
  constructor
  · intro past seg last free rest h hspends hfree
    obtain ⟨before, after, rfl, -, hafterwards⟩ := Machine.turns_eq_append h
    obtain ⟨middle, ⟨input, now⟩, later, rfl, rfl, rfl, hlater⟩ :=
      Machine.turns_eq_append_cons hafterwards
    obtain ⟨kept, others, rfl, rfl, -⟩ := Machine.turns_eq_append hlater
    have hnow : ∀ moment ∈ middle, moment.now ≤ now := by
      have hafter := (List.pairwise_append.mp hsorted).2.1
      intro moment hm
      exact (List.pairwise_append.mp hafter).2.2 moment hm _ (List.mem_cons_self ..)
    have hholds : Holds ((m.run before).run middle) now
        (((m.run before).turns middle).countP (·.fails)) := by
      refine holds_run (hshape.run before) fun turn ht => ?_
      obtain ⟨hstock, hne⟩ := hspends.kept turn ht
      have hinside := hspends.inside turn ht
      obtain ⟨first, moment, second, rfl, rfl⟩ := Machine.mem_turns ht
      refine ⟨hnow moment (by simp), hstock, hne, ?_⟩
      rw [policy_run]
      exact hinside
    have henough := hspends.enough
    rw [List.countP_append, List.countP_singleton, if_pos hspends.fails] at henough
    obtain ⟨htripped, hstarts⟩ := @Holds.trips _ ⟨input, now⟩ _ hholds hspends.fails (by
      rw [policy_run, policy_run]
      exact henough)
    refine List.forall_mem_cons.mpr ⟨hstarts, Tripped.run ?_ hfree⟩
    rw [Machine.run_concat]
    exact htripped
  · rintro past episode rest h ⟨first, others, rfl, hs, hafter, hrest⟩
    obtain ⟨before, moment, after, rfl, -, rfl, hafterwards⟩ := Machine.turns_eq_append_cons h
    obtain ⟨middle, later, rfl, rfl, -⟩ := Machine.turns_eq_append hafterwards
    rw [Machine.run_concat] at hrest ⊢
    change (m.run before).state ≠ .recovering at hs
    obtain ⟨hone, hattempt⟩ := attempt_entered hs hafter
    have hpolicy : ((m.run before).step moment).2.policy = m.policy :=
      (step_effect _ moment).policy.trans (policy_run m before)
    have hmore := restores_recovering ((hshape.run before).effect (step_effect _ moment)) hrest
    change ((m.run before).step moment).2.attempt = 1 at hattempt
    rw [hpolicy, hattempt] at hmore
    rw [restores_cons, hone]
    omega

/-- A failure of Home, where one is enough: it is not started again, and its recovery asks for one
restore. -/
theorem home_stays_down :
    let m := Machine.new .default ⟨1, 1, 120 * second, by decide, by decide⟩
    let before : List Moment := [⟨.event (.switchRequested .home), 0⟩]
    let exit : Moment := ⟨.event (.sessionExited .home .error), 1⟩
    let after : List Moment := [⟨.event .stockRunning, 2⟩, ⟨.event (.switchRequested .home), 3⟩]
    let crash := (m.run before).turn exit
    crash.after.state = .recovering ∧
      (∀ turn ∈ crash :: crash.after.turns after, turn.StartsOnlyStock) ∧ restores [crash] ≤ 1 := by
  intro m before exit after crash
  have h := crash_loop_breaker .default ⟨1, 1, 120 * second, by decide, by decide⟩
    (before ++ exit :: after) (by decide)
  have hturns : m.turns (before ++ exit :: after) =
      m.turns before ++ ([crash] ++ (crash.after.turns after ++ [])) := by
    rw [Machine.turns_append, List.append_nil]
    rfl
  refine ⟨rfl, ?_, ?_⟩
  · refine h.1 _ [] crash _ [] hturns ⟨rfl, by decide, by simp, by simp⟩ ?_
    decide
  · exact h.2 _ [crash] _ hturns ⟨crash, [], rfl, by decide, rfl, by simp⟩

/-- A recovery asks for one restore though the policy has no attempts, and where the policy counts
no failures the first start is honoured before there is one. -/
theorem first_attempt_is_free :
    ¬ (∀ policy : FailurePolicy, ∀ moments past episode rest,
        (Machine.new .default policy).turns moments = past ++ (episode ++ rest) →
        Episode episode → restores episode ≤ policy.restoreAttempts) ∧
      ¬ ∀ policy : FailurePolicy, policy.sessionFailures = 0 → ∀ moments,
        ∀ turn ∈ (Machine.new .default policy).turns moments, turn.StartsOnlyStock := by
  constructor
  · intro h
    have hle := h ⟨0, 3, 0, by decide, by decide⟩ [⟨.event (.switchRequested .home), 0⟩,
      ⟨.event (.sessionExited .home .error), 1⟩] [_] [_] [] rfl ⟨_, [], rfl, by decide, rfl, by simp⟩
    revert hle
    decide
  · intro h
    have hstock := h ⟨1, 0, 0, by decide, by decide⟩ rfl [⟨.event (.switchRequested .home), 0⟩] _
      (List.mem_singleton_self _) .home (8 * second) (by decide)
    cases hstock

end Paperclip.Host
