import Paperclip.Host.Effects

/-!
# What makes a foreground

The confirmed foreground moves when a switch arrives, or when stock is seen during a recovery. A
switch arrives on what was observed since it began.

* `Switch turns target start since`: the switch that is on at the end of the turns, if one is.
* `Noted since p`: every mark on a pending switch was observed in one of the turns `since`.
-/

namespace Paperclip.Host

/-- The turn starts this owner. -/
def Turn.Starts (turn : Turn) (target : Foreground) : Prop :=
  ∃ deadline, Action.startForeground target deadline ∈ turn.actions

/-- The turn is about this observation. -/
def Turn.Saw (turn : Turn) (event : Event) : Prop := turn.input = .event event

/-- The turn makes this owner the confirmed foreground, or confirms it again. -/
def Turn.Confirms (turn : Turn) (owner : Foreground) : Prop :=
  turn.after.foreground = owner ∧ (turn.before.foreground ≠ owner ∨
    turn.before.state ≠ owner.arrivedState ∧ turn.after.state = owner.arrivedState)

/-- The last switch that the turns began is the one of `start`, to `target`. -/
def Switch (turns : List Turn) (target : Foreground) (start : Turn) (since : List Turn) : Prop :=
  (∃ before, turns = before ++ start :: since) ∧ start.Starts target ∧
    ∀ turn ∈ since, ∀ other, ¬ turn.Starts other

/-- What must have been observed for an owner to arrive. -/
def Arrived (since : List Turn) : Foreground → Prop
  | .stock => (∃ turn ∈ since, turn.Saw .stockRunning) ∧ ∃ turn ∈ since, turn.Saw .displayReleased
  | owner => (∃ turn ∈ since, turn.Saw (.processReady owner)) ∧
      ∃ turn ∈ since, turn.Saw (.displayOwned owner)

/-- Every mark on the pending switch was observed. -/
structure Noted (since : List Turn) (p : Pending) : Prop where
  processReady : p.processReady → ∃ turn ∈ since, turn.Saw (.processReady p.target)
  displayOwned : p.displayOwned → ∃ turn ∈ since, turn.Saw (.displayOwned p.target)
  stockRunning : p.stockRunning → ∃ turn ∈ since, turn.Saw .stockRunning
  displayReleased : p.displayReleased → ∃ turn ∈ since, turn.Saw .displayReleased

section Marks

variable {since : List Turn} {p : Pending} {turn : Turn}

theorem noted_new (since : List Turn) (target : Foreground) (deadline : ℕ) :
    Noted since (.new target deadline) := by
  constructor <;> intro h <;> simp [Pending.new] at h

theorem exists_saw_concat {event : Event} (h : ∃ t ∈ since, t.Saw event) :
    ∃ t ∈ since ++ [turn], t.Saw event := by
  obtain ⟨t, ht, hsaw⟩ := h
  exact ⟨t, List.mem_append_left _ ht, hsaw⟩

theorem Noted.concat (h : Noted since p) (turn : Turn) : Noted (since ++ [turn]) p where
  processReady hp := exists_saw_concat (h.processReady hp)
  displayOwned hp := exists_saw_concat (h.displayOwned hp)
  stockRunning hp := exists_saw_concat (h.stockRunning hp)
  displayReleased hp := exists_saw_concat (h.displayReleased hp)

/-- A mark is noted by the turn that saw the observation. -/
theorem Noted.mark (h : Noted since p) {event : Event} {mark : Pending → Pending}
    (he : event.mark = some mark) (hs : turn.Saw event) : Noted (since ++ [turn]) (mark p) := by
  have hold := h.concat turn
  have hnow : ∃ t ∈ since ++ [turn], t.Saw event := ⟨turn, by simp, hs⟩
  cases event <;> simp only [Event.mark, reduceCtorEq, Option.some.injEq] at he <;> subst he
  case processReady owner =>
    dsimp only
    split
    · next ht => exact { hold with processReady := fun _ => ht ▸ hnow }
    · exact hold
  case displayOwned owner =>
    dsimp only
    split
    · next ht => exact { hold with displayOwned := fun _ => ht ▸ hnow }
    · exact hold
  case displayReleased => exact { hold with displayReleased := fun _ => hnow }
  case stockRunning => exact { hold with stockRunning := fun _ => hnow }

/-- A switch arrives when everything it promised was observed. -/
theorem Noted.arrived (h : Noted since p) (ha : p.arrived) : Arrived since p.target := by
  unfold Pending.arrived at ha
  unfold Arrived
  cases ht : p.target <;> simp only [ht, Bool.and_eq_true] at ha ⊢
  case stock => exact ⟨h.stockRunning ha.1, h.displayReleased ha.2⟩
  all_goals exact ⟨ht ▸ h.processReady ha.1, ht ▸ h.displayOwned ha.2⟩

theorem Switch.concat {turns : List Turn} {target : Foreground} {start : Turn}
    (h : Switch turns target start since) (hn : ∀ other, ¬ turn.Starts other) :
    Switch (turns ++ [turn]) target start (since ++ [turn]) := by
  obtain ⟨⟨before, rfl⟩, hstart, hsince⟩ := h
  refine ⟨⟨before, by simp⟩, hstart, fun t ht => ?_⟩
  rcases List.mem_append.mp ht with ht | ht
  · exact hsince t ht
  · rw [List.mem_singleton.mp ht]
    exact hn

theorem switch_began {turns : List Turn} {target : Foreground} (h : turn.Starts target) :
    Switch (turns ++ [turn]) target turn [] :=
  ⟨⟨turns, rfl⟩, h, by simp⟩

end Marks

/-- The pending switch is the last one that the turns began, and what is marked was observed since. -/
def Grounded (turns : List Turn) (m : Machine) : Prop :=
  ∀ p, m.pending = some p → ∃ start since, Switch turns p.target start since ∧ Noted since p

section Steps

variable {turns : List Turn} {m : Machine} {moment : Moment}

theorem starts_switchActions {to_ : Foreground} {now : ℕ} :
    Action.startForeground to_ (now + m.budget.switch) ∈ m.switchActions to_ now := by
  simp [Machine.switchActions]

theorem Grounded.of_pending (h : Grounded turns m) (hp : (m.turn moment).after.pending = m.pending)
    (hn : ∀ other, ¬ (m.turn moment).Starts other) :
    Grounded (turns ++ [m.turn moment]) (m.turn moment).after := by
  intro p hpending
  obtain ⟨start, since, hswitch, hnoted⟩ := h p (hp ▸ hpending)
  exact ⟨start, since ++ [_], hswitch.concat hn, hnoted.concat _⟩

theorem grounded_of_none {turns : List Turn} {m : Machine} (h : m.pending = none) :
    Grounded turns m := by
  intro p hp
  rw [h] at hp
  cases hp

theorem Grounded.step (h : Grounded turns m) :
    Grounded (turns ++ [m.turn moment]) (m.turn moment).after := by
  have he := step_effect m moment
  obtain ⟨input, now⟩ := moment
  dsimp only at he
  generalize hturn : m.turn ⟨input, now⟩ = turn
  have hactions : (m.step ⟨input, now⟩).1 = turn.actions := by rw [← hturn]; rfl
  have hafter : (m.step ⟨input, now⟩).2 = turn.after := by rw [← hturn]; rfl
  have hinput : turn.input = input := by rw [← hturn]; rfl
  have hquiet : turn.after.pending = m.pending → Quiet turn.actions →
      Grounded (turns ++ [turn]) turn.after := by
    intro hp hn
    have hstarts : ∀ other, ¬ turn.Starts other := by
      rintro other ⟨deadline, hm⟩
      exact hn _ hm other deadline rfl
    rw [← hturn] at hp hstarts ⊢
    exact h.of_pending hp hstarts
  rw [hactions, hafter] at he
  generalize turn.actions = actions at he hquiet hactions
  generalize turn.after = after at he hquiet hafter ⊢
  cases he with
  | same => exact hquiet rfl quiet_nil
  | marked event mark p he hp ha =>
    intro p' hp'
    obtain rfl := Option.some.inj hp'
    obtain ⟨start, since, hswitch, hnoted⟩ := h p hp
    refine ⟨start, since ++ [turn], ?_, hnoted.mark he hinput⟩
    rw [Event.mark_target he]
    refine hswitch.concat ?_
    rintro other ⟨deadline, hm⟩
    rw [← hturn] at hm
    rw [show (m.turn ⟨.event event, now⟩).actions = [] from hactions] at hm
    cases hm
  | arrived => exact grounded_of_none rfl
  | restored => exact grounded_of_none rfl
  | began to_ _ hs hf hto hb =>
    intro p hp
    obtain rfl := Option.some.inj hp
    refine ⟨turn, [], switch_began ⟨now + m.budget.switch, ?_⟩, noted_new _ _ _⟩
    rw [← hturn]
    show _ ∈ (m.step ⟨input, now⟩).1
    rw [hactions]
    exact starts_switchActions
  | recover => exact grounded_of_none rfl
  | counted event extra hs hx => exact hquiet rfl (quiet_captured hx)
  | again => exact hquiet rfl (by simp [Quiet])
  | halted => exact grounded_of_none rfl
  | cleared => exact hquiet rfl quiet_nil
  | retried => exact grounded_of_none rfl

theorem grounded_run (m : Machine) (hm : m.pending = none) (moments : List Moment) :
    Grounded (m.turns moments) (m.run moments) := by
  induction moments using List.reverseRecOn with
  | nil => exact grounded_of_none hm
  | append_singleton moments moment ih =>
    rw [Machine.turns_concat, Machine.run_concat]
    exact ih.step

end Steps

/-- What confirms a foreground is the mark that completes its switch, or stock seen during a
recovery. -/
theorem Turn.Confirms.cases {m : Machine} {moment : Moment} {owner : Foreground}
    (hc : (m.turn moment).Confirms owner) :
    ((m.turn moment).before.state = .recovering ∧ (m.turn moment).Saw .stockRunning ∧
        owner = .stock) ∨
      ∃ event mark p, (m.turn moment).Saw event ∧ event.mark = some mark ∧ m.pending = some p ∧
        (mark p).arrived ∧ (∀ other, ¬ (m.turn moment).Starts other) ∧ p.target = owner := by
  have he := step_effect m moment
  obtain ⟨input, now⟩ := moment
  obtain ⟨howner, hmoved⟩ := hc
  change (m.step ⟨input, now⟩).2.foreground = owner at howner
  change m.foreground ≠ owner ∨ m.state ≠ owner.arrivedState ∧
    (m.step ⟨input, now⟩).2.state = owner.arrivedState at hmoved
  dsimp only at he
  generalize hactions : (m.step ⟨input, now⟩).1 = actions at he
  generalize (m.step ⟨input, now⟩).2 = after at he howner hmoved
  obtain ⟨hswitching, hrecovering, hfailed⟩ := owner.arrivedState_ne
  have hstays (hf : after.foreground = m.foreground)
      (hs : after.state = m.state ∨ after.state ≠ owner.arrivedState) : False := by
    rcases hmoved with hne | ⟨hne, heq⟩
    · exact hne (hf ▸ howner)
    · rcases hs with hs | hs
      · exact hne (hs ▸ heq)
      · exact hs heq
  cases he with
  | arrived event mark p he hp ha =>
    refine .inr ⟨event, mark, p, rfl, he, hp, ha, ?_, howner⟩
    rintro other ⟨deadline, hm⟩
    rw [show (m.turn ⟨.event event, now⟩).actions = [] from hactions] at hm
    cases hm
  | restored hs => exact .inl ⟨hs, rfl, howner.symm⟩
  | same | marked | counted | again | cleared => exact (hstays rfl (.inl rfl)).elim
  | began => exact (hstays rfl (.inr hswitching.symm)).elim
  | recover | retried => exact (hstays rfl (.inr hrecovering.symm)).elim
  | halted => exact (hstays rfl (.inr hfailed.symm)).elim

/-- What confirms a foreground was seen: either all that its switch promised, since that switch
began, or stock during a recovery. -/
theorem foreground_was_seen (budget : Budget) (policy : FailurePolicy) (moments : List Moment)
    (past : List Turn) (turn : Turn) (future : List Turn)
    (h : (Machine.new budget policy).turns moments = past ++ turn :: future) (owner : Foreground)
    (hc : turn.Confirms owner) :
    (turn.before.state = .recovering ∧ turn.Saw .stockRunning ∧ owner = .stock) ∨
      ∃ start since, Switch (past ++ [turn]) owner start since ∧ Arrived since owner := by
  obtain ⟨before, ⟨input, now⟩, after, rfl, rfl, rfl, -⟩ := Machine.turns_eq_append_cons h
  have hgrounded := grounded_run (.new budget policy) rfl before
  generalize (Machine.new budget policy).run before = m at hgrounded hc ⊢
  generalize (Machine.new budget policy).turns before = past at hgrounded ⊢
  rcases hc.cases with hr | ⟨event, mark, p, hsaw, he, hp, ha, hq, rfl⟩
  · exact .inl hr
  · obtain ⟨start, since, hswitch, hnoted⟩ := hgrounded p hp
    refine .inr ⟨start, _, hswitch.concat hq, ?_⟩
    have hmarked := hnoted.mark he hsaw
    rw [← Event.mark_target he]
    exact hmarked.arrived ha

/-- Home is confirmed by the turn that saw it own the display. -/
theorem home_was_seen :
    let moments : List Moment := [⟨.event (.switchRequested .home), 0⟩,
      ⟨.event (.processReady .home), 1⟩, ⟨.event (.displayOwned .home), 2⟩]
    let turns := (Machine.new .default .default).turns moments
    ∃ past turn, turns = past ++ [turn] ∧ turn.Confirms .home ∧
      ((turn.before.state = .recovering ∧ turn.Saw .stockRunning ∧ Foreground.home = .stock) ∨
        ∃ start since, Switch (past ++ [turn]) .home start since ∧ Arrived since .home) :=
  let moments : List Moment := [⟨.event (.switchRequested .home), 0⟩,
    ⟨.event (.processReady .home), 1⟩, ⟨.event (.displayOwned .home), 2⟩]
  ⟨_, _, rfl, ⟨rfl, .inl (by decide)⟩,
    foreground_was_seen .default .default moments [_, _] _ [] rfl .home ⟨rfl, .inl (by decide)⟩⟩

end Paperclip.Host
