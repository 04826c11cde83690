import Paperclip.Host.Effects
import Paperclip.Order.Tenure

/-!
# One session at a time

A session is started by an action and ended by one, or by its exit. `OneSession log`: nothing is
started while a session that was started before has not ended.

`Overtakes m input`: the input begins a switch while a session is still on its way. That is the one
way in which two sessions come to be started: `one_session_iff`.
-/

namespace Paperclip.Host

/-- What happens in a turn: something is seen, or something is done. -/
inductive Happening where
  | saw (event : Event)
  | did (action : Action)
  deriving DecidableEq, Repr

namespace Happening

/-- Starts something. -/
def Starts (h : Happening) : Prop := ∃ target deadline, h = did (.startForeground target deadline)

/-- Starts this owner. -/
def StartsOwner (owner : Foreground) (h : Happening) : Prop :=
  ∃ deadline, h = did (.startForeground owner deadline)

/-- Ends the session of this owner, or sees its end. -/
def Ends (owner : Foreground) (h : Happening) : Prop :=
  (∃ reason escalation, h = did (.terminateSession reason escalation)) ∨
    ∃ status, h = saw (.sessionExited owner status)

end Happening

def Input.seen : Input → List Happening
  | .event observed => [.saw observed]
  | .operatorRetry => []

/-- What happens in a turn, in order. -/
def Turn.happenings (turn : Turn) : List Happening := turn.input.seen ++ turn.actions.map .did

/-- What happens in a run, in order. -/
def log (turns : List Turn) : List Happening := turns.flatMap (·.happenings)

/-- The session of this owner was started and has not ended. -/
def Live (owner : Foreground) (log : List Happening) : Prop :=
  Tenure.Open (Happening.StartsOwner owner) (Happening.Ends owner) log

/-- Nothing is started while the session of an owner other than stock is live. -/
def OneSession (log : List Happening) : Prop :=
  ∀ owner ≠ Foreground.stock,
    Tenure.Exclusive (Happening.StartsOwner owner) (Happening.Ends owner) Happening.Starts log

/-- The input begins a switch while a session is still on its way. -/
def Overtakes (m : Machine) (input : Input) : Prop :=
  ∃ p, m.pending = some p ∧ p.target ≠ .stock ∧
    ((∃ to_, input = .event (.switchRequested to_) ∧ (to_ = .stock ∨ m.mayRelaunch)) ∨
      ∃ owner status, input = .event (.sessionExited owner status) ∧ status.isFailure = false ∧
        m.foreground = owner ∧ owner ≠ .stock ∧ owner ≠ p.target)

section Log

variable {owner to_ : Foreground} {past : List Happening} {actions : List Action} {input : Input}

theorem log_concat (turns : List Turn) (turn : Turn) :
    log (turns ++ [turn]) = log turns ++ turn.happenings := by
  simp [log]

theorem not_starts_of_quiet (hq : Quiet actions) :
    ∀ h ∈ input.seen ++ actions.map .did, ¬ h.Starts := by
  rintro h hm ⟨target, deadline, rfl⟩
  rcases List.mem_append.mp hm with hm | hm
  · cases input <;> simp [Input.seen] at hm
  · obtain ⟨action, ha, h⟩ := List.mem_map.mp hm
    exact hq action ha target deadline (Happening.did.inj h)

theorem Happening.StartsOwner.starts {h : Happening} (hs : h.StartsOwner owner) : h.Starts :=
  ⟨owner, hs⟩

/-- A turn without starts leaves a log as exclusive as it was. -/
theorem oneSession_quiet (hq : Quiet actions) :
    OneSession (past ++ (input.seen ++ actions.map .did)) ↔ OneSession past :=
  forall₂_congr fun _ _ => Tenure.exclusive_append_quiet (not_starts_of_quiet hq)

/-- What is live after a turn without starts was live, and nothing of the turn ended it. -/
theorem live_quiet (hq : Quiet actions) :
    Live owner (past ++ (input.seen ++ actions.map .did)) ↔
      Live owner past ∧ ∀ h ∈ input.seen ++ actions.map .did, ¬ h.Ends owner :=
  Tenure.open_append_quiet fun h hm hs => not_starts_of_quiet hq h hm hs.starts

theorem not_live_of_terminate (hq : Quiet actions) {reason : StopReason} {escalation : Escalation}
    (hm : .terminateSession reason escalation ∈ actions) :
    ¬ Live owner (past ++ (input.seen ++ actions.map .did)) := by
  rw [live_quiet hq]
  rintro ⟨-, hends⟩
  exact hends (.did (.terminateSession reason escalation))
    (List.mem_append_right _ (List.mem_map_of_mem hm)) (.inl ⟨_, _, rfl⟩)

end Log

/-! ## The owner of what is live -/

/-- The machine knows of the session of this owner, or has given up. -/
def Owned (owner : Foreground) (m : Machine) : Prop :=
  (∃ p, m.pending = some p ∧ p.target = owner) ∨
    m.state.ownsDisplay ∧ m.foreground = owner ∨ m.state = .failed

/-- What precedes the start in the actions that begin a switch. -/
def Machine.clearance (m : Machine) (to_ : Foreground) : List Action :=
  (if m.state.ownsDisplay then [.terminateSession .switching m.budget.escalation] else []) ++
    if to_ = .stock then [.releaseDisplay] else []

section Steps

variable {m m' : Machine} {now : ℕ} {input : Input} {actions : List Action} {owner to_ : Foreground}
  {past : List Happening}

theorem quiet_clearance : Quiet (m.clearance to_) := by
  intro action hm target deadline
  unfold Machine.clearance at hm
  rintro rfl
  rcases List.mem_append.mp hm with hm | hm <;> split at hm <;> simp at hm

/-- No session is ended for one that overtakes it. -/
theorem clearance_of_switching (hs : m.state = .switching) :
    m.clearance to_ = if to_ = .stock then [.releaseDisplay] else [] := by
  simp [Machine.clearance, hs, SessionState.ownsDisplay]

theorem happenings_switchActions : input.seen ++ (m.switchActions to_ now).map .did =
    (input.seen ++ (m.clearance to_).map .did) ++
      [.did (.startForeground to_ (now + m.budget.switch))] := by
  simp [Machine.switchActions, Machine.clearance]

/-- A started session is live. -/
theorem live_switchActions : Live owner (past ++ (input.seen ++ (m.switchActions to_ now).map .did)) ↔
    owner = to_ ∨ Live owner (past ++ (input.seen ++ (m.clearance to_).map .did)) := by
  unfold Live
  rw [happenings_switchActions, ← List.append_assoc, Tenure.open_concat]
  simp [Happening.StartsOwner, Happening.Ends, eq_comm]

/-- To begin a switch takes that nothing is live. -/
theorem oneSession_switchActions :
    OneSession (past ++ (input.seen ++ (m.switchActions to_ now).map .did)) ↔ OneSession past ∧
      ∀ owner ≠ .stock, ¬ Live owner (past ++ (input.seen ++ (m.clearance to_).map .did)) := by
  unfold OneSession
  rw [← forall₂_and]
  refine forall₂_congr fun owner _ => ?_
  rw [happenings_switchActions, ← List.append_assoc, Tenure.exclusive_concat,
    Tenure.exclusive_append_quiet (not_starts_of_quiet quiet_clearance)]
  exact and_congr_right fun _ => ⟨fun h => h ⟨_, _, rfl⟩, fun h _ => h⟩

/-- A machine does not keep waiting for a session that it saw end. -/
theorem exit_moves {p : Pending} (hm : Shape m) (hp : m.pending = some p) (ht : p.target ≠ .stock)
    (status : ExitKind) : (m.step ⟨.event (.sessionExited p.target status), now⟩).2 ≠ m := by
  have hs : m.state = .switching := hm.pending.mp (by rw [hp]; rfl)
  have hours : m.ours p.target := by simp [Machine.ours, hp]
  show (m.handle (.sessionExited p.target status) now).2 ≠ m
  intro h
  simp only [Machine.handle, hs, reduceCtorEq, if_false] at h
  unfold Machine.sessionExited at h
  rw [if_neg (by simp [hours, ht])] at h
  split at h
  · unfold Machine.beginSwitch at h
    simp only [hs, hp, reduceCtorEq, ne_eq, not_true, false_and, and_false, if_false] at h
    have htarget := congrArg (·.pending) h
    rw [hp] at htarget
    exact ht (congrArg Pending.target (Option.some.inj htarget)).symm
  · unfold Machine.enterRecovery at h
    simp only [hs, reduceCtorEq, if_false] at h
    split at h
    · have hstate := congrArg (·.state) h
      rw [hs] at hstate
      cases hstate
    · have hstate := congrArg (·.state) h
      rw [hs] at hstate
      cases hstate

/-- A recovery ends every session. -/
theorem not_live_recoveryActions {reason : StopReason} {extra : List Action}
    (hx : ∀ action ∈ extra, action = .captureDiagnostics reason) :
    ¬ Live owner (past ++ (input.seen ++ (m.recoveryActions reason now ++ extra).map .did)) :=
  have hm : .terminateSession reason m.budget.escalation ∈
      m.recoveryActions reason now ++ extra := by simp [Machine.recoveryActions]
  not_live_of_terminate (quiet_recoveryActions hx) hm

/-- A session that a switch waits for is live. -/
def Awaited (past : List Happening) (m : Machine) : Prop :=
  ∀ p, m.pending = some p → p.target ≠ .stock → Live p.target past

theorem awaited_of_none (h : m.pending = none) : Awaited past m := by
  intro p hp
  rw [h] at hp
  cases hp

theorem Awaited.step (h : Awaited past m) (hm : Shape m) (moment : Moment) :
    Awaited (past ++ (m.turn moment).happenings) (m.turn moment).after := by
  obtain ⟨input, now⟩ := moment
  have he := step_effect m ⟨input, now⟩
  have hexit := fun p hp ht status => @exit_moves m now p hm hp ht status
  show Awaited (past ++ (input.seen ++ (m.step ⟨input, now⟩).1.map .did)) (m.step ⟨input, now⟩).2
  dsimp only at he
  generalize hafter : (m.step ⟨input, now⟩).2 = after at he
  generalize (m.step ⟨input, now⟩).1 = actions at he
  cases he with
  | same event =>
    intro p hp ht
    refine (live_quiet quiet_nil).mpr ⟨h p hp ht, ?_⟩
    rintro happening hh (⟨reason, escalation, rfl⟩ | ⟨status, rfl⟩)
    · simp [Input.seen] at hh
    · obtain rfl : .sessionExited p.target status = event := by simpa [Input.seen] using hh
      exact hexit p hp ht status hafter
  | marked event mark p he hp ha =>
    intro p' hp' ht
    obtain rfl := Option.some.inj hp'
    rw [Event.mark_target he] at ht ⊢
    refine (live_quiet quiet_nil).mpr ⟨h p hp ht, ?_⟩
    rintro happening hh (⟨reason, escalation, rfl⟩ | ⟨status, rfl⟩)
    · simp [Input.seen] at hh
    · obtain rfl : .sessionExited p.target status = event := by simpa [Input.seen] using hh
      cases he
  | arrived | restored | recover | halted | retried => exact awaited_of_none rfl
  | began =>
    intro p hp _
    obtain rfl := Option.some.inj hp
    exact live_switchActions.mpr (.inl rfl)
  | counted event extra hs =>
    intro p hp
    have hpending : m.state = .switching := hm.pending.mp (hp ▸ rfl)
    rw [hs] at hpending
    cases hpending
  | again input reason hf hr =>
    intro p hp ht
    refine (live_quiet (by simp [Quiet])).mpr ⟨h p hp ht, ?_⟩
    rintro happening hh (⟨reason, escalation, rfl⟩ | ⟨status, rfl⟩)
    · rcases hr with ⟨reason', rfl⟩ | ⟨rfl, -⟩ <;> simp [Input.seen] at hh
    · rcases hr with ⟨reason', rfl⟩ | ⟨rfl, -⟩ <;> simp [Input.seen] at hh
  | cleared =>
    intro p hp ht
    exact (live_quiet quiet_nil).mpr ⟨h p hp ht, by simp [Input.seen]⟩

/-- What is live is the machine's own. -/
def Accounted (past : List Happening) (m : Machine) : Prop :=
  ∀ owner ≠ .stock, Live owner past → Owned owner m

/-- A switch that overtakes nothing begins when nothing is live. -/
theorem not_live_clearance (h : Accounted past m) (hf : m.state ≠ .failed)
    (hto : to_ = .stock ∨ m.mayRelaunch) (hb : Begins m to_ input) (ho : ¬ Overtakes m input)
    (hne : owner ≠ .stock) : ¬ Live owner (past ++ (input.seen ++ (m.clearance to_).map .did)) := by
  rw [live_quiet quiet_clearance]
  rintro ⟨hlive, hends⟩
  rcases h owner hne hlive with ⟨p, hp, rfl⟩ | ⟨hd, -⟩ | hfailed
  · rcases hb with rfl | ⟨-, other, status, rfl, hours, hother, hclean⟩
    · exact ho ⟨p, hp, hne, .inl ⟨to_, rfl, hto⟩⟩
    · by_cases htarget : other = p.target
      · exact hends (.saw (.sessionExited other status)) (by simp [Input.seen])
          (.inr ⟨status, by rw [htarget]⟩)
      · have hforeground : m.foreground = other := by
          simpa [Machine.ours, hp, Ne.symm htarget] using hours
        exact ho ⟨p, hp, hne, .inr ⟨other, status, rfl, hclean, hforeground, hother, htarget⟩⟩
  · exact hends (.did (.terminateSession .switching m.budget.escalation))
      (by simp [Machine.clearance, hd]) (.inl ⟨_, _, rfl⟩)
  · exact hf hfailed

theorem Owned.quiet (h : Accounted past m) (hq : Quiet actions)
    (ho : ∀ owner ≠ .stock, Owned owner m → Owned owner m') :
    Accounted (past ++ (input.seen ++ actions.map .did)) m' :=
  fun owner hne hl => ho owner hne (h owner hne ((live_quiet hq).mp hl).1)

theorem Accounted.step (h : Accounted past m) (hm : Shape m) (moment : Moment)
    (ho : ¬ Overtakes m moment.input) :
    Accounted (past ++ (m.turn moment).happenings) (m.turn moment).after := by
  obtain ⟨input, now⟩ := moment
  have he := step_effect m ⟨input, now⟩
  show Accounted (past ++ (input.seen ++ (m.step ⟨input, now⟩).1.map .did)) (m.step ⟨input, now⟩).2
  dsimp only at he ho
  generalize (m.step ⟨input, now⟩).2 = after at he
  generalize (m.step ⟨input, now⟩).1 = actions at he
  cases he with
  | same | cleared => exact .quiet h quiet_nil fun _ _ => id
  | marked event mark p he hp =>
    refine .quiet h quiet_nil fun owner _ => ?_
    rintro (⟨p', hp', ht⟩ | hd | hf)
    · obtain rfl := Option.some.inj (hp.symm.trans hp')
      exact .inl ⟨mark p, rfl, by rw [Event.mark_target he, ht]⟩
    · exact .inr (.inl hd)
    · exact .inr (.inr hf)
  | arrived event mark p he hp =>
    have hs : m.state = .switching := hm.pending.mp (by rw [hp]; rfl)
    refine .quiet h quiet_nil fun owner hne => ?_
    rintro (⟨p', hp', rfl⟩ | ⟨hd, -⟩ | hf)
    · obtain rfl := Option.some.inj (hp.symm.trans hp')
      refine .inr (.inl ⟨?_, rfl⟩)
      show p.target.arrivedState.ownsDisplay = true
      cases ht : p.target with
      | stock => exact absurd ht hne
      | home => rfl
      | app id => rfl
    · rw [hs] at hd
      cases hd
    · rw [hs] at hf
      cases hf
  | restored hs =>
    refine .quiet h quiet_nil fun owner _ => ?_
    rintro (⟨p, hp, -⟩ | ⟨hd, -⟩ | hf)
    · have := hm.pending.mp (by rw [hp]; rfl)
      rw [hs] at this
      cases this
    · rw [hs] at hd
      cases hd
    · rw [hs] at hf
      cases hf
  | began to_ input hs hf hto hb =>
    intro owner hne hl
    rcases live_switchActions.mp hl with rfl | hl
    · exact .inl ⟨_, rfl, rfl⟩
    · exact absurd hl (not_live_clearance h hf hto hb ho hne)
  | recover event reason extra hs hf hx =>
    exact fun owner _ hl => absurd hl (not_live_recoveryActions hx)
  | counted event extra hs hx =>
    exact .quiet h (quiet_captured hx) fun _ _ => id
  | again => exact .quiet h (by simp [Quiet]) fun _ _ => id
  | halted => exact .quiet h (by simp [Quiet, Machine.halt]) fun _ _ _ => .inr (.inr rfl)
  | retried =>
    intro owner _ hl
    rw [← List.append_nil (m.recoveryActions .crashed now)] at hl
    exact absurd hl (not_live_recoveryActions (by simp))

/-- An input that overtakes begins a switch, and ends nothing. -/
theorem Overtakes.begins (h : Overtakes m input) (hm : Shape m) : ∃ p to_,
    m.pending = some p ∧ p.target ≠ .stock ∧ (∀ h ∈ input.seen, ¬ h.Ends p.target) ∧
      m.step ⟨input, now⟩ = (m.switchActions to_ now, m.switching to_ now) := by
  obtain ⟨p, hp, ht, hb⟩ := h
  have hs : m.state = .switching := hm.pending.mp (by rw [hp]; rfl)
  have hbegin (to_ : Foreground) (hto : to_ = .stock ∨ m.mayRelaunch) :
      m.beginSwitch to_ now = (m.switchActions to_ now, m.switching to_ now) := by
    unfold Machine.beginSwitch
    rw [if_neg (by simp [hs]), if_neg, if_neg (by simp [hp])]
    · rfl
    · rintro ⟨hne, hrelaunch⟩
      rcases hto with rfl | hto
      · exact hne rfl
      · rw [hrelaunch] at hto
        cases hto
  rcases hb with ⟨to_, rfl, hto⟩ | ⟨owner, status, rfl, hclean, hforeground, hstock, htarget⟩
  · refine ⟨p, to_, hp, ht, by simp [Input.seen, Happening.Ends], ?_⟩
    show m.handle (.switchRequested to_) now = _
    simp only [Machine.handle, hs, reduceCtorEq, if_false]
    exact hbegin to_ hto
  · refine ⟨p, .stock, hp, ht, by simp [Input.seen, Happening.Ends, htarget], ?_⟩
    show m.handle (.sessionExited owner status) now = _
    simp only [Machine.handle, hs, reduceCtorEq, if_false]
    unfold Machine.sessionExited
    rw [if_neg (by simp [Machine.ours, hforeground, hstock]), if_pos hclean]
    exact hbegin .stock (.inl rfl)

/-- A turn leaves one session if and only if it overtakes nothing. -/
theorem oneSession_turn (h : Accounted past m) (ha : Awaited past m) (hm : Shape m)
    (hone : OneSession past) (moment : Moment) :
    OneSession (past ++ (m.turn moment).happenings) ↔ ¬ Overtakes m moment.input := by
  obtain ⟨input, now⟩ := moment
  show OneSession (past ++ (input.seen ++ (m.step ⟨input, now⟩).1.map .did)) ↔ ¬ Overtakes m input
  constructor
  · intro hnext hover
    obtain ⟨p, to_, hp, ht, hends, hstep⟩ := @Overtakes.begins m now input hover hm
    have hs : m.state = .switching := hm.pending.mp (by rw [hp]; rfl)
    rw [hstep, oneSession_switchActions] at hnext
    refine hnext.2 p.target ht ((live_quiet quiet_clearance).mpr ⟨ha p hp ht, ?_⟩)
    rintro happening hh hend
    rcases List.mem_append.mp hh with hh | hh
    · exact hends happening hh hend
    · rw [clearance_of_switching hs] at hh
      split at hh
      · obtain rfl : happening = .did .releaseDisplay := by simpa using hh
        simp [Happening.Ends] at hend
      · cases hh
  · intro hover
    have he := step_effect m ⟨input, now⟩
    dsimp only at he
    generalize (m.step ⟨input, now⟩).2 = after at he
    generalize (m.step ⟨input, now⟩).1 = actions at he ⊢
    cases he with
    | began to_ input hs hf hto hb =>
      refine oneSession_switchActions.mpr ⟨hone, fun owner hne => ?_⟩
      exact not_live_clearance h hf hto hb hover hne
    | same | marked | arrived | restored | cleared => exact (oneSession_quiet quiet_nil).mpr hone
    | recover event reason extra hs hf hx =>
      exact (oneSession_quiet (quiet_recoveryActions hx)).mpr hone
    | counted event extra hs hx =>
      exact (oneSession_quiet (quiet_captured hx)).mpr hone
    | again => exact (oneSession_quiet (by simp [Quiet])).mpr hone
    | halted => exact (oneSession_quiet (by simp [Quiet, Machine.halt])).mpr hone
    | retried => exact (oneSession_quiet (by simp [Quiet, Machine.recoveryActions])).mpr hone

end Steps

/-! ## Runs -/

section Runs

variable {budget : Budget} {policy : FailurePolicy}

/-- Nothing has happened to a new machine. -/
theorem accounted_new : Accounted (log ((Machine.new budget policy).turns [])) (.new budget policy) :=
  fun _ _ hl => absurd hl Tenure.not_open_nil

/-- A run that overtakes nothing keeps its sessions apart, and knows them all. -/
theorem accounted_run (moments : List Moment)
    (h : ∀ turn ∈ (Machine.new budget policy).turns moments, ¬ Overtakes turn.before turn.input) :
    Accounted (log ((Machine.new budget policy).turns moments)) ((Machine.new budget policy).run moments) := by
  induction moments using List.reverseRecOn with
  | nil => exact accounted_new
  | append_singleton moments moment ih =>
    rw [Machine.turns_concat] at h ⊢
    rw [Machine.run_concat, log_concat]
    have hpast := ih fun turn ht => h turn (List.mem_append_left _ ht)
    exact hpast.step ((shape_new budget policy).run moments) moment
      (h _ (List.mem_append_right _ (List.mem_singleton_self _)))

theorem awaited_run (moments : List Moment) :
    Awaited (log ((Machine.new budget policy).turns moments))
      ((Machine.new budget policy).run moments) := by
  induction moments using List.reverseRecOn with
  | nil => exact awaited_of_none rfl
  | append_singleton moments moment ih =>
    rw [Machine.turns_concat, Machine.run_concat, log_concat]
    exact ih.step ((shape_new budget policy).run moments) moment

end Runs

/-- A run keeps one session at a time if and only if no switch of it overtakes a session that is
still on its way. -/
theorem one_session_iff (budget : Budget) (policy : FailurePolicy) (moments : List Moment) :
    OneSession (log ((Machine.new budget policy).turns moments)) ↔
      ∀ turn ∈ (Machine.new budget policy).turns moments, ¬ Overtakes turn.before turn.input := by
  induction moments using List.reverseRecOn with
  | nil => exact ⟨fun _ _ h => (by cases h), fun _ _ _ => Tenure.exclusive_nil⟩
  | append_singleton moments moment ih =>
    rw [Machine.turns_concat, log_concat, List.forall_mem_append, List.forall_mem_singleton, ← ih]
    have hshape := (shape_new budget policy).run moments
    constructor
    · intro h
      have hpast : OneSession (log ((Machine.new budget policy).turns moments)) :=
        fun owner hne => (h owner hne).of_append
      exact ⟨hpast, (oneSession_turn (accounted_run moments (ih.mp hpast)) (awaited_run moments)
        hshape hpast moment).mp h⟩
    · rintro ⟨hpast, hover⟩
      exact (oneSession_turn (accounted_run moments (ih.mp hpast)) (awaited_run moments)
        hshape hpast moment).mpr hover

/-- Home is asked for, and an app before Home has arrived: both are started. -/
theorem home_is_overtaken : ¬ OneSession (log ((Machine.new .default .default).turns
    [⟨.event (.switchRequested .home), 0⟩,
      ⟨.event (.switchRequested (.app ⟨"co.example.checklist"⟩)), 1⟩])) := by
  intro h
  refine h .home (by decide) [_, _, _] _ [] rfl ⟨_, _, rfl⟩ ⟨[_], _, [_], rfl, ⟨_, rfl⟩, ?_⟩
  simp [Happening.Ends]

end Paperclip.Host
