import Paperclip.Host.Process
import Paperclip.Host.Supervisor

/-!
# Ending a session's processes

The tree is asked to end, is waited for, is killed, and is waited for again. What a machine shows at
each look is its own affair, and so is its clock, as long as that does not go back.

* `terminate`: the sweep. `Machine`: what it runs on; `Moment`: how far it has got.
* `settle_spec`: a wait ends, and with what.
* `Swept`: what comes of a sweep. `SIGKILL` is sent once to each process of one look, and what a
  process forks while it is killed is left to the caller.
* `terminate_spec`: a sweep comes to that on every machine.
* `supervisor_swept`: the supervisor's sweep of a session. It signals neither itself nor what it
  protects, and it records who survived.
-/

namespace Paperclip.Host.Process

open Files

/-- The signals that are sent. -/
inductive Signal where
  | term
  | kill
  deriving DecidableEq, Repr

/-- A machine: the process that runs, what each look shows, and what each reading of the clock
gives, but for the time slept. -/
structure Machine where
  own : ℕ
  shows : ℕ → Snapshot
  clock : ℕ → ℕ
  steady : Monotone clock

/-- How far a run has got: the looks and the readings of the clock so far, the time slept, and the
signals sent. -/
structure Moment where
  looks : ℕ
  readings : ℕ
  slept : ℕ
  sent : List (ℕ × Signal)

namespace Moment

def looked (s : Moment) : Moment := { s with looks := s.looks + 1 }

def timed (s : Moment) : Moment := { s with readings := s.readings + 1 }

def sleep (s : Moment) (time : ℕ) : Moment := { s with slept := s.slept + time }

/-- Sends a signal. A number that no process can have is skipped. -/
def signal (s : Moment) (pid : ℕ) (signal : Signal) : Moment :=
  if pid < 2 ^ 31 then { s with sent := s.sent ++ [(pid, signal)] } else s

/-- Sends a signal to each process in turn. -/
def signalAll (s : Moment) (pids : Finset ℕ) (signal : Signal) : Moment :=
  pids.sort.foldl (fun s pid => s.signal pid signal) s

end Moment

/-- What the next reading of the clock gives. -/
def Machine.now (machine : Machine) (s : Moment) : ℕ := machine.clock s.readings + s.slept

/-- What the nth look at a tree gives. -/
def Machine.look (machine : Machine) (tree : SessionTree) (n : ℕ) : Except IoError (Finset ℕ) :=
  tree.members machine.own (machine.shows n)

/-- The time between two looks. -/
def POLL : ℕ := 40000000

variable (machine : Machine) (tree : SessionTree)

/-- Looks until the tree is empty or the time is over. `none`: the tree is empty. -/
def settleUntil (deadline : ℕ) : ℕ → Moment → Option (Except IoError (Option (Finset ℕ))) × Moment
  | 0, s => (none, s)
  | fuel + 1, s =>
    match machine.look tree s.looks with
    | .error e => (some (.error e), s.looked)
    | .ok remaining =>
      if remaining = ∅ then (some (.ok none), s.looked)
      else if deadline ≤ machine.now s.looked then (some (.ok (some remaining)), s.looked.timed)
      else settleUntil deadline fuel (s.looked.timed.sleep POLL)

/-- Waits up to `budget` for the tree to empty. -/
def settle (budget : ℕ) (s : Moment) : Option (Except IoError (Option (Finset ℕ))) × Moment :=
  settleUntil machine tree (machine.now s + budget) (budget / POLL + 2) s.timed

/-- What a sweep achieved. -/
structure Termination where
  emptied : Bool
  signalled : Finset ℕ
  killed : Finset ℕ
  survivors : Finset ℕ
  took : ℕ

/-- Waits after a round of `SIGKILL`, and sends another one while there is time for it. -/
def force (escalation : Escalation) (started : ℕ) (signalled : Finset ℕ) :
    ℕ → Finset ℕ → Moment → Option (Except IoError Termination) × Moment
  | 0, _, s => (none, s)
  | fuel + 1, killed, s =>
    match settle machine tree escalation.force s with
    | (none, s) => (none, s)
    | (some (.error e), s) => (some (.error e), s)
    | (some (.ok none), s) =>
      (some (.ok ⟨true, signalled, killed, ∅, machine.now s - started⟩), s.timed)
    | (some (.ok (some remaining)), s) =>
      if escalation.grace + escalation.force ≤ machine.now s - started then
        (some (.ok ⟨remaining = ∅, signalled, killed, remaining, machine.now s.timed - started⟩),
          s.timed.timed)
      else
        force escalation started signalled fuel (killed ∪ remaining)
          (s.timed.signalAll remaining .kill)

/-- Empties the tree, escalating from `SIGTERM` to `SIGKILL`, of which there are at most `fuel`
rounds. -/
def terminate (escalation : Escalation) (fuel : ℕ) (s : Moment) :
    Option (Except IoError Termination) × Moment :=
  let started := machine.now s
  match machine.look tree s.looks with
  | .error e => (some (.error e), s.timed.looked)
  | .ok signalled =>
    match settle machine tree escalation.grace (s.timed.looked.signalAll signalled .term) with
    | (none, s) => (none, s)
    | (some (.error e), s) => (some (.error e), s)
    | (some (.ok none), s) =>
      (some (.ok ⟨true, signalled, ∅, ∅, machine.now s - started⟩), s.timed)
    | (some (.ok (some remaining)), s) =>
      force machine tree escalation started signalled fuel remaining (s.signalAll remaining .kill)

/-! ## Signals -/

/-- A signal for each process of a set that has a number which a process can have. -/
def signals (pids : Finset ℕ) (signal : Signal) : List (ℕ × Signal) :=
  (pids.sort.filter (· < 2 ^ 31)).map fun pid => (pid, signal)

@[simp] theorem signals_empty (signal : Signal) : signals ∅ signal = [] := by
  simp [signals]

theorem mem_signals {pids : Finset ℕ} {signal : Signal} {x : ℕ × Signal} :
    x ∈ signals pids signal ↔ x.1 ∈ pids ∧ x.1 < 2 ^ 31 ∧ x.2 = signal := by
  obtain ⟨pid, sent⟩ := x
  simp only [signals, List.mem_map, List.mem_filter, Finset.mem_sort, decide_eq_true_eq,
    Prod.mk.injEq]
  constructor
  · rintro ⟨p, ⟨hp, hlt⟩, rfl, rfl⟩
    exact ⟨hp, hlt, rfl⟩
  · rintro ⟨hp, hlt, rfl⟩
    exact ⟨pid, ⟨hp, hlt⟩, rfl, rfl⟩

namespace Moment

theorem foldl_signal (signal : Signal) (pids : List ℕ) (s : Moment) :
    pids.foldl (fun s pid => s.signal pid signal) s =
      { s with sent := s.sent ++ (pids.filter (· < 2 ^ 31)).map fun pid => (pid, signal) } := by
  induction pids generalizing s with
  | nil => simp
  | cons pid rest ih =>
    rw [List.foldl_cons, ih, Moment.signal]
    split
    · next h =>
      rw [List.filter_cons, if_pos (decide_eq_true h), List.map_cons, List.append_assoc]
      rfl
    · next h => rw [List.filter_cons, if_neg fun hd => h (of_decide_eq_true hd)]

theorem signalAll_eq (s : Moment) (pids : Finset ℕ) (signal : Signal) :
    s.signalAll pids signal = { s with sent := s.sent ++ signals pids signal } :=
  foldl_signal signal _ s

end Moment

/-! ## Waiting -/

/-- From one moment to another, nothing was sent. -/
structure Waited (s s' : Moment) : Prop where
  looks : s.looks ≤ s'.looks
  readings : s.readings ≤ s'.readings
  slept : s.slept ≤ s'.slept
  sent : s'.sent = s.sent

theorem Waited.trans {s s' s'' : Moment} (h : Waited s s') (h' : Waited s' s'') : Waited s s'' :=
  ⟨h.looks.trans h'.looks, h.readings.trans h'.readings, h.slept.trans h'.slept,
    h'.sent.trans h.sent⟩

theorem Waited.looked (s : Moment) : Waited s s.looked :=
  ⟨Nat.le_succ _, Nat.le_refl _, Nat.le_refl _, rfl⟩

theorem Waited.timed (s : Moment) : Waited s s.timed :=
  ⟨Nat.le_refl _, Nat.le_succ _, Nat.le_refl _, rfl⟩

theorem Waited.sleep (s : Moment) (time : ℕ) : Waited s (s.sleep time) :=
  ⟨Nat.le_refl _, Nat.le_refl _, Nat.le_add_right _ _, rfl⟩

variable {machine tree}

theorem Waited.now_le {s s' : Moment} (h : Waited s s') : machine.now s ≤ machine.now s' :=
  Nat.add_le_add (machine.steady h.readings) h.slept

variable (machine tree)

/-- What the last look was, when a wait ends. -/
def Settled (deadline : ℕ) (s : Moment) : Except IoError (Option (Finset ℕ)) → Prop
  | .error e => machine.look tree (s.looks - 1) = .error e
  | .ok none => machine.look tree (s.looks - 1) = .ok ∅
  | .ok (some remaining) =>
    machine.look tree (s.looks - 1) = .ok remaining ∧ remaining ≠ ∅ ∧ deadline ≤ machine.now s

/-- One look ends a wait, or the time is not over yet and the wait goes on. -/
theorem settleUntil_step (deadline fuel : ℕ) (s : Moment) :
    (∃ r s', settleUntil machine tree deadline (fuel + 1) s = (some r, s') ∧ Waited s s' ∧
      s'.looks = s.looks + 1 ∧ Settled machine tree deadline s' r) ∨
    (machine.now s < deadline ∧ settleUntil machine tree deadline (fuel + 1) s =
      settleUntil machine tree deadline fuel (s.looked.timed.sleep POLL)) := by
  rw [settleUntil]
  cases hlook : machine.look tree s.looks with
  | error e => exact .inl ⟨.error e, s.looked, rfl, .looked s, rfl, hlook⟩
  | ok remaining =>
    dsimp only
    by_cases hempty : remaining = ∅
    · subst hempty
      exact .inl ⟨.ok none, s.looked, if_pos rfl, .looked s, rfl, hlook⟩
    · rw [if_neg hempty]
      split
      · next hover =>
        exact .inl ⟨.ok (some remaining), s.looked.timed, rfl, (Waited.looked s).trans (.timed _),
          rfl, hlook, hempty, hover.trans (Waited.timed s.looked).now_le⟩
      · next hover => exact .inr ⟨Nat.lt_of_not_le hover, rfl⟩

/-- Each look is followed by a sleep, so there are not more of them than fit in the time. -/
theorem settleUntil_spec (deadline fuel : ℕ) (s : Moment)
    (h : deadline ≤ machine.now s + fuel * POLL) :
    ∃ r s', settleUntil machine tree deadline (fuel + 1) s = (some r, s') ∧ Waited s s' ∧
      s.looks < s'.looks ∧ s'.looks ≤ s.looks + fuel + 1 ∧ Settled machine tree deadline s' r := by
  induction fuel generalizing s with
  | zero =>
    rcases settleUntil_step machine tree deadline 0 s with
      ⟨r, s', hrun, hwaited, hlooks, hend⟩ | ⟨hbefore, -⟩
    · exact ⟨r, s', hrun, hwaited, by omega, by omega, hend⟩
    · omega
  | succ fuel ih =>
    rcases settleUntil_step machine tree deadline (fuel + 1) s with
      ⟨r, s', hrun, hwaited, hlooks, hend⟩ | ⟨-, hgoes⟩
    · exact ⟨r, s', hrun, hwaited, by omega, by omega, hend⟩
    · have hwait : Waited s s.looked.timed := (Waited.looked s).trans (.timed _)
      have hnow : machine.now s + POLL ≤ machine.now (s.looked.timed.sleep POLL) :=
        (Nat.add_le_add_right hwait.now_le POLL).trans_eq (Nat.add_assoc _ _ _)
      have hnext : deadline ≤ machine.now (s.looked.timed.sleep POLL) + fuel * POLL := by
        rw [Nat.succ_mul] at h
        omega
      obtain ⟨r, s', hrun, hwaited, hlt, hle, hend⟩ := ih _ hnext
      have hlooks : (s.looked.timed.sleep POLL).looks = s.looks + 1 := rfl
      exact ⟨r, s', hgoes.trans hrun, (hwait.trans (.sleep _ _)).trans hwaited, by omega, by omega,
        hend⟩

/-- A wait ends: with an empty tree, or with what remained at the last look when the time was
over. -/
theorem settle_spec (budget : ℕ) (s : Moment) :
    ∃ r s', settle machine tree budget s = (some r, s') ∧ Waited s s' ∧ s.looks < s'.looks ∧
      s'.looks ≤ s.looks + (budget / POLL + 2) ∧
      Settled machine tree (machine.now s + budget) s' r := by
  have hbudget : budget ≤ (budget / POLL + 1) * POLL := by
    unfold POLL
    omega
  have hnow : machine.now s ≤ machine.now s.timed := (Waited.timed s).now_le
  obtain ⟨r, s', hrun, hwaited, hlt, hle, hend⟩ := settleUntil_spec machine tree
    (machine.now s + budget) (budget / POLL + 1) s.timed (by omega)
  exact ⟨r, s', hrun, (Waited.timed s).trans hwaited, hlt, hle, hend⟩

/-! ## The sweep -/

/-- What was sent from one moment to another: `SIGTERM` to each process of one set, and then
`SIGKILL` to each of another one. -/
structure Sent (s s' : Moment) (signalled killed : Finset ℕ) : Prop where
  looks : s.looks < s'.looks
  sent : s'.sent = s.sent ++ signals signalled .term ++ signals killed .kill
  signalled : signalled = ∅ ∨ machine.look tree s.looks = .ok signalled
  killed : killed = ∅ ∨ ∃ n, s.looks < n ∧ n < s'.looks ∧ machine.look tree n = .ok killed

/-- What a sweep comes to: those who were there at first were asked to end, those who were left
after the grace period were killed, and the survivors are those of the last look. -/
structure Swept (escalation : Escalation) (s s' : Moment) (t : Termination) : Prop where
  sent : Sent machine tree s s' t.signalled t.killed
  asked : machine.look tree s.looks = .ok t.signalled
  last : machine.look tree (s'.looks - 1) = .ok t.survivors
  emptied : t.emptied = true ↔ t.survivors = ∅
  patient : t.survivors ≠ ∅ → t.killed ≠ ∅ ∧ escalation.grace + escalation.force ≤ t.took
  bounded : s'.looks ≤ s.looks + (escalation.grace / POLL + escalation.force / POLL + 5)

/-- A look has failed, and nothing was sent after it. -/
def Failed (s s' : Moment) (e : IoError) : Prop :=
  machine.look tree (s'.looks - 1) = .error e ∧
    ∃ signalled killed, Sent machine tree s s' signalled killed

/-- What a sweep comes to, if it can look each time, and if it cannot. -/
def Comes (escalation : Escalation) (s s' : Moment) : Except IoError Termination → Prop
  | .ok t => Swept machine tree escalation s s' t
  | .error e => Failed machine tree s s' e

/-- A sweep needs only one round of `force`: when it has waited for that, the time is over. -/
theorem force_spec {escalation : Escalation} {started fuel : ℕ} {signalled remaining : Finset ℕ}
    {start s : Moment} (hstarted : started + escalation.grace ≤ machine.now s)
    (hsent : Sent machine tree start s signalled remaining) (hne : remaining ≠ ∅)
    (hasked : machine.look tree start.looks = .ok signalled)
    (hlooks : s.looks ≤ start.looks + (escalation.grace / POLL + 3)) :
    ∃ r s', force machine tree escalation started signalled (fuel + 1) remaining s = (some r, s') ∧
      Comes machine tree escalation start s' r := by
  obtain ⟨r, s', hrun, hwaited, hlt, hle, hend⟩ := settle_spec machine tree escalation.force s
  have hon {s'' : Moment} (h : Waited s' s'') (heq : s''.looks = s'.looks) :
      Sent machine tree start s'' signalled remaining := by
    refine ⟨?_, by rw [h.sent, hwaited.sent, hsent.sent], hsent.signalled, ?_⟩
    · have := hsent.looks
      omega
    · refine hsent.killed.imp_right ?_
      rintro ⟨n, hn, hn', hlook⟩
      exact ⟨n, hn, by omega, hlook⟩
  have hbound : s'.looks ≤
      start.looks + (escalation.grace / POLL + escalation.force / POLL + 5) := by
    omega
  unfold force
  rw [hrun]
  match r, hend with
  | .error e, hend =>
    exact ⟨.error e, s', rfl, hend, _, _,
      hon ⟨Nat.le_refl _, Nat.le_refl _, Nat.le_refl _, rfl⟩ rfl⟩
  | .ok none, hend =>
    refine ⟨.ok _, s'.timed, rfl, hon (.timed _) rfl, hasked, hend, ?_, ?_, hbound⟩
    · exact iff_of_true rfl rfl
    · exact fun h => absurd rfl h
  | .ok (some survivors), hend =>
    obtain ⟨hlook, hsurvivors, hdeadline⟩ := hend
    have hover : escalation.grace + escalation.force ≤ machine.now s' - started := by omega
    dsimp only
    rw [if_pos hover]
    refine ⟨.ok _, s'.timed.timed, rfl, hon ((Waited.timed _).trans (.timed _)) rfl, hasked, hlook,
      ?_, ?_, hbound⟩
    · exact decide_eq_true_iff
    · have hnow : machine.now s' ≤ machine.now s'.timed := (Waited.timed s').now_le
      exact fun _ => ⟨hne, by dsimp only; omega⟩

/-- On every machine a sweep ends. -/
theorem terminate_spec (escalation : Escalation) (fuel : ℕ) (s : Moment) :
    ∃ r s', terminate machine tree escalation (fuel + 1) s = (some r, s') ∧
      Comes machine tree escalation s s' r := by
  unfold terminate
  cases hasked : machine.look tree s.looks with
  | error e =>
    refine ⟨.error e, s.timed.looked, rfl, hasked, ∅, ∅, Nat.lt_succ_self _, ?_, .inl rfl, .inl rfl⟩
    simp [Moment.looked, Moment.timed]
  | ok signalled =>
    dsimp only
    rw [Moment.signalAll_eq]
    obtain ⟨r, s', hrun, hwaited, hlt, hle, hend⟩ := settle_spec machine tree escalation.grace
      { s.timed.looked with sent := s.timed.looked.sent ++ signals signalled .term }
    have hlt' : s.looks + 1 < s'.looks := hlt
    have hle' : s'.looks ≤ s.looks + 1 + (escalation.grace / POLL + 2) := hle
    have hsent {s'' : Moment} (h : Waited s' s'') (heq : s''.looks = s'.looks) :
        Sent machine tree s s'' signalled ∅ := by
      refine ⟨by omega, ?_, .inr hasked, .inl rfl⟩
      rw [h.sent, hwaited.sent, signals_empty, List.append_nil]
      rfl
    rw [hrun]
    match r, hend with
    | .error e, hend =>
      exact ⟨.error e, s', rfl, hend, _, _,
        hsent ⟨Nat.le_refl _, Nat.le_refl _, Nat.le_refl _, rfl⟩ rfl⟩
    | .ok none, hend =>
      refine ⟨.ok _, s'.timed, rfl, hsent (.timed _) rfl, hasked, hend, iff_of_true rfl rfl,
        fun h => absurd rfl h, ?_⟩
      have := Nat.zero_le (escalation.force / POLL)
      show s'.looks ≤ _
      omega
    | .ok (some remaining), hend =>
      obtain ⟨hlook, hremaining, hdeadline⟩ := hend
      dsimp only
      rw [Moment.signalAll_eq]
      refine force_spec machine tree ?_ ⟨?_, ?_, .inr hasked, .inr ⟨s'.looks - 1, ?_, ?_, hlook⟩⟩
        hremaining hasked ?_
      · have hstart : machine.now s ≤ machine.now s.timed.looked :=
          ((Waited.timed s).trans (.looked _)).now_le
        have hd : machine.now s.timed.looked + escalation.grace ≤ machine.now s' := hdeadline
        show machine.now s + escalation.grace ≤ machine.now s'
        omega
      · show s.looks < s'.looks
        omega
      · show s'.sent ++ _ = _
        rw [hwaited.sent]
        rfl
      · omega
      · show s'.looks - 1 < s'.looks
        omega
      · show s'.looks ≤ _
        omega

variable {machine tree}

/-- Whoever is signalled may be, and has a number that a process can have. -/
theorem Sent.spares {s s' : Moment} {signalled killed : Finset ℕ}
    (h : Sent machine tree s s' signalled killed) {x : ℕ × Signal} (hx : x ∈ s'.sent) :
    x ∈ s.sent ∨ (tree.MaySignal machine.own x.1 ∧ x.1 < 2 ^ 31) := by
  have hpids {pids : Finset ℕ} {signal : Signal} {n : ℕ}
      (hlook : pids = ∅ ∨ machine.look tree n = .ok pids) (hx : x ∈ signals pids signal) :
      tree.MaySignal machine.own x.1 ∧ x.1 < 2 ^ 31 := by
    obtain ⟨hp, hlt, -⟩ := mem_signals.1 hx
    rcases hlook with rfl | hlook
    · cases hp
    · exact ⟨SessionTree.maySignal_of_members hlook hp, hlt⟩
  rw [h.sent] at hx
  rcases List.mem_append.1 hx with hx | hx
  · rcases List.mem_append.1 hx with hx | hx
    · exact .inl hx
    · exact .inr (hpids h.signalled hx)
  · rcases h.killed with hnone | ⟨n, -, -, hlook⟩
    · exact .inr (hpids (n := 0) (.inl hnone) hx)
    · exact .inr (hpids (.inr hlook) hx)

theorem Comes.spares {escalation : Escalation} {s s' : Moment} {r : Except IoError Termination}
    (h : Comes machine tree escalation s s' r) {x : ℕ × Signal} (hx : x ∈ s'.sent) :
    x ∈ s.sent ∨ (tree.MaySignal machine.own x.1 ∧ x.1 < 2 ^ 31) := by
  cases r with
  | ok t => exact h.sent.spares hx
  | error e =>
    obtain ⟨-, signalled, killed, hsent⟩ := h
    exact hsent.spares hx

/-- A process that is there at the last look but was not when the others were killed, such as one
that they forked meanwhile, is sent no `SIGKILL`. -/
theorem Swept.late_not_killed {escalation : Escalation} {s s' : Moment} {t : Termination} {pid : ℕ}
    (h : Swept machine tree escalation s s' t) (hlate : pid ∉ t.killed)
    (hbefore : (pid, .kill) ∉ s.sent) : (pid, .kill) ∉ s'.sent := by
  rw [h.sent.sent]
  intro hx
  rcases List.mem_append.1 hx with hx | hx
  · rcases List.mem_append.1 hx with hx | hx
    · exact hbefore hx
    · cases (mem_signals.1 hx).2.2
  · exact hlate (mem_signals.1 hx).1

/-- The survivors are the processes that the session has at the last look. -/
theorem Swept.mem_survivors {escalation : Escalation} {s s' : Moment} {t : Termination}
    (h : Swept machine tree escalation s s' t) (pid : ℕ) :
    pid ∈ t.survivors ↔
      tree.Holds (machine.shows (s'.looks - 1)) pid ∧ tree.MaySignal machine.own pid := by
  have hexact := tree.members_exact machine.own (machine.shows (s'.looks - 1))
  have hlast : tree.members machine.own (machine.shows (s'.looks - 1)) = .ok t.survivors := h.last
  rw [hlast] at hexact
  exact hexact pid

/-! ## The supervisor's sweep -/

/-- The tree that the supervisor sweeps. -/
def SessionTree.of (source : Host.TreeSource) (protected_ : List ℕ) (own : ℕ) : SessionTree where
  source := match source with
    | .cgroup _ => .cgroup
    | .descendants => .descendants own
  protected_ := protected_.toFinset

/-- What the supervisor is told of a sweep. -/
def answer : Except IoError Termination → Option Host.Termination
  | .ok t => some ⟨t.emptied, t.survivors.sort⟩
  | .error _ => none

/-- Who survived a sweep, as far as is known. -/
def survivors : Except IoError Termination → Finset ℕ
  | .ok t => t.survivors
  | .error _ => ∅

theorem Comes.noteSurvivors {escalation : Escalation} {s s' : Moment}
    {r : Except IoError Termination} (h : Comes machine tree escalation s s' r)
    (reason : StopReason) :
    Supervisor.noteSurvivors reason (answer r) =
      if survivors r = ∅ then return () else
        call (.recordSurvivors reason (survivors r).sort) := by
  cases r with
  | error e => rfl
  | ok t =>
    have hemptied := h.emptied
    rw [answer, survivors]
    cases hb : t.emptied with
    | true => rw [if_pos (hemptied.1 hb)]; rfl
    | false => rw [if_neg fun hs => by rw [hemptied.2 hs] at hb; cases hb]; rfl

/-- The supervisor's sweep of a session ends within a bounded number of looks, whatever the machine
shows. It has asked the processes of the first look to end, and killed at most those of one later
look. It has signalled neither itself nor the first process nor any that is protected. The survivors
are what the session has at the last look, and they are recorded. -/
theorem supervisor_swept (machine : Machine) (source : Host.TreeSource) (protected_ : List ℕ)
    (escalation : Escalation) (fuel : ℕ) (s : Moment) :
    ∃ r s', terminate machine (.of source protected_ machine.own) escalation (fuel + 1) s =
        (some r, s') ∧
      Comes machine (.of source protected_ machine.own) escalation s s' r ∧
      (∀ x ∈ s'.sent, x ∈ s.sent ∨
        (1 < x.1 ∧ x.1 < 2 ^ 31 ∧ x.1 ≠ machine.own ∧ x.1 ∉ protected_)) ∧
      (∀ t, r = .ok t → ∀ pid, pid ∈ t.survivors ↔
        (SessionTree.of source protected_ machine.own).Holds (machine.shows (s'.looks - 1)) pid ∧
          1 < pid ∧ pid ≠ machine.own ∧ pid ∉ protected_) ∧
      ∀ reason, Supervisor.noteSurvivors reason (answer r) =
        if survivors r = ∅ then return () else
          call (.recordSurvivors reason (survivors r).sort) := by
  have hmay (pid : ℕ) : (SessionTree.of source protected_ machine.own).MaySignal machine.own pid ↔
      1 < pid ∧ pid ≠ machine.own ∧ pid ∉ protected_ := by
    simp [SessionTree.MaySignal, SessionTree.of]
  obtain ⟨r, s', hrun, hcomes⟩ := terminate_spec machine (.of source protected_ machine.own)
    escalation fuel s
  refine ⟨r, s', hrun, hcomes, fun x hx => ?_, ?_, hcomes.noteSurvivors⟩
  · refine (hcomes.spares hx).imp_right ?_
    rintro ⟨hsignal, hlt⟩
    obtain ⟨hone, hown, hprotected⟩ := (hmay x.1).1 hsignal
    exact ⟨hone, hlt, hown, hprotected⟩
  · rintro t rfl pid
    rw [← hmay]
    exact hcomes.mem_survivors pid

end Paperclip.Host.Process
