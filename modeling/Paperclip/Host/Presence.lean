import Paperclip.Compositor.Server
import Paperclip.Host.Effects
import Paperclip.Host.Restores
import Paperclip.Host.Supervisor

/-!
# Whose client is on the panel

The supervisor learns from a file that somebody owns the panel, and the file says neither whose
client that is nor since when. A compositor that has not yet noticed that a session is gone, or a
file that an earlier compositor left, speaks for the session that comes next.

* `Compositor.statusText`: what the compositor writes to its status file.
* `Desk`, `Move`: the compositor, the sessions that its clients belong to, and the file; and what
  happens to them between two steps of the supervisor.
* `Watch`: what is noted of the switch that is under way. `Watch.Shows`: the client of a session was
  in the foreground since its unit was started.
* `Surroundings.runs`: the supervisor, with everything else in between its steps.
* `foreground_is_shown`: a session is confirmed after its client was in the foreground, as long as no
  status that counts in its switch is another's, or older than its unit.
-/

namespace Paperclip.Compositor

def clientLabel (s : Compositor) (id : ClientId) : Option String := (s.clients id).map (·.label)

/-- The label that a stopped frame shows. -/
def stoppedLabel (s : Compositor) : Option String :=
  match s.foreground with
  | .stopped label => some label
  | _ => none

/-- What the compositor writes to its status file. -/
def statusText (s : Compositor) : String :=
  let client := (s.foregroundClient.bind s.clientLabel).map fun label => s!"client:{label}"
  let stopped := s.stoppedLabel.map fun label => s!"stopped:{label}"
  let foreground := (client.or stopped).getD "none"
  s!"foreground={foreground}\n"

end Paperclip.Compositor

namespace Paperclip.Host

open Crash Packages

/-! ## The compositor beside the supervisor -/

/-- The compositor, the session that each of its clients belongs to, and its status file. -/
structure Desk where
  tick : ℕ
  compositor : Compositor
  belongs : Compositor.ClientId → Option Foreground
  status : Option String

/-- What happens beside the supervisor. -/
inductive Move where
  /-- A process of a session becomes a client. -/
  | connects (owner : Foreground) (hello : Compositor.ClientHello)
  /-- Anything else that the compositor reacts to. -/
  | reacts (input : Compositor.Input) (o : Compositor.Outcomes)
  /-- A new compositor takes the place of the one before. -/
  | restarts (panelSize : Protocol.Size)
  /-- The status file is opened to be written, which empties it. -/
  | truncates
  | writes

def Move.apply (d : Desk) : Move → Desk
  | connects owner hello => { d with
      compositor := (d.compositor.connect hello).1
      belongs := Function.update d.belongs d.compositor.nextId (some owner) }
  | reacts input o => { d with compositor := (d.compositor.step o input).1 }
  | restarts panelSize => { d with compositor := .bind panelSize, belongs := fun _ => none }
  | truncates => { d with status := some "" }
  | writes => { d with status := some d.compositor.statusText }

/-- The session whose client is in the foreground. -/
def Desk.front (d : Desk) : Option Foreground := d.compositor.foregroundClient.bind d.belongs

/-- Whether a status says that a client is in the foreground. -/
def namesClient (status : Option String) : Bool :=
  match status with
  | none => false
  | some raw => ((Supervisor.lines raw.toList).findSome? (stripPrefix "foreground=".toList)).any
      fun value => "client:".toList.isPrefixOf value

/-! ## What is noted -/

/-- What is noted of the switch that is under way. -/
structure Watch where
  /-- The session that is to come up. -/
  target : Option Foreground
  /-- Its unit was started. -/
  started : Bool
  /-- Since then, its client was in the foreground. -/
  shown : Bool
  /-- Since then, the status was written. -/
  fresh : Bool
  /-- The session whose client was in the foreground when it was. -/
  named : Option Foreground
  /-- The pass that reads the status is one of a switch. -/
  deciding : Bool
  /-- A status, or an observation made before the switch, counted for the wrong session. -/
  misled : Bool

namespace Watch

/-- The unit of `owner` was started, and since then its client was in the foreground. -/
def Shows (n : Watch) (owner : Foreground) : Prop :=
  n.target = some owner ∧ n.started = true ∧ n.shown = true

instance (n : Watch) (owner : Foreground) : Decidable (n.Shows owner) :=
  inferInstanceAs (Decidable (_ ∧ _))

/-- What is noted once the desk is `d` after a move. -/
def beside (n : Watch) (move : Move) (d : Desk) : Watch :=
  let n := { n with shown := n.shown || n.started && d.front == n.target }
  match move with
  | .writes => { n with fresh := n.started, named := d.front }
  | _ => n

/-- What is noted of a step of the supervisor. -/
def see (n : Watch) (d : Desk) : (op : HostOp) → op.Ret → Watch
  | .startUnit unit, .ok () =>
    if n.target.map sessionUnitName = some unit then
      { n with started := true, shown := d.front == n.target, fresh := false }
    else n
  | .compositorStatus, status => { n with
      misled := n.misled || n.deciding && namesClient status && !(n.fresh && n.named == n.target) }
  | _, _ => n

/-- A switch begins. -/
def begin (n : Watch) (target : Foreground) : Watch :=
  { n with target := some target, started := false, shown := false, fresh := false }

end Watch

/-! ## Runs -/

/-- Everything but the supervisor: what its steps are answered at each tick, and what happens before
each of them. -/
structure Surroundings where
  answer : (op : HostOp) → ℕ → op.Ret
  moves : ℕ → List Move

/-- The session that a machine begins to bring up on an event. -/
def begins (m : Machine) (event : Event) (now : ℕ) : Option Foreground :=
  (m.handle event now).1.findSome? fun
    | .startForeground target _ => some target
    | _ => none

/-- Whether a session is asked for that was already observed to own the display. -/
def early (event : Event) (rest : List Event) : Bool :=
  match event with
  | .switchRequested to_ => rest.contains (.displayOwned to_)
  | _ => false

namespace Surroundings

variable (e : Surroundings)

/-- One thing that happens beside the supervisor. -/
def happens (x : Desk × Watch) (move : Move) : Desk × Watch :=
  (move.apply x.1, x.2.beside move (move.apply x.1))

/-- What a step is answered. -/
def serve (d : Desk) : (op : HostOp) → op.Ret
  | .compositorStatus => d.status
  | op => e.answer op d.tick

def handler : Handler hostSig (Desk × Watch) := fun op x =>
  let y := (e.moves x.1.tick).foldl happens x
  let ret := e.serve y.1 op
  (ret, { y.1 with tick := y.1.tick + 1 }, y.2.see y.1 op ret)

/-- What is noted as a pass or an event begins. -/
def prepare (x : Situation (Desk × Watch)) : Watch :=
  let n := { x.world.2 with deciding := x.sup.machine.state == .switching }
  match x.ended, x.events with
  | none, event :: rest =>
    let n := { n with misled := n.misled || early event rest }
    match begins x.sup.machine event (e.answer .instant x.world.1.tick) with
    | some target => n.begin target
    | none => n
  | _, _ => n

/-- What happens next, with what is noted. -/
def next (x : Situation (Desk × Watch)) : Situation (Desk × Watch) :=
  Situation.next e.handler { x with world := (x.world.1, e.prepare x) }

/-- A supervisor from its beginning. -/
def runs (sup : Supervisor) (d : Desk) : ℕ → Situation (Desk × Watch)
  | 0 => ⟨sup, [], none, d, ⟨none, false, false, false, none, false, false⟩⟩
  | n + 1 => e.next (runs sup d n)

end Surroundings

/-- A session becomes the confirmed foreground. -/
def Situation.confirms {W : Type} (x y : Situation W) : Bool :=
  !x.sup.machine.state.ownsDisplay && y.sup.machine.state.ownsDisplay

/-! ## What a step keeps -/

/-- What is noted is true: a session that was shown was started, and a status that was written since
then and names its client was written when it was in the foreground. -/
structure Watch.Valid (n : Watch) : Prop where
  shown : n.shown = true → n.started = true
  fresh : n.fresh = true → n.started = true
  named : n.fresh = true → n.named = n.target → n.shown = true

/-- What a part of the supervisor leaves of what was noted. -/
structure Watch.Onward (n n' : Watch) : Prop where
  valid : n'.Valid
  target : n'.target = n.target
  deciding : n'.deciding = n.deciding
  misled : n'.misled = false → n.misled = false

/-- What a part that starts no unit leaves. -/
structure Watch.Calmly (n n' : Watch) : Prop extends Watch.Onward n n' where
  started : n.started = true → n'.started = true
  kept : n.shown = true → n'.shown = true

section Steps

variable {e : Surroundings} {n n' n'' : Watch} {x : Desk × Watch} {owner : Foreground}

theorem Watch.Calmly.self (h : n.Valid) : n.Calmly n := ⟨⟨h, rfl, rfl, id⟩, id, id⟩

theorem Watch.Onward.trans (h : n.Onward n') (h' : n'.Onward n'') : n.Onward n'' :=
  ⟨h'.valid, h'.target.trans h.target, h'.deciding.trans h.deciding, h.misled ∘ h'.misled⟩

theorem Watch.Calmly.trans (h : n.Calmly n') (h' : n'.Calmly n'') : n.Calmly n'' :=
  ⟨h.toOnward.trans h'.toOnward, h'.started ∘ h.started, h'.kept ∘ h.kept⟩

theorem Watch.Calmly.shows (h : n.Calmly n') (hs : n.Shows owner) : n'.Shows owner :=
  ⟨h.target.trans hs.1, h.started hs.2.1, h.kept hs.2.2⟩

/-- A fresh status that names the session says that its client was shown. -/
theorem Watch.Valid.shows (h : n.Valid) (hf : n.fresh = true) (hn : n.named = n.target)
    (ht : n.target = some owner) : n.Shows owner := ⟨ht, h.fresh hf, h.named hf hn⟩

theorem Watch.beside_calmly (h : n.Valid) (move : Move) (d : Desk) :
    n.Calmly (n.beside move d) := by
  have hshown : (n.shown || n.started && d.front == n.target) = true → n.started = true := by
    intro hs
    rcases Bool.or_eq_true_iff.1 hs with hs | hs
    · exact h.shown hs
    · exact (Bool.and_eq_true_iff.1 hs).1
  cases move with
  | writes =>
    refine ⟨⟨⟨hshown, id, fun hf hn => ?_⟩, rfl, rfl, id⟩, id, fun hs => ?_⟩
    · have hf : n.started = true := hf
      have hn : d.front = n.target := hn
      simp [Watch.beside, hf, hn]
    · simp [Watch.beside, hs]
  | _ =>
    refine ⟨⟨⟨hshown, h.fresh, fun hf hn => ?_⟩, rfl, rfl, id⟩, id, fun hs => ?_⟩
    · simp [Watch.beside, h.named hf hn]
    · simp [Watch.beside, hs]

/-- What happens beside the supervisor takes nothing back. -/
theorem happens_calmly (moves : List Move) (h : x.2.Valid) :
    x.2.Calmly (moves.foldl Surroundings.happens x).2 := by
  induction moves generalizing x with
  | nil => exact .self h
  | cons move rest ih =>
    have hmove := Watch.beside_calmly h move (move.apply x.1)
    exact hmove.trans (ih (x := Surroundings.happens x move) hmove.valid)

theorem tick_happens (moves : List Move) :
    (moves.foldl Surroundings.happens x).1.tick = x.1.tick := by
  induction moves generalizing x with
  | nil => rfl
  | cons move rest ih =>
    refine (ih (x := Surroundings.happens x move)).trans ?_
    cases move <;> rfl

theorem Watch.see_onward (h : n.Valid) (d : Desk) (op : HostOp) (ret : op.Ret) :
    n.Onward (n.see d op ret) := by
  have hself : n.Onward n := (Calmly.self h).toOnward
  cases op
  case startUnit unit =>
    cases ret with
    | error _ => exact hself
    | ok _ =>
      simp only [see]
      split_ifs
      · exact ⟨⟨fun _ => rfl, fun hf => (by cases hf), fun hf => (by cases hf)⟩, rfl, rfl, id⟩
      · exact hself
  case compositorStatus => exact ⟨⟨h.shown, h.fresh, h.named⟩, rfl, rfl, by simp +contextual [see]⟩
  all_goals exact hself

/-- Steps that start no unit. -/
def StartsNone : HostOp → Prop
  | .startUnit _ => False
  | _ => True

theorem Watch.see_calmly (h : n.Valid) (d : Desk) {op : HostOp} (hop : StartsNone op)
    (ret : op.Ret) : n.Calmly (n.see d op ret) := by
  refine ⟨see_onward h d op ret, ?_, ?_⟩ <;> cases op <;> first | exact hop.elim | exact id

theorem handler_onward (h : x.2.Valid) (op : HostOp) : x.2.Onward (e.handler op x).2.2 := by
  have hmoves := happens_calmly (e.moves x.1.tick) h
  exact hmoves.toOnward.trans (Watch.see_onward hmoves.valid _ op _)

theorem handler_calmly (h : x.2.Valid) {o : HostOp} (ho : StartsNone o) :
    x.2.Calmly (e.handler o x).2.2 := by
  have hmoves := happens_calmly (e.moves x.1.tick) h
  exact hmoves.trans (Watch.see_calmly hmoves.valid _ ho _)

variable {ε α : Type} {p : Prog hostSig ε α}

theorem onward_safe (p : Prog hostSig ε α) (h : x.2.Valid) :
    p.Safe e.handler (fun _ => True) (fun _ y => x.2.Onward y.2) x :=
  (Prog.Safe.of_only (I := fun y : Desk × Watch => x.2.Onward y.2) (Prog.only_true p)
    (fun op _ _ hy => hy.trans (handler_onward hy.valid op)) (Watch.Calmly.self h).toOnward).mono
    (fun _ _ => trivial) fun _ _ _ h => h

theorem calmly_safe (hp : p.Only StartsNone) (h : x.2.Valid) :
    p.Safe e.handler (fun _ => True) (fun _ y => x.2.Calmly y.2) x :=
  (Prog.Safe.of_only (I := fun y : Desk × Watch => x.2.Calmly y.2) hp
    (fun _ _ hop hy => hy.trans (handler_calmly hy.valid hop)) (Watch.Calmly.self h)).mono
    (fun _ _ => trivial) fun _ _ _ h => h

end Steps

/-! ## The parts of the supervisor -/

section Parts

variable {s : Supervisor}

theorem call_startsNone {ε : Type} {o : HostOp} (ho : StartsNone o) :
    (call o : Prog hostSig ε o.Ret).Only StartsNone := Prog.only_ask.2 ho

theorem onDevice_startsNone {α : Type} (p : Device.DeviceM α) : (onDevice p).Only StartsNone :=
  Prog.Only.embed ((Prog.only_true p).mono fun _ _ => trivial)

theorem reap_startsNone : StockRecovery.reapStrayDrmHolders.Only StartsNone := by
  refine (call_startsNone (o := .drmHolders) trivial).bind fun holders => ?_
  rcases holders with _ | _ | ⟨holder, rest⟩
  · trivial
  · trivial
  · exact call_startsNone (o := .terminateHolders _ _) trivial

theorem recovery_startsNone : StockRecovery.restore.Only StartsNone := by
  refine (call_startsNone (o := .recoveryLook) trivial).bind fun active =>
    Prog.only_ofExcept.bind fun active => ?_
  split_ifs
  · exact (call_startsNone (o := .releaseWakelock) trivial).bind fun _ => trivial
  refine reap_startsNone.bind fun _ => ?_
  refine Prog.Only.bind ((call_startsNone (o := .removeLock .registry) trivial).bind fun _ =>
    call_startsNone (o := .removeLock .epd) trivial) fun _ => ?_
  refine (call_startsNone (o := .device .now) trivial).bind fun now => ?_
  refine (onDevice_startsNone _).mapError.bind fun _ => ?_
  refine (call_startsNone (o := .journal JOURNAL_LINES) trivial).bind fun text => ?_
  split_ifs
  · trivial
  · exact (call_startsNone (o := .releaseWakelock) trivial).bind fun _ => trivial

theorem restore_startsNone (attempt : ℕ) : (s.restore attempt).Only StartsNone := by
  refine recovery_startsNone.attempt.bind fun r => ?_
  cases r with
  | ok restored => exact (call_startsNone (o := .report _ _) trivial).bind fun _ => trivial
  | error e =>
    refine (call_startsNone (o := .report _ _) trivial).bind fun _ => ?_
    exact (call_startsNone (o := .capture _) trivial).bind fun _ => trivial

theorem terminate_startsNone (reason : StopReason) (escalation : Escalation) :
    (s.terminate reason escalation).Only StartsNone := by
  rw [Supervisor.terminate]
  cases s.sessionUnit with
  | none => trivial
  | some unit =>
    refine (call_startsNone (o := .stopUnit unit) trivial).bind fun _ => ?_
    refine (call_startsNone (o := .stockPid) trivial).bind fun pid => ?_
    refine (call_startsNone (o := .property unit "ControlGroup") trivial).bind fun cgroup => ?_
    refine (call_startsNone (o := .terminateTree _ _ _) trivial).bind fun swept => ?_
    refine Prog.Only.bind ?_ fun _ => trivial
    unfold Supervisor.noteSurvivors
    split
    · exact call_startsNone (o := .recordSurvivors _ _) trivial
    · trivial

theorem execute_startsNone {action : Action}
    (h : ∀ target deadline, action ≠ .startForeground target deadline) :
    (s.execute action).Only StartsNone := by
  cases action with
  | startForeground target deadline => exact absurd rfl (h target deadline)
  | terminateSession reason escalation =>
    exact (terminate_startsNone reason escalation).bind fun _ => trivial
  | releaseDisplay =>
    refine Prog.Only.bind ?_ fun _ => trivial
    exact (call_startsNone (o := .removeLock .registry) trivial).bind fun _ =>
      call_startsNone (o := .removeLock .epd) trivial
  | restoreStock attempt deadline => exact (restore_startsNone attempt).bind fun _ => trivial
  | captureDiagnostics reason =>
    exact (call_startsNone (o := .capture _) trivial).bind fun _ => trivial
  | halt diagnosis => exact (call_startsNone (o := .capture _) trivial).bind fun _ => trivial

theorem perform_startsNone {actions : List Action} (h : Quiet actions) :
    (s.perform actions).Only StartsNone := by
  induction actions generalizing s with
  | nil => trivial
  | cons action rest ih =>
    obtain ⟨haction, hrest⟩ := List.forall_mem_cons.1 h
    refine (execute_startsNone haction).bind fun p => ?_
    obtain ⟨ended, s'⟩ := p
    cases ended with
    | some diagnosis => trivial
    | none => exact ih hrest

/-- What an action leaves of the supervisor. What it notes for the next pass is not who owns the
display. -/
structure Supervisor.Became (s s' : Supervisor) : Prop where
  machine : s'.machine = s.machine
  queued : ∀ owner, .displayOwned owner ∈ s'.queued → .displayOwned owner ∈ s.queued

variable {s' s'' : Supervisor} {W : Type} {h : Handler hostSig W} {w : W}

theorem Supervisor.Became.self : s.Became s := ⟨rfl, fun _ => id⟩

theorem Supervisor.Became.trans (hs : s.Became s') (hs' : s'.Became s'') : s.Became s'' :=
  ⟨hs'.machine.trans hs.machine, fun owner => hs.queued owner ∘ hs'.queued owner⟩

theorem restore_became (attempt : ℕ) : (s.restore attempt).Safe h (fun _ => True)
    (fun r _ => ∃ s', r = .ok s' ∧ s.Became s') w := by
  refine Prog.Safe.attempt_bind ((Prog.safe_true _ w).mono (fun _ h => h) fun r w' _ _ => ?_)
  cases r with
  | ok restored => exact ⟨trivial, trivial, _, rfl, rfl, fun owner hm => by simpa using hm⟩
  | error e => exact ⟨trivial, trivial, trivial, _, rfl, rfl, fun owner hm => by simpa using hm⟩

theorem units_became (owner : Foreground) (units : List String) :
    (s.startUnits owner units).Safe h (fun _ => True)
      (fun r _ => ∃ s', r = .ok s' ∧ s.Became s') w := by
  induction units generalizing w with
  | nil => exact ⟨trivial, s, rfl, .self⟩
  | cons unit rest ih =>
    refine ⟨trivial, ?_⟩
    simp only [Prog.bind_done]
    cases (h (.startUnit unit) w).1 with
    | error e =>
      exact ⟨trivial, _, rfl, rfl, fun owner hm => by simpa [Supervisor.refused] using hm⟩
    | ok _ => exact ih

theorem session_became (other : Foreground) : (s.startSession other).Safe h (fun _ => True)
    (fun r _ => ∃ s', r = .ok s' ∧ s.Became s') w := by
  refine ⟨trivial, Prog.Safe.attempt_bind ((Prog.safe_true _ _).mono (fun _ h => h)
    fun r w' _ _ => ?_)⟩
  cases r with
  | error e => exact ⟨trivial, _, rfl, rfl, fun owner hm => by simpa [Supervisor.refused] using hm⟩
  | ok _ =>
    refine (units_became other _).mono (fun _ h => h) fun r w'' _ hr => ?_
    obtain ⟨s', rfl, hs⟩ := hr
    exact ⟨s', rfl, hs.machine, hs.queued⟩

theorem start_became (target : Foreground) : (s.startForeground target).Safe h (fun _ => True)
    (fun r _ => ∃ s', r = .ok s' ∧ s.Became s') w := by
  cases target with
  | stock =>
    refine ⟨trivial, (restore_became 1).mono (fun _ h => h) fun r w' _ hr => ?_⟩
    obtain ⟨s', rfl, hs⟩ := hr
    exact ⟨s', rfl, hs.machine, hs.queued⟩
  | home => exact session_became _
  | app id => exact session_became _

theorem terminate_became (reason : StopReason) (escalation : Escalation) :
    (s.terminate reason escalation).Safe h (fun _ => True)
      (fun r _ => ∃ s', r = .ok s' ∧ s.Became s') w := by
  rw [Supervisor.terminate]
  cases s.sessionUnit with
  | none => exact ⟨trivial, s, rfl, .self⟩
  | some unit =>
    refine ⟨trivial, trivial, trivial, trivial, ?_⟩
    simp only [Prog.bind_done]
    exact (Prog.safe_true _ _).bind (fun _ _ _ => ⟨trivial, _, rfl, rfl, fun _ => id⟩) fun e => e.elim

theorem execute_became (action : Action) : (s.execute action).Safe h (fun _ => True)
    (fun r _ => ∃ ended s', r = .ok (ended, s') ∧ s.Became s') w := by
  have hthen {p : HostM Supervisor}
      (hp : p.Safe h (fun _ => True) (fun r _ => ∃ s', r = .ok s' ∧ s.Became s') w) :
      (do
        let s ← p
        return (none, s) : HostM (Option Diagnosis × Supervisor)).Safe h (fun _ => True)
          (fun r _ => ∃ ended s', r = .ok (ended, s') ∧ s.Became s') w := by
    refine hp.bind (fun s' w' hq => ?_) fun e => e.elim
    obtain ⟨_, heq, hs⟩ := hq
    cases heq
    exact ⟨trivial, none, s', rfl, hs⟩
  cases action with
  | startForeground target deadline => exact hthen (start_became target)
  | terminateSession reason escalation => exact hthen (terminate_became reason escalation)
  | releaseDisplay => exact ⟨trivial, trivial, trivial, none, s, rfl, .self⟩
  | restoreStock attempt deadline => exact hthen (restore_became attempt)
  | captureDiagnostics reason => exact ⟨trivial, trivial, none, s, rfl, .self⟩
  | halt diagnosis => exact ⟨trivial, trivial, some diagnosis, s, rfl, .self⟩

theorem perform_became (actions : List Action) : (s.perform actions).Safe h (fun _ => True)
    (fun r _ => ∃ ended s', r = .ok (ended, s') ∧ s.Became s') w := by
  induction actions generalizing s w with
  | nil => exact ⟨trivial, none, s, rfl, .self⟩
  | cons action rest ih =>
    refine (execute_became action).bind (fun p w' hq => ?_) fun e => e.elim
    obtain ⟨ended, s', heq, hs⟩ := hq
    cases heq
    cases ended with
    | some diagnosis => exact ⟨trivial, _, s', rfl, hs⟩
    | none =>
      refine ih.mono (fun _ h => h) fun r w'' _ hr => ?_
      obtain ⟨ended, s'', rfl, hs'⟩ := hr
      exact ⟨ended, s'', rfl, hs.trans hs'⟩

theorem react_became (event : Event) : (s.react event).Safe h (fun _ => True)
    (fun r _ => ∃ ended s', r = .ok (ended, s') ∧
      s'.machine = (s.machine.handle event (h .instant w).1).2 ∧
      ∀ owner, .displayOwned owner ∈ s'.queued → .displayOwned owner ∈ s.queued) w := by
  refine ⟨trivial, (perform_became (s := { s with
    machine := (s.machine.handle event (h .instant w).1).2 }) _).mono (fun _ h => h)
      fun r w' _ hr => ?_⟩
  obtain ⟨ended, s', rfl, hs⟩ := hr
  exact ⟨ended, s', rfl, hs.machine, hs.queued⟩

end Parts

/-! ## Passes -/

section Passes

variable {e : Surroundings} {n n' n'' : Watch} {x : Desk × Watch} {s : Supervisor}

/-- In a pass of a switch, the client of the session was shown, unless a status misled. -/
def Watch.Decided (n n' : Watch) : Prop :=
  n.deciding = true → n'.misled = false → ∀ owner, n.target = some owner → n'.Shows owner

theorem Watch.Decided.later (h : n.Decided n') (hc : n'.Calmly n'') : n.Decided n'' :=
  fun hd hm owner ht => hc.shows (h hd (hc.misled hm) owner ht)

theorem Watch.Decided.earlier (hc : n.Calmly n') (h : n'.Decided n'') : n.Decided n'' :=
  fun hd hm owner ht => h (hc.deciding.trans hd) hm owner (hc.target.trans ht)

theorem reports_eq : Supervisor.compositorReportsAClientForeground =
    (call .compositorStatus).bind fun status => .done (namesClient status) :=
  congrArg (Prog.bind _) (funext fun status => by cases status <;> rfl)

/-- A status that names a client was written when the client of the session was in the foreground,
unless it misled. -/
theorem status_decides (h : x.2.Valid) :
    Supervisor.compositorReportsAClientForeground.Safe e.handler (fun _ => True)
      (fun r y => ∃ shown, r = .ok shown ∧ x.2.Calmly y.2 ∧ (shown = true → x.2.Decided y.2)) x := by
  rw [reports_eq]
  refine ⟨trivial, trivial, _, rfl, handler_calmly h trivial, fun hshown hd hm owner ht => ?_⟩
  have hmoves := happens_calmly (e.moves x.1.tick) h
  have hnames : namesClient (e.serve ((e.moves x.1.tick).foldl Surroundings.happens x).1
      .compositorStatus) = true := hshown
  have hm : ((e.moves x.1.tick).foldl Surroundings.happens x).2.misled = false ∧ _ :=
    Bool.or_eq_false_iff.1 hm
  have hread := hm.2
  rw [hmoves.deciding, hd, hnames, Bool.and_self, Bool.true_and, Bool.not_eq_false',
    Bool.and_eq_true, beq_iff_eq] at hread
  exact hmoves.valid.shows hread.1 hread.2 (hmoves.target.trans ht)

/-- What was collected about a session. -/
def Collected (s : Supervisor) (n : Watch) (r : Except Empty (List Event × Supervisor))
    (y : Desk × Watch) : Prop :=
  ∃ events s', r = .ok (events, s') ∧ s'.machine = s.machine ∧ s'.queued = s.queued ∧
    n.Calmly y.2 ∧ ∀ owner, .displayOwned owner ∈ events → n.Decided y.2

theorem displayOwned_not_mem_progressEvents {owner other : Foreground} {stall : ℕ}
    {w : ProgressWatch} {p : Poll} : .displayOwned other ∉ (progressEvents owner stall w p).1 := by
  unfold progressEvents
  dsimp only
  split <;> simp

theorem displayOwned_not_mem_commandEvents (command : Option String) (owner : Foreground) :
    .displayOwned owner ∉ Supervisor.commandEvents command := by
  unfold Supervisor.commandEvents
  repeat' split
  all_goals simp

theorem poll_collected (hc : n.Calmly x.2) (owner : Foreground) :
    (s.pollProgress owner).Safe e.handler (fun _ => True) (Collected s n) x := by
  unfold Supervisor.pollProgress
  split
  · exact ⟨trivial, [], s, rfl, rfl, rfl, hc, by simp⟩
  · next writer watch _ =>
    have h₁ := hc.trans (handler_calmly (e := e) (o := .device .now) hc.valid trivial)
    have h₂ := h₁.trans (handler_calmly (e := e) (o := .witness writer) h₁.valid trivial)
    exact ⟨trivial, trivial, trivial, _, _, rfl, rfl, rfl, h₂,
      fun _ hm => absurd hm displayOwned_not_mem_progressEvents⟩

theorem exitKind_startsNone (unit : String) : (Supervisor.exitKind unit).Only StartsNone :=
  ⟨trivial, fun _ => ⟨trivial, fun _ => ⟨trivial, fun _ => trivial⟩⟩⟩

theorem session_collected (hc : n.Calmly x.2) :
    s.collectSession.Safe e.handler (fun _ => True) (Collected s n) x := by
  unfold Supervisor.collectSession
  split
  · exact ⟨trivial, [], s, rfl, rfl, rfl, hc, by simp⟩
  · next unit _ =>
    have h₁ := hc.trans (handler_calmly (e := e) (o := .unitActive unit) hc.valid trivial)
    refine ⟨trivial, ?_⟩
    simp only [Prog.bind_done]
    split_ifs
    · refine (status_decides h₁.valid).bind (fun shown y hy => ?_) fun e => e.elim
      obtain ⟨_, heq, hcalm, hshown⟩ := hy
      cases heq
      refine ⟨trivial, _, s, rfl, rfl, rfl, h₁.trans hcalm, fun owner hm => ?_⟩
      cases shown with
      | false => simp at hm
      | true => exact .earlier h₁ (hshown rfl)
    · refine (status_decides h₁.valid).bind (fun shown y hy => ?_) fun e => e.elim
      obtain ⟨_, heq, hcalm, hshown⟩ := hy
      cases heq
      split_ifs
      · exact ⟨trivial, _, s, rfl, rfl, rfl, h₁.trans hcalm, by simp⟩
      · exact poll_collected (h₁.trans hcalm) _
    · refine (calmly_safe (exitKind_startsNone unit) h₁.valid).bind (fun status y hy => ?_) fun e => e.elim
      exact ⟨trivial, _, s, rfl, rfl, rfl, h₁.trans hy, by simp⟩
    · exact ⟨trivial, [], s, rfl, rfl, rfl, h₁, by simp⟩

/-- Stock is not among the owners that are observed with it. -/
theorem stock_collected (h : x.2.Valid) : s.collectStock.Safe e.handler (fun _ => True)
    (fun r y => ∃ stock, r = .ok stock ∧ x.2.Calmly y.2 ∧ ∀ owner, .displayOwned owner ∉ stock)
    x := by
  unfold Supervisor.collectStock
  split_ifs
  · refine ⟨trivial, trivial, _, rfl, handler_calmly h trivial, fun owner => ?_⟩
    split <;> simp
  · exact ⟨trivial, [], rfl, .self h, by simp⟩

theorem command_startsNone : Supervisor.takeCommand.Only StartsNone := by
  refine (call_startsNone (o := .readCommand) trivial).bind fun raw => ?_
  cases raw with
  | none => trivial
  | some raw => exact (call_startsNone (o := .removeCommand) trivial).bind fun _ => trivial

/-- What a pass of a switch collects is that its client was shown. -/
theorem collect_collected (h : x.2.Valid) (hq : ∀ owner, .displayOwned owner ∉ s.queued) :
    s.collect.Safe e.handler (fun _ => True) (Collected { s with queued := [] } x.2) x := by
  refine (calmly_safe command_startsNone h).bind (fun command y₁ h₁ => ?_) fun e => e.elim
  refine (session_collected (s := { s with queued := [] }) h₁).bind (fun p y₂ h₂ => ?_) fun e => e.elim
  obtain ⟨observed, s', heq, hm, hempty, hc, hobs⟩ := h₂
  cases heq
  refine (stock_collected (s := s') hc.valid).bind (fun stock y₃ h₃ => ?_) fun e => e.elim
  obtain ⟨_, heq, hcalm, hstock⟩ := h₃
  cases heq
  refine ⟨trivial, _, s', rfl, hm, hempty, hc.trans hcalm, fun owner hmem => ?_⟩
  have hcmd := displayOwned_not_mem_commandEvents command owner
  have hmem : .displayOwned owner ∈ observed := by simpa [hq, hcmd, hstock] using hmem
  exact (hobs owner hmem).later hcalm

end Passes

/-! ## Events -/

section Events

variable {m m' : Machine} {now : ℕ} {event : Event} {actions : List Action}

theorem Event.mark_displayOwned {mark : Pending → Pending} (h : event.mark = some mark)
    {p : Pending} (hp : (mark p).displayOwned = true) :
    p.displayOwned = true ∨ event = .displayOwned p.target := by
  cases event <;> simp only [Event.mark, reduceCtorEq, Option.some.injEq] at h <;> subst h
  case processReady =>
    dsimp only at hp
    split at hp <;> exact .inl hp
  case displayOwned owner =>
    dsimp only at hp
    split at hp
    next htarget => exact .inr (by rw [htarget])
    next => exact .inl hp
  all_goals exact .inl hp

/-- An event begins a switch, or starts nothing and leaves no switch but the one that there was. -/
theorem effect_begins (he : Effect m now (.event event) actions m') :
    (∃ to_, (to_ = .stock ∨ event = .switchRequested to_) ∧ actions = m.switchActions to_ now ∧
      m' = m.switching to_ now) ∨
    Quiet actions ∧ ∀ p', m'.pending = some p' → ∃ p, m.pending = some p ∧ p'.target = p.target ∧
      (p'.displayOwned = true → p.displayOwned = true ∨ event = .displayOwned p.target) := by
  have hsame {p' : Pending} (hp : m.pending = some p') : ∃ p, m.pending = some p ∧
      p'.target = p.target ∧
      (p'.displayOwned = true → p.displayOwned = true ∨ event = .displayOwned p.target) :=
    ⟨p', hp, rfl, .inl⟩
  cases he with
  | same => exact .inr ⟨quiet_nil, fun _ => hsame⟩
  | marked event mark p hmark hp =>
    refine .inr ⟨quiet_nil, fun p' hp' => ⟨p, hp, ?_⟩⟩
    cases hp'
    exact ⟨Event.mark_target hmark p, Event.mark_displayOwned hmark⟩
  | arrived => exact .inr ⟨quiet_nil, fun p' hp' => by cases hp'⟩
  | restored => exact .inr ⟨quiet_nil, fun p' hp' => by cases hp'⟩
  | began to_ input _ _ _ hb =>
    refine .inl ⟨to_, ?_, rfl, rfl⟩
    rcases hb with hb | ⟨rfl, -⟩
    · exact .inr (Input.event.inj hb)
    · exact .inl rfl
  | recover _ _ _ _ _ hx =>
    exact .inr ⟨quiet_recoveryActions hx, fun p' hp' => by cases hp'⟩
  | counted _ _ _ hx => exact .inr ⟨quiet_captured hx, fun _ => hsame⟩
  | again => exact .inr ⟨by simp [Quiet], fun _ => hsame⟩
  | halted => exact .inr ⟨by simp [Quiet, Machine.halt], fun p' hp' => by cases hp'⟩

/-- A session is confirmed by the arrival of a switch to it. -/
theorem effect_confirms (he : Effect m now (.event event) actions m')
    (hm : m.state.ownsDisplay = false) (hm' : m'.state.ownsDisplay = true) :
    actions = [] ∧ ∃ p, m.pending = some p ∧ p.target ≠ .stock ∧ m'.foreground = p.target ∧
      (p.displayOwned = true ∨ event = .displayOwned p.target) := by
  have hsame (h : m.state.ownsDisplay = true) : False := by
    rw [hm] at h
    cases h
  cases he with
  | same => exact (hsame hm').elim
  | marked => exact (hsame hm').elim
  | arrived event mark p hmark hp ha =>
    have hne : p.target ≠ .stock := by
      rintro heq
      simp [Machine.arrivedAt, heq, Foreground.arrivedState, SessionState.ownsDisplay] at hm'
    refine ⟨rfl, p, hp, hne, rfl, Event.mark_displayOwned hmark ?_⟩
    have htarget := Event.mark_target hmark p
    unfold Pending.arrived at ha
    split at ha
    next hstock => exact absurd (htarget.symm.trans hstock) hne
    next => exact (Bool.and_eq_true_iff.1 ha).2
  | restored => cases hm'
  | began => cases hm'
  | recover => cases hm'
  | counted => exact (hsame hm').elim
  | again => exact (hsame hm').elim
  | halted => cases hm'

theorem begins_quiet (h : Quiet (m.handle event now).1) : begins m event now = none := by
  rw [begins, List.findSome?_eq_none_iff]
  intro action hmem
  cases action with
  | startForeground target deadline => exact absurd rfl (h _ hmem target deadline)
  | _ => rfl

theorem begins_switch {to_ : Foreground} (h : (m.handle event now).1 = m.switchActions to_ now) :
    begins m event now = some to_ := by
  rw [begins, h, Machine.switchActions]
  split_ifs <;> rfl

end Events

/-! ## Runs -/

section Runs

variable {e : Surroundings} {x : Situation (Desk × Watch)}

/-- What holds between two events. -/
structure Sound (x : Situation (Desk × Watch)) : Prop where
  shape : Shape x.sup.machine
  valid : x.world.2.Valid
  queued : ∀ owner, .displayOwned owner ∉ x.sup.queued
  /-- The switch that is under way is the one that is watched, and what was observed of it is so. -/
  fair : x.world.2.misled = false → ∀ p, x.sup.machine.pending = some p → p.target ≠ .stock →
    x.world.2.target = some p.target ∧
      ((p.displayOwned = true ∨ .displayOwned p.target ∈ x.events) → x.world.2.Shows p.target)

theorem instant_eq (x : Desk × Watch) :
    (e.handler .instant x).1 = e.answer .instant x.1.tick :=
  congrArg (e.answer .instant) (tick_happens (e.moves x.1.tick))

theorem prepare_valid (h : x.world.2.Valid) : (e.prepare x).Valid := by
  have hkept (deciding misled : Bool) : { x.world.2 with deciding, misled }.Valid :=
    ⟨h.shown, h.fresh, h.named⟩
  unfold Surroundings.prepare
  split
  · split
    · exact ⟨fun hs => (by cases hs), fun hf => (by cases hf), fun hf => (by cases hf)⟩
    · exact hkept _ _
  · exact hkept _ _

/-- A pass keeps what holds, and decides nothing. -/
theorem Sound.pass (h : Sound x) (hended : x.ended = none) (hevents : x.events = []) :
    Sound (e.next x) ∧ (e.next x).sup.machine = x.sup.machine := by
  have hprepare : e.prepare x =
      { x.world.2 with deciding := x.sup.machine.state == .switching } := by
    rw [Surroundings.prepare, hended, hevents]
  obtain ⟨events, sup, w, ⟨events', sup', heq, hm, hq, hc, hobs⟩, hpass⟩ :=
    Situation.pass_of_safe (x := { x with world := (x.world.1, e.prepare x) })
      (collect_collected (e := e) (s := x.sup) (x := (x.world.1, e.prepare x))
        (prepare_valid h.valid) h.queued)
  cases heq
  have hnext : e.next x = ⟨sup, events, none, w⟩ := (Situation.next_nil
    (x := { x with world := (x.world.1, e.prepare x) }) hended hevents).trans hpass
  have hm : sup.machine = x.sup.machine := hm
  rw [hnext]
  refine ⟨⟨hm ▸ h.shape, hc.valid, fun owner hmem => ?_, fun hmisled p hp hne => ?_⟩, hm⟩
  · rw [hq] at hmem
    cases hmem
  · have hp : x.sup.machine.pending = some p := hm ▸ hp
    have hmis := hc.misled hmisled
    rw [hprepare] at hc hobs hmis
    obtain ⟨ht, hs⟩ := h.fair hmis p hp hne
    refine ⟨hc.target.trans ht, fun hor => ?_⟩
    rcases hor with howned | hmem
    · exact hc.shows (hs (.inl howned))
    · have hstate := h.shape.pending.1 (Option.isSome_of_eq_some hp)
      exact hobs p.target hmem (by simp [hstate]) hmisled p.target ht

section Turn

variable {event : Event} {rest : List Event}

/-- What the machine decides on an event is what becomes of it. -/
theorem Sound.turn_leaves (h : Sound x) (hended : x.ended = none) (hevents : x.events = event :: rest) :
    (e.next x).sup.machine = (x.sup.machine.handle event (e.answer .instant x.world.1.tick)).2 ∧
      (e.next x).events = rest ∧ (∀ owner, .displayOwned owner ∉ (e.next x).sup.queued) ∧
      (e.prepare x).Onward (e.next x).world.2 := by
  obtain ⟨ended, sup, w, ⟨⟨ended', sup', heq, hm, hq⟩, honward⟩, hturn⟩ :=
    Situation.turn_of_safe (r := rest) (x := { x with world := (x.world.1, e.prepare x) })
      ((react_became (s := x.sup) event).and
        (onward_safe (e := e) (x := (x.world.1, e.prepare x)) _ (prepare_valid h.valid)))
  cases heq
  have hnext : e.next x = ⟨sup, rest, ended, w⟩ := (Situation.next_cons
    (x := { x with world := (x.world.1, e.prepare x) }) hended hevents).trans hturn
  rw [hnext]
  refine ⟨?_, rfl, fun owner hmem => h.queued owner (hq owner hmem), honward⟩
  rw [hm, instant_eq]

/-- An event on which nothing starts takes nothing back. -/
theorem react_calmly {s : Supervisor} {y : Desk × Watch} (h : y.2.Valid)
    (hq : Quiet (s.machine.handle event (e.answer .instant y.1.tick)).1) :
    (s.react event).Safe e.handler (fun _ => True) (fun _ z => y.2.Calmly z.2) y := by
  have hcalm := handler_calmly (e := e) (o := .instant) h trivial
  rw [← instant_eq y] at hq
  exact ⟨trivial, (calmly_safe (perform_startsNone hq) hcalm.valid).mono (fun _ h => h)
    fun _ _ _ hz => hcalm.trans hz⟩

/-- Such an event begins no switch, and whoever was shown still was. -/
theorem Sound.turn_quiet (h : Sound x) (hended : x.ended = none) (hevents : x.events = event :: rest)
    (hq : Quiet (x.sup.machine.handle event (e.answer .instant x.world.1.tick)).1)
    (hm : (e.next x).world.2.misled = false) :
    x.world.2.misled = false ∧ (e.next x).world.2.target = x.world.2.target ∧
      ∀ owner, x.world.2.Shows owner → (e.next x).world.2.Shows owner := by
  have hprepare : e.prepare x = { x.world.2 with
      deciding := x.sup.machine.state == .switching
      misled := x.world.2.misled || early event rest } := by
    simp only [Surroundings.prepare, hended, hevents, begins_quiet hq]
  obtain ⟨ended, sup, w, hcalm, hturn⟩ := Situation.turn_of_safe (r := rest)
    (x := { x with world := (x.world.1, e.prepare x) })
    (react_calmly (e := e) (s := x.sup) (y := (x.world.1, e.prepare x)) (prepare_valid h.valid) hq)
  have hnext : e.next x = ⟨sup, rest, ended, w⟩ := (Situation.next_cons
    (x := { x with world := (x.world.1, e.prepare x) }) hended hevents).trans hturn
  rw [hnext] at hm ⊢
  have hmis := hcalm.misled hm
  rw [hprepare] at hcalm hmis
  exact ⟨(Bool.or_eq_false_iff.1 hmis).1, hcalm.target, fun owner hs => hcalm.shows hs⟩

/-- A switch that an event begins has nothing observed of it yet. -/
theorem prepare_begins {to_ : Foreground} (hended : x.ended = none)
    (hevents : x.events = event :: rest)
    (hb : begins x.sup.machine event (e.answer .instant x.world.1.tick) = some to_) :
    (e.prepare x).target = some to_ ∧
      ((e.prepare x).misled = false → early event rest = false) := by
  simp only [Surroundings.prepare, hended, hevents, hb]
  exact ⟨rfl, fun hm => (Bool.or_eq_false_iff.1 hm).2⟩

/-- An event keeps what holds. -/
theorem Sound.turn (h : Sound x) (hended : x.ended = none) (hevents : x.events = event :: rest) :
    Sound (e.next x) := by
  obtain ⟨hm, hrest, hqueued, honward⟩ := h.turn_leaves (e := e) hended hevents
  have he : Effect x.sup.machine _ (.event event) _ _ :=
    step_effect x.sup.machine ⟨.event event, e.answer .instant x.world.1.tick⟩
  refine ⟨hm ▸ h.shape.effect he, honward.valid, hqueued, fun hmisled p' hp' hne => ?_⟩
  have hp' : (x.sup.machine.handle event (e.answer .instant x.world.1.tick)).2.pending = some p' :=
    hm ▸ hp'
  rw [hrest]
  rcases effect_begins he with ⟨to_, hto, hactions, hmachine⟩ | ⟨hq, hpending⟩
  · obtain ⟨htarget, hearly⟩ := prepare_begins (e := e) hended hevents (begins_switch hactions)
    have hmachine : (x.sup.machine.handle event (e.answer .instant x.world.1.tick)).2 = _ := hmachine
    rw [hmachine] at hp'
    cases hp'
    refine ⟨honward.target.trans htarget, fun hor => ?_⟩
    rcases hor with howned | hmem
    · cases howned
    · obtain rfl := hto.resolve_left hne
      have hnone := hearly (honward.misled hmisled)
      rw [early, ← Bool.not_eq_true, List.contains_iff_mem] at hnone
      exact absurd hmem hnone
  · obtain ⟨p, hp, htarget, howned⟩ := hpending p' hp'
    obtain ⟨hmis, hsame, hshows⟩ := h.turn_quiet hended hevents hq hmisled
    obtain ⟨ht, hs⟩ := h.fair hmis p hp (htarget ▸ hne)
    rw [htarget, hsame]
    refine ⟨ht, fun hor => hshows _ (hs ?_)⟩
    rw [hevents]
    rcases hor with hnow | hmem
    · rcases howned hnow with hbefore | rfl
      · exact .inl hbefore
      · exact .inr List.mem_cons_self
    · exact .inr (List.mem_cons_of_mem _ hmem)

end Turn

/-- What happens next keeps what holds. -/
theorem Sound.next (h : Sound x) : Sound (e.next x) := by
  cases hended : x.ended with
  | some diagnosis =>
    have hnext : e.next x = { x with world := (x.world.1,
        { x.world.2 with deciding := x.sup.machine.state == .switching }) } := by
      simp only [Surroundings.next, Situation.next, Surroundings.prepare, hended]
    rw [hnext]
    exact ⟨h.shape, ⟨h.valid.shown, h.valid.fresh, h.valid.named⟩, h.queued, h.fair⟩
  | none =>
    cases hevents : x.events with
    | nil => exact (h.pass hended hevents).1
    | cons event rest => exact h.turn hended hevents

/-- A session that is confirmed was shown. -/
theorem Sound.confirms (h : Sound x) (hm : (e.next x).world.2.misled = false)
    (hc : x.confirms (e.next x) = true) :
    (e.next x).world.2.Shows (e.next x).sup.machine.foreground := by
  obtain ⟨hbefore, hafter⟩ := Bool.and_eq_true_iff.1 hc
  have hbefore : x.sup.machine.state.ownsDisplay = false := by simpa using hbefore
  have hmoved : (e.next x).sup.machine ≠ x.sup.machine := by
    rintro heq
    rw [heq, hbefore] at hafter
    cases hafter
  cases hended : x.ended with
  | some diagnosis =>
    refine absurd ?_ hmoved
    simp only [Surroundings.next, Situation.next, hended]
  | none =>
    cases hevents : x.events with
    | nil =>
      exact absurd (h.pass hended hevents).2 hmoved
    | cons event rest =>
      have hmachine := (h.turn_leaves (e := e) hended hevents).1
      rw [hmachine] at hafter
      obtain ⟨hactions, p, hp, hne, hforeground, howned⟩ := effect_confirms
        (step_effect x.sup.machine ⟨.event event, e.answer .instant x.world.1.tick⟩) hbefore hafter
      have hq : Quiet (x.sup.machine.handle event (e.answer .instant x.world.1.tick)).1 :=
        (congrArg Quiet hactions).mpr quiet_nil
      obtain ⟨hmis, -, hshows⟩ := h.turn_quiet hended hevents hq hm
      rw [hmachine]
      refine hforeground ▸ hshows _ ((h.fair hmis p hp hne).2 ?_)
      rw [hevents]
      rcases howned with howned | rfl
      · exact .inl howned
      · exact .inr List.mem_cons_self

end Runs

variable (e : Surroundings) (budget : Budget) (policy : FailurePolicy) (progressStall : ℕ) (d : Desk)

theorem runs_sound (n : ℕ) : Sound (e.runs (.new budget policy progressStall) d n) := by
  induction n with
  | zero =>
    refine ⟨shape_new _ _, ⟨fun h => (by cases h), fun h => (by cases h), fun h => (by cases h)⟩,
      fun owner hm => (by cases hm), fun _ p hp => (by cases hp)⟩
  | succ n ih => exact ih.next

/-- Whatever the units, the clients and the compositor do, and whenever it writes its status: a session
is confirmed only after its unit was started and its client was in the foreground, as long as no status
misled. -/
theorem foreground_is_shown (n : ℕ)
    (hm : (e.runs (.new budget policy progressStall) d (n + 1)).world.2.misled = false)
    (hc : (e.runs (.new budget policy progressStall) d n).confirms
      (e.runs (.new budget policy progressStall) d (n + 1)) = true) :
    (e.runs (.new budget policy progressStall) d (n + 1)).world.2.Shows
      (e.runs (.new budget policy progressStall) d (n + 1)).sup.machine.foreground :=
  (runs_sound e budget policy progressStall d n).confirms hm hc

/-! ## A status that is too old -/

namespace Surroundings

/-- A tablet on which every unit comes up. -/
def tablet : Lab := ⟨false, [], none, false⟩

/-- Home is asked for, and becomes a client. Then a game is asked for, which never does. -/
def late : Surroundings where
  answer op tick := match op with
    | .readCommand =>
      if tick = 0 then some "home" else if tick = 15 then some "app dev.calum.chess" else none
    | .unitActive _ => true
    | op => (Lab.step op tablet).1
  moves tick := if tick = 9 then [.connects .home ⟨.home, "home", ⟨1, 1⟩⟩, .writes] else []

end Surroundings

def Desk.empty : Desk := ⟨0, .bind ⟨1, 1⟩, fun _ => none, none⟩

/-- Home is confirmed after it was shown. -/
theorem home_is_shown :
    (Surroundings.late.runs (.new .default .default second) .empty 7).world.2.Shows .home :=
  foreground_is_shown .late .default .default second .empty 6 (by decide +kernel) (by decide +kernel)

/-- The game is confirmed by the status of Home. -/
theorem stale_status_confirms : ¬ ∀ (e : Surroundings) (budget : Budget) (policy : FailurePolicy)
    (progressStall : ℕ) (d : Desk) (n : ℕ),
    (e.runs (.new budget policy progressStall) d n).confirms
      (e.runs (.new budget policy progressStall) d (n + 1)) = true →
    (e.runs (.new budget policy progressStall) d (n + 1)).world.2.Shows
      (e.runs (.new budget policy progressStall) d (n + 1)).sup.machine.foreground := fun h =>
  absurd (h .late .default .default second .empty 13 (by decide +kernel)) (by decide +kernel)

end Paperclip.Host
