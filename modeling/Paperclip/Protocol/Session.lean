import Paperclip.Protocol.Message
import Mathlib.Data.List.Basic
import Mathlib.Data.List.Pairwise
import Mathlib.Order.Basic

/-!
# Sessions

The host's side of one app connection. `Session` validates what the app says and makes what the
host says.

* `Session.onAppMessage`, `draw`, `suspend`, `resume`, `prepareToExit`, `close`: the operations. A
  panic is `none`.
* `Move`: everything that a call can do.
* `Kept`: what a session and the turns before it have to do with each other.
-/

namespace Paperclip.Protocol

/-- Where a connection is in its life. -/
inductive State where
  | greeting
  | running
  | suspended
  | exiting
  | closed
  deriving DecidableEq, Repr

/-- A message that broke the contract. -/
inductive Violation where
  | beforeReady (message : String)
  | alreadyReady
  | unsupportedProtocol (app host : ProtocolVersion)
  | unknownFrame (frame : Nat)
  | noFrameOutstanding
  | tooMuchDamage (count max : Nat)
  | diagnosticTooLong (len max : Nat)
  | savedWithoutExit
  | savedWrongReason (expected actual : ExitReason)
  | afterExit (message : String)
  | afterClose (message : String)
  deriving DecidableEq, Repr

/-- Why a host action was not available. -/
inductive HostFault where
  | wrongState (state : State)
  | frameOutstanding (frame : Nat)
  deriving DecidableEq, Repr

/-- One app connection, from the host's side. -/
structure Session where
  id : Nat
  hostProtocol : ProtocolVersion
  appProtocol : Option ProtocolVersion
  viewport : Size
  state : State
  nextFrame : FrameId
  outstanding : Option FrameId
  exiting : Option ExitReason
  deriving DecidableEq

namespace Session

/-- A session that has just had its `Hello` sent. -/
def greeting (id : Nat) (hostProtocol : ProtocolVersion) (viewport : Size) : Session where
  id
  hostProtocol
  appProtocol := none
  viewport
  state := .greeting
  nextFrame := .FIRST
  outstanding := none
  exiting := none

/-- How many rectangles a frame claims, where the whole surface counts as none. -/
def claimed (damage : Damage) : Nat := (damage.regions?.getD []).length

/-- Checks one message. `none` is a panic: the session is exiting and has no reason. -/
def checkAppMessage (s : Session) (message : AppMessage) : Option (Except Violation Session) :=
  match s.state, message with
  | .closed, message => some (.error (.afterClose message.name))
  -- legal in every state in which an app can still speak
  | _, .diagnostic diagnostic =>
    if MAX_DIAGNOSTIC_BYTES < diagnostic.message.utf8ByteSize then
      some (.error (.diagnosticTooLong diagnostic.message.utf8ByteSize MAX_DIAGNOSTIC_BYTES))
    else some (.ok s)
  | .greeting, .ready ready =>
    if s.hostProtocol.canRun ready.protocol then
      some (.ok { s with appProtocol := some ready.protocol, state := .running })
    else some (.error (.unsupportedProtocol ready.protocol s.hostProtocol))
  | .greeting, message => some (.error (.beforeReady message.name))
  | .exiting, .saved saved =>
    match s.exiting with
    | none => none
    | some expected =>
      if saved.reason = expected then some (.ok { s with state := .closed })
      else some (.error (.savedWrongReason expected saved.reason))
  | .exiting, message => some (.error (.afterExit message.name))
  | _, .ready _ => some (.error .alreadyReady)
  | _, .frame done =>
    match s.outstanding with
    | none => some (.error .noFrameOutstanding)
    | some outstanding =>
      if done.frame ≠ outstanding then some (.error (.unknownFrame done.frame.get))
      else if MAX_DAMAGE_RECTS < claimed done.damage then
        some (.error (.tooMuchDamage (claimed done.damage) MAX_DAMAGE_RECTS))
      else some (.ok { s with outstanding := none })
  | _, .request _ => some (.ok s)
  | _, .systemQuery _ => some (.ok s)
  | _, .saved _ => some (.error .savedWithoutExit)

/-- Validates one message from the app and folds it into the session. A violation closes it. -/
def onAppMessage (s : Session) (message : AppMessage) : Option (Except Violation Unit × Session) :=
  (s.checkAppMessage message).map fun
    | .ok s' => (.ok (), s')
    | .error violation => (.error violation, { s with state := .closed })

/-- The next draw request. -/
def draw (s : Session) (reason : DrawReason) : Except HostFault HostMessage × Session :=
  if s.state ≠ .running then (.error (.wrongState s.state), s)
  else
    match s.outstanding with
    | some frame => (.error (.frameOutstanding frame.get), s)
    | none =>
      (.ok (.draw ⟨s.nextFrame, reason, s.viewport⟩),
        { s with nextFrame := s.nextFrame.next, outstanding := some s.nextFrame })

/-- Marks the app suspended. An outstanding frame is abandoned. -/
def suspend (s : Session) : Option HostMessage × Session :=
  if s.state ≠ .running then (none, s)
  else (some (.lifecycle .suspended), { s with outstanding := none, state := .suspended })

/-- Marks the app running again. -/
def resume (s : Session) : Option HostMessage × Session :=
  if s.state ≠ .suspended then (none, s)
  else (some (.lifecycle .resumed), { s with state := .running })

/-- Asks the app to save, with a bounded deadline. -/
def prepareToExit (s : Session) (reason : ExitReason) (deadline : Duration) :
    Option HostMessage × Session :=
  match s.state with
  | .running | .suspended =>
    (some (.lifecycle (.ofDeadline reason deadline)),
      { s with outstanding := none, state := .exiting, exiting := some reason })
  | _ => (none, s)

/-- `prepareToExit` with the default budget. -/
def prepareToExitDefault (s : Session) (reason : ExitReason) : Option HostMessage × Session :=
  s.prepareToExit reason EXIT_DEADLINE

/-- Closes the session, and says goodbye if that is still owed. -/
def close (s : Session) : Option HostMessage × Session :=
  if s.state = .closed then (none, s) else (some .goodbye, { s with state := .closed })

end Session

/-! ## Turns -/

/-- A call on a session: a message from the app, or an action of the host. -/
inductive Call where
  | message (message : AppMessage)
  | draw (reason : DrawReason)
  | suspend
  | resume
  | prepareToExit (reason : ExitReason) (deadline : Duration)
  | prepareToExitDefault (reason : ExitReason)
  | close

/-- What a call comes to. -/
inductive Answer where
  | accepted
  | violation (violation : Violation)
  | said (message : HostMessage)
  | fault (fault : HostFault)
  | silent
  deriving DecidableEq

/-- The answer that an optional message is. -/
def Answer.ofOption : Option HostMessage → Answer
  | some message => said message
  | none => silent

/-- A call, unless it panics. -/
def Session.call (s : Session) : Call → Option (Answer × Session)
  | .message message =>
    (s.onAppMessage message).map fun
      | (.ok (), s') => (.accepted, s')
      | (.error violation, s') => (.violation violation, s')
  | .draw reason =>
    match s.draw reason with
    | (.ok message, s') => some (.said message, s')
    | (.error fault, s') => some (.fault fault, s')
  | .suspend => some (.ofOption s.suspend.1, s.suspend.2)
  | .resume => some (.ofOption s.resume.1, s.resume.2)
  | .prepareToExit reason deadline =>
    some (.ofOption (s.prepareToExit reason deadline).1, (s.prepareToExit reason deadline).2)
  | .prepareToExitDefault reason =>
    some (.ofOption (s.prepareToExitDefault reason).1, (s.prepareToExitDefault reason).2)
  | .close => some (.ofOption s.close.1, s.close.2)

/-- One call, with the session before and after it. -/
structure Turn where
  before : Session
  call : Call
  answer : Answer
  after : Session

/-- The turns of a sequence of calls and the session that they leave, unless one panics. -/
def Session.run (s : Session) : List Call → Option (List Turn × Session)
  | [] => some ([], s)
  | c :: calls => do
    let (answer, s') ← s.call c
    let (turns, last) ← s'.run calls
    pure (⟨s, c, answer, s'⟩ :: turns, last)

/-- What a call can do. -/
inductive Move (s : Session) : Call → Answer → Session → Prop where
  | violation {m : AppMessage} {v : Violation}
      (h : s.state = .closed → v = .afterClose m.name) :
      Move s (.message m) (.violation v) { s with state := .closed }
  | tolerated {m : AppMessage} (h : s.state ≠ .closed) (hm : ∀ done, m ≠ .frame done) :
      Move s (.message m) .accepted s
  | ready {r : Ready} (h : s.state = .greeting) :
      Move s (.message (.ready r)) .accepted
        { s with appProtocol := some r.protocol, state := .running }
  | frame {done : FrameDone} (h : s.state = .running ∨ s.state = .suspended)
      (ho : s.outstanding = some done.frame) :
      Move s (.message (.frame done)) .accepted { s with outstanding := none }
  | saved {saved : Saved} (h : s.state = .exiting) :
      Move s (.message (.saved saved)) .accepted { s with state := .closed }
  | draw {reason : DrawReason} (h : s.state = .running) (ho : s.outstanding = none) :
      Move s (.draw reason) (.said (.draw ⟨s.nextFrame, reason, s.viewport⟩))
        { s with nextFrame := s.nextFrame.next, outstanding := some s.nextFrame }
  | fault {reason : DrawReason} {f : HostFault} : Move s (.draw reason) (.fault f) s
  | suspend (h : s.state = .running) :
      Move s .suspend (.said (.lifecycle .suspended))
        { s with outstanding := none, state := .suspended }
  | resume (h : s.state = .suspended) :
      Move s .resume (.said (.lifecycle .resumed)) { s with state := .running }
  | prepare {c : Call} {reason : ExitReason} {deadlineMs : Nat} (hc : ∀ m, c ≠ .message m)
      (h : s.state = .running ∨ s.state = .suspended) :
      Move s c (.said (.lifecycle (.prepareToExit reason deadlineMs)))
        { s with outstanding := none, state := .exiting, exiting := some reason }
  | close (h : s.state ≠ .closed) : Move s .close (.said .goodbye) { s with state := .closed }
  | silent {c : Call} (hc : ∀ m, c ≠ .message m) : Move s c .silent s

/-- A session that is exiting knows why, and only a running one waits for a frame. -/
structure Session.Sound (s : Session) : Prop where
  reason : s.state = .exiting → s.exiting.isSome
  outstanding : ∀ f, s.outstanding = some f → s.state = .running ∨ s.state = .closed

namespace Session

variable {s s' : Session}

theorem sound_greeting (id : Nat) (host : ProtocolVersion) (viewport : Size) :
    (greeting id host viewport).Sound :=
  ⟨(fun h => by cases h), fun _ h => (by cases h)⟩

/-- The checks of an app that is neither starting nor leaving. -/
theorem check_speaking (hs : s.state = .running ∨ s.state = .suspended) (m : AppMessage) :
    s.checkAppMessage m = match m with
      | .ready _ => some (.error .alreadyReady)
      | .frame done =>
        match s.outstanding with
        | none => some (.error .noFrameOutstanding)
        | some outstanding =>
          if done.frame ≠ outstanding then some (.error (.unknownFrame done.frame.get))
          else if MAX_DAMAGE_RECTS < claimed done.damage then
            some (.error (.tooMuchDamage (claimed done.damage) MAX_DAMAGE_RECTS))
          else some (.ok { s with outstanding := none })
      | .request _ | .systemQuery _ => some (.ok s)
      | .saved _ => some (.error .savedWithoutExit)
      | .diagnostic diagnostic =>
        if MAX_DIAGNOSTIC_BYTES < diagnostic.message.utf8ByteSize then
          some (.error (.diagnosticTooLong diagnostic.message.utf8ByteSize MAX_DIAGNOSTIC_BYTES))
        else some (.ok s) := by
  rcases hs with hs | hs <;> cases m <;> simp only [checkAppMessage, hs]

/-- A diagnostic is accepted while the session is open. -/
theorem check_diagnostic (hs : s.state ≠ .closed) {d : Diagnostic}
    (hlen : d.message.utf8ByteSize ≤ MAX_DIAGNOSTIC_BYTES) :
    s.checkAppMessage (.diagnostic d) = some (.ok s) := by
  cases h : s.state with
  | closed => exact absurd h hs
  | _ => simp only [checkAppMessage, h, if_neg (Nat.not_lt.mpr hlen)]

theorem speaking_moves (hs : s.state = .running ∨ s.state = .suspended) (m : AppMessage) :
    (∃ v, s.checkAppMessage m = some (.error v) ∧ (s.state = .closed → v = .afterClose m.name)) ∨
      ∃ s', s.checkAppMessage m = some (.ok s') ∧ Move s (.message m) .accepted s' := by
  have hopen : s.state ≠ .closed := by rcases hs with hs | hs <;> simp [hs]
  rw [check_speaking hs]
  cases m with
  | ready => exact .inl ⟨_, rfl, fun hc => absurd hc hopen⟩
  | frame done =>
    dsimp only
    split
    · exact .inl ⟨_, rfl, fun hc => absurd hc hopen⟩
    next outstanding ho =>
    split
    · exact .inl ⟨_, rfl, fun hc => absurd hc hopen⟩
    next hframe =>
    split
    · exact .inl ⟨_, rfl, fun hc => absurd hc hopen⟩
    · exact .inr ⟨_, rfl, .frame hs (ho.trans (congrArg some (not_ne_iff.mp hframe).symm))⟩
  | request => exact .inr ⟨s, rfl, .tolerated hopen fun _ h => (by cases h)⟩
  | systemQuery => exact .inr ⟨s, rfl, .tolerated hopen fun _ h => (by cases h)⟩
  | saved => exact .inl ⟨_, rfl, fun hc => absurd hc hopen⟩
  | diagnostic =>
    dsimp only
    split
    · exact .inl ⟨_, rfl, fun hc => absurd hc hopen⟩
    · exact .inr ⟨s, rfl, .tolerated hopen fun _ h => (by cases h)⟩

/-- A message that is checked is refused, for the close if the session is closed, or it does what a
move says. -/
theorem check_moves (h : s.Sound) (m : AppMessage) :
    (∃ v, s.checkAppMessage m = some (.error v) ∧ (s.state = .closed → v = .afterClose m.name)) ∨
      ∃ s', s.checkAppMessage m = some (.ok s') ∧ Move s (.message m) .accepted s' := by
  cases hs : s.state with
  | closed => exact .inl ⟨_, by simp only [checkAppMessage, hs], fun _ => rfl⟩
  | greeting =>
    have hopen : s.state ≠ .closed := by simp [hs]
    cases m <;> simp only [checkAppMessage, hs]
    case ready =>
      split
      · exact .inr ⟨_, rfl, .ready hs⟩
      · exact .inl ⟨_, rfl, fun h => (by cases h)⟩
    case diagnostic =>
      split
      · exact .inl ⟨_, rfl, fun h => (by cases h)⟩
      · exact .inr ⟨_, rfl, .tolerated hopen fun _ h => (by cases h)⟩
    all_goals exact .inl ⟨_, rfl, fun h => (by cases h)⟩
  | exiting =>
    have hopen : s.state ≠ .closed := by simp [hs]
    cases m <;> simp only [checkAppMessage, hs]
    case saved =>
      split
      · next hnone => exact absurd (h.reason hs) (by simp [hnone])
      split
      · exact .inr ⟨_, rfl, .saved hs⟩
      · exact .inl ⟨_, rfl, fun h => (by cases h)⟩
    case diagnostic =>
      split
      · exact .inl ⟨_, rfl, fun h => (by cases h)⟩
      · exact .inr ⟨_, rfl, .tolerated hopen fun _ h => (by cases h)⟩
    all_goals exact .inl ⟨_, rfl, fun h => (by cases h)⟩
  | running => exact hs ▸ speaking_moves (.inl hs) m
  | suspended => exact hs ▸ speaking_moves (.inr hs) m

/-- Every call has an answer, and does what a move says. -/
theorem call_moves (h : s.Sound) (c : Call) :
    ∃ answer s', s.call c = some (answer, s') ∧ Move s c answer s' := by
  cases c with
  | message m =>
    rcases check_moves h m with ⟨v, hcheck, hv⟩ | ⟨s', hcheck, hmove⟩
    · exact ⟨_, _, by simp only [call, onAppMessage, hcheck, Option.map_some], .violation hv⟩
    · exact ⟨_, _, by simp only [call, onAppMessage, hcheck, Option.map_some], hmove⟩
  | draw reason =>
    by_cases hstate : s.state = .running
    · cases ho : s.outstanding with
      | some frame =>
        exact ⟨.fault (.frameOutstanding frame.get), s, by simp [call, draw, hstate, ho], .fault⟩
      | none => exact ⟨_, _, by simp [call, draw, hstate, ho], .draw hstate ho⟩
    · exact ⟨.fault (.wrongState s.state), s, by simp [call, draw, hstate], .fault⟩
  | suspend =>
    simp only [call, suspend]
    split
    · exact ⟨_, _, rfl, .silent fun _ h => (by cases h)⟩
    · next hstate => exact ⟨_, _, rfl, .suspend (not_ne_iff.mp hstate)⟩
  | resume =>
    simp only [call, resume]
    split
    · exact ⟨_, _, rfl, .silent fun _ h => (by cases h)⟩
    · next hstate => exact ⟨_, _, rfl, .resume (not_ne_iff.mp hstate)⟩
  | prepareToExit reason deadline =>
    simp only [call, prepareToExit]
    split
    · next hstate => exact ⟨_, _, rfl, .prepare (fun _ h => (by cases h)) (.inl hstate)⟩
    · next hstate => exact ⟨_, _, rfl, .prepare (fun _ h => (by cases h)) (.inr hstate)⟩
    · exact ⟨_, _, rfl, .silent fun _ h => (by cases h)⟩
  | prepareToExitDefault reason =>
    simp only [call, prepareToExitDefault, prepareToExit]
    split
    · next hstate => exact ⟨_, _, rfl, .prepare (fun _ h => (by cases h)) (.inl hstate)⟩
    · next hstate => exact ⟨_, _, rfl, .prepare (fun _ h => (by cases h)) (.inr hstate)⟩
    · exact ⟨_, _, rfl, .silent fun _ h => (by cases h)⟩
  | close =>
    simp only [call, close]
    split
    · exact ⟨_, _, rfl, .silent fun _ h => (by cases h)⟩
    · next hstate => exact ⟨_, _, rfl, .close hstate⟩

/-- A call keeps a session sound. -/
theorem Sound.move {c : Call} {answer : Answer} (h : s.Sound) (hm : Move s c answer s') : s'.Sound := by
  cases hm with
  | violation => exact ⟨(fun h => by cases h), fun _ _ => .inr rfl⟩
  | tolerated => exact h
  | ready hs => exact ⟨(fun h => by cases h), fun _ _ => .inl rfl⟩
  | frame => exact ⟨h.reason, fun _ h => (by cases h)⟩
  | saved => exact ⟨(fun h => by cases h), fun _ _ => .inr rfl⟩
  | draw hs => exact ⟨h.reason, fun _ _ => .inl hs⟩
  | fault => exact h
  | suspend => exact ⟨(fun h => by cases h), fun _ h => (by cases h)⟩
  | resume => exact ⟨(fun h => by cases h), fun _ _ => .inl rfl⟩
  | prepare => exact ⟨fun _ => rfl, fun _ h => (by cases h)⟩
  | close => exact ⟨(fun h => by cases h), fun _ _ => .inr rfl⟩
  | silent => exact h

end Session

end Paperclip.Protocol
