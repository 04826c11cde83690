import Paperclip.Crash.Safe
import Paperclip.Updater.Verdict

/-!
# The boot launcher

Whether a boot starts Paperclip, and how the launcher grades what came of it.

* `BootCounter`: how many boots in a row were attempted without reaching Home; `BootCounter.decide`:
  what the launcher makes of it.
* `run`: the launcher, a program of single operations, between any two of which it may be killed.
* `World`: what the launcher reads and writes, and a diary of what happened. `Move`: what others do to
  it, the supervisor's writes to its status file and the commands of the operator among them.
* `handler`: the launcher's operations, with others' moves before each of them. `Arises`: the worlds
  that a sequence of boots comes to.
-/

namespace Paperclip.Boot

open Crash Packages Updater

/-! ## The counter -/

/-- How many boots in a row may fail to reach Home before the launcher stops trying. -/
def MAX_BOOT_ATTEMPTS : ℕ := 3

/-- How many consecutive boots have been attempted without reaching Home. -/
structure BootCounter where
  attempts : ℕ
  deriving DecidableEq

/-- What durable state could not be read or written. -/
inductive BootError where
  | corruptCounter (text : String)
  | io (source : String)
  | store (source : String)

def BootError.describe : BootError → String
  | corruptCounter text => s!"not a boot counter (`{text}`)"
  | io source | store source => source

/-- A number below `2 ^ 32`, which a sign may precede. -/
def parseU32 (text : List Char) : Option ℕ := (parseU64 text).filter (· < 2 ^ 32)

namespace BootCounter

/-- The counter that a file spells. -/
def parse (text : String) : Except BootError BootCounter :=
  match parseU32 (trim text.toList) with
  | some attempts => .ok ⟨attempts⟩
  | none => .error (.corruptCounter text)

/-- Reads the counter. A missing file reads as zero. -/
def read : Option String → Except BootError BootCounter
  | none => .ok ⟨0⟩
  | some text => parse text

/-- The file body for a counter. -/
def toText (counter : BootCounter) : String := s!"{counter.attempts}\n"

/-- Whether this many consecutive failures means "stop trying". -/
def exhausted (counter : BootCounter) : Bool := MAX_BOOT_ATTEMPTS ≤ counter.attempts

end BootCounter

/-- Why the launcher is not starting Paperclip. -/
inductive SkipReason where
  | disabled
  | attemptsExhausted (attempts : ℕ)

/-- One line worth recording as the reason. -/
def SkipReason.describe : SkipReason → String
  | disabled => "autostart is disabled"
  | attemptsExhausted attempts =>
    s!"{attempts} consecutive boot attempt(s) failed to reach Home; " ++
      "autostart refuses to try again until it is reset"

/-- What the launcher should do this boot. -/
inductive Decision where
  | launch
  | skip (reason : SkipReason)

/-- Decides what this boot should do. The marker goes before the counter. -/
def BootCounter.decide (counter : BootCounter) (disabled : Bool) : Decision :=
  if disabled then .skip .disabled
  else if counter.exhausted then .skip (.attemptsExhausted counter.attempts)
  else .launch

/-! ## The launcher -/

/-- What has to be in place before the supervisor is started, or asked for Home. -/
inductive Preparation where
  | stateDirectory
  | config
  | shippedApps
  | homeUnit
  | supervisorUnits
  | command

/-- The operations of the launcher. -/
inductive Call where
  | isDisabled
  | readCounter
  | writeCounter (counter : BootCounter)
  | disable (reason : String)
  | prepare (what : Preparation)
  | removeStatus
  | start
  | readStatus
  | alive
  | late

/-- What an operation answers. `late` is how much later it is than the polls alone take. -/
@[reducible] def Call.Ret : Call → Type
  | isDisabled | alive => Bool
  | readCounter => Except BootError BootCounter
  | writeCounter _ | disable _ => Except BootError Unit
  | prepare _ | start => Except String Unit
  | removeStatus => Unit
  | readStatus => Option String
  | late => ℕ

@[reducible] def calls : Sig := ⟨Call, Call.Ret⟩

/-- A program of the launcher. -/
abbrev LauncherProg := Prog calls String

/-- Reads the counter of the device. -/
def readCounter : Prog calls BootError BootCounter := .step (S := calls) .readCounter .ofExcept

def writeCounter (counter : BootCounter) : Prog calls BootError Unit :=
  .step (S := calls) (.writeCounter counter) .ofExcept

/-- Records that a boot is being attempted. -/
def recordAttempt : Prog calls BootError BootCounter := do
  let current ← readCounter
  let next : BootCounter := ⟨current.attempts + 1⟩
  writeCounter next
  pure next

/-- Resets the counter to zero: this boot reached Home. -/
def markGood : Prog calls BootError Unit := writeCounter ⟨0⟩

def prepare (what : Preparation) : LauncherProg Unit :=
  .step (S := calls) (.prepare what) .ofExcept

/-- What the boot ended up being. -/
inductive Reached where
  | home
  | other (state diagnosis : String)

/-- The budget for Home, and the time between two polls, in milliseconds. -/
def BOOT_GRADE_BUDGET : ℕ := 45000

def POLL_INTERVAL : ℕ := 500

/-- How many sleeps take the whole budget. -/
def POLLS : ℕ := BOOT_GRADE_BUDGET / POLL_INTERVAL

/-- What a status says about how the boot ended, if it did. -/
def grade (status : String) : Option Reached :=
  let state := (statusField status "state").getD ""
  if state = "home" then some .home
  else if state = "failed" ∨ state = "recovering" then
    some (.other state ((statusField status "diagnosis").getD ""))
  else none

/-- The budget ran out. -/
def expired : LauncherProg Reached := do
  let status ← Prog.ask (S := calls) .readStatus
  pure (.other ((status.bind (statusField · "state")).getD "unknown")
    s!"deadline of {BOOT_GRADE_BUDGET / 1000}s expired before Home arrived")

/-- One poll of the status file for `state=home`, after `slept` sleeps, and what follows if the budget
may not be over. -/
def poll (slept : ℕ) (next : (elapsed : ℕ) → LauncherProg Reached) : LauncherProg Reached := do
  let status ← Prog.ask (S := calls) .readStatus
  match status.bind grade with
  | some reached => pure reached
  | none => do
    let alive ← Prog.ask (S := calls) .alive
    let late ← Prog.ask (S := calls) .late
    if !alive && 2000 < slept * POLL_INTERVAL + late then
      pure (.other "absent" "the supervisor exited before reaching Home")
    else do
      let late ← Prog.ask (S := calls) .late
      next (slept * POLL_INTERVAL + late)

/-- Polls until the status says how the boot ended, or the budget is over, as it is after the last of
the sleeps that are `left`. -/
def watchForHome : (left : ℕ) → LauncherProg Reached
  | 0 => poll POLLS fun _ => expired
  | left + 1 => poll (POLLS - (left + 1)) fun elapsed =>
    if BOOT_GRADE_BUDGET ≤ elapsed then expired else watchForHome left

/-- Starts the supervisor. The old status is removed first, if it can be. -/
def bringUp : LauncherProg Unit := do
  let _ ← Prog.ask (S := calls) .removeStatus
  prepare .supervisorUnits
  (Prog.step (S := calls) .start .ofExcept).mapError
    fun (e : String) => s!"starting the supervisor: {e}"

/-- Starts Paperclip, and grades the result. -/
def launch : LauncherProg Unit := do
  let _ ← recordAttempt.mapError fun e => s!"recording the boot attempt: {e.describe}"
  prepare .stateDirectory
  prepare .config
  prepare .shippedApps
  prepare .homeUnit
  bringUp
  prepare .command
  match ← watchForHome POLLS with
  | .home => markGood.mapError fun e => s!"resetting the boot counter: {e.describe}"
  | .other _ _ => pure ()

/-- Decides whether this boot starts Paperclip. -/
def run : LauncherProg Unit := do
  let disabled ← Prog.ask (S := calls) .isDisabled
  if disabled then pure ()
  else do
    let counter ← readCounter.mapError fun e => s!"reading the boot counter: {e.describe}"
    match counter.decide false with
    | .skip .disabled => pure ()
    | .skip (.attemptsExhausted attempts) =>
      (Prog.step (S := calls) (.disable (SkipReason.attemptsExhausted attempts).describe)
        .ofExcept).mapError fun (e : BootError) => s!"recording why autostart stopped: {e.describe}"
    | .launch => launch

/-! ## The device -/

/-- What happened. -/
inductive Event where
  /-- The launcher begins, with autostart barred or not. -/
  | began (barred : Bool)
  /-- The launcher is over, whether it returned or was killed. -/
  | ended
  /-- It read a counter that was exhausted. -/
  | declined
  /-- It recorded an attempt. -/
  | launched
  /-- It started a session. `left` says whether the status of another one is left. -/
  | started (session : ℕ) (left : Bool)
  /-- It found a session running. -/
  | found (session : ℕ)
  /-- It read the status of a session. -/
  | read (session : ℕ)
  /-- It reset the counter. -/
  | home
  /-- The operator reset the counter. -/
  | reset
  /-- The operator enabled autostart. -/
  | enabled
  /-- Another program started a session. -/
  | outside
  deriving DecidableEq

/-- What the launcher works on, with the session that wrote the status, and a diary whose last event
comes first. -/
structure World where
  counter : Option String
  marker : Option String
  status : Option (String × ℕ)
  host : Option ℕ
  sessions : ℕ
  diary : List Event

namespace World

variable (w : World)

def note (event : Event) : World := { w with diary := event :: w.diary }

/-- A new session, and its first status, if it can be written. -/
def newSession (first : Option String) : World :=
  { w with
    host := some w.sessions
    sessions := w.sessions + 1
    status := match first with
      | some text => some (text, w.sessions)
      | none => w.status }

/-- The status of another session than `session` is left. -/
def isLeft (session : ℕ) : Bool := w.status.any fun status => status.2 ≠ session

/-- The start of the supervisor, which does nothing where one is running. -/
def startHost (first : Option String) : World :=
  match w.host with
  | some session => w.note (.found session)
  | none => (w.newSession first).note
      (.started w.sessions ((w.newSession first).isLeft w.sessions))

/-- Nothing may be started: autostart is disabled, or the counter is unreadable or exhausted. -/
def barred : Bool :=
  w.marker.isSome ||
    match BootCounter.read w.counter with
    | .ok counter => counter.exhausted
    | .error _ => true

/-- What the boot of a device finds: only what is durable. -/
def powerCut : World := { w with status := none, host := none }

end World

/-- What a counter file holds that is none. -/
abbrev Unreadable := { text : String // parseU32 (trim text.toList) = none }

/-- What is done to the device by others than the launcher. -/
inductive Move where
  /-- The supervisor writes its status. -/
  | status (text : String)
  /-- The supervisor is gone. -/
  | exit
  /-- Another program starts the supervisor. -/
  | session (first : Option String)
  /-- The counter is reset, as `paperctl autostart reset` begins. -/
  | reset
  /-- The marker is removed, as `paperctl autostart reset` ends, and all that `enable` does. -/
  | enable
  /-- The marker is written, by `paperctl autostart disable` or in safe mode. -/
  | disable (reason : String)
  /-- The counter file is spoiled. -/
  | spoil (text : Unreadable)

/-- What a move does. -/
def World.apply (w : World) : Move → World
  | .status text =>
    match w.host with
    | some session => { w with status := some (text, session) }
    | none => w
  | .exit => { w with host := none }
  | .session first =>
    match w.host with
    | some _ => w
    | none => (w.newSession first).note .outside
  | .reset => { w with counter := some (BootCounter.toText ⟨0⟩) }.note .reset
  | .enable => { w with marker := none }.note .enabled
  | .disable reason => { w with marker := some (reason ++ "\n") }
  | .spoil text => { w with counter := some text }

/-- How an operation fails: with nothing done, or after its effect. -/
inductive Fault where
  | before (e : String)
  | after (e : String)

/-- What one operation of the launcher meets: the moves of others before it, how it fails, the first
status of the session that it may start, and the time. -/
structure Turn where
  moves : List Move
  fault : Option Fault
  first : Option String
  late : ℕ

/-- An operation that leaves `after`, unless it fails with nothing done. -/
def Turn.perform {ε : Type} (turn : Turn) (error : String → ε) (before after : World) :
    Except ε Unit × World :=
  match turn.fault with
  | none => (.ok (), after)
  | some (.before e) => (.error (error e), before)
  | some (.after e) => (.error (error e), after)

/-- What an operation answers, and does. -/
def exec (turn : Turn) : (op : Call) → World → op.Ret × World
  | .isDisabled, w => (w.marker.isSome, w)
  | .readCounter, w =>
    match turn.fault with
    | some (.before e) | some (.after e) => (.error (.io e), w)
    | none =>
      match BootCounter.read w.counter with
      | .ok counter => (.ok counter, if counter.exhausted then w.note .declined else w)
      | .error e => (.error e, w)
  | .writeCounter counter, w => turn.perform .store w
      ({ w with counter := some counter.toText }.note
        (if counter.attempts = 0 then .home else .launched))
  | .disable reason, w => turn.perform .store w { w with marker := some (reason ++ "\n") }
  | .prepare _, w => turn.perform id w w
  | .removeStatus, w => ((), (turn.perform id w { w with status := none }).2)
  | .start, w => turn.perform id w (w.startHost turn.first)
  | .readStatus, w =>
    match turn.fault, w.status with
    | none, some (text, session) => (some text, w.note (.read session))
    | _, _ => (none, w)
  | .alive, w => (w.host.isSome, w)
  | .late, w => (turn.late, w)

/-- The operations of the launcher, with what each of them meets. -/
def handler (script : ℕ → Turn) : Handler calls (World × ℕ)
  | op, (w, n) =>
    let answer := exec (script n) op ((script n).moves.foldl World.apply w)
    (answer.1, answer.2, n + 1)

/-- The worlds that a sequence of boots comes to, from whatever the files held before. The launcher
runs at a boot, and again where it was killed or failed; it may be killed anywhere. -/
inductive Arises : World → Prop
  | first (counter marker : Option String) : Arises ⟨counter, marker, none, none, 0, []⟩
  | boot {w : World} (h : Arises w) : Arises w.powerCut
  | move {w : World} (h : Arises w) (m : Move) : Arises (w.apply m)
  | launcher {w : World} (h : Arises w) (script : ℕ → Turn) {w' : World × ℕ}
      (h' : w' ∈ run.points (handler script) (w.note (.began w.barred), 0)) :
      Arises (w'.1.note .ended)

end Paperclip.Boot
