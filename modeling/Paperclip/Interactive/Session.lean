import Paperclip.Sdk.Chrome
import Paperclip.Sdk.Drive
import Paperclip.Trace.Line
import Paperclip.Trace.Since

/-!
# An interactive session

`paperctl run` with one app: the app's thread, the loop over the panel, and the connection between
them. Input readers, workers and both parties take their steps in any order.

* `Session.requestFrame`, `Session.read`: how a frame is asked for and waited for.
* `Session.host`: the next step of the loop over the panel, which folds what the app asks for in a
  burst of pointers into one request.
* `Step`, `Session.step`: what may happen next.
-/

namespace Paperclip.Interactive

open Protocol Sdk.Runtime Trace

/-- Why the app loop ended. -/
inductive Exit where
  | switch (slug : String)
  | returnToStock
  deriving DecidableEq

/-- The app that a launch names, if it is one that can be run. -/
def launchTarget (id : String) : Option String :=
  if id = "dev.calum.chess" then some "chess"
  else if id = "dev.calum.home" then some "home"
  else if id = "dev.calum.settings" then some "settings"
  else if id = "dev.calum.sudoku" then some "sudoku"
  else if id = "dev.calum.app-store" then some "app-store"
  else none

/-- What a request ends the loop with. -/
def exit? : Request → Option Exit
  | .home => some (.switch "home")
  | .launch id => (launchTarget id).map .switch
  | .returnToStock => some .returnToStock
  | .redraw => none

/-- How many pointers are folded into a burst, after its first. -/
def MAX_COALESCED_POINTERS : ℕ := 64

/-- What a frame is asked for: the session's first, a burst's first pointer, or another pointer of
it, with the burst's request so far. -/
inductive Cause where
  | opening
  | pointer
  | queued (request : Option Request) (coalesced : ℕ)
  deriving DecidableEq

/-- Where the loop over the panel is. While it awaits a frame it keeps the last request seen. -/
inductive Phase where
  | starting
  | awaiting (cause : Cause) (seen : Option Request)
  | waiting
  | draining (request : Option Request) (coalesced : ℕ)
  | left (exit : Exit)
  deriving DecidableEq

/-- A session. `inbox` is the channel to the app's thread, `toApp` what is in the socket before
it; `events` are the pointers that wait, and `readers` says whether more may come. -/
structure Session (σ γ : Type) where
  loop : Loop σ
  inbox : List (Incoming γ)
  toApp : List (Whole.HostMessage Version)
  toHost : Line Whole.AppMessage
  events : List Protocol.PointerEvent
  readers : Bool
  nextFrame : FrameId
  phase : Phase

/-- What the loop does once the frame is there. -/
def Cause.framed (seen : Option Request) : Cause → Phase
  | .opening => .waiting
  | .pointer => .draining seen 0
  | .queued request coalesced => .draining (seen.or request) (coalesced + 1)

/-- The end of a burst: its request is acted upon. -/
def decided (request : Option Request) : Phase :=
  match request.bind exit? with
  | some exit => .left exit
  | none => .waiting

namespace Session

variable {σ γ : Type}

/-- The session after the handshake. -/
def initial (start : σ) : Session σ γ :=
  ⟨⟨start, 0, none⟩, [], [], .empty, [], true, .FIRST, .starting⟩

/-- Tells the app what changed, and asks for a frame. -/
def requestFrame (s : Session σ γ) (reason : DrawReason) (changes : List SystemEvent)
    (cause : Cause) : Session σ γ :=
  { s with
    toApp := s.toApp ++ changes.map .systemEvent ++ [.draw ⟨s.nextFrame, reason, Sdk.SCREEN⟩]
    nextFrame := s.nextFrame.next
    phase := .awaiting cause none }

/-- Sends a pointer event, and asks for the frame it produces. -/
def pointer (s : Session σ γ) (event : Protocol.PointerEvent) (changes : List SystemEvent)
    (cause : Cause) : Session σ γ :=
  requestFrame { s with toApp := s.toApp ++ [.pointer event] } .appRequested changes cause

/-- What a message of the app does to a session that awaits a frame. A query is answered with
`result`. -/
def hear (s : Session σ γ) (cause : Cause) (seen : Option Request)
    (result : Except SystemDenial SystemValue) : Whole.AppMessage → Session σ γ
  | .frame _ => { s with phase := cause.framed seen }
  | .request request => { s with phase := .awaiting cause (some request) }
  | .systemQuery query => { s with toApp := s.toApp ++ [.systemAnswer ⟨query.id, result⟩] }
  | .diagnostic _ | .ready _ | .saved _ => s

/-- Reads the next message, if there is one. -/
def read (s : Session σ γ) (cause : Cause) (seen : Option Request)
    (result : Except SystemDenial SystemValue) : Session σ γ :=
  match s.toHost.receive? with
  | none => s
  | some (message, toHost) => hear { s with toHost } cause seen result message

/-- Feeds the next pointer that waits to the app, or ends the burst. -/
def drain (s : Session σ γ) (request : Option Request) (coalesced : ℕ)
    (changes : List SystemEvent) : Session σ γ :=
  match if coalesced < MAX_COALESCED_POINTERS then s.events else [] with
  | event :: _ =>
    pointer { s with events := s.events.tail } event changes (.queued request coalesced)
  | [] => { s with phase := decided request }

/-- Takes the next pointer, once there is one. Without readers there never is. -/
def await (s : Session σ γ) (changes : List SystemEvent) : Session σ γ :=
  match s.events with
  | event :: events => pointer { s with events } event changes .pointer
  | [] => if s.readers then s else { s with phase := .left .returnToStock }

/-- The next step of the loop over the panel, with what changed by then, and the answer that a query
would get. -/
def host (s : Session σ γ) (changes : List SystemEvent)
    (result : Except SystemDenial SystemValue) : Session σ γ :=
  match s.phase with
  | .starting => s.requestFrame .first changes .opening
  | .awaiting cause seen => s.read cause seen result
  | .waiting => s.await changes
  | .draining request coalesced => s.drain request coalesced changes
  | .left _ => s

/-- What the app's next turn makes of its loop, and what it says. -/
def turn (app : App σ γ) (s : Session σ γ) : Loop σ × List Whole.AppMessage :=
  match s.loop.outcome, s.inbox with
  | none, incoming :: _ => s.loop.drive app incoming
  | _, _ => (s.loop, [])

end Session

/-- What may happen next: a sample of the input readers, or their end; a worker's completion; the
pump's, the app's and the host's next step; and an idle tick. -/
inductive Step (γ : Type) where
  | touched (event : Protocol.PointerEvent)
  | unplugged
  | completed (completion : γ)
  | pump
  | app
  | host (changes : List SystemEvent) (result : Except SystemDenial SystemValue)
  | tick

namespace Session

variable {σ γ : Type}

/-- The session after a step. -/
def step (app : App σ γ) (s : Session σ γ) : Step γ → Session σ γ
  | .touched event => if s.readers then { s with events := s.events ++ [event] } else s
  | .unplugged => { s with readers := false }
  | .completed completion => { s with inbox := s.inbox ++ [.completed completion] }
  | .pump =>
    match s.toApp with
    | [] => s
    | message :: toApp => { s with inbox := s.inbox ++ [.host message], toApp }
  | .app =>
    let (loop, messages) := s.turn app
    { s with
      loop
      inbox := if s.loop.outcome = none then s.inbox.tail else s.inbox
      toHost := s.toHost.send messages }
  | .host changes result => s.host changes result
  | .tick => s

end Session

end Paperclip.Interactive
