import Paperclip.Compositor.Surface

/-!
# The compositor

The compositor owns the panel. It tracks its clients and which of them is in the foreground, shows
the frames of that one, and covers the panel while the device sleeps.

* `Compositor.step`: what an input does, with what the panel and the connection do meanwhile
  (`Outcomes`). It answers what happened, in order (`Happening`): the events that are reported, and
  what becomes of the buffers.
* `Compositor.run`: a sequence of inputs.
-/

namespace Paperclip.Compositor

open Protocol

abbrev ClientId := Nat

inductive ClientRole where
  | home
  | app
  deriving DecidableEq, Repr

/-- A client's opening message, with the extent of the buffers in the pool that comes with it. -/
structure ClientHello where
  role : ClientRole
  label : String
  pool : Size
  deriving DecidableEq

/-- What a client may say after its hello. -/
inductive ClientRequest where
  | attach (slot : BufferSlot)
  | commit (damage : Damage)
  deriving DecidableEq

/-- Which surface the panel is showing. -/
inductive Foreground where
  | none
  | client (id : ClientId)
  | stopped (label : String)
  deriving DecidableEq, Repr

/-- A connected client. -/
structure Client where
  role : ClientRole
  label : String
  surface : Surface
  pool : Size

end Paperclip.Compositor

namespace Paperclip

open Compositor Protocol

/-- The compositor. -/
structure Compositor where
  panelSize : Size
  clients : ClientId → Option Client
  home : Option ClientId
  foreground : Foreground
  nextId : Nat
  locked : Bool

end Paperclip

namespace Paperclip.Compositor

open Protocol

/-- What is reported to the caller. -/
inductive CompositorEvent where
  | clientConnected (id : ClientId) (role : ClientRole) (label : String)
  | clientDisconnected (id : ClientId) (label : String)
  | framePresented (id : ClientId)
  | foregroundStopped (label : String)
  | foregroundHome (id : ClientId)
  | locked
  | unlocked
  deriving DecidableEq, Repr

/-- Something that happens in the compositor. -/
inductive Happening where
  | event (event : CompositorEvent)
  /-- A commit was accepted. -/
  | committed (id : ClientId) (slot : BufferSlot)
  /-- The bytes of a buffer were copied to the panel. -/
  | copied (id : ClientId) (slot : BufferSlot)
  /-- The client was told that a buffer is its own again. -/
  | released (id : ClientId) (slot : BufferSlot)
  /-- The client could not be told. -/
  | noticeLost (id : ClientId) (slot : BufferSlot)
  /-- A request was refused, which ends the connection. -/
  | refused (id : ClientId) (error : SurfaceError)
  deriving DecidableEq

/-- What the panel does with a client's frame. -/
inductive PanelResult where
  | noBuffer
  | notSwapped
  | shown
  deriving DecidableEq, Repr

/-- What the panel and the connection do during one step. -/
structure Outcomes where
  frame : PanelResult := .shown
  stopped : Bool := true
  lock : Bool := true
  notice : Bool := true
  deriving DecidableEq, Repr

/-- Something the compositor reacts to. -/
inductive Input where
  | connect (hello : ClientHello)
  | request (id : ClientId) (request : ClientRequest)
  | hangUp (id : ClientId)
  | sleep
  | wake
  deriving DecidableEq

/-- A client that asks for a release of a buffer it was not given keeps what it has. -/
def Surface.released (s : Surface) (slot : BufferSlot) : Surface :=
  match s.release slot with
  | .ok s => s
  | .error _ => s

/-- Tell a client that a buffer is its own again, which may fail. -/
def notifyRelease (o : Outcomes) (id : ClientId) (slot : BufferSlot) : Happening :=
  if o.notice then .released id slot else .noticeLost id slot

/-- Whether the slot is copied into the panel's buffer, and whether the panel then shows it. -/
def presentPoolSlot (panelSize extent : Size) (result : PanelResult) : Bool × Bool :=
  if extent ≠ panelSize then (false, false)
  else match result with
    | .noBuffer => (false, false)
    | .notSwapped => (true, false)
    | .shown => (true, true)

/-- A compositor that nothing has connected to. -/
def bind (panelSize : Size) : Compositor where
  panelSize
  clients _ := none
  home := none
  foreground := .none
  nextId := 0
  locked := false

def foregroundClient (s : Compositor) : Option ClientId :=
  match s.foreground with
  | .client id => some id
  | _ => none

def setClient (s : Compositor) (id : ClientId) (client : Option Client) : Compositor :=
  { s with clients := Function.update s.clients id client }

/-- Give a buffer back to a client. -/
def giveBack (s : Compositor) (id : ClientId) (client : Client) (slot : BufferSlot) : Compositor :=
  s.setClient id (some { client with surface := client.surface.released slot })

/-- Show the current frame of the foreground client. -/
def presentForeground (o : Outcomes) (s : Compositor) : Compositor × List Happening :=
  match s.foregroundClient with
  | none => (s, [])
  | some id =>
    match s.clients id with
    | none => (s, [])
    | some client =>
      match client.surface.current with
      | none => (s, [])
      | some committed =>
        let slot := committed.buffer
        if s.locked then (s.giveBack id client slot, [notifyRelease o id slot])
        else
          match presentPoolSlot s.panelSize client.pool o.frame with
          | (copied, true) =>
            (s.giveBack id client slot,
              (if copied then [.copied id slot] else []) ++
                [.event (.framePresented id), notifyRelease o id slot])
          | (copied, false) => (s, if copied then [.copied id slot] else [])

/-- Forget a client, and everything that is its own. -/
def forget (s : Compositor) (id : ClientId) : Compositor :=
  { s.setClient id none with home := if s.home = some id then none else s.home }

/-- End a connection. When the client was in the foreground its stopped frame is shown, and then
Home. -/
def disconnect (o : Outcomes) (s : Compositor) (id : ClientId) : Compositor × List Happening :=
  match s.clients id with
  | none => (s, [])
  | some client =>
    let gone := [.event (.clientDisconnected id client.label)]
    let s := s.forget id
    if s.foregroundClient = some id then
      let stopped := if s.locked || o.stopped then
        [.event (.foregroundStopped client.label)] else []
      match s.home with
      | none => ({ s with foreground := .stopped client.label }, gone ++ stopped)
      | some home =>
        let shown := presentForeground o { s with foreground := .client home }
        (shown.1, gone ++ stopped ++ .event (.foregroundHome home) :: shown.2)
    else (s, gone)

/-- A client completed its handshake. -/
def connect (s : Compositor) (hello : ClientHello) : Compositor × List Happening :=
  let id := s.nextId
  let client : Client :=
    { role := hello.role, label := hello.label, surface := .new hello.pool, pool := hello.pool }
  ({ s.setClient id (some client) with
      nextId := s.nextId + 1
      home := if hello.role = .home then some id else s.home
      foreground :=
        if s.foreground = .none ∨ hello.role = .app then .client id else s.foreground },
    [.event (.clientConnected id hello.role hello.label)])

def handleRequest (o : Outcomes) (s : Compositor) (id : ClientId) (request : ClientRequest) :
    Compositor × List Happening :=
  match s.clients id with
  | none => (s, [])
  | some client =>
    match request with
    | .attach slot =>
      match client.surface.attach slot with
      | .ok surface => (s.setClient id (some { client with surface }), [])
      | .error e =>
        let gone := s.disconnect o id
        (gone.1, .refused id e :: gone.2)
    | .commit damage =>
      match client.surface.commit damage with
      | .ok (slot, surface) =>
        let s := s.setClient id (some { client with surface })
        if s.foregroundClient = some id then
          let shown := s.presentForeground o
          (shown.1, .committed id slot :: shown.2)
        else (s, [.committed id slot])
      | .error e =>
        let gone := s.disconnect o id
        (gone.1, .refused id e :: gone.2)

/-- Cover the panel with the lock screen. -/
def sleep (o : Outcomes) (s : Compositor) : Compositor × List Happening :=
  if s.locked then (s, [])
  else if o.lock then ({ s with locked := true }, [.event .locked])
  else (s, [])

/-- Take the lock screen away and show what it covered. -/
def wake (o : Outcomes) (s : Compositor) : Compositor × List Happening :=
  if !s.locked then (s, [])
  else
    let s := { s with locked := false }
    match s.foreground with
    | .client _ =>
      let shown := s.presentForeground o
      (shown.1, .event .unlocked :: shown.2)
    | .stopped _ | .none => (s, [.event .unlocked])

def step (o : Outcomes) (s : Compositor) : Input → Compositor × List Happening
  | .connect hello => s.connect hello
  | .request id request => s.handleRequest o id request
  | .hangUp id => s.disconnect o id
  | .sleep => s.sleep o
  | .wake => s.wake o

/-- What a sequence of inputs does, after what has happened before. -/
def run (s : Compositor) (log : List Happening) :
    List (Input × Outcomes) → Compositor × List Happening
  | [] => (s, log)
  | (input, o) :: rest =>
    let next := s.step o input
    next.1.run (log ++ next.2) rest

/-- Why a client's request is refused, which ends the connection. -/
def Client.refusal (client : Client) : ClientRequest → Option SurfaceError
  | .attach slot => match client.surface.attach slot with
    | .ok _ => none
    | .error e => some e
  | .commit damage => match client.surface.commit damage with
    | .ok _ => none
    | .error e => some e

/-- The Home client that is shown once another one has gone. -/
def returnsHome (s : Compositor) (id : ClientId) : Option ClientId :=
  if s.foregroundClient = some id ∧ s.home ≠ some id then s.home else none

/-- The client whose frame an input shows again, without a commit. -/
def reshows (s : Compositor) : Input → Option ClientId
  | .wake => if s.locked then s.foregroundClient else none
  | .hangUp id => s.returnsHome id
  | .request id request =>
    match s.clients id with
    | some client => if (client.refusal request).isSome then s.returnsHome id else none
    | none => none
  | .connect _ | .sleep => none

/-- Every step of a run is taken where `P` holds of the compositor. -/
def Along (P : Compositor → Outcomes → Input → Prop) : Compositor → List (Input × Outcomes) → Prop
  | _, [] => True
  | s, (input, o) :: rest => P s o input ∧ Along P (s.step o input).1 rest

instance decidableAlong {P : Compositor → Outcomes → Input → Prop}
    [∀ s o input, Decidable (P s o input)] : ∀ s inputs, Decidable (Along P s inputs)
  | _, [] => .isTrue trivial
  | s, (input, o) :: rest =>
    have : Decidable (Along P (s.step o input).1 rest) := decidableAlong _ rest
    inferInstanceAs (Decidable (P s o input ∧ Along P (s.step o input).1 rest))

end Paperclip.Compositor
