import Paperclip.Compositor.Ownership

/-!
# The compositor and its clients

A `CompositorSurface` draws into one buffer after the other. It waits for the release of the buffer
it needs next, and reads what the compositor said only while it waits. A `Network` is the compositor,
the clients, and what is under way between them in each direction.

* `CompositorSurface.publish`: one frame, or none while the client is still waiting.
* `Network.step`: a client publishes, the compositor serves a request, or something happens to the
  compositor alone.
-/

namespace Paperclip.Compositor

open Protocol

/-- The client's side of a connection. -/
structure CompositorSurface where
  next : BufferSlot := .a
  inFlight : BufferSlot → Bool := fun _ => false

/-- A client and its connection: the requests that the compositor has not served yet, and the
releases that the client has not read yet. -/
structure Peer where
  surface : CompositorSurface := {}
  requests : List ClientRequest := []
  notices : List BufferSlot := []

namespace Peer

/-- Read releases until the one of `slot`. -/
def readUntil (slot : BufferSlot) (inFlight : BufferSlot → Bool) :
    List BufferSlot → Option ((BufferSlot → Bool) × List BufferSlot)
  | [] => none
  | released :: rest =>
    if released = slot then some (Function.update inFlight released false, rest)
    else readUntil slot (Function.update inFlight released false) rest

/-- Wait for the release of `slot`. Nothing comes of it while the release is not there. -/
def waitForRelease (peer : Peer) (slot : BufferSlot) :
    Option ((BufferSlot → Bool) × List BufferSlot) :=
  if !peer.surface.inFlight slot then some (peer.surface.inFlight, peer.notices)
  else readUntil slot peer.surface.inFlight peer.notices

/-- Publish a frame in the next buffer. -/
def publish (peer : Peer) (damage : Damage) : Option Peer :=
  let slot := peer.surface.next
  match peer.waitForRelease slot with
  | none => none
  | some (inFlight, notices) => some {
      surface := { next := slot.other, inFlight := Function.update inFlight slot true }
      requests := peer.requests ++ [.attach slot, .commit damage]
      notices }

end Peer

/-- The compositor, its clients, and what has happened. -/
structure Network where
  server : Compositor
  peers : ClientId → Peer
  log : List Happening

/-- Something that happens in a network. -/
inductive Act where
  | connect (hello : ClientHello)
  | publish (id : ClientId) (damage : Damage)
  | serve (id : ClientId)
  | hangUp (id : ClientId)
  | sleep
  | wake

/-- The buffer that a client is told to be its own again. -/
def told (id : ClientId) : Happening → Option BufferSlot
  | .released id' slot => if id' = id then some slot else none
  | _ => none

/-- Releases are on their way to the clients. -/
def deliver (hs : List Happening) (peers : ClientId → Peer) (id : ClientId) : Peer :=
  { peers id with notices := (peers id).notices ++ hs.filterMap (told id) }

namespace Network

/-- Nothing has connected yet. -/
def start (panelSize : Size) : Network where
  server := .bind panelSize
  peers _ := {}
  log := []

/-- The compositor takes an input. -/
def input (o : Outcomes) (net : Network) (input : Input) : Network :=
  let next := net.server.step o input
  { server := next.1, peers := deliver next.2 net.peers, log := net.log ++ next.2 }

/-- The input that an act is to the compositor. -/
def inputOf (net : Network) : Act → Option Input
  | .connect hello => some (.connect hello)
  | .publish _ _ => none
  | .serve id => (net.peers id).requests.head?.map (.request id)
  | .hangUp id => some (.hangUp id)
  | .sleep => some .sleep
  | .wake => some .wake

def step (o : Outcomes) (net : Network) (act : Act) : Network :=
  match act with
  | .publish id damage =>
    if (net.server.clients id).isSome then
      match (net.peers id).publish damage with
      | none => net
      | some peer => { net with peers := Function.update net.peers id peer }
    else net
  | .serve id =>
    match (net.peers id).requests with
    | [] => net
    | request :: rest =>
      let served := { net.peers id with requests := rest }
      { net with peers := Function.update net.peers id served }.input o (.request id request)
  | .connect hello => net.input o (.connect hello)
  | .hangUp id => net.input o (.hangUp id)
  | .sleep => net.input o .sleep
  | .wake => net.input o .wake

def run (net : Network) : List (Act × Outcomes) → Network
  | [] => net
  | (act, o) :: rest => (net.step o act).run rest

/-- Every input of a run is taken where `P` holds of the compositor. -/
def Along (P : Compositor → Outcomes → Input → Prop) : Network → List (Act × Outcomes) → Prop
  | _, [] => True
  | net, (act, o) :: rest =>
    (∀ input ∈ net.inputOf act, P net.server o input) ∧ Along P (net.step o act) rest

instance decidableAlong {P : Compositor → Outcomes → Input → Prop}
    [∀ s o input, Decidable (P s o input)] : ∀ net acts, Decidable (Along P net acts)
  | _, [] => .isTrue trivial
  | net, (act, o) :: rest =>
    have : Decidable (Along P (net.step o act) rest) := decidableAlong _ rest
    inferInstanceAs (Decidable
      ((∀ input ∈ net.inputOf act, P net.server o input) ∧ Along P (net.step o act) rest))

end Network

theorem deliver_nil (peers : ClientId → Peer) : deliver [] peers = peers := by
  funext id
  simp [deliver]

theorem deliver_append (hs hs' : List Happening) (peers : ClientId → Peer) :
    deliver (hs ++ hs') peers = deliver hs' (deliver hs peers) := by
  funext id
  simp [deliver]

theorem deliver_quiet {x : Happening} (hx : ∀ id slot, x ≠ .released id slot)
    (peers : ClientId → Peer) : deliver [x] peers = peers := by
  funext id
  have : told id x = none := by
    unfold told
    split
    · exact absurd rfl (hx _ _)
    · rfl
  simp [deliver, this]

end Paperclip.Compositor
