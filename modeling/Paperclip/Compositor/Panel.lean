import Paperclip.Compositor.Foreground

/-!
# What the panel shows

A `Device` is the compositor with the memory that its clients share with it and the picture that the
panel shows. Beside what a function of the compositor does, the function of the same name in `Panel`
says which pictures it hands to the panel, in order, and whether the panel takes them.

* `Device.step`: a client draws into its memory, or the compositor reacts to an input.
* `frontBuffer`: the buffer that the foreground's current frame is in.
-/

namespace Paperclip.Compositor

open Protocol

/-- What is in a buffer. -/
abbrev Pixels := List UInt32

/-- The buffers of all clients. -/
abbrev Memory := ClientId → BufferSlot → Pixels

/-- What can be on the panel. -/
inductive Picture where
  | blank
  | lockFrame
  | stoppedFrame (label : String)
  | frame (pixels : Pixels)
  deriving DecidableEq, Repr

/-- A picture that is handed to the panel, and whether the panel takes it. -/
structure Handed where
  picture : Picture
  taken : Bool
  deriving DecidableEq, Repr

namespace Panel

def presentForeground (memory : Memory) (o : Outcomes) (s : Compositor) : List Handed :=
  match s.foregroundClient with
  | none => []
  | some id =>
    match s.clients id with
    | none => []
    | some client =>
      match client.surface.current with
      | none => []
      | some committed =>
        if s.locked then []
        else if client.pool ≠ s.panelSize then []
        else [⟨.frame (memory id committed.buffer), o.frame = .shown⟩]

def disconnect (memory : Memory) (o : Outcomes) (s : Compositor) (id : ClientId) : List Handed :=
  match s.clients id with
  | none => []
  | some client =>
    let s := s.forget id
    if s.foregroundClient = some id then
      let stopped := if s.locked then [] else [⟨.stoppedFrame client.label, o.stopped⟩]
      match s.home with
      | none => stopped
      | some home => stopped ++ presentForeground memory o { s with foreground := .client home }
    else []

def handleRequest (memory : Memory) (o : Outcomes) (s : Compositor) (id : ClientId)
    (request : ClientRequest) : List Handed :=
  match s.clients id with
  | none => []
  | some client =>
    match request with
    | .attach slot =>
      match client.surface.attach slot with
      | .ok _ => []
      | .error _ => disconnect memory o s id
    | .commit damage =>
      match client.surface.commit damage with
      | .ok (_, surface) =>
        let s := s.setClient id (some { client with surface })
        if s.foregroundClient = some id then presentForeground memory o s else []
      | .error _ => disconnect memory o s id

def sleep (o : Outcomes) (s : Compositor) : List Handed :=
  if s.locked then [] else [⟨.lockFrame, o.lock⟩]

def wake (memory : Memory) (o : Outcomes) (s : Compositor) : List Handed :=
  if !s.locked then []
  else
    let s := { s with locked := false }
    match s.foreground with
    | .client _ => presentForeground memory o s
    | .stopped label => [⟨.stoppedFrame label, o.stopped⟩]
    | .none => []

/-- What a step hands to the panel. -/
def step (memory : Memory) (o : Outcomes) (s : Compositor) : Input → List Handed
  | .connect _ => []
  | .request id request => handleRequest memory o s id request
  | .hangUp id => disconnect memory o s id
  | .sleep => sleep o s
  | .wake => wake memory o s

/-- What the panel shows after it was handed these. -/
def after (shown : Picture) (handed : List Handed) : Picture :=
  handed.foldl (fun shown h => if h.taken then h.picture else shown) shown

end Panel

/-- The compositor, the memory of its clients and the panel. -/
structure Device where
  server : Compositor
  memory : Memory
  shown : Picture

/-- A client draws into one of its buffers, or the compositor reacts. -/
inductive Device.Act where
  | draw (id : ClientId) (slot : BufferSlot) (pixels : Pixels)
  | input (input : Input)
  deriving DecidableEq

namespace Device

/-- A device whose compositor has just been bound. -/
def start (panelSize : Size) (memory : Memory) (shown : Picture) : Device :=
  ⟨bind panelSize, memory, shown⟩

/-- What an act hands to the panel. -/
def hands (o : Outcomes) (d : Device) : Act → List Handed
  | .draw _ _ _ => []
  | .input input => Panel.step d.memory o d.server input

def step (o : Outcomes) (d : Device) : Act → Device
  | .draw id slot pixels =>
    { d with memory := Function.update d.memory id (Function.update (d.memory id) slot pixels) }
  | .input input =>
    { d with
      server := (d.server.step o input).1
      shown := Panel.after d.shown (Panel.step d.memory o d.server input) }

def run (d : Device) (acts : List (Act × Outcomes)) : Device :=
  acts.foldl (fun d act => d.step act.2 act.1) d

theorem run_append {d : Device} {acts acts' : List (Act × Outcomes)} :
    d.run (acts ++ acts') = (d.run acts).run acts' :=
  List.foldl_append

end Device

/-! ## The current frame of the foreground -/

/-- The buffer that the foreground's current frame is in. -/
def frontBuffer (s : Compositor) : Option (ClientId × BufferSlot) :=
  s.foregroundClient.bind fun id => (s.clients id).bind fun client =>
    client.surface.current.map fun committed => (id, committed.buffer)

section Front

variable {memory : Memory} {o : Outcomes} {s : Compositor} {id : ClientId} {client : Client}
  {slot : BufferSlot}

theorem frontBuffer_eq_some : s.frontBuffer = some (id, slot) ↔ s.foreground = .client id ∧
    ∃ client committed, s.clients id = some client ∧ client.surface.current = some committed ∧
      committed.buffer = slot := by
  simp only [frontBuffer, Option.bind_eq_some_iff, Option.map_eq_some_iff, Prod.mk.injEq,
    foregroundClient_eq]
  constructor
  · rintro ⟨front, hfront, client, hclient, committed, hcurrent, rfl, hslot⟩
    exact ⟨hfront, client, committed, hclient, hcurrent, hslot⟩
  · rintro ⟨hfront, client, committed, hclient, hcurrent, hslot⟩
    exact ⟨id, hfront, client, hclient, committed, hcurrent, rfl, hslot⟩

/-- Without a current frame nothing is handed over. -/
theorem presentForeground_of_none (h : s.frontBuffer = none) :
    Panel.presentForeground memory o s = [] := by
  unfold Panel.presentForeground
  split
  · rfl
  next id hfront =>
  split
  · rfl
  next client hclient =>
  split
  · rfl
  next committed hcurrent => simp [frontBuffer, hfront, hclient, hcurrent] at h

/-- A current frame of the right size is handed over. -/
theorem presentForeground_of_some (h : s.frontBuffer = some (id, slot)) (hlocked : s.locked = false)
    (hpool : ∀ client ∈ s.clients id, client.pool = s.panelSize) (hframe : o.frame = .shown) :
    Panel.presentForeground memory o s = [⟨.frame (memory id slot), true⟩] := by
  obtain ⟨hfront, client, committed, hclient, hcurrent, rfl⟩ := frontBuffer_eq_some.mp h
  rw [← foregroundClient_eq] at hfront
  simp [Panel.presentForeground, hfront, hclient, hcurrent, hlocked, hpool client hclient, hframe]

namespace Panel

theorem disconnect_of_unknown (hclient : s.clients id = none) :
    disconnect memory o s id = [] := by
  rw [disconnect, hclient]

theorem disconnect_of_back (hclient : s.clients id = some client)
    (hfront : s.foregroundClient ≠ some id) : disconnect memory o s id = [] := by
  rw [disconnect, hclient]
  dsimp only
  rw [if_neg (by exact hfront)]

/-- The stopped frame of the foreground is all that is handed over. -/
theorem disconnect_of_last (hclient : s.clients id = some client)
    (hfront : s.foregroundClient = some id) (hhome : (s.forget id).home = none)
    (hlocked : s.locked = false) :
    disconnect memory o s id = [⟨.stoppedFrame client.label, o.stopped⟩] := by
  have hforget : (s.forget id).locked = false := hlocked
  rw [disconnect, hclient]
  dsimp only
  rw [if_pos (by exact hfront), hhome, hforget]
  rfl

/-- The stopped frame of the foreground, and then the frame of Home. -/
theorem disconnect_of_home {home : ClientId} (hclient : s.clients id = some client)
    (hfront : s.foregroundClient = some id) (hhome : (s.forget id).home = some home)
    (hlocked : s.locked = false) :
    disconnect memory o s id = ⟨.stoppedFrame client.label, o.stopped⟩ ::
      presentForeground memory o { s.forget id with foreground := .client home } := by
  have hforget : (s.forget id).locked = false := hlocked
  rw [disconnect, hclient]
  dsimp only
  rw [if_pos (by exact hfront)]
  split
  · next h =>
    rw [hhome] at h
    cases h
  · next home' h =>
    obtain rfl := Option.some.inj (hhome.symm.trans h)
    rw [hforget]
    rfl

end Panel

/-- The panel takes a frame exactly when it is reported as presented. -/
theorem taken_iff_presented : (∃ h ∈ Panel.presentForeground memory o s, h.taken) ↔
    ∃ id, .event (.framePresented id) ∈ (s.presentForeground o).2 := by
  unfold Panel.presentForeground presentForeground
  cases hfront : s.foregroundClient with
  | none => simp
  | some id =>
  dsimp only
  cases hclient : s.clients id with
  | none => simp
  | some client =>
  dsimp only
  cases hcurrent : client.surface.current with
  | none => simp
  | some committed =>
  dsimp only
  split
  · unfold notifyRelease
    split <;> simp
  · unfold presentPoolSlot
    split
    · simp
    · cases o.frame <;> simp

/-- A buffer that is given back is still the one of the current frame. -/
theorem giveBack_frontBuffer (hclient : s.clients id = some client) (slot : BufferSlot) :
    (s.giveBack id client slot).frontBuffer = s.frontBuffer := by
  show s.foregroundClient.bind _ = _
  unfold frontBuffer
  refine congrArg _ (funext fun front => ?_)
  by_cases hfront : front = id
  · subst hfront
    simp [giveBack, setClient, hclient, Surface.released_rest]
  · simp [giveBack, setClient, hfront]

/-- Showing a frame changes nothing of what is shown. -/
theorem Shows.frontBuffer {s' : Compositor} {hs : List Happening} (h : Shows o s s' hs) :
    s'.frontBuffer = s.frontBuffer ∧ s'.locked = s.locked := by
  cases h with
  | nothing | unswapped => exact ⟨rfl, rfl⟩
  | covered _ hclient | shown _ hclient => exact ⟨giveBack_frontBuffer hclient _, rfl⟩

end Front

end Paperclip.Compositor
