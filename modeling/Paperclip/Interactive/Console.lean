import Paperclip.Interactive.Session

/-!
# One session after another

`paperctl run` opens a session for the app that the one before asked for. The pointers of the input
readers wait in one queue, from which whichever session is open takes them.

* `Console`, `Console.step`: the session that is open, and what the apps of the others were handed.
* `Session.handed`, `Session.takes`, `Session.touches`: the pointers that a step hands to the app,
  takes out of the queue and puts into it.
* `handed_held`, `takes_events`: between the queue and the app no pointer is lost, doubled or
  passed by another.
-/

namespace Paperclip.Interactive

open Protocol Sdk.Runtime Trace

/-! ## Pointers on their way -/

/-- The pointer in a message. -/
def pointer? : Whole.HostMessage Version → Option Protocol.PointerEvent
  | .pointer event => some event
  | _ => none

/-- The pointer that the app's thread is about to be handed. -/
def arriving {γ : Type} : Incoming γ → Option Protocol.PointerEvent
  | .host message => pointer? message
  | .completed _ => none

namespace Session

variable {σ γ : Type}

/-- The pointers that the host has sent, and the app has not been handed. -/
def held (s : Session σ γ) : List Protocol.PointerEvent :=
  s.inbox.filterMap arriving ++ s.toApp.filterMap pointer?

/-- The pointer that a step hands to the app. -/
def handed (s : Session σ γ) : Step γ → List Protocol.PointerEvent
  | .app => if s.loop.outcome = none then (s.inbox.head?.bind arriving).toList else []
  | _ => []

/-- The pointer that the host takes next, if it takes one. -/
def next (s : Session σ γ) : List Protocol.PointerEvent :=
  match s.phase with
  | .waiting => s.events.take 1
  | .draining _ coalesced => if coalesced < MAX_COALESCED_POINTERS then s.events.take 1 else []
  | .starting | .awaiting _ _ | .left _ => []

/-- The pointer that a step takes out of the queue. -/
def takes (s : Session σ γ) : Step γ → List Protocol.PointerEvent
  | .host _ _ => s.next
  | _ => []

/-- The pointer that a step puts into the queue. -/
def touches (s : Session σ γ) : Step γ → List Protocol.PointerEvent
  | .touched event => if s.readers then [event] else []
  | _ => []

variable {app : App σ γ} {s : Session σ γ}

theorem held_requestFrame (reason : DrawReason) (changes : List SystemEvent) (cause : Cause) :
    (s.requestFrame reason changes cause).held = s.held := by
  have hchanges : (changes.map Whole.HostMessage.systemEvent).filterMap pointer? = [] := by
    simp [List.filterMap_map, Function.comp_def, pointer?]
  simp [held, requestFrame, hchanges, pointer?]

theorem held_pointer (event : Protocol.PointerEvent) (changes : List SystemEvent)
    (cause : Cause) : (s.pointer event changes cause).held = s.held ++ [event] := by
  rw [pointer, held_requestFrame]
  simp [held, pointer?]

theorem held_hear (cause : Cause) (seen : Option Request)
    (result : Except SystemDenial SystemValue) (message : Whole.AppMessage) :
    (s.hear cause seen result message).held = s.held ∧
      (s.hear cause seen result message).events = s.events := by
  cases message <;> simp [hear, held, pointer?]

/-- What the host takes out of the queue it sends, and nothing else. -/
theorem host_pointers (changes : List SystemEvent) (result : Except SystemDenial SystemValue) :
    (s.host changes result).held = s.held ++ s.next ∧
      s.next ++ (s.host changes result).events = s.events := by
  rcases hphase : s.phase with _ | ⟨cause, seen⟩ | _ | ⟨request, coalesced⟩ | exit
  · simp only [host, next, hphase]
    exact ⟨by rw [held_requestFrame, List.append_nil], rfl⟩
  · simp only [host, next, hphase, read]
    split
    · exact ⟨(List.append_nil _).symm, rfl⟩
    · next message toHost hr =>
      obtain ⟨hheld, hevents⟩ :=
        held_hear (s := { s with toHost, phase := .awaiting cause seen }) cause seen result message
      exact ⟨hheld.trans (List.append_nil _).symm, hevents⟩
  · simp only [host, next, hphase, await]
    split
    · next event events h => exact ⟨by rw [held_pointer, h]; rfl, by rw [h]; rfl⟩
    · next h => split <;> simp [h, held]
  · simp only [host, next, hphase, drain]
    by_cases hlt : coalesced < MAX_COALESCED_POINTERS
    · simp only [if_pos hlt]
      split
      · next event events h => exact ⟨by rw [held_pointer, h]; rfl, by rw [h]; rfl⟩
      · next h => simp [h, held]
    · simp only [if_neg hlt]
      exact ⟨(List.append_nil _).symm, rfl⟩
  · simp only [host, next, hphase]
    exact ⟨(List.append_nil _).symm, rfl⟩

/-- Between the queue and the app, pointers stay in their order. -/
theorem handed_held (x : Step γ) :
    s.handed x ++ (s.step app x).held = s.held ++ s.takes x := by
  cases x with
  | touched event =>
    simp only [handed, takes, step]
    split <;> simp [held]
  | unplugged => simp [handed, takes, step, held]
  | completed completion => simp [handed, takes, step, held, arriving]
  | pump =>
    simp only [handed, takes, step]
    split
    · simp
    · next message toApp h => cases hp : pointer? message <;> simp [held, h, arriving, hp]
  | app =>
    simp only [handed, takes, step]
    by_cases hout : s.loop.outcome = none
    · rw [if_pos hout, if_pos hout]
      cases hin : s.inbox with
      | nil => simp [held, hin]
      | cons incoming inbox => cases ha : arriving incoming <;> simp [held, hin, ha]
    · rw [if_neg hout, if_neg hout]
      simp [held]
  | host changes result =>
    show [] ++ (s.host changes result).held = s.held ++ s.next
    exact (host_pointers changes result).1
  | tick => simp [handed, takes, step]

/-- What is taken out of the queue is its first pointer, and what is put into it comes last. -/
theorem takes_events (x : Step γ) :
    s.takes x ++ (s.step app x).events = s.events ++ s.touches x := by
  cases x with
  | touched event =>
    simp only [touches, takes, step]
    split <;> simp
  | pump =>
    simp only [touches, takes, step]
    split <;> simp
  | host changes result =>
    show s.next ++ (s.host changes result).events = s.events ++ []
    rw [List.append_nil]
    exact (host_pointers changes result).2
  | _ => simp [touches, takes, step]

theorem readers_host (changes : List SystemEvent) (result : Except SystemDenial SystemValue) :
    (s.host changes result).readers = s.readers := by
  unfold host
  split
  · rfl
  · unfold read
    split
    · rfl
    · next message toHost hr => cases message <;> rfl
  · unfold await
    split
    · rfl
    · split <;> rfl
  · unfold drain
    split <;> rfl
  · rfl

/-- The readers do not come back. -/
theorem readers_of_step {x : Step γ} (h : (s.step app x).readers = true) : s.readers = true := by
  cases x with
  | touched event =>
    by_contra hr
    simp [step, hr] at h
  | unplugged => cases h
  | completed completion => exact h
  | pump =>
    simp only [step] at h
    split at h <;> exact h
  | app => exact h
  | host changes result =>
    rw [← readers_host changes result]
    exact h
  | tick => exact h

end Session

/-! ## The console -/

/-- What a session has of the pointers: those that the host took for it, and those that its app was
handed. -/
structure Visit where
  slug : String
  given : List Protocol.PointerEvent
  received : List Protocol.PointerEvent

/-- The sessions of a run: the one that is open, and those that are over. -/
structure Console (σ γ : Type) where
  session : Session σ γ
  visit : Visit
  past : List Visit

/-- What may happen next: a step of the session that is open, or the opening of the next one, with
the state that its app is loaded with. -/
inductive Move (σ γ : Type) where
  | session (x : Step γ)
  | opened (start : σ)

namespace Console

variable {σ γ : Type}

/-- The first session. -/
def initial (slug : String) (start : σ) : Console σ γ := ⟨.initial start, ⟨slug, [], []⟩, []⟩

/-- A session after another: the queue and the readers are the same. -/
def reopen (c : Console σ γ) (slug : String) (start : σ) : Console σ γ where
  session := { Session.initial start with events := c.session.events, readers := c.session.readers }
  visit := ⟨slug, [], []⟩
  past := c.past ++ [c.visit]

/-- The console after a move. -/
def step (apps : String → App σ γ) (c : Console σ γ) : Move σ γ → Console σ γ
  | .session x => { c with
      session := c.session.step (apps c.visit.slug) x
      visit := { c.visit with
        given := c.visit.given ++ c.session.takes x
        received := c.visit.received ++ c.session.handed x } }
  | .opened start =>
    match c.session.phase with
    | .left (.switch slug) => c.reopen slug start
    | _ => c

/-- The console after some moves. -/
def run (apps : String → App σ γ) (c : Console σ γ) (moves : List (Move σ γ)) : Console σ γ :=
  moves.foldl (step apps) c

/-- All sessions, the one that is open last. -/
def visits (c : Console σ γ) : List Visit := c.past ++ [c.visit]

/-- The pointers that the sessions before the one that is open were given. -/
def before (c : Console σ γ) : List Protocol.PointerEvent := c.past.flatMap (·.given)

/-- All pointers that were taken out of the queue. -/
def taken (c : Console σ γ) : List Protocol.PointerEvent := c.before ++ c.visit.given

/-- All pointers that came into the queue. -/
def arrived (c : Console σ γ) : List Protocol.PointerEvent := c.taken ++ c.session.events

end Console

end Paperclip.Interactive
