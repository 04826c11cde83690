import Paperclip.Protocol.Turns

/-!
# A host and a conforming app

The session on one end of two channels and an app on the other. The host calls when it likes, the app
hears and speaks when it likes, and each channel delivers in order.

* `maySay`: what a conforming app says. It is ready once and first, answers each draw request it
  heard once, asks for things until it hears that it has to exit, and then reports its save.
* `Conversation.step`: every step of either end.
* `Speech.stale`: what a message from the app crossed on its way.
-/

namespace Paperclip.Protocol

/-! ## The app -/

/-- What an app says. An answer to a draw request names the request by its place among the host's
messages, so that two requests for one frame id would still be told apart. -/
inductive Speech where
  | ready (ready : Ready)
  | frame (draw : Nat) (done : FrameDone)
  | request (request : Request)
  | systemQuery (query : SystemQuery)
  | saved (saved : Saved)
  | diagnostic (diagnostic : Diagnostic)
  deriving DecidableEq

namespace Speech

/-- What goes over the wire. -/
def message : Speech → AppMessage
  | ready r => .ready r
  | frame _ done => .frame done
  | request r => .request r
  | systemQuery query => .systemQuery query
  | saved s => .saved s
  | diagnostic d => .diagnostic d

/-- The draw request that is answered. -/
def answers : Speech → Option Nat
  | frame draw _ => some draw
  | _ => none

def isSaved : Speech → Bool
  | saved _ => true
  | _ => false

end Speech

namespace HostMessage

/-- The frame that is asked for. -/
def drawn : HostMessage → Option FrameId
  | draw request => some request.frame
  | _ => none

/-- Why the app has to exit. -/
def exit : HostMessage → Option ExitReason
  | lifecycle (.prepareToExit reason _) => some reason
  | _ => none

/-- Nothing that was asked for before is wanted after this. -/
def interrupts : HostMessage → Bool
  | lifecycle .suspended | lifecycle (.prepareToExit _ _) | goodbye => true
  | _ => false

end HostMessage

/-- What an app that heard `heard` and said `sent` may say. -/
def maySay (host : ProtocolVersion) (heard : List HostMessage) (sent : List Speech) : Speech → Bool
  | .ready ready => sent.isEmpty && host.canRun ready.protocol
  | .frame draw done =>
    !sent.isEmpty && !sent.any Speech.isSaved && !sent.any (·.answers == some draw) &&
      (heard[draw]?.bind HostMessage.drawn == some done.frame) &&
      decide (Session.claimed done.damage ≤ MAX_DAMAGE_RECTS)
  | .request _ | .systemQuery _ => !sent.isEmpty && !heard.any (·.exit.isSome)
  | .saved saved => !sent.any Speech.isSaved && heard.any (·.exit == some saved.reason)
  | .diagnostic diagnostic =>
    !sent.isEmpty && !sent.any Speech.isSaved &&
      decide (diagnostic.message.utf8ByteSize ≤ MAX_DIAGNOSTIC_BYTES)

/-- The message arrives after the host said something that rules it out: an answer after its request
was called off, a request or a query after the app was asked to exit, anything after the goodbye. -/
def Speech.stale (said : List HostMessage) : Speech → Bool
  | .frame draw _ => (said.drop (draw + 1)).any HostMessage.interrupts
  | .request _ | .systemQuery _ => said.any fun m => m.exit.isSome || m == .goodbye
  | .ready _ | .saved _ | .diagnostic _ => said.contains .goodbye

/-! ## Both ends -/

/-- A message of the app that reached the host. -/
structure Delivery where
  speech : Speech
  stale : Bool
  answer : Answer
  deriving DecidableEq

/-- A conversation. What is on its way to the app is what was said and not heard, and what is on its
way to the host is what was sent and not delivered. -/
structure Conversation where
  session : Session
  said : List HostMessage
  heard : Nat
  sent : List Speech
  delivered : List Delivery
  deriving DecidableEq

/-- What either end does. -/
inductive Act where
  | host (call : Call)
  | hear
  | say (speech : Speech)
  | deliver

/-- The message that an answer is. -/
def Answer.message : Answer → Option HostMessage
  | said message => some message
  | _ => none

namespace Conversation

/-- The `Hello` was sent. -/
def start (id : Nat) (host : ProtocolVersion) (viewport : Size) : Conversation :=
  ⟨.greeting id host viewport, [], 0, [], []⟩

/-- One step, if it is possible. -/
def step (c : Conversation) : Act → Option Conversation
  | .host (.message _) => none
  | .host call => do
    let (answer, session) ← c.session.call call
    pure { c with session, said := c.said ++ answer.message.toList }
  | .hear => if c.heard < c.said.length then some { c with heard := c.heard + 1 } else none
  | .say speech =>
    if maySay c.session.hostProtocol (c.said.take c.heard) c.sent speech then
      some { c with sent := c.sent ++ [speech] }
    else none
  | .deliver => do
    let speech ← c.sent[c.delivered.length]?
    let (answer, session) ← c.session.call (.message speech.message)
    pure { c with
      session
      delivered := c.delivered ++ [⟨speech, speech.stale c.said, answer⟩] }

/-- A run of both ends. -/
def run (c : Conversation) : List Act → Option Conversation
  | [] => some c
  | act :: acts => (c.step act).bind fun c => c.run acts

end Conversation

/-! ## What the host said -/

/-- What was said last was not called off. -/
def Live (said : List HostMessage) (i : Nat) : Prop :=
  (said.drop (i + 1)).any HostMessage.interrupts = false

/-- The `i`-th message of the host asks for `f`. -/
def Draws (said : List HostMessage) (i : Nat) (f : FrameId) : Prop :=
  said[i]?.bind HostMessage.drawn = some f

section Said

variable {said : List HostMessage} {m : HostMessage} {i j : Nat} {f g : FrameId}

theorem Draws.lt (h : Draws said i f) : i < said.length := by
  by_contra hi
  rw [Draws, List.getElem?_eq_none (by omega)] at h
  cases h

theorem draws_concat (h : Draws (said ++ [m]) i f) :
    Draws said i f ∨ i = said.length ∧ m.drawn = some f := by
  rcases Nat.lt_trichotomy i said.length with hi | rfl | hi
  · exact .inl (by rwa [Draws, List.getElem?_append_left hi] at h)
  · exact .inr ⟨rfl, by simpa [Draws] using h⟩
  · have := h.lt
    simp only [List.length_append, List.length_singleton] at this
    omega

theorem Draws.concat (h : Draws said i f) : Draws (said ++ [m]) i f := by
  rw [Draws, List.getElem?_append_left h.lt]
  exact h

theorem Draws.of_prefix {heard : List HostMessage} (h : Draws heard i f) (hp : heard <+: said) :
    Draws said i f := by
  obtain ⟨rest, rfl⟩ := hp
  rw [Draws, List.getElem?_append_left h.lt]
  exact h

theorem live_concat (hi : i < said.length) :
    Live (said ++ [m]) i ↔ Live said i ∧ m.interrupts = false := by
  rw [Live, List.drop_append_of_le_length (by omega), List.any_append, Bool.or_eq_false_iff]
  simp [Live]

theorem live_last : Live (said ++ [m]) said.length := by
  simp [Live]

/-- Nothing is live after an interruption. -/
theorem not_live (hm : m.interrupts = true) (hd : m.drawn = none) (h : Draws (said ++ [m]) i f) :
    ¬ Live (said ++ [m]) i := by
  rcases draws_concat h with h | ⟨-, h⟩
  · rw [live_concat h.lt, hm]
    simp
  · rw [hd] at h
    cases h

/-- Different frame ids come from different requests. -/
theorem draws_inj (h : (said.filterMap HostMessage.drawn).Nodup) (hi : Draws said i f)
    (hj : Draws said j f) : i = j := by
  have hmem : ∀ {said : List HostMessage} {k}, Draws said k f → f ∈ said.filterMap HostMessage.drawn := by
    intro said k hk
    obtain ⟨m, hm, hf⟩ := Option.bind_eq_some_iff.mp hk
    exact List.mem_filterMap.mpr ⟨m, List.mem_of_getElem? hm, hf⟩
  induction said generalizing i j with
  | nil => exact absurd hi.lt (Nat.not_lt_zero _)
  | cons m said ih =>
    have htail : (said.filterMap HostMessage.drawn).Nodup := by
      rw [List.filterMap_cons] at h
      split at h
      · exact h
      · exact (List.nodup_cons.mp h).2
    have hhead : ∀ {k}, m.drawn = some f → ¬ Draws said k f := by
      intro k hm hk
      rw [List.filterMap_cons, hm] at h
      exact (List.nodup_cons.mp h).1 (hmem hk)
    cases i with
    | zero =>
      cases j with
      | zero => rfl
      | succ j => exact absurd hj (hhead hi)
    | succ i =>
      cases j with
      | zero => exact absurd hi (hhead hj)
      | succ j => exact congrArg (· + 1) (ih htail hi hj)

end Said

/-! ## The session and both channels -/

/-- What a session has to do with what the host said and with the messages of the app that were
accepted. -/
structure Fits (s : Session) (said : List HostMessage) (done : List Speech) : Prop where
  closed : s.state = .closed ↔ .goodbye ∈ said ∨ ∃ x ∈ done, x.isSaved = true
  greeting : s.state = .greeting → said = []
  first : done = [] → s.state = .greeting ∨ s.state = .closed
  later : done ≠ [] → s.state ≠ .greeting
  exiting : s.state = .exiting → ∃ m ∈ said, m.exit.isSome
  asked : ∀ m ∈ said, ∀ reason, m.exit = some reason →
    (s.state = .exiting ∨ s.state = .closed) ∧ s.exiting = some reason
  saves : (∃ x ∈ done, x.isSaved = true) → ∃ m ∈ said, m.exit.isSome
  outstanding : ∀ f, s.outstanding = some f → s.state = .running →
    ∃ i, Draws said i f ∧ Live said i
  live : ∀ i f, Draws said i f → Live said i →
    (∃ x ∈ done, x.answers = some i) ∨ s.state = .running ∧ s.outstanding = some f
  answered : ∀ i j f g, i < j → Draws said i f → Draws said j g → Live said i →
    ∃ x ∈ done, x.answers = some i

theorem fits_start (id : Nat) (host : ProtocolVersion) (viewport : Size) :
    Fits (.greeting id host viewport) [] [] where
  closed := ⟨(fun h => by cases h), by simp⟩
  greeting _ := rfl
  first _ := .inl rfl
  later h := absurd rfl h
  exiting h := by cases h
  asked _ h := absurd h List.not_mem_nil
  saves := fun ⟨_, h, _⟩ => absurd h List.not_mem_nil
  outstanding _ h := by cases h
  live _ _ h := by cases h
  answered _ _ _ _ _ h := by cases h

section Fits

variable {s s' : Session} {said heard : List HostMessage} {done : List Speech} {c : Call}
  {answer : Answer} {x : Speech} {host : ProtocolVersion} {m : HostMessage}

/-- A message after which nothing is live, and the session waits for no frame. -/
theorem Fits.interrupt (h : Fits s said done) (hm : m.interrupts = true) (hd : m.drawn = none)
    (hclosed : s'.state = .closed ↔ m = .goodbye ∨ s.state = .closed) (hgreeting : s'.state ≠ .greeting)
    (hdone : done = [] → s'.state = .closed)
    (hrunning : s'.state ≠ .running)
    (hexiting : s'.state = .exiting → m.exit.isSome ∨ s.state = .exiting)
    (hexit : ∀ reason, m.exit = some reason → s'.state = .exiting ∧ s'.exiting = some reason)
    (hasked : s.state = .exiting ∨ s.state = .closed →
      (s'.state = .exiting ∨ s'.state = .closed) ∧ s'.exiting = s.exiting) :
    Fits s' (said ++ [m]) done where
  closed := by
    rw [hclosed, h.closed, List.mem_append, List.mem_singleton, or_assoc, or_left_comm, @eq_comm _ m]
  greeting hs := absurd hs hgreeting
  first hn := .inr (hdone hn)
  later _ := hgreeting
  exiting hs := by
    rcases hexiting hs with hm | hs
    · exact ⟨m, by simp, hm⟩
    · obtain ⟨m', hm', he⟩ := h.exiting hs
      exact ⟨m', List.mem_append_left _ hm', he⟩
  asked m' hm' reason he := by
    rcases List.mem_append.mp hm' with hm' | hm'
    · obtain ⟨hs, hr⟩ := h.asked m' hm' reason he
      obtain ⟨hs', hr'⟩ := hasked hs
      exact ⟨hs', hr'.trans hr⟩
    · rw [List.mem_singleton.mp hm'] at he
      obtain ⟨hs', hr⟩ := hexit reason he
      exact ⟨.inl hs', hr⟩
  saves hx := by
    obtain ⟨m', hm', he⟩ := h.saves hx
    exact ⟨m', List.mem_append_left _ hm', he⟩
  outstanding _ _ hs := absurd hs hrunning
  live _ _ hdraw hlive := absurd hlive (not_live hm hd hdraw)
  answered _ _ _ _ _ hdraw _ hlive := absurd hlive (not_live hm hd hdraw)

/-- An app that said nothing yet has nothing to hear but the goodbye. -/
theorem Fits.started (h : Fits s said done) (hs : s.state = .running ∨ s.state = .suspended) :
    done ≠ [] := by
  intro hn
  rcases h.first hn with hs' | hs' <;> rw [hs'] at hs <;> simp at hs

/-- A draw request is the only one that is live and not answered. -/
theorem Fits.draw (h : Fits s said done) {r : DrawRequest} (hs : s.state = .running)
    (ho : s.outstanding = none) (hs' : s'.state = .running) (ho' : s'.outstanding = some r.frame) :
    Fits s' (said ++ [.draw r]) done where
  closed := by
    have := h.closed
    rw [hs] at this
    rw [hs', List.mem_append]
    simpa using this
  greeting hg := by cases hs'.symm.trans hg
  first hn := absurd hn (h.started (.inl hs))
  later _ hg := by cases hs'.symm.trans hg
  exiting he := by cases hs'.symm.trans he
  asked m hm reason he := by
    rcases List.mem_append.mp hm with hm | hm
    · rcases (h.asked m hm reason he).1 with hs'' | hs'' <;> exact by cases hs.symm.trans hs''
    · rw [List.mem_singleton.mp hm] at he
      cases he
  saves hx := by
    obtain ⟨m', hm', he⟩ := h.saves hx
    exact ⟨m', List.mem_append_left _ hm', he⟩
  outstanding f hf _ := by
    cases ho'.symm.trans hf
    exact ⟨said.length, by simp [Draws, HostMessage.drawn], live_last⟩
  live i f hdraw hlive := by
    rcases draws_concat hdraw with hdraw | ⟨-, hf⟩
    · rcases h.live i f hdraw ((live_concat hdraw.lt).mp hlive).1 with hx | ⟨-, hf⟩
      · exact .inl hx
      · exact by cases ho.symm.trans hf
    · exact .inr ⟨hs', ho'.trans hf⟩
  answered i j f g hij hi hj hlive := by
    have hlast := hj.lt
    simp only [List.length_append, List.length_singleton] at hlast
    rcases draws_concat hi with hi | ⟨rfl, -⟩
    · rcases h.live i f hi ((live_concat hi.lt).mp hlive).1 with hx | ⟨-, hf⟩
      · exact hx
      · exact by cases ho.symm.trans hf
    · omega

/-- Resuming asks for nothing and calls nothing off. -/
theorem Fits.resume (h : Fits s said done) (hsound : s.Sound) (hs : s.state = .suspended) :
    Fits { s with state := .running } (said ++ [.lifecycle .resumed]) done where
  closed := by
    have := h.closed
    rw [hs] at this
    rw [List.mem_append]
    simpa using this
  greeting hg := by cases hg
  first hn := absurd hn (h.started (.inr hs))
  later _ hg := by cases hg
  exiting he := by cases he
  asked m hm reason he := by
    rcases List.mem_append.mp hm with hm | hm
    · rcases (h.asked m hm reason he).1 with hs'' | hs'' <;> exact by cases hs.symm.trans hs''
    · rw [List.mem_singleton.mp hm] at he
      cases he
  saves hx := by
    obtain ⟨m', hm', he⟩ := h.saves hx
    exact ⟨m', List.mem_append_left _ hm', he⟩
  outstanding f hf _ := by
    rcases hsound.outstanding f hf with hs' | hs' <;> exact by cases hs.symm.trans hs'
  live i f hdraw hlive := by
    rcases draws_concat hdraw with hdraw | ⟨-, hf⟩
    · rcases h.live i f hdraw ((live_concat hdraw.lt).mp hlive).1 with hx | ⟨hs', -⟩
      · exact .inl hx
      · exact by cases hs.symm.trans hs'
    · cases hf
  answered i j f g hij hi hj hlive := by
    rcases draws_concat hi with hi | ⟨-, hf⟩
    · rcases draws_concat hj with hj | ⟨-, hg⟩
      · exact h.answered i j f g hij hi hj ((live_concat hi.lt).mp hlive).1
      · cases hg
    · cases hf

/-- What the host does keeps the fit. -/
theorem Fits.call (h : Fits s said done) (hsound : s.Sound) (hm : Move s c answer s')
    (hc : ∀ m, c ≠ .message m) : Fits s' (said ++ answer.message.toList) done := by
  cases hm with
  | violation => exact absurd rfl (hc _)
  | tolerated => exact absurd rfl (hc _)
  | ready => exact absurd rfl (hc _)
  | frame => exact absurd rfl (hc _)
  | saved => exact absurd rfl (hc _)
  | draw hs ho => exact h.draw hs ho hs rfl
  | fault => simpa [Answer.message] using h
  | suspend hs =>
    refine h.interrupt rfl rfl ?_ (by simp) (fun hn => absurd hn (h.started (.inl hs))) (by simp)
      (fun he => (by cases he)) (fun _ he => (by cases he)) fun hs' => ?_
    · simp [hs]
    · simp [hs] at hs'
  | resume hs => exact h.resume hsound hs
  | prepare _ hs =>
    refine h.interrupt rfl rfl ?_ (by simp) (fun hn => absurd hn (h.started hs)) (by simp)
      (fun _ => .inl rfl) (fun _ he => ⟨rfl, he⟩) fun hs' => ?_
    · rcases hs with hs | hs <;> simp [hs]
    · rcases hs with hs | hs <;> simp [hs] at hs'
  | close hs =>
    exact h.interrupt rfl rfl (by simp) (by simp) (fun _ => rfl) (by simp) (fun he => (by cases he))
      (fun _ he => (by cases he)) fun _ => ⟨.inr rfl, rfl⟩
  | silent => simpa [Answer.message] using h

/-- The message does not change the session. -/
theorem Fits.keep (h : Fits s said done) (hx : x.isSaved = false) (hs : s.state ≠ .greeting) :
    Fits s said (done ++ [x]) where
  closed := by
    rw [h.closed]
    simp [hx]
  greeting hg := absurd hg hs
  first hn := by cases (List.append_eq_nil_iff.mp hn).2
  later _ := hs
  exiting := h.exiting
  asked := h.asked
  saves hy := h.saves (by simpa [hx] using hy)
  outstanding := h.outstanding
  live i f hdraw hlive := (h.live i f hdraw hlive).imp_left fun ⟨y, hy, ha⟩ =>
    ⟨y, List.mem_append_left _ hy, ha⟩
  answered i j f g hij hi hj hlive := by
    obtain ⟨y, hy, ha⟩ := h.answered i j f g hij hi hj hlive
    exact ⟨y, List.mem_append_left _ hy, ha⟩

/-- A call with a message that is checked. -/
theorem call_of_check {r : Except Violation Session} (h : s.checkAppMessage x.message = some r) :
    s.call (.message x.message) = some (match r with
      | .ok s' => (.accepted, s')
      | .error v => (.violation v, { s with state := .closed })) := by
  rcases r with v | s' <;> simp only [Session.call, Session.onAppMessage, h, Option.map_some]

/-- An answer to a live request settles it. -/
theorem Fits.frame (h : Fits s said done) {i : Nat} {fd : FrameDone} (hs : s.state = .running)
    (hnew : ∀ y ∈ done, y.answers ≠ some i) (hdraw : Draws said i fd.frame) (hlive : Live said i) :
    Fits { s with outstanding := none } said (done ++ [.frame i fd]) where
  closed := by
    rw [show ({ s with outstanding := none } : Session).state = s.state from rfl, h.closed]
    simp [Speech.isSaved]
  greeting := h.greeting
  first hn := by cases (List.append_eq_nil_iff.mp hn).2
  later _ hg := by cases hs.symm.trans hg
  exiting := h.exiting
  asked := h.asked
  saves hy := h.saves (by simpa [Speech.isSaved] using hy)
  outstanding _ ho := by cases ho
  live j f hj hlive' := by
    left
    rcases Nat.lt_trichotomy j i with hji | rfl | hji
    · obtain ⟨y, hy, ha⟩ := h.answered j i f _ hji hj hdraw hlive'
      exact ⟨y, List.mem_append_left _ hy, ha⟩
    · exact ⟨.frame j fd, by simp, rfl⟩
    · obtain ⟨y, hy, ha⟩ := h.answered i j _ f hji hdraw hj hlive
      exact absurd ha (hnew y hy)
  answered j k f g hjk hj hk hlive' := by
    obtain ⟨y, hy, ha⟩ := h.answered j k f g hjk hj hk hlive'
    exact ⟨y, List.mem_append_left _ hy, ha⟩

/-- The app is ready. -/
theorem Fits.ready (h : Fits s said []) (hsound : s.Sound) (hs : s.state = .greeting) (r : Ready) :
    Fits { s with appProtocol := some r.protocol, state := .running } said [.ready r] := by
  cases h.greeting hs
  have hsaved : ¬ ∃ x ∈ [Speech.ready r], x.isSaved = true := by simp [Speech.isSaved]
  refine ⟨by simp [Speech.isSaved], (fun h => by cases h), (fun h => by cases h), fun _ h => (by cases h), (fun h => by cases h),
    fun _ h => absurd h List.not_mem_nil, fun hx => absurd hx hsaved, fun f ho _ => ?_,
    fun _ _ h => (by cases h), fun _ _ _ _ _ h => (by cases h)⟩
  rcases hsound.outstanding f ho with hs' | hs' <;> exact by cases hs.symm.trans hs'

/-- The app saved. -/
theorem Fits.saved (h : Fits s said done) (hs : s.state = .exiting) (sv : Saved) :
    Fits { s with state := .closed } said (done ++ [.saved sv]) where
  closed := by simp [Speech.isSaved]
  greeting hg := by cases hg
  first hn := by cases (List.append_eq_nil_iff.mp hn).2
  later _ hg := by cases hg
  exiting he := by cases he
  asked m hm reason he := ⟨.inr rfl, (h.asked m hm reason he).2⟩
  saves _ := h.exiting hs
  outstanding _ _ hr := by cases hr
  live i f hdraw hlive := by
    rcases h.live i f hdraw hlive with ⟨y, hy, ha⟩ | ⟨hs', -⟩
    · exact .inl ⟨y, List.mem_append_left _ hy, ha⟩
    · exact by cases hs.symm.trans hs'
  answered i j f g hij hi hj hlive := by
    obtain ⟨y, hy, ha⟩ := h.answered i j f g hij hi hj hlive
    exact ⟨y, List.mem_append_left _ hy, ha⟩

/-- While the host has not asked the app to exit, an app that was ready is heard. -/
theorem Fits.speaking (h : Fits s said done) (hdone : done ≠ []) (hbye : .goodbye ∉ said)
    (hexit : ∀ m ∈ said, m.exit = none) : s.state = .running ∨ s.state = .suspended := by
  have hno : ¬ ∃ m ∈ said, m.exit.isSome := fun ⟨m, hm, he⟩ => by
    rw [hexit m hm] at he
    cases he
  cases hs : s.state with
  | greeting => exact absurd hs (h.later hdone)
  | running => exact .inl rfl
  | suspended => exact .inr rfl
  | exiting => exact absurd (h.exiting hs) hno
  | closed => exact absurd (h.saves ((h.closed.mp hs).resolve_left hbye)) hno

/-- A message of a conforming app that crossed nothing is accepted. -/
theorem Fits.deliver (h : Fits s said done) (hsound : s.Sound)
    (hmay : maySay s.hostProtocol heard done x = true)
    (hheard : heard <+: said) (hstale : x.stale said = false) :
    ∃ s', s.call (.message x.message) = some (.accepted, s') ∧ Fits s' said (done ++ [x]) := by
  have hopen : .goodbye ∉ said → (∀ y ∈ done, ¬ y.isSaved = true) → s.state ≠ .closed := by
    intro hbye hsaved hs
    rcases h.closed.mp hs with hs | ⟨y, hy, hs⟩
    · exact hbye hs
    · exact hsaved y hy hs
  have haccept : ∀ {s'}, s.checkAppMessage x.message = some (.ok s') → Fits s' said (done ++ [x]) →
      ∃ s', s.call (.message x.message) = some (.accepted, s') ∧ Fits s' said (done ++ [x]) :=
    fun hcheck hfits => ⟨_, call_of_check hcheck, hfits⟩
  have hasks : done ≠ [] → (said.any fun m => m.exit.isSome || m == .goodbye) = false →
      s.state = .running ∨ s.state = .suspended := by
    intro hdone hany
    simp only [List.any_eq_false, Bool.or_eq_true, not_or, Option.not_isSome_iff_eq_none,
      beq_iff_eq] at hany
    exact h.speaking hdone (fun hm => (hany _ hm).2 rfl) fun m hm => (hany m hm).1
  cases x with
  | ready r =>
    simp only [maySay, Bool.and_eq_true, List.isEmpty_iff] at hmay
    obtain ⟨rfl, hrun⟩ := hmay
    have hbye : HostMessage.goodbye ∉ said := by simpa [Speech.stale] using hstale
    have hs : s.state = .greeting :=
      (h.first rfl).resolve_right (hopen hbye fun _ hy => absurd hy List.not_mem_nil)
    exact haccept (by simp only [Speech.message, Session.checkAppMessage, hs, if_pos hrun])
      (h.ready hsound hs r)
  | frame i fd =>
    simp only [maySay, Bool.and_eq_true, Bool.not_eq_true', List.any_eq_false, beq_iff_eq,
      decide_eq_true_eq] at hmay
    obtain ⟨⟨⟨-, hnew⟩, hdraw⟩, hdamage⟩ := hmay
    have hdraw : Draws said i fd.frame := Draws.of_prefix hdraw hheard
    rcases h.live i _ hdraw hstale with ⟨y, hy, ha⟩ | ⟨hs, ho⟩
    · exact absurd ha (hnew y hy)
    refine haccept ?_ (h.frame hs hnew hdraw hstale)
    rw [Speech.message, Session.check_speaking (.inl hs)]
    simp only [ho, ne_eq, not_true_eq_false, if_false, if_neg (Nat.not_lt.mpr hdamage)]
  | request r =>
    simp only [maySay, Bool.and_eq_true, Bool.not_eq_true', List.isEmpty_eq_false_iff] at hmay
    have hs := hasks hmay.1 hstale
    exact haccept (by rw [Speech.message, Session.check_speaking hs]) (h.keep rfl (h.later hmay.1))
  | systemQuery query =>
    simp only [maySay, Bool.and_eq_true, Bool.not_eq_true', List.isEmpty_eq_false_iff] at hmay
    have hs := hasks hmay.1 hstale
    exact haccept (by rw [Speech.message, Session.check_speaking hs]) (h.keep rfl (h.later hmay.1))
  | saved sv =>
    simp only [maySay, Bool.and_eq_true, Bool.not_eq_true', List.any_eq_false, List.any_eq_true,
      beq_iff_eq] at hmay
    obtain ⟨hsaved, m, hm, hexit⟩ := hmay
    have hbye : HostMessage.goodbye ∉ said := by simpa [Speech.stale] using hstale
    obtain ⟨hs, hreason⟩ := h.asked m (hheard.subset hm) _ hexit
    have hs := hs.resolve_right (hopen hbye hsaved)
    exact haccept (by simp only [Speech.message, Session.checkAppMessage, hs, hreason, if_true])
      (h.saved hs sv)
  | diagnostic d =>
    simp only [maySay, Bool.and_eq_true, Bool.not_eq_true', List.isEmpty_eq_false_iff,
      List.any_eq_false, decide_eq_true_eq] at hmay
    obtain ⟨⟨hne, hsaved⟩, hlen⟩ := hmay
    have hbye : HostMessage.goodbye ∉ said := by simpa [Speech.stale] using hstale
    exact haccept (Session.check_diagnostic (hopen hbye hsaved) hlen) (h.keep rfl (h.later hne))

/-- A message that crossed something is a violation, if no frame id was used twice. -/
theorem Fits.refused (h : Fits s said done) (hsound : s.Sound)
    (hmay : maySay s.hostProtocol heard done x = true) (hheard : heard <+: said)
    (hids : (said.filterMap HostMessage.drawn).Nodup) (hstale : x.stale said = true) :
    ∃ v s', s.call (.message x.message) = some (.violation v, s') := by
  have hrefuse : ∀ {v}, s.checkAppMessage x.message = some (.error v) →
      ∃ v s', s.call (.message x.message) = some (.violation v, s') :=
    fun hcheck => ⟨_, _, call_of_check hcheck⟩
  have hclosed : s.state = .closed → ∃ v s', s.call (.message x.message) = some (.violation v, s') :=
    fun hs => hrefuse (v := .afterClose x.message.name) (by simp only [Session.checkAppMessage, hs])
  have hbye : said.contains .goodbye = true →
      ∃ v s', s.call (.message x.message) = some (.violation v, s') := fun hm =>
    hclosed (h.closed.mpr (.inl (List.contains_iff_mem.mp hm)))
  have hasks : (∀ sv, x.message ≠ .saved sv) → (∀ d, x.message ≠ .diagnostic d) →
      (said.any fun m => m.exit.isSome || m == .goodbye) = true →
      ∃ v s', s.call (.message x.message) = some (.violation v, s') := by
    intro hsaved hdiagnostic hany
    obtain ⟨m, hm, hexit⟩ := List.any_eq_true.mp hany
    rcases (Bool.or_eq_true _ _).mp hexit with hexit | hexit
    · obtain ⟨reason, hreason⟩ := Option.isSome_iff_exists.mp hexit
      rcases (h.asked m hm reason hreason).1 with hs | hs
      · refine hrefuse (v := .afterExit x.message.name) ?_
        cases hx : x.message <;> simp_all [Session.checkAppMessage]
      · exact hclosed hs
    · exact hbye (List.contains_iff_mem.mpr (beq_iff_eq.mp hexit ▸ hm))
  cases x with
  | ready r => exact hbye hstale
  | saved sv => exact hbye hstale
  | diagnostic d => exact hbye hstale
  | request r => exact hasks (fun _ h => (by cases h)) (fun _ h => (by cases h)) hstale
  | systemQuery query => exact hasks (fun _ h => (by cases h)) (fun _ h => (by cases h)) hstale
  | frame i fd =>
    simp only [maySay, Bool.and_eq_true, beq_iff_eq] at hmay
    have hdraw : Draws said i fd.frame := Draws.of_prefix hmay.1.2 hheard
    have hspeaking : s.state = .running ∨ s.state = .suspended →
        ∃ v s', s.call (.message (Speech.frame i fd).message) = some (.violation v, s') := by
      intro hs
      cases ho : s.outstanding with
      | none =>
        exact hrefuse (v := .noFrameOutstanding) (by
          simp only [Speech.message, Session.check_speaking hs, ho])
      | some f =>
        have hne : fd.frame ≠ f := by
          rintro rfl
          have hrun : s.state = .running := (hsound.outstanding _ ho).resolve_right fun hc => by
            rcases hs with hs | hs <;> exact by cases hs.symm.trans hc
          obtain ⟨j, hj, hlive⟩ := h.outstanding _ ho hrun
          cases draws_inj hids hdraw hj
          exact by cases hlive.symm.trans hstale
        exact hrefuse (v := .unknownFrame fd.frame.get) (by
          simp only [Speech.message, Session.check_speaking hs, ho, if_pos hne])
    cases hs : s.state with
    | greeting =>
      rw [h.greeting hs] at hdraw
      exact absurd hdraw.lt (Nat.not_lt_zero _)
    | running => exact hspeaking (.inl hs)
    | suspended => exact hspeaking (.inr hs)
    | exiting =>
      exact hrefuse (v := .afterExit "frame") (by
        simp only [Speech.message, Session.checkAppMessage, hs, AppMessage.name])
    | closed => exact hclosed hs

end Fits

/-! ## Runs -/

/-- The invariant of a conversation: the app behaves, both channels keep their order, and as long as
no message was stale the session fits. -/
structure Conversation.Good (c : Conversation) : Prop where
  past : ∃ past, Kept past c.session ∧ issued past = c.said.filterMap HostMessage.drawn
  conduct : ∀ i x, c.sent[i]? = some x → ∃ heard, heard <+: c.said ∧
    maySay c.session.hostProtocol heard (c.sent.take i) x = true
  order : c.delivered.map Delivery.speech <+: c.sent
  fits : (∀ d ∈ c.delivered, d.stale = false) →
    Fits c.session c.said (c.delivered.map Delivery.speech) ∧ ∀ d ∈ c.delivered, d.answer = .accepted
  strict : (c.said.filterMap HostMessage.drawn).length ≤ 2 ^ 64 →
    (∀ d ∈ c.delivered, d.answer = .accepted) → ∀ d ∈ c.delivered, d.stale = false

theorem Move.hostProtocol {s s' : Session} {c : Call} {answer : Answer} (h : Move s c answer s') :
    s'.hostProtocol = s.hostProtocol := by
  cases h <;> rfl

theorem Move.heard {s s' : Session} {m : AppMessage} {answer : Answer}
    (h : Move s (.message m) answer s') : answer = .accepted ∨ ∃ v, answer = .violation v := by
  generalize hc : Call.message m = c at h
  cases h with
  | violation => exact .inr ⟨_, rfl⟩
  | tolerated => exact .inl rfl
  | ready => exact .inl rfl
  | frame => exact .inl rfl
  | saved => exact .inl rfl
  | prepare hm => exact absurd hc.symm (hm m)
  | silent hm => exact absurd hc.symm (hm m)
  | _ => cases hc

theorem issued_answer (s s' : Session) (c : Call) (answer : Answer) :
    (Turn.mk s c answer s').issued.toList = answer.message.toList.filterMap HostMessage.drawn := by
  rcases answer with - | - | (- | - | -) | - | - <;> rfl

namespace Conversation

variable {c c' : Conversation} {act : Act}

theorem good_start (id : Nat) (host : ProtocolVersion) (viewport : Size) :
    (start id host viewport).Good where
  past := ⟨[], kept_greeting id host viewport, rfl⟩
  conduct _ _ h := by cases h
  order := List.prefix_refl _
  fits _ := ⟨fits_start id host viewport, fun _ h => absurd h List.not_mem_nil⟩
  strict _ _ _ h := absurd h List.not_mem_nil

/-- A call of the host. -/
theorem Good.host (h : c.Good) {call : Call} {answer : Answer} {session : Session}
    (hcall : c.session.call call = some (answer, session)) (hm : ∀ m, call ≠ .message m) :
    Good { c with session, said := c.said ++ answer.message.toList } := by
  obtain ⟨past, hkept, hissued⟩ := h.past
  obtain ⟨answer', session', hcall', hmove⟩ := Session.call_moves hkept.sound call
  cases hcall.symm.trans hcall'
  have hgrows : c.said <+: c.said ++ answer.message.toList := List.prefix_append _ _
  refine ⟨⟨_, hkept.move hmove, ?_⟩, fun i x hx => ?_, h.order, fun hstale => ?_, fun hlength => ?_⟩
  · rw [issued_concat, issued_answer, List.filterMap_append, hissued]
  · obtain ⟨heard, hheard, hmay⟩ := h.conduct i x hx
    exact ⟨heard, hheard.trans hgrows, by rwa [hmove.hostProtocol]⟩
  · obtain ⟨hfits, haccepted⟩ := h.fits hstale
    exact ⟨hfits.call hkept.sound hmove hm, haccepted⟩
  · refine h.strict (Nat.le_trans ?_ hlength)
    simp only [List.filterMap_append, List.length_append]
    omega

/-- A message that reaches the host. -/
theorem Good.deliver (h : c.Good) {speech : Speech} {answer : Answer} {session : Session}
    (hspeech : c.sent[c.delivered.length]? = some speech)
    (hcall : c.session.call (.message speech.message) = some (answer, session)) :
    Good { c with
      session
      delivered := c.delivered ++ [⟨speech, speech.stale c.said, answer⟩] } := by
  obtain ⟨past, hkept, hissued⟩ := h.past
  obtain ⟨answer', session', hcall', hmove⟩ := Session.call_moves hkept.sound (.message speech.message)
  cases hcall.symm.trans hcall'
  have hdone : c.sent.take c.delivered.length = c.delivered.map Delivery.speech := by
    have := List.prefix_iff_eq_take.mp h.order
    rw [List.length_map] at this
    exact this.symm
  obtain ⟨heard, hheard, hmay⟩ := h.conduct _ _ hspeech
  rw [hdone] at hmay
  have hmap : (c.delivered ++ [Delivery.mk speech (speech.stale c.said) answer]).map Delivery.speech =
      c.delivered.map Delivery.speech ++ [speech] := by simp
  refine ⟨⟨_, hkept.move hmove, ?_⟩, fun i x hx => ?_, ?_, fun hstale => ?_,
    fun hlength haccepted => ?_⟩
  · rw [issued_concat, issued_answer, hissued]
    rcases hmove.heard with rfl | ⟨v, rfl⟩ <;> simp [Answer.message]
  · obtain ⟨heard', hheard', hmay'⟩ := h.conduct i x hx
    exact ⟨heard', hheard', by rwa [hmove.hostProtocol]⟩
  · rw [hmap, ← hdone]
    have hlt : c.delivered.length < c.sent.length := (List.getElem?_eq_some_iff.mp hspeech).1
    rw [show [speech] = [c.sent[c.delivered.length]] by
      rw [(List.getElem?_eq_some_iff.mp hspeech).2], List.take_concat_get']
    exact List.take_prefix _ _
  · obtain ⟨hfits, haccepted⟩ := h.fits fun d hd => hstale d (List.mem_append_left _ hd)
    obtain ⟨s', hcall'', hfits'⟩ := hfits.deliver hkept.sound hmay hheard
      (hstale ⟨speech, speech.stale c.said, answer⟩ (by simp))
    cases hcall.symm.trans hcall''
    refine ⟨by rw [hmap]; exact hfits', fun d hd => ?_⟩
    rcases List.mem_append.mp hd with hd | hd
    · exact haccepted d hd
    · rw [List.mem_singleton.mp hd]
  · have hbefore := h.strict hlength fun d hd => haccepted d (List.mem_append_left _ hd)
    intro d hd
    rcases List.mem_append.mp hd with hd | hd
    · exact hbefore d hd
    rw [List.mem_singleton.mp hd]
    by_contra hs
    have hnodup : (c.said.filterMap HostMessage.drawn).Nodup := by
      rw [← hissued] at hlength ⊢
      refine List.Pairwise.imp (fun {f g} hlt heq => ?_) (hkept.frames.increasing hlength)
      rw [heq] at hlt
      exact Nat.lt_irrefl _ hlt
    obtain ⟨v, s', hcall''⟩ := (h.fits hbefore).1.refused hkept.sound hmay hheard hnodup
      (Bool.not_eq_false _ ▸ hs)
    cases hcall.symm.trans hcall''
    exact by cases haccepted ⟨speech, speech.stale c.said, .violation v⟩ (by simp)

theorem Good.step (h : c.Good) (hstep : c.step act = some c') : c'.Good := by
  cases act with
  | host call =>
    have hhost : (∀ m, call ≠ .message m) → (c.session.call call).bind (fun (answer, session) =>
        some { c with session, said := c.said ++ answer.message.toList }) = some c' → c'.Good := by
      intro hm hstep
      obtain ⟨⟨answer, session⟩, hcall, heq⟩ := Option.bind_eq_some_iff.mp hstep
      cases heq
      exact h.host hcall hm
    cases call with
    | message => cases hstep
    | _ => exact hhost (fun _ h => (by cases h)) hstep
  | hear =>
    simp only [Conversation.step] at hstep
    split at hstep <;> cases hstep
    exact ⟨h.past, h.conduct, h.order, h.fits, h.strict⟩
  | say speech =>
    simp only [Conversation.step] at hstep
    split at hstep <;> cases hstep
    next hmay =>
    refine ⟨h.past, fun i x hx => ?_, h.order.trans (List.prefix_append _ _), h.fits, h.strict⟩
    rcases Nat.lt_trichotomy i c.sent.length with hi | rfl | hi
    · rw [List.getElem?_append_left hi] at hx
      obtain ⟨heard, hheard, hmay⟩ := h.conduct i x hx
      exact ⟨heard, hheard, by rwa [List.take_append_of_le_length hi.le]⟩
    · have hx : x = speech := by simpa using hx.symm
      exact ⟨c.said.take c.heard, List.take_prefix _ _, by rw [List.take_left', hx]; exact hmay; rfl⟩
    · rw [List.getElem?_eq_none (by simp; omega)] at hx
      cases hx
  | deliver =>
    obtain ⟨speech, hspeech, hstep⟩ := Option.bind_eq_some_iff.mp hstep
    obtain ⟨⟨answer, session⟩, hcall, heq⟩ := Option.bind_eq_some_iff.mp hstep
    cases heq
    exact h.deliver hspeech hcall

theorem Good.run (h : c.Good) {acts : List Act} (hrun : c.run acts = some c') : c'.Good := by
  induction acts generalizing c with
  | nil =>
    cases hrun
    exact h
  | cons act acts ih =>
    obtain ⟨c₁, hstep, hrun⟩ := Option.bind_eq_some_iff.mp hrun
    exact ih (h.step hstep) hrun

end Conversation

/-- In every run of a host and a conforming app: if no message that reached the host was stale, the
host accepted them all, and if frame ids were not used up and the host accepted them all, none was
stale. -/
theorem accepted_iff_not_stale (id : Nat) (host : ProtocolVersion) (viewport : Size)
    (acts : List Act) (c : Conversation)
    (h : (Conversation.start id host viewport).run acts = some c) :
    ((∀ d ∈ c.delivered, d.stale = false) → ∀ d ∈ c.delivered, d.answer = .accepted) ∧
      ((c.said.filterMap HostMessage.drawn).length ≤ 2 ^ 64 →
        (∀ d ∈ c.delivered, d.answer = .accepted) → ∀ d ∈ c.delivered, d.stale = false) :=
  have hgood := (Conversation.good_start id host viewport).run h
  ⟨fun hstale => (hgood.fits hstale).2, hgood.strict⟩

namespace Sample

/-- The panel, and the first frame of a session. -/
def viewport : Size := ⟨1620, 2160⟩

def done : FrameDone := ⟨.FIRST, .full⟩

/-- One frame, and then the app is asked to exit. -/
def visit : List Act :=
  [.say (.ready ⟨CURRENT⟩), .deliver, .host (.draw .first), .hear, .say (.frame 0 done), .deliver,
    .host (.prepareToExitDefault .sleep), .hear, .say (.saved ⟨.sleep, true⟩), .deliver]

/-- The host suspends the app while the answer to its draw request is on the way. -/
def crossing : List Act :=
  [.say (.ready ⟨CURRENT⟩), .deliver, .host (.draw .first), .hear, .say (.frame 0 done),
    .host .suspend, .deliver]

end Sample

theorem accepted_iff_not_stale_visit :
    ∃ c, (Conversation.start 1 CURRENT Sample.viewport).run Sample.visit = some c ∧
      ((∀ d ∈ c.delivered, d.stale = false) → ∀ d ∈ c.delivered, d.answer = .accepted) ∧
      ((c.said.filterMap HostMessage.drawn).length ≤ 2 ^ 64 →
        (∀ d ∈ c.delivered, d.answer = .accepted) → ∀ d ∈ c.delivered, d.stale = false) :=
  ⟨_, rfl, accepted_iff_not_stale 1 CURRENT Sample.viewport Sample.visit _ rfl⟩

/-- An answer that crosses a suspend is a violation. -/
theorem conforming_app_is_refused : ¬ ∀ (id : Nat) (host : ProtocolVersion) (viewport : Size)
    (acts : List Act) (c : Conversation), (Conversation.start id host viewport).run acts = some c →
      ∀ d ∈ c.delivered, d.answer = .accepted := by
  intro h
  have := h 1 CURRENT Sample.viewport Sample.crossing _ rfl
    ⟨.frame 0 Sample.done, true, .violation .noFrameOutstanding⟩ (by decide)
  cases this

end Paperclip.Protocol
