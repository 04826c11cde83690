import Paperclip.Interactive.Session

/-!
# What a session keeps

Every step of a session, and what it leaves of the requests and frames on their way.

* `Session.Sound`: the host waits for just the frames that are to be drawn and read, and one is the
  last message read whenever it does not wait.
* `Hosted`: what a step of the host makes of a session. `Turned`: what a turn of the app does.
* `step_draws`, `step_reads`, `hosted_slot`: what a step says, reads, and keeps of a request.
-/

namespace Paperclip.Interactive

open Protocol Sdk.Runtime Trace

section

variable {σ γ : Type}

/-- The frames that are asked for and not drawn yet. -/
def Session.draws (s : Session σ γ) : ℕ := s.inbox.countP Incoming.isDraw + s.toApp.countP isDraw

/-- The host has fed the last pointer of a burst to the app. -/
def Session.Ends (s : Session σ γ) : Prop :=
  ∃ request coalesced, s.phase = .draining request coalesced ∧
    (coalesced < MAX_COALESCED_POINTERS → s.events = [])

end

/-! ## What a step of the host does -/

section

variable {σ γ : Type}

/-- The cause of a frame that is asked for next. -/
def Phase.cause? : Phase → Option Cause
  | .starting => some .opening
  | .waiting => some .pointer
  | .draining request coalesced => some (.queued request coalesced)
  | .awaiting _ _ | .left _ => none

/-- Messages of the host that ask for no frame and end no loop. -/
def Quiet (talk : List (Whole.HostMessage Version)) : Prop :=
  ∀ message ∈ talk, isDraw message = false ∧ isFarewell message = false

/-- What a step of the host makes of a session. -/
inductive Hosted (s : Session σ γ) : Session σ γ → Prop where
  | stays : Hosted s s
  | asks (talk : List (Whole.HostMessage Version)) (request : DrawRequest) (cause : Cause)
      (events : List Protocol.PointerEvent) (nextFrame : FrameId) : Quiet talk →
      s.phase.cause? = some cause →
      Hosted s { s with
        toApp := s.toApp ++ talk ++ [.draw request]
        nextFrame
        events
        phase := .awaiting cause none }
  | reads (cause : Cause) (seen : Option Request) (message : Whole.AppMessage)
      (toHost : Line Whole.AppMessage) (result : Except SystemDenial SystemValue) :
      s.phase = .awaiting cause seen → s.toHost.Receives message toHost →
      Hosted s (Session.hear { s with toHost } cause seen result message)
  | gone : s.phase = .waiting → Hosted s { s with phase := .left .returnToStock }
  | decides (request : Option Request) (coalesced : ℕ) : s.phase = .draining request coalesced →
      (coalesced < MAX_COALESCED_POINTERS → s.events = []) →
      Hosted s { s with phase := decided request }

variable {s s' : Session σ γ} {changes : List SystemEvent}
  {result : Except SystemDenial SystemValue}

theorem quiet_changes (changes : List SystemEvent) :
    Quiet (changes.map Whole.HostMessage.systemEvent) := by
  intro message hmem
  obtain ⟨_, -, rfl⟩ := List.mem_map.1 hmem
  exact ⟨rfl, rfl⟩

/-- Asking for a frame after a pointer. -/
theorem hosted_pointer {event : Protocol.PointerEvent} {cause : Cause}
    {events : List Protocol.PointerEvent} (hcause : s.phase.cause? = some cause) :
    Hosted s (Session.pointer { s with events } event changes cause) := by
  have hquiet : Quiet (.pointer event :: changes.map .systemEvent) := by
    intro message hmem
    rcases List.mem_cons.1 hmem with rfl | hmem
    · exact ⟨rfl, rfl⟩
    · exact quiet_changes changes message hmem
  have := Hosted.asks _ ⟨s.nextFrame, .appRequested, Sdk.SCREEN⟩ cause events s.nextFrame.next
    hquiet hcause
  rw [show s.toApp ++ .pointer event :: changes.map .systemEvent =
    s.toApp ++ [.pointer event] ++ changes.map .systemEvent by simp] at this
  exact this

/-- What a step of the host does is one of these. -/
theorem hosted_host : Hosted s (s.host changes result) := by
  unfold Session.host
  split
  · next h => exact .asks _ _ _ s.events _ (quiet_changes changes) (by rw [h]; rfl)
  · next cause seen h =>
    unfold Session.read
    split
    · exact .stays
    · next hr => exact .reads _ _ _ _ _ h (Line.receives_of_receive? hr)
  · next h =>
    unfold Session.await
    split
    · exact hosted_pointer (by rw [h]; rfl)
    · split
      · exact .stays
      · exact .gone h
  · next request coalesced h =>
    unfold Session.drain
    split
    · exact hosted_pointer (by rw [h]; rfl)
    · next hnone =>
      refine .decides request coalesced h fun hlt => ?_
      rwa [if_pos hlt] at hnone
  · exact .stays

end

/-! ## What a session keeps -/

section

variable {σ γ : Type} {app : App σ γ} {s s' : Session σ γ}

/-- The frames that a phase waits for. -/
def Phase.pending : Phase → ℕ
  | .awaiting _ _ => 1
  | .starting | .waiting | .draining _ _ | .left _ => 0

/-- The frames that are drawn and not read yet. -/
def Session.frames (s : Session σ γ) : ℕ := s.toHost.unread.countP isFrame

/-- The last message that was read is a frame. -/
def Session.Framed (s : Session σ γ) : Prop :=
  ∃ n done, s.toHost.taken = n + 1 ∧ s.toHost.sent[n]? = some (.frame done)

/-- No frame was read yet. -/
def Session.Unframed (s : Session σ γ) : Prop :=
  ∀ m < s.toHost.taken, ∀ done, s.toHost.sent[m]? ≠ some (Whole.AppMessage.frame done)

/-- The host waits for the frames that are to be drawn and to be read, and has read one last
otherwise. -/
structure Session.Sound (s : Session σ γ) : Prop where
  running : s.loop.outcome = none
  inbox : ∀ incoming ∈ s.inbox, incoming.isFarewell = false
  toApp : ∀ message ∈ s.toApp, isFarewell message = false
  pending : s.draws + s.frames = s.phase.pending
  waiting : s.phase = .waiting → s.Framed
  draining : ∀ request coalesced, s.phase = .draining request coalesced → s.Framed
  starting : s.phase = .starting → s.Unframed
  opening : ∀ seen, s.phase = .awaiting .opening seen → s.Unframed

theorem Session.sound_initial (start : σ) : (Session.initial start : Session σ γ).Sound where
  running := rfl
  inbox _ h := (by cases h)
  toApp _ h := (by cases h)
  pending := rfl
  waiting h := (by cases h)
  draining _ _ h := (by cases h)
  starting _ _ h := absurd h (Nat.not_lt_zero _)
  opening _ h := (by cases h)

theorem Phase.pending_of_cause? {phase : Phase} {cause : Cause} (h : phase.cause? = some cause) :
    phase.pending = 0 := by
  cases phase with
  | starting | waiting | draining => rfl
  | awaiting | left => cases h

theorem draws_quiet {talk : List (Whole.HostMessage Version)} (h : Quiet talk) :
    talk.countP isDraw = 0 :=
  List.countP_eq_zero.2 fun message hmem => by rw [(h message hmem).1]; exact Bool.false_ne_true

/-- A message that is read. -/
theorem Session.frames_receives {message : Whole.AppMessage} {toHost : Line Whole.AppMessage}
    (h : s.toHost.Receives message toHost) :
    s.frames = { s with toHost }.frames + if isFrame message = true then 1 else 0 := by
  rw [Session.frames, Session.frames, h.unread, List.countP_cons]

theorem Session.Unframed.receives {message : Whole.AppMessage} {toHost : Line Whole.AppMessage}
    (hs : s.Unframed) (h : s.toHost.Receives message toHost) (hm : isFrame message = false) :
    ({ s with toHost } : Session σ γ).Unframed := by
  intro m hlt done
  dsimp only at hlt ⊢
  rw [h.taken] at hlt
  rw [h.sent]
  rcases Nat.lt_succ_iff_lt_or_eq.1 hlt with hlt | rfl
  · exact hs m hlt done
  · rw [h.message]
    rintro ⟨⟩
    cases hm

/-- A message that is no frame, read while a frame is awaited. -/
theorem Session.Sound.heard {cause : Cause} {seen : Option Request}
    {message : Whole.AppMessage} {toHost : Line Whole.AppMessage} (h : s.Sound)
    (seen' : Option Request) (toApp : List (Whole.HostMessage Version))
    (hphase : s.phase = .awaiting cause seen) (hreceives : s.toHost.Receives message toHost)
    (hm : isFrame message = false)
    (hquiet : Quiet toApp) :
    ({ s with
      toApp := s.toApp ++ toApp
      toHost
      phase := .awaiting cause seen' } : Session σ γ).Sound := by
  refine ⟨h.running, h.inbox, fun message hmem => ?_, ?_, fun hp => (by cases hp),
    fun _ _ hp => (by cases hp), fun hp => (by cases hp), fun _ hp => ?_⟩
  · rcases List.mem_append.1 hmem with hmem | hmem
    · exact h.toApp message hmem
    · exact (hquiet message hmem).2
  · have hpending := h.pending
    rw [hphase, Session.frames_receives hreceives, hm, Session.draws] at hpending
    show s.inbox.countP Incoming.isDraw + (s.toApp ++ toApp).countP isDraw +
      toHost.unread.countP isFrame = 1
    rw [List.countP_append, draws_quiet hquiet]
    exact hpending
  · cases hp
    exact (h.opening seen hphase).receives hreceives hm

/-- What the host does keeps the session sound. -/
theorem Session.Sound.hosted (h : s.Sound) (hs : Hosted s s') : s'.Sound := by
  cases hs with
  | stays => exact h
  | asks talk request cause events nextFrame hquiet hcause =>
    have hpending := h.pending
    rw [Phase.pending_of_cause? hcause] at hpending
    refine ⟨h.running, h.inbox, fun message hmem => ?_, ?_, fun hp => (by cases hp),
      fun _ _ hp => (by cases hp), fun hp => (by cases hp), fun seen hp => ?_⟩
    · rcases List.mem_append.1 hmem with hmem | hmem
      · rcases List.mem_append.1 hmem with hmem | hmem
        · exact h.toApp message hmem
        · exact (hquiet message hmem).2
      · rw [List.mem_singleton.1 hmem]
        rfl
    · have hdraws : s.inbox.countP Incoming.isDraw + s.toApp.countP isDraw + s.frames = 0 :=
        hpending
      show s.inbox.countP Incoming.isDraw +
        (s.toApp ++ talk ++ [Whole.HostMessage.draw request]).countP isDraw + s.frames = 1
      rw [List.countP_append, List.countP_append, draws_quiet hquiet,
        show [Whole.HostMessage.draw (V := Version) request].countP isDraw = 1 from rfl]
      omega
    · cases hp
      refine h.starting ?_
      generalize s.phase = phase at hcause
      cases phase with
      | starting => rfl
      | waiting | draining | awaiting | left => cases hcause
  | reads cause seen message toHost result hphase hreceives =>
    have hstays : ∀ message, isFrame message = false → s.toHost.Receives message toHost →
        ({ s with toHost } : Session σ γ).Sound := by
      intro message hm hreceives
      have := h.heard seen [] hphase hreceives hm (fun _ hmem => (by cases hmem))
      rwa [List.append_nil, ← hphase] at this
    cases message with
    | frame done =>
      have hframed : ({ s with toHost } : Session σ γ).Framed :=
        ⟨s.toHost.taken, done, hreceives.taken, by rw [← hreceives.message, ← hreceives.sent]⟩
      have hpending := h.pending
      rw [hphase, Session.frames_receives hreceives] at hpending
      have hnone : ({ s with toHost } : Session σ γ).draws +
          ({ s with toHost } : Session σ γ).frames = 0 := Nat.succ.inj hpending
      cases cause with
      | opening =>
        exact ⟨h.running, h.inbox, h.toApp, hnone, fun _ => hframed, fun _ _ hp => (by cases hp),
          fun hp => (by cases hp), fun _ hp => (by cases hp)⟩
      | pointer | queued =>
        exact ⟨h.running, h.inbox, h.toApp, hnone, fun hp => (by cases hp), fun _ _ _ => hframed,
          fun hp => (by cases hp), fun _ hp => (by cases hp)⟩
    | request request =>
      have := h.heard (some request) [] hphase hreceives rfl
        (fun _ hmem => (by cases hmem))
      rwa [List.append_nil] at this
    | systemQuery query =>
      have := h.heard seen [.systemAnswer ⟨query.id, result⟩] hphase hreceives
        rfl (fun message hmem => by rw [List.mem_singleton.1 hmem]; exact ⟨rfl, rfl⟩)
      rwa [← hphase] at this
    | diagnostic | ready | saved => exact hstays _ rfl hreceives
  | gone hphase =>
    have hpending := h.pending
    rw [hphase] at hpending
    exact ⟨h.running, h.inbox, h.toApp, hpending, fun hp => (by cases hp),
      fun _ _ hp => (by cases hp), fun hp => (by cases hp), fun _ hp => (by cases hp)⟩
  | decides request coalesced hphase _ =>
    have hpending := h.pending
    rw [hphase] at hpending
    have hframed := h.draining request coalesced hphase
    unfold decided
    split
    · exact ⟨h.running, h.inbox, h.toApp, hpending, fun hp => (by cases hp),
        fun _ _ hp => (by cases hp), fun hp => (by cases hp), fun _ hp => (by cases hp)⟩
    · exact ⟨h.running, h.inbox, h.toApp, hpending, fun _ => hframed,
        fun _ _ hp => (by cases hp), fun hp => (by cases hp), fun _ hp => (by cases hp)⟩

/-- What the app says leaves what was read as it is. -/
theorem Session.Framed.send (h : s.Framed) (messages : List Whole.AppMessage) :
    ({ s with toHost := s.toHost.send messages } : Session σ γ).Framed := by
  obtain ⟨n, done, htaken, hget⟩ := h
  refine ⟨n, done, htaken, ?_⟩
  rw [← hget]
  exact Line.getElem?_send (by omega) messages

theorem Session.Unframed.send (h : s.Unframed) (messages : List Whole.AppMessage) :
    ({ s with toHost := s.toHost.send messages } : Session σ γ).Unframed := by
  intro m hm done
  have hlt : m < s.toHost.taken := hm
  show (s.toHost.send messages).sent[m]? ≠ _
  rw [Line.getElem?_send hlt messages]
  exact h m hlt done

/-- What a turn of the app makes of a session. -/
inductive Turned (app : App σ γ) (s : Session σ γ) : Prop where
  | rests : (s.turn app) = (s.loop, []) → s.inbox = [] → Turned app s
  | draws (incoming : Incoming γ) (inbox : List (Incoming γ)) (before : List Whole.AppMessage)
      (done : FrameDone) : s.inbox = incoming :: inbox → incoming.isDraw = true →
      (s.turn app).1.outcome = none → (s.turn app).2 = before ++ [.frame done] →
      (∀ message ∈ before, isFrame message = false ∧ request? message = none) → Turned app s
  | tells (incoming : Incoming γ) (inbox : List (Incoming γ)) : s.inbox = incoming :: inbox →
      incoming.isDraw = false → (s.turn app).1.outcome = none →
      (∀ message ∈ (s.turn app).2, isFrame message = false) → Turned app s

theorem turned_of_sound (app : App σ γ) (h : s.Sound) : Turned app s := by
  rcases hinbox : s.inbox with _ | ⟨incoming, inbox⟩
  · exact .rests (by rw [Session.turn, h.running, hinbox]) hinbox
  · have hturn : s.turn app = s.loop.drive app incoming := by
      rw [Session.turn, h.running, hinbox]
    cases hdraw : incoming.isDraw with
    | true =>
      obtain ⟨houtcome, before, done, htells, hbefore⟩ := drive_draw app s.loop hdraw
      exact .draws incoming inbox before done hinbox hdraw (by rw [hturn, houtcome, h.running])
        (by rw [hturn, htells]) hbefore
    | false =>
      have hstays := h.inbox incoming (by rw [hinbox]; exact List.mem_cons_self)
      obtain ⟨houtcome, htells⟩ := drive_other app s.loop hdraw hstays
      exact .tells incoming inbox hinbox hdraw (by rw [hturn, houtcome, h.running])
        (by rw [hturn]; exact htells)

theorem Session.Sound.inbox_turned (h : s.Sound) :
    (s.step app .app).inbox = s.inbox.tail := if_pos h.running

/-- A turn of the app keeps the session sound. -/
theorem Session.Sound.turned (h : s.Sound) : (s.step app .app).Sound := by
  have hpending := h.pending
  rw [Session.draws, Session.frames] at hpending
  have hinbox : (s.step app .app).inbox = s.inbox.tail := h.inbox_turned
  have hsent : (s.step app .app).toHost = s.toHost.send (s.turn app).2 := rfl
  have hcount : (s.step app .app).draws + (s.step app .app).frames = s.phase.pending ∧
      (s.turn app).1.outcome = none := by
    rw [Session.draws, Session.frames, hinbox, hsent, Line.unread_send, List.countP_append]
    cases turned_of_sound app h with
    | rests hturn hnil =>
      rw [hturn, hnil]
      rw [hnil] at hpending
      exact ⟨hpending, h.running⟩
    | draws incoming inbox before done hcons hdraw houtcome htells hbefore =>
      rw [hcons, List.countP_cons, if_pos hdraw] at hpending
      refine ⟨?_, houtcome⟩
      have hzero : before.countP isFrame = 0 := List.countP_eq_zero.2 fun message hmem => by
        rw [(hbefore message hmem).1]
        exact Bool.false_ne_true
      rw [hcons, List.tail_cons, htells, List.countP_append, hzero]
      show inbox.countP Incoming.isDraw + s.toApp.countP isDraw + (_ + (0 + 1)) = _
      omega
    | tells incoming inbox hcons hdraw houtcome htells =>
      rw [hcons, List.countP_cons, hdraw] at hpending
      refine ⟨?_, houtcome⟩
      have hzero : (s.turn app).2.countP isFrame = 0 := List.countP_eq_zero.2 fun message hmem => by
        rw [htells message hmem]
        exact Bool.false_ne_true
      rw [hcons, List.tail_cons, hzero]
      exact hpending
  refine ⟨hcount.2, ?_, h.toApp, hcount.1, fun hp => (h.waiting hp).send _,
    fun _ _ hp => (h.draining _ _ hp).send _, fun hp => (h.starting hp).send _,
    fun _ hp => (h.opening _ hp).send _⟩
  rw [hinbox]
  exact fun incoming hmem => h.inbox incoming (List.mem_of_mem_tail hmem)

/-- Every step keeps the session sound. -/
theorem Session.Sound.step (h : s.Sound) (x : Step γ) : (s.step app x).Sound := by
  cases x with
  | touched event =>
    show (if s.readers then { s with events := s.events ++ [event] } else s).Sound
    split
    · exact ⟨h.running, h.inbox, h.toApp, h.pending, h.waiting, h.draining, h.starting, h.opening⟩
    · exact h
  | unplugged =>
    exact ⟨h.running, h.inbox, h.toApp, h.pending, h.waiting, h.draining, h.starting, h.opening⟩
  | completed completion =>
    refine ⟨h.running, fun incoming hmem => ?_, h.toApp, ?_, h.waiting, h.draining, h.starting,
      h.opening⟩
    · rcases List.mem_append.1 hmem with hmem | hmem
      · exact h.inbox incoming hmem
      · rw [List.mem_singleton.1 hmem]
        rfl
    · have hpending := h.pending
      show (s.inbox ++ [Incoming.completed completion]).countP Incoming.isDraw + _ + _ = _
      rw [List.countP_append]
      exact hpending
  | pump =>
    have hpending := h.pending
    rw [Session.draws] at hpending
    rcases htoApp : s.toApp with _ | ⟨message, toApp⟩
    · unfold Session.step
      rw [htoApp]
      exact h
    · have hstep : s.step app .pump = { s with inbox := s.inbox ++ [.host message], toApp } := by
        unfold Session.step
        rw [htoApp]
      have hall := h.toApp
      rw [htoApp] at hpending hall
      rw [hstep]
      refine ⟨h.running, fun incoming hmem => ?_, fun message' hmem => ?_, ?_, h.waiting,
        h.draining, h.starting, h.opening⟩
      · rcases List.mem_append.1 hmem with hmem | hmem
        · exact h.inbox incoming hmem
        · rw [List.mem_singleton.1 hmem]
          exact hall message List.mem_cons_self
      · exact hall message' (List.mem_cons_of_mem _ hmem)
      · show (s.inbox ++ [Incoming.host message]).countP Incoming.isDraw + toApp.countP isDraw +
          s.frames = s.phase.pending
        rw [List.countP_cons] at hpending
        rw [List.countP_append, ← hpending,
          show [(Incoming.host message : Incoming γ)].countP Incoming.isDraw =
            if isDraw message = true then 1 else 0 by rw [List.countP_singleton]; rfl]
        omega
  | app => exact h.turned
  | host changes result => exact h.hosted hosted_host
  | tick => exact h

end

/-! ## What a step says and reads -/

section

variable {σ γ : Type} {app : App σ γ} {s s' : Session σ γ}

/-- The request of a burst, as far as it is known. -/
def Phase.slot? : Phase → Option (Option Request)
  | .awaiting .pointer seen => some seen
  | .awaiting (.queued request _) seen => some (seen.or request)
  | .draining request _ => some request
  | .starting | .awaiting .opening _ | .waiting | .left _ => none

/-- The host says nothing in the app's place, and asks for frames only. -/
theorem hosted_sent (hs : Hosted s s') :
    s'.toHost.sent = s.toHost.sent ∧ s.draws ≤ s'.draws ∧ s.toHost.taken ≤ s'.toHost.taken := by
  cases hs with
  | stays | gone | decides => exact ⟨rfl, Nat.le_refl _, Nat.le_refl _⟩
  | asks talk request cause events nextFrame hquiet _ =>
    refine ⟨rfl, Nat.add_le_add_left ?_ _, Nat.le_refl _⟩
    show _ ≤ (s.toApp ++ talk ++ [Whole.HostMessage.draw request]).countP isDraw
    rw [List.append_assoc, List.countP_append]
    exact Nat.le_add_right _ _
  | reads cause seen message toHost result _ hreceives =>
    have htaken : s.toHost.taken ≤ toHost.taken := by rw [hreceives.taken]; exact Nat.le_succ _
    cases message with
    | systemQuery query =>
      refine ⟨hreceives.sent, Nat.add_le_add_left ?_ _, htaken⟩
      show _ ≤ (s.toApp ++ [Whole.HostMessage.systemAnswer ⟨query.id, result⟩]).countP isDraw
      rw [List.countP_append]
      exact Nat.le_add_right _ _
    | frame | request | diagnostic | ready | saved =>
      exact ⟨hreceives.sent, Nat.le_refl _, htaken⟩

/-- The request of a burst starts as none, and is the last one read. -/
theorem hosted_slot (hs : Hosted s s') {slot' : Option Request}
    (hslot : s'.phase.slot? = some slot') :
    (s.phase = .waiting ∧ slot' = none ∧ s'.toHost = s.toHost) ∨
      ∃ slot, s.phase.slot? = some slot ∧ ((s'.toHost = s.toHost ∧ slot' = slot) ∨
        ∃ message, s.toHost.Receives message s'.toHost ∧ slot' = (request? message).or slot) := by
  cases hs with
  | stays => exact .inr ⟨slot', hslot, .inl ⟨rfl, rfl⟩⟩
  | gone => cases hslot
  | decides request coalesced hphase =>
    unfold decided at hslot
    split at hslot
    · cases hslot
    · cases hslot
  | asks talk request cause events nextFrame _ hcause =>
    cases hphase : s.phase with
    | starting =>
      rw [hphase] at hcause
      cases hcause
      cases hslot
    | waiting =>
      rw [hphase] at hcause
      cases hcause
      cases hslot
      exact .inl ⟨rfl, rfl, rfl⟩
    | draining request coalesced =>
      rw [hphase] at hcause
      cases hcause
      cases hslot
      exact .inr ⟨request, rfl, .inl ⟨rfl, rfl⟩⟩
    | awaiting | left =>
      rw [hphase] at hcause
      cases hcause
  | reads cause seen message toHost result hphase hreceives =>
    refine .inr ?_
    cases message with
    | frame done =>
      cases cause with
      | opening => cases hslot
      | pointer =>
        cases hslot
        exact ⟨slot', by rw [hphase]; rfl, .inr ⟨_, hreceives, rfl⟩⟩
      | queued before coalesced =>
        cases hslot
        exact ⟨seen.or before, by rw [hphase]; rfl, .inr ⟨_, hreceives, rfl⟩⟩
    | request request =>
      cases cause with
      | opening => cases hslot
      | pointer =>
        cases hslot
        exact ⟨seen, by rw [hphase]; rfl, .inr ⟨_, hreceives, rfl⟩⟩
      | queued before coalesced =>
        cases hslot
        exact ⟨seen.or before, by rw [hphase]; rfl, .inr ⟨_, hreceives, rfl⟩⟩
    | systemQuery | diagnostic | ready | saved => exact ⟨slot', hslot, .inr ⟨_, hreceives, rfl⟩⟩

/-- The other steps leave the phase and what was read; only the app says something. -/
theorem step_other (app : App σ γ) {x : Step γ} (hx : ∀ changes result, x ≠ .host changes result) :
    (s.step app x).phase = s.phase ∧ ∃ more, (s.step app x).toHost = s.toHost.send more ∧
      (x = .app ∧ more = (s.turn app).2 ∨ more = [] ∧ s.draws ≤ (s.step app x).draws) := by
  have hnone : s.toHost = s.toHost.send [] := by rw [Line.send_nil]
  cases x with
  | touched event =>
    show (if s.readers then { s with events := s.events ++ [event] } else s).phase = s.phase ∧
      ∃ more, (if s.readers then { s with events := s.events ++ [event] } else s).toHost =
        s.toHost.send more ∧ (_ ∨ more = [] ∧ s.draws ≤
          (if s.readers then { s with events := s.events ++ [event] } else s).draws)
    split
    · exact ⟨rfl, [], hnone, .inr ⟨rfl, Nat.le_refl _⟩⟩
    · exact ⟨rfl, [], hnone, .inr ⟨rfl, Nat.le_refl _⟩⟩
  | unplugged => exact ⟨rfl, [], hnone, .inr ⟨rfl, Nat.le_refl _⟩⟩
  | completed completion =>
    refine ⟨rfl, [], hnone, .inr ⟨rfl, Nat.add_le_add_right ?_ _⟩⟩
    show _ ≤ (s.inbox ++ [Incoming.completed completion]).countP Incoming.isDraw
    rw [List.countP_append]
    exact Nat.le_add_right _ _
  | pump =>
    rcases htoApp : s.toApp with _ | ⟨message, toApp⟩
    · have hstep : s.step app .pump = s := by
        unfold Session.step
        rw [htoApp]
      rw [hstep]
      exact ⟨rfl, [], hnone, .inr ⟨rfl, Nat.le_refl _⟩⟩
    · have hstep : s.step app .pump = { s with inbox := s.inbox ++ [.host message], toApp } := by
        unfold Session.step
        rw [htoApp]
      rw [hstep]
      refine ⟨rfl, [], hnone, .inr ⟨rfl, ?_⟩⟩
      show s.inbox.countP Incoming.isDraw + s.toApp.countP isDraw ≤
        (s.inbox ++ [Incoming.host message]).countP Incoming.isDraw + toApp.countP isDraw
      rw [htoApp, List.countP_cons, List.countP_append, List.countP_singleton]
      exact Nat.le_of_eq (by rw [Nat.add_assoc, Nat.add_comm (toApp.countP isDraw)]; rfl)
  | app => exact ⟨rfl, _, rfl, .inl ⟨rfl, rfl⟩⟩
  | host changes result => exact absurd rfl (hx changes result)
  | tick => exact ⟨rfl, [], hnone, .inr ⟨rfl, Nat.le_refl _⟩⟩

/-- Nothing that was said or read is taken back. -/
theorem step_mono (app : App σ γ) (s : Session σ γ) (x : Step γ) :
    s.toHost.sent <+: (s.step app x).toHost.sent ∧
      s.toHost.taken ≤ (s.step app x).toHost.taken := by
  by_cases hx : ∃ changes result, x = .host changes result
  · obtain ⟨changes, result, rfl⟩ := hx
    obtain ⟨hsent, -, htaken⟩ : (s.host changes result).toHost.sent = _ ∧ _ :=
      hosted_sent hosted_host
    exact ⟨by rw [← hsent]; exact List.prefix_rfl, htaken⟩
  · obtain ⟨-, more, hline, -⟩ :=
      step_other (s := s) app fun changes result h => hx ⟨changes, result, h⟩
    rw [hline]
    exact ⟨List.prefix_append _ _, Nat.le_refl _⟩

/-- A step draws a frame that was asked for, or says no frame and leaves the draws on their way. -/
theorem step_draws (app : App σ γ) (h : s.Sound) (x : Step γ) :
    (s.draws ≠ 0 ∧ ∃ before done, (s.turn app).2 = before ++ [.frame done] ∧
      (s.step app x).toHost.sent = s.toHost.sent ++ (before ++ [.frame done]) ∧
      ∀ message ∈ before, request? message = none) ∨
    (s.draws ≤ (s.step app x).draws ∧ ∃ more, (s.step app x).toHost.sent = s.toHost.sent ++ more ∧
      ∀ message ∈ more, isFrame message = false) := by
  by_cases hx : ∃ changes result, x = .host changes result
  · obtain ⟨changes, result, rfl⟩ := hx
    obtain ⟨hsent, hdraws, -⟩ : _ ∧ s.draws ≤ (s.host changes result).draws ∧ _ :=
      hosted_sent hosted_host
    exact .inr ⟨hdraws, [], hsent.trans (List.append_nil _).symm, fun _ h => (by cases h)⟩
  · obtain ⟨-, more, hline, ⟨rfl, rfl⟩ | ⟨rfl, hdraws⟩⟩ :=
      step_other (s := s) app fun changes result h => hx ⟨changes, result, h⟩
    · have hsent : (s.step app .app).toHost.sent = s.toHost.sent ++ (s.turn app).2 := by
        rw [hline]
        rfl
      cases turned_of_sound app h with
      | rests hturn hnil =>
        refine .inr ⟨?_, _, hsent, fun _ hmem => ?_⟩
        · rw [Session.draws, Session.draws, h.inbox_turned, hnil]
          exact Nat.le_refl _
        · rw [hturn] at hmem
          cases hmem
      | draws incoming inbox before done hcons hdraw _ htells hbefore =>
        refine .inl ⟨?_, before, done, htells, by rw [hsent, htells], fun m hm => (hbefore m hm).2⟩
        rw [Session.draws, hcons, List.countP_cons, if_pos hdraw]
        omega
      | tells incoming inbox hcons hdraw _ htells =>
        refine .inr ⟨?_, _, hsent, htells⟩
        rw [Session.draws, Session.draws, h.inbox_turned, hcons, List.countP_cons, hdraw]
        exact Nat.le_refl _
    · exact .inr ⟨hdraws, [], by rw [hline]; rfl, fun _ h => (by cases h)⟩

/-- The end of a burst acts upon its request. -/
theorem host_of_ends (h : s.Ends) : ∃ slot, s.phase.slot? = some slot ∧
    ∀ changes result, (s.host changes result).phase = decided slot := by
  obtain ⟨request, coalesced, hphase, hevents⟩ := h
  refine ⟨request, by rw [hphase]; rfl, fun changes result => ?_⟩
  have hnone : (if coalesced < MAX_COALESCED_POINTERS then s.events else []) = [] := by
    split
    · next hlt => exact hevents hlt
    · rfl
  rw [Session.host, hphase]
  show (s.drain request coalesced changes).phase = _
  rw [Session.drain, hnone]

theorem decided_of_exit {request : Request} {exit : Exit} (h : exit? request = some exit) :
    decided (some request) = .left exit := by
  rw [decided, Option.bind_some, h]

theorem decided_of_none {request : Request} (h : exit? request = none) :
    decided (some request) = .waiting := by
  rw [decided, Option.bind_some, h]

/-- A left app stays left. -/
theorem step_left {exit : Exit} (h : s.phase = .left exit) (x : Step γ) :
    (s.step app x).phase = .left exit := by
  by_cases hx : ∃ changes result, x = .host changes result
  · obtain ⟨changes, result, rfl⟩ := hx
    show (s.host changes result).phase = _
    rw [Session.host, h]
    exact h
  · rw [(step_other app fun changes result h => hx ⟨changes, result, h⟩).1, h]

/-- The host comes to wait for a pointer after its first frame, or at the end of a burst. -/
theorem step_waiting {x : Step γ} (h : (s.step app x).phase = .waiting) :
    s.phase = .waiting ∨ (∃ seen, s.phase = .awaiting .opening seen) ∨
      s.Ends ∧ ∃ changes result, x = .host changes result := by
  by_cases hx : ∃ changes result, x = .host changes result
  · obtain ⟨changes, result, rfl⟩ := hx
    have hs : Hosted s (s.step app (.host changes result)) := hosted_host
    generalize s.step app (.host changes result) = s' at h hs
    cases hs with
    | stays => exact .inl h
    | asks => cases h
    | gone => cases h
    | decides request coalesced hphase hevents =>
      exact .inr (.inr ⟨⟨request, coalesced, hphase, hevents⟩, changes, result, rfl⟩)
    | reads cause seen message toHost result hphase _ =>
      cases message with
      | frame done =>
        cases cause with
        | opening => exact .inr (.inl ⟨seen, hphase⟩)
        | pointer | queued => cases h
      | request => cases h
      | systemQuery | diagnostic | ready | saved => exact .inl h
  · rw [(step_other app fun changes result h => hx ⟨changes, result, h⟩).1] at h
    exact .inl h

/-- One message is read at a time, and a request that is read is seen. -/
theorem step_reads {x : Step γ} (h : s.toHost.taken < (s.step app x).toHost.taken) :
    (s.step app x).toHost.taken = s.toHost.taken + 1 ∧
      (s.step app x).toHost.sent = s.toHost.sent ∧
      ∀ request, s.toHost.sent[s.toHost.taken]? = some (.request request) →
        ∃ cause, (s.step app x).phase = .awaiting cause (some request) := by
  by_cases hx : ∃ changes result, x = .host changes result
  · obtain ⟨changes, result, rfl⟩ := hx
    have hs : Hosted s (s.step app (.host changes result)) := hosted_host
    generalize s.step app (.host changes result) = s' at h hs
    cases hs with
    | stays | asks | gone | decides => exact absurd h (Nat.lt_irrefl _)
    | reads cause seen message toHost result hphase hreceives =>
      have hline : (Session.hear { s with toHost } cause seen result message).toHost = toHost := by
        cases message with
        | frame | request | systemQuery | diagnostic | ready | saved => rfl
      refine ⟨by rw [hline]; exact hreceives.taken, by rw [hline]; exact hreceives.sent,
        fun request hget => ?_⟩
      obtain rfl : message = .request request := Option.some.inj (hreceives.message.symm.trans hget)
      exact ⟨cause, rfl⟩
  · obtain ⟨-, more, hline, -⟩ :=
      step_other (s := s) app fun changes result h => hx ⟨changes, result, h⟩
    rw [hline] at h
    exact absurd h (Nat.lt_irrefl _)

end

end Paperclip.Interactive
