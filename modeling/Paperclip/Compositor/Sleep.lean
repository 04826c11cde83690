import Paperclip.Compositor.Panel

/-!
# Sleep

`Transparent`: a run in which everything that the panel is handed while the compositor is awake, and
would be handed if it were, is of the panel's size and taken, and in which a wake has something to
show: a stopped frame, or a current frame of the foreground into whose buffer the client has not
drawn since it was shown, or would have been.

In such a run a sleep and its wake leave no trace (`sleep_leaves_no_trace`). Asleep, the compositor
does what it would do awake (`cover_step`), and awake, the panel shows the foreground (`Faces`).
-/

namespace Paperclip.Compositor

open Protocol

/-- The foreground client that an input makes commit a frame. -/
def commitsFront (s : Compositor) : Input → Option ClientId
  | .request id (.commit damage) =>
    match s.clients id with
    | some client =>
      if client.refusal (.commit damage) = none ∧ s.foregroundClient = some id then some id else none
    | none => none
  | _ => none

/-- Whether an input shows the foreground's frame, or would, if the compositor were awake. -/
def presents (s : Compositor) (input : Input) : Bool :=
  (s.commitsFront input).isSome || (s.reshows input).isSome

/-- Whether the foreground is a stopped frame. -/
def Foreground.isStopped : Foreground → Bool
  | stopped _ => true
  | _ => false

/-- Whether an input shows a stopped frame, or would. -/
def stops (s : Compositor) (input : Input) : Prop :=
  (∃ id ∈ s.closes input, s.foregroundClient = some id) ∨
    input = .wake ∧ s.locked ∧ s.foreground.isStopped

/-- What an input shows, or would show, has the size of the panel, and the panel takes it. -/
structure Accepted (s : Compositor) (o : Outcomes) (input : Input) : Prop where
  commit : ∀ id ∈ s.commitsFront input, ∀ client ∈ s.clients id,
    client.pool = s.panelSize ∧ o.frame = .shown
  reshow : ∀ id ∈ s.reshows input, ∀ client ∈ s.clients id, client.surface.current.isSome →
    client.pool = s.panelSize ∧ o.frame = .shown
  stopped : s.stops input → o.stopped = true

/-- A wake has something to show, which is what was shown before, or would have been. -/
def Wakes (redrawn : Bool) (s : Compositor) : Prop :=
  s.locked → s.foreground.isStopped ∨ s.frontBuffer.isSome ∧ redrawn = false

/-- Whether the foreground has drawn into the buffer of its current frame since it was shown, or
would have been. -/
def Device.redraws (redrawn : Bool) (d : Device) : Device.Act → Bool
  | .draw id slot _ => redrawn || d.server.frontBuffer == some (id, slot)
  | .input input => redrawn && !d.server.presents input

/-- The panel accepts what the act shows, and a wake shows what was shown before. -/
def Clear (redrawn : Bool) (d : Device) (o : Outcomes) : Device.Act → Prop
  | .draw _ _ _ => True
  | .input input => Accepted d.server o input ∧ (input = .wake → Wakes redrawn d.server)

/-- Every act of the run is clear. -/
def Transparent : Bool → Device → List (Device.Act × Outcomes) → Prop
  | _, _, [] => True
  | redrawn, d, (act, o) :: rest =>
    Clear redrawn d o act ∧ Transparent (d.redraws redrawn act) (d.step o act) rest

section Decide

variable (s : Compositor) (o : Outcomes) (input : Input)

instance : Decidable (s.stops input) := inferInstanceAs (Decidable (_ ∨ _))

instance : Decidable (Accepted s o input) :=
  decidable_of_iff ((∀ id ∈ s.commitsFront input, ∀ client ∈ s.clients id,
      client.pool = s.panelSize ∧ o.frame = .shown) ∧
    (∀ id ∈ s.reshows input, ∀ client ∈ s.clients id, client.surface.current.isSome →
      client.pool = s.panelSize ∧ o.frame = .shown) ∧ (s.stops input → o.stopped = true))
    ⟨fun h => ⟨h.1, h.2.1, h.2.2⟩, fun h => ⟨h.commit, h.reshow, h.stopped⟩⟩

instance (redrawn : Bool) : Decidable (Wakes redrawn s) := inferInstanceAs (Decidable (_ → _))

instance (redrawn : Bool) (d : Device) : ∀ act, Decidable (Clear redrawn d o act)
  | .draw _ _ _ => .isTrue trivial
  | .input _ => inferInstanceAs (Decidable (_ ∧ _))

instance decidableTransparent : ∀ redrawn d acts, Decidable (Transparent redrawn d acts)
  | _, _, [] => .isTrue trivial
  | redrawn, d, (act, o) :: rest =>
    have : Decidable (Transparent (d.redraws redrawn act) (d.step o act) rest) :=
      decidableTransparent _ _ rest
    inferInstanceAs (Decidable (Clear redrawn d o act ∧ _))

end Decide

/-- The same compositor, asleep. -/
def cover (s : Compositor) : Compositor := { s with locked := true }

section Cover

variable {o : Outcomes} {s : Compositor} {id : ClientId} {client : Client} {input : Input}

/-- Nothing is handed to the panel while the compositor sleeps. -/
theorem presentForeground_asleep (memory : Memory) (o : Outcomes) (h : s.locked = true) :
    Panel.presentForeground memory o s = [] := by
  unfold Panel.presentForeground
  split
  · rfl
  split
  · rfl
  split
  · rfl
  rw [if_pos h]

theorem disconnect_asleep (memory : Memory) (o : Outcomes) (h : s.locked = true) (id : ClientId) :
    Panel.disconnect memory o s id = [] := by
  unfold Panel.disconnect
  split
  · rfl
  dsimp only
  split
  · have hforget : (s.forget id).locked = true := h
    rw [if_pos hforget]
    split
    · rfl
    · rw [presentForeground_asleep memory o (by exact h), List.append_nil]
  · rfl

theorem step_asleep (memory : Memory) (o : Outcomes) (h : s.locked = true) (hw : input ≠ .wake) :
    Panel.step memory o s input = [] := by
  cases input with
  | connect hello => rfl
  | wake => exact absurd rfl hw
  | sleep => exact if_pos h
  | hangUp id => exact disconnect_asleep memory o h id
  | request id request =>
    show Panel.handleRequest memory o s id request = []
    unfold Panel.handleRequest
    split
    · rfl
    split
    · split
      · rfl
      · exact disconnect_asleep memory o h id
    · split
      · dsimp only
        split
        · exact presentForeground_asleep memory o (by exact h)
        · rfl
      · exact disconnect_asleep memory o h id

theorem disconnect_locked (o : Outcomes) (s : Compositor) (id : ClientId) :
    (s.disconnect o id).1.locked = s.locked := by
  cases hclient : s.clients id with
  | none => rw [disconnect_of_unknown hclient]
  | some client =>
  by_cases hfront : s.foregroundClient = some id
  · cases hhome : (s.forget id).home with
    | none =>
      rw [disconnect_of_last hclient hfront hhome]
      rfl
    | some home =>
      rw [disconnect_of_home hclient hfront hhome]
      exact (presentForeground_shows o _).frontBuffer.2
  · rw [disconnect_of_back hclient hfront]
    rfl

/-- Only a sleep and a wake change whether the compositor sleeps. -/
theorem step_locked (hs : input ≠ .sleep) (hw : input ≠ .wake) :
    (s.step o input).1.locked = s.locked := by
  cases input with
  | connect hello => rfl
  | sleep => exact absurd rfl hs
  | wake => exact absurd rfl hw
  | hangUp id => exact disconnect_locked o s id
  | request id request =>
    show (s.handleRequest o id request).1.locked = s.locked
    unfold handleRequest
    split
    · rfl
    split
    · split
      · rfl
      · exact disconnect_locked o s id
    · split
      · dsimp only
        split
        · exact (presentForeground_shows o _).frontBuffer.2
        · rfl
      · exact disconnect_locked o s id

theorem sleep_of_locked (h : s.locked = true) : s.step o .sleep = (s, []) := if_pos h

/-- Asleep, a frame is given back as it would be if the panel had taken it. -/
theorem cover_presentForeground (hlocked : s.locked = false)
    (h : ∀ id ∈ s.foregroundClient, ∀ client ∈ s.clients id, client.surface.current.isSome →
      client.pool = s.panelSize ∧ o.frame = .shown) :
    (s.cover.presentForeground o).1 = (s.presentForeground o).1.cover := by
  have hcover : s.cover.foregroundClient = s.foregroundClient := rfl
  unfold presentForeground
  rw [hcover]
  cases hfront : s.foregroundClient with
  | none => rfl
  | some id =>
  have hcover : s.cover.clients id = s.clients id := rfl
  dsimp only
  rw [hcover]
  cases hclient : s.clients id with
  | none => rfl
  | some client =>
  dsimp only
  cases hcurrent : client.surface.current with
  | none => rfl
  | some committed =>
  obtain ⟨hpool, hframe⟩ := h id hfront client hclient (by rw [hcurrent]; rfl)
  simp [cover, hlocked, presentPoolSlot, hpool, hframe, giveBack, setClient]

theorem cover_disconnect (hlocked : s.locked = false)
    (h : ∀ home ∈ s.returnsHome id, ∀ client ∈ s.clients home, client.surface.current.isSome →
      client.pool = s.panelSize ∧ o.frame = .shown) :
    (s.cover.disconnect o id).1 = (s.disconnect o id).1.cover := by
  have hcover : s.cover.clients id = s.clients id := rfl
  cases hclient : s.clients id with
  | none =>
    rw [disconnect_of_unknown (hcover.trans hclient), disconnect_of_unknown hclient]
  | some client =>
  by_cases hfront : s.foregroundClient = some id
  · cases hhome : (s.forget id).home with
    | none =>
      rw [disconnect_of_last (hcover.trans hclient) hfront hhome,
        disconnect_of_last hclient hfront hhome]
      rfl
    | some home =>
    obtain ⟨hne, hold⟩ := home_of_forget hhome
    rw [disconnect_of_home (hcover.trans hclient) hfront hhome,
      disconnect_of_home hclient hfront hhome]
    refine cover_presentForeground (s := { s.forget id with foreground := .client home }) hlocked ?_
    intro front hf client hclient
    obtain rfl := Option.some.inj hf
    have hclients : (s.forget id).clients home = s.clients home := Function.update_of_ne hne _ _
    exact h home (returnsHome_of_forget hfront hhome) client (hclients ▸ hclient)
  · rw [disconnect_of_back (hcover.trans hclient) hfront, disconnect_of_back hclient hfront]
    rfl

theorem reshows_of_refused {request : ClientRequest} {e : SurfaceError}
    (hclient : s.clients id = some client) (herror : client.refusal request = some e) :
    s.reshows (.request id request) = s.returnsHome id := by
  simp [reshows, hclient, herror]

/-- Asleep, a step leaves what it would leave awake. -/
theorem cover_step (hlocked : s.locked = false) (h : Accepted s o input) (hs : input ≠ .sleep)
    (hw : input ≠ .wake) : (s.cover.step o input).1 = (s.step o input).1.cover := by
  cases input with
  | connect hello => rfl
  | sleep => exact absurd rfl hs
  | wake => exact absurd rfl hw
  | hangUp id => exact cover_disconnect hlocked h.reshow
  | request id request =>
    show (s.cover.handleRequest o id request).1 = (s.handleRequest o id request).1.cover
    have hcover : s.cover.clients id = s.clients id := rfl
    unfold handleRequest
    rw [hcover]
    cases hclient : s.clients id with
    | none => rfl
    | some client =>
    have hrefused (e : SurfaceError) (herror : client.refusal request = some e) :
        (s.cover.disconnect o id).1 = (s.disconnect o id).1.cover :=
      cover_disconnect hlocked (reshows_of_refused hclient herror ▸ h.reshow)
    cases request with
    | attach slot =>
      dsimp only
      cases hattach : client.surface.attach slot with
      | ok surface => rfl
      | error e => exact hrefused e (by simp [Client.refusal, hattach])
    | commit damage =>
      dsimp only
      cases hcommit : client.surface.commit damage with
      | error e => exact hrefused e (by simp [Client.refusal, hcommit])
      | ok committed =>
      obtain ⟨slot, surface⟩ := committed
      dsimp only
      by_cases hfront : s.foregroundClient = some id
      · rw [if_pos (by exact hfront), if_pos (by exact hfront)]
        refine cover_presentForeground
          (s := s.setClient id (some { client with surface })) hlocked ?_
        intro front hf client' hclient' _
        obtain rfl := Option.some.inj (hfront.symm.trans hf)
        simp only [setClient, Function.update_self, Option.mem_def, Option.some.injEq] at hclient'
        subst hclient'
        exact h.commit id (by simp [commitsFront, hclient, Client.refusal, hcommit, hfront]) client hclient
      · rw [if_neg (by exact hfront), if_neg (by exact hfront)]
        rfl

end Cover

/-! ## The foreground is shown -/

/-- The panel shows the foreground, unless its buffer was redrawn. -/
structure Faces (redrawn : Bool) (d : Device) : Prop where
  frame : ∀ id slot, d.server.frontBuffer = some (id, slot) → redrawn = false →
    d.shown = .frame (d.memory id slot)
  stopped : ∀ label, d.server.foreground = .stopped label → d.shown = .stoppedFrame label

section Facing

variable {o : Outcomes} {s : Compositor} {id : ClientId} {client : Client} {input : Input}
  {redrawn : Bool} {d : Device} {memory : Memory} {shown : Picture}

theorem Shows.foreground {s' : Compositor} {hs : List Happening} (h : Shows o s s' hs) :
    s'.foreground = s.foreground := h.alike.foreground

/-- A frame that is accepted is shown. -/
theorem faces_present {front : ClientId} (hlocked : s.locked = false)
    (hfront : s.foreground = .client front)
    (h : ∀ client ∈ s.clients front, client.surface.current.isSome →
      client.pool = s.panelSize ∧ o.frame = .shown) :
    Faces redrawn ⟨(s.presentForeground o).1, memory,
      Panel.after shown (Panel.presentForeground memory o s)⟩ where
  frame id slot hslot _ := by
    rw [(presentForeground_shows o s).frontBuffer.1] at hslot
    obtain ⟨hid, client, committed, hclient, hcurrent, -⟩ := frontBuffer_eq_some.mp hslot
    obtain rfl := Foreground.client.inj (hfront.symm.trans hid)
    obtain ⟨hpool, hframe⟩ := h client hclient (by rw [hcurrent]; rfl)
    rw [presentForeground_of_some hslot hlocked (fun client' hclient' => ?_) hframe]
    · rfl
    · obtain rfl := Option.some.inj (hclient.symm.trans hclient')
      exact hpool
  stopped label hlabel := by
    change (s.presentForeground o).1.foreground = .stopped label at hlabel
    rw [(presentForeground_shows o s).foreground, hfront] at hlabel
    cases hlabel

/-- Nothing that the panel shows has changed. -/
theorem Faces.same (h : Faces redrawn d) {r : Bool} (hr : r = false → redrawn = false)
    (hfront : s.frontBuffer = d.server.frontBuffer)
    (hforeground : s.foreground = d.server.foreground) : Faces r ⟨s, d.memory, d.shown⟩ where
  frame id slot hslot hredrawn := h.frame id slot (hfront ▸ hslot) (hr hredrawn)
  stopped label hlabel := h.stopped label (hforeground ▸ hlabel)

/-- A client that ends its connection in the background changes nothing of what is shown. -/
theorem frontBuffer_forget (hfront : s.foregroundClient ≠ some id) :
    (s.forget id).frontBuffer = s.frontBuffer := by
  unfold frontBuffer
  show s.foregroundClient.bind _ = _
  cases hs : s.foregroundClient with
  | none => rfl
  | some front =>
    have hne : front ≠ id := by
      rintro rfl
      exact hfront hs
    have hclients : (s.forget id).clients front = s.clients front := Function.update_of_ne hne _ _
    rw [Option.bind_some, Option.bind_some, hclients]

/-- A client that changes its surface without a commit changes nothing of what is shown. -/
theorem frontBuffer_setSurface (hclient : s.clients id = some client) {surface : Surface}
    (hcurrent : surface.current = client.surface.current ∨ s.foregroundClient ≠ some id) :
    (s.setClient id (some { client with surface })).frontBuffer = s.frontBuffer := by
  unfold frontBuffer
  show s.foregroundClient.bind _ = _
  cases hs : s.foregroundClient with
  | none => rfl
  | some front =>
    rw [Option.bind_some, Option.bind_some]
    by_cases hne : front = id
    · subst hne
      rcases hcurrent with hcurrent | hcurrent
      · simp [setClient, hclient, hcurrent]
      · exact absurd hs hcurrent
    · simp [setClient, hne]

theorem frontBuffer_connect (s : Compositor) (hello : ClientHello) :
    (s.connect hello).1.frontBuffer = none ∨
      (s.connect hello).1.frontBuffer = s.frontBuffer ∧
        (s.connect hello).1.foreground = s.foreground := by
  by_cases hnew : (s.connect hello).1.foreground = .client s.nextId
  · refine .inl (Option.not_isSome_iff_eq_none.mp fun hsome => ?_)
    obtain ⟨⟨id, slot⟩, hslot⟩ := Option.isSome_iff_exists.mp hsome
    obtain ⟨hid, client, committed, hclient, hcurrent, -⟩ := frontBuffer_eq_some.mp hslot
    obtain rfl := Foreground.client.inj (hnew.symm.trans hid)
    simp only [connect, setClient, Function.update_self, Option.some.injEq] at hclient
    subst hclient
    cases hcurrent
  · refine .inr ?_
    have hold : (s.connect hello).1.foreground = s.foreground := by
      change (if _ then _ else _) = s.foreground
      split
      · next h => exact absurd (if_pos h) hnew
      · rfl
    refine ⟨?_, hold⟩
    have hfront : (s.connect hello).1.foregroundClient = s.foregroundClient := by
      unfold foregroundClient
      rw [hold]
    unfold frontBuffer
    rw [hfront]
    cases hs : s.foregroundClient with
    | none => rfl
    | some front =>
      have hne : front ≠ s.nextId := by
        rintro rfl
        exact hnew (hold.trans ((foregroundClient_eq _ _).mp hs))
      have hclients : (s.connect hello).1.clients front = s.clients front :=
        Function.update_of_ne hne _ _
      rw [Option.bind_some, Option.bind_some, hclients]

/-- The end of a connection, awake. -/
theorem faces_disconnect (hlocked : d.server.locked = false) (hfaces : Faces redrawn d) {r : Bool}
    (hr : d.server.returnsHome id = none → r = false → redrawn = false)
    (hhome : ∀ home ∈ d.server.returnsHome id, ∀ client ∈ d.server.clients home,
      client.surface.current.isSome → client.pool = d.server.panelSize ∧ o.frame = .shown)
    (hstopped : (d.server.clients id).isSome → d.server.foregroundClient = some id →
      o.stopped = true) :
    Faces r ⟨(d.server.disconnect o id).1, d.memory,
      Panel.after d.shown (Panel.disconnect d.memory o d.server id)⟩ := by
  by_cases hfront : d.server.foregroundClient = some id
  · cases hclient : d.server.clients id with
    | none =>
      rw [disconnect_of_unknown hclient, Panel.disconnect_of_unknown hclient]
      refine ⟨fun front slot hslot _ => ?_, hfaces.stopped⟩
      obtain ⟨hid, client, committed, hconnected, -⟩ := frontBuffer_eq_some.mp hslot
      obtain rfl := Foreground.client.inj (((foregroundClient_eq _ _).mp hfront).symm.trans hid)
      rw [hclient] at hconnected
      cases hconnected
    | some client =>
    have htaken : o.stopped = true := hstopped (by rw [hclient]; rfl) hfront
    cases hleft : (d.server.forget id).home with
    | none =>
      rw [disconnect_of_last hclient hfront hleft,
        Panel.disconnect_of_last hclient hfront hleft hlocked, htaken]
      refine ⟨fun front slot hslot _ => ?_, fun label hlabel => ?_⟩
      · obtain ⟨hid, -⟩ := frontBuffer_eq_some.mp hslot
        cases hid
      · rw [← Foreground.stopped.inj hlabel]
        rfl
    | some home =>
      rw [disconnect_of_home hclient hfront hleft,
        Panel.disconnect_of_home hclient hfront hleft hlocked]
      refine faces_present (s := { d.server.forget id with foreground := .client home }) hlocked rfl ?_
      intro client hclient
      have hclients : (d.server.forget id).clients home = d.server.clients home :=
        Function.update_of_ne (home_of_forget hleft).1 _ _
      exact hhome home (returnsHome_of_forget hfront hleft) client (hclients ▸ hclient)
  · have hreturns : d.server.returnsHome id = none := if_neg fun h => hfront h.1
    cases hclient : d.server.clients id with
    | none =>
      rw [disconnect_of_unknown hclient, Panel.disconnect_of_unknown hclient]
      exact hfaces.same (hr hreturns) rfl rfl
    | some client =>
      rw [disconnect_of_back hclient hfront, Panel.disconnect_of_back hclient hfront]
      exact hfaces.same (hr hreturns) (frontBuffer_forget hfront) rfl

theorem presents_of_commits_none (h : s.commitsFront input = none) :
    s.presents input = (s.reshows input).isSome := by
  rw [presents, h]
  rfl

/-- A request, awake. -/
theorem faces_request {request : ClientRequest} (hlocked : d.server.locked = false)
    (hfaces : Faces redrawn d) (h : Accepted d.server o (.request id request)) :
    Faces (d.redraws redrawn (.input (.request id request)))
      (d.step o (.input (.request id request))) := by
  show Faces (redrawn && !d.server.presents (.request id request))
    ⟨(d.server.handleRequest o id request).1, d.memory,
      Panel.after d.shown (Panel.handleRequest d.memory o d.server id request)⟩
  unfold handleRequest Panel.handleRequest
  cases hclient : d.server.clients id with
  | none =>
    have hnone : d.server.presents (.request id request) = false := by
      cases request <;> simp [presents, commitsFront, reshows, hclient]
    exact hfaces.same (by simp [hnone]) rfl rfl
  | some client =>
  have hrefused (e : SurfaceError) (herror : client.refusal request = some e) :
      Faces (redrawn && !d.server.presents (.request id request))
        ⟨(d.server.disconnect o id).1, d.memory,
          Panel.after d.shown (Panel.disconnect d.memory o d.server id)⟩ := by
    have hreshows := reshows_of_refused hclient herror
    have hcommits : d.server.commitsFront (.request id request) = none := by
      cases request <;> simp [commitsFront, hclient, herror]
    refine faces_disconnect hlocked hfaces (fun hreturns => ?_) (hreshows ▸ h.reshow) fun _ hfront => ?_
    · rw [presents_of_commits_none hcommits, hreshows, hreturns]
      simp
    · refine h.stopped (.inl ⟨id, ?_, hfront⟩)
      simp [closes, hclient, herror]
  cases request with
  | attach slot =>
    dsimp only
    cases hattach : client.surface.attach slot with
    | error e => exact hrefused e (by simp [Client.refusal, hattach])
    | ok surface =>
      have hnone : d.server.presents (.request id (.attach slot)) = false := by
        simp [presents, commitsFront, reshows, hclient, Client.refusal, hattach]
      exact hfaces.same (by simp [hnone])
        (frontBuffer_setSurface hclient (.inl (Surface.attach_ok hattach).2.1)) rfl
  | commit damage =>
    dsimp only
    cases hcommit : client.surface.commit damage with
    | error e => exact hrefused e (by simp [Client.refusal, hcommit])
    | ok committed =>
    obtain ⟨slot, surface⟩ := committed
    dsimp only
    have haccepted : client.refusal (.commit damage) = none := by simp [Client.refusal, hcommit]
    by_cases hfront : d.server.foregroundClient = some id
    · rw [if_pos (by exact hfront), if_pos (by exact hfront)]
      refine faces_present (s := d.server.setClient id (some { client with surface })) hlocked
        ((foregroundClient_eq _ _).mp hfront) fun client' hclient' _ => ?_
      simp only [setClient, Function.update_self, Option.mem_def, Option.some.injEq] at hclient'
      subst hclient'
      exact h.commit id (by simp [commitsFront, hclient, haccepted, hfront]) client hclient
    · rw [if_neg (by exact hfront), if_neg (by exact hfront)]
      have hnone : d.server.presents (.request id (.commit damage)) = false := by
        simp [presents, commitsFront, reshows, hclient, haccepted, hfront]
      exact hfaces.same (by simp [hnone]) (frontBuffer_setSurface hclient (.inr hfront)) rfl

/-- A wake. -/
theorem faces_wake (hlocked : d.server.locked = true) (h : Accepted d.server o .wake) {r : Bool} :
    Faces r (d.step o (.input .wake)) := by
  show Faces r ⟨(d.server.wake o).1, d.memory, Panel.after d.shown (Panel.wake d.memory o d.server)⟩
  unfold wake Panel.wake
  rw [hlocked]
  dsimp only
  cases hforeground : d.server.foreground with
  | none =>
    refine ⟨fun id slot hslot _ => ?_, fun label hlabel => ?_⟩
    · obtain ⟨hid, -⟩ := frontBuffer_eq_some.mp hslot
      cases hid
    · cases hlabel
  | stopped label =>
    have htaken := h.stopped (.inr ⟨rfl, hlocked, by rw [hforeground]; rfl⟩)
    refine ⟨fun id slot hslot _ => ?_, fun label' hlabel => ?_⟩
    · obtain ⟨hid, -⟩ := frontBuffer_eq_some.mp hslot
      cases hid
    · rw [← Foreground.stopped.inj hlabel, htaken]
      rfl
  | client front =>
    refine faces_present (s := { d.server with locked := false, foreground := .client front }) rfl rfl ?_
    refine h.reshow front ?_
    simp [reshows, hlocked, foregroundClient_eq, hforeground]

/-- What is shown is what it should be, through every step that leaves the compositor awake. -/
theorem faces_step {act : Device.Act} (hfaces : d.server.locked = false → Faces redrawn d)
    (h : Clear redrawn d o act) :
    (d.step o act).server.locked = false → Faces (d.redraws redrawn act) (d.step o act) := by
  intro hafter
  cases act with
  | draw id slot pixels =>
    have hold := hfaces hafter
    refine ⟨fun front buffer hbuffer hredrawn => ?_, hold.stopped⟩
    change d.server.frontBuffer = some (front, buffer) at hbuffer
    change (redrawn || d.server.frontBuffer == some (id, slot)) = false at hredrawn
    rw [Bool.or_eq_false_iff, hbuffer, beq_eq_false_iff_ne] at hredrawn
    have hkept : (d.step o (.draw id slot pixels)).memory front buffer = d.memory front buffer := by
      show Function.update d.memory id _ front buffer = _
      by_cases hid : front = id
      · subst hid
        have hslot : buffer ≠ slot := by
          rintro rfl
          exact hredrawn.2 rfl
        rw [Function.update_self, Function.update_of_ne hslot]
      · rw [Function.update_of_ne hid]
    rw [hkept]
    exact hold.frame front buffer hbuffer hredrawn.1
  | input input =>
  have haccepted := h.1
  change (d.server.step o input).1.locked = false at hafter
  by_cases hlocked : d.server.locked = true
  · by_cases hw : input = .wake
    · subst hw
      exact faces_wake hlocked haccepted
    · exfalso
      by_cases hs : input = .sleep
      · rw [hs, sleep_of_locked hlocked, hlocked] at hafter
        cases hafter
      · rw [step_locked hs hw, hlocked] at hafter
        cases hafter
  · rw [Bool.not_eq_true] at hlocked
    have hold := hfaces hlocked
    cases input with
    | connect hello =>
      show Faces (redrawn && !false) ⟨(d.server.connect hello).1, d.memory, d.shown⟩
      rcases frontBuffer_connect d.server hello with hnone | ⟨hsame, hforeground⟩
      · refine ⟨fun id slot hslot _ => ?_, fun label hlabel => ?_⟩
        · rw [hnone] at hslot
          cases hslot
        · change (if _ then _ else _) = Foreground.stopped label at hlabel
          split at hlabel
          · cases hlabel
          · exact hold.stopped label hlabel
      · exact hold.same (by simp) hsame hforeground
    | request id request => exact faces_request hlocked hold haccepted
    | hangUp id =>
      refine faces_disconnect hlocked hold (fun hreturns hr => ?_) haccepted.reshow
        fun hconnected hfront => ?_
      · have hnone : d.server.presents (.hangUp id) = false := by
          simp [presents, commitsFront, reshows, hreturns]
        change (redrawn && !d.server.presents (.hangUp id)) = false at hr
        simpa [hnone] using hr
      · refine haccepted.stopped (.inl ⟨id, ?_, hfront⟩)
        obtain ⟨client, hclient⟩ := Option.isSome_iff_exists.mp hconnected
        simp [closes, hclient]
    | sleep =>
      show Faces (redrawn && !false) ⟨(d.server.sleep o).1, d.memory,
        Panel.after d.shown (Panel.sleep o d.server)⟩
      change (d.server.sleep o).1.locked = false at hafter
      unfold sleep Panel.sleep at *
      rw [hlocked] at hafter ⊢
      cases hlock : o.lock with
      | true =>
        rw [hlock] at hafter
        cases hafter
      | false => exact hold.same (by simp) rfl rfl
    | wake =>
      have hnone : d.server.presents .wake = false := by
        simp [presents, commitsFront, reshows, hlocked]
      show Faces (redrawn && !d.server.presents .wake) ⟨(d.server.wake o).1, d.memory,
        Panel.after d.shown (Panel.wake d.memory o d.server)⟩
      unfold wake Panel.wake
      rw [hlocked, hnone]
      exact hold.same (by simp) rfl rfl

end Facing

/-! ## Runs -/

/-- Whether the foreground has redrawn its buffer, after a run. -/
def Device.redrawn : Bool → Device → List (Device.Act × Outcomes) → Bool
  | r, _, [] => r
  | r, d, (act, o) :: rest => Device.redrawn (d.redraws r act) (d.step o act) rest

section Runs

variable {r : Bool} {d : Device} {o : Outcomes} {acts acts' : List (Device.Act × Outcomes)}

theorem transparent_append : Transparent r d (acts ++ acts') ↔
    Transparent r d acts ∧ Transparent (Device.redrawn r d acts) (d.run acts) acts' := by
  induction acts generalizing r d with
  | nil => exact ⟨fun h => ⟨trivial, h⟩, fun h => h.2⟩
  | cons first rest ih => exact (and_congr_right fun _ => ih).trans and_assoc.symm

theorem faces_run (hfaces : d.server.locked = false → Faces r d) (h : Transparent r d acts) :
    (d.run acts).server.locked = false → Faces (Device.redrawn r d acts) (d.run acts) := by
  induction acts generalizing r d with
  | nil => exact hfaces
  | cons first rest ih => exact ih (faces_step hfaces h.1) h.2

/-- The same device, asleep. -/
def Device.cover (d : Device) : Device := { d with server := d.server.cover, shown := .lockFrame }

theorem stops_cover {s : Compositor} {input : Input} (hw : input ≠ .wake) :
    s.cover.stops input ↔ s.stops input := by
  have hcloses : s.cover.closes input = s.closes input := by cases input <;> rfl
  unfold stops
  rw [hcloses]
  exact or_congr Iff.rfl (by simp [hw])

theorem accepted_cover {s : Compositor} {input : Input} (hw : input ≠ .wake) :
    Accepted s.cover o input ↔ Accepted s o input := by
  have hcommits : s.cover.commitsFront input = s.commitsFront input := by cases input <;> rfl
  have hreshows : s.cover.reshows input = s.reshows input := by
    cases input with
    | wake => exact absurd rfl hw
    | _ => rfl
  constructor
  · intro h
    exact ⟨hcommits ▸ h.commit, hreshows ▸ h.reshow, fun hs => h.stopped ((stops_cover hw).mpr hs)⟩
  · intro h
    refine ⟨?_, ?_, fun hs => h.stopped ((stops_cover hw).mp hs)⟩
    · rw [hcommits]
      exact h.commit
    · rw [hreshows]
      exact h.reshow

/-- An act does asleep what it does awake, and the lock screen stays. -/
theorem cover_act {act : Device.Act} (hlocked : d.server.locked = false) (h : Clear r d.cover o act)
    (hs : act ≠ .input .sleep) (hw : act ≠ .input .wake) :
    d.cover.step o act = (d.step o act).cover ∧ (d.step o act).server.locked = false ∧
      d.cover.redraws r act = d.redraws r act ∧ Clear r d o act := by
  cases act with
  | draw id slot pixels => exact ⟨rfl, hlocked, rfl, trivial⟩
  | input input =>
    have hs' : input ≠ .sleep := fun h => hs (congrArg _ h)
    have hw' : input ≠ .wake := fun h => hw (congrArg _ h)
    have haccepted : Accepted d.server o input := (accepted_cover hw').mp h.1
    have hserver := cover_step hlocked haccepted hs' hw'
    have hpanel : Panel.step d.memory o d.server.cover input = [] := step_asleep d.memory o rfl hw'
    refine ⟨?_, ?_, ?_, haccepted, fun hwake => absurd hwake hw'⟩
    · show (⟨(d.server.cover.step o input).1, d.memory,
        Panel.after .lockFrame (Panel.step d.memory o d.server.cover input)⟩ : Device) = _
      rw [hserver, hpanel]
      rfl
    · exact (step_locked hs' hw').trans hlocked
    · cases input with
      | wake => exact absurd rfl hw'
      | _ => rfl

/-- A run without wakes does asleep what it does awake, without the sleeps. -/
theorem cover_run (hlocked : d.server.locked = false) (hfaces : Faces r d)
    (h : Transparent r d.cover acts) (hw : ∀ act ∈ acts, act.1 ≠ .input .wake) :
    let awake := d.run (acts.filter (·.1 ≠ .input .sleep))
    d.cover.run acts = awake.cover ∧ awake.server.locked = false ∧
      Faces (Device.redrawn r d.cover acts) awake := by
  induction acts generalizing r d with
  | nil => exact ⟨rfl, hlocked, hfaces⟩
  | cons first rest ih =>
    obtain ⟨act, o⟩ := first
    obtain ⟨hwake, hrest⟩ := List.forall_mem_cons.mp hw
    by_cases hs : act = .input .sleep
    · subst hs
      have hstep : d.cover.step o (.input .sleep) = d.cover := rfl
      have hredraws : d.cover.redraws r (.input .sleep) = r := by
        show (r && !false) = r
        simp
      have hlater := ih hlocked hfaces (hstep ▸ hredraws ▸ h.2) hrest
      rw [List.filter_cons_of_neg (by simp)]
      show d.cover.run rest = _ ∧ _ ∧ Faces (Device.redrawn (d.cover.redraws r (.input .sleep)) _ rest) _
      rw [hredraws]
      exact hlater
    · obtain ⟨hstep, hawake, hredraws, hclear⟩ := cover_act hlocked h.1 hs hwake
      have hnext := faces_step (fun _ => hfaces) hclear hawake
      have hlater := ih hawake hnext (by rw [← hstep, ← hredraws]; exact h.2) hrest
      rw [List.filter_cons_of_pos (by simpa using hs)]
      show (d.cover.step o act).run rest = _ ∧ _ ∧
        Faces (Device.redrawn (d.cover.redraws r act) (d.cover.step o act) rest) _
      rw [hredraws, hstep]
      exact hlater

/-- A wake does not change what there is to show. -/
theorem wake_front (o : Outcomes) (s : Compositor) :
    (s.wake o).1.frontBuffer = s.frontBuffer ∧ (s.wake o).1.foreground = s.foreground := by
  unfold wake
  split
  · exact ⟨rfl, rfl⟩
  dsimp only
  split
  · next hfront =>
    have hshows := presentForeground_shows o { s with locked := false }
    exact ⟨hshows.frontBuffer.1, hshows.foreground⟩
  · exact ⟨rfl, rfl⟩
  · exact ⟨rfl, rfl⟩

theorem sleep_step (hlocked : d.server.locked = false) (hlock : o.lock = true) :
    d.step o (.input .sleep) = d.cover ∧ d.redraws r (.input .sleep) = r := by
  have hserver : d.server.step o .sleep = (d.server.cover, [.event .locked]) := by
    show d.server.sleep o = _
    rw [sleep, hlocked, hlock]
    rfl
  have hpanel : Panel.step d.memory o d.server .sleep = [⟨.lockFrame, true⟩] := by
    show Panel.sleep o d.server = _
    rw [Panel.sleep, hlocked, hlock]
    rfl
  refine ⟨?_, by simp [Device.redraws, presents, commitsFront, reshows]⟩
  show (⟨(d.server.step o .sleep).1, d.memory, Panel.after d.shown _⟩ : Device) = _
  rw [hserver, hpanel]
  rfl

theorem isStopped_iff {foreground : Foreground} :
    foreground.isStopped ↔ ∃ label, foreground = .stopped label := by
  cases foreground <;> simp [Foreground.isStopped]

/-- A wake shows what the panel would show, had the device not slept. -/
theorem wake_shows (hfaces : Faces r d) (h : Clear r d.cover o (.input .wake)) :
    (d.cover.step o (.input .wake)).shown = d.shown := by
  obtain ⟨haccepted, hwakes⟩ := h
  have hafter := faces_wake (r := false) (d := d.cover) rfl haccepted
  obtain ⟨hbuffer, hforeground⟩ := wake_front o d.server.cover
  rcases hwakes rfl rfl with hstopped | ⟨hfront, hredrawn⟩
  · obtain ⟨label, hlabel⟩ := isStopped_iff.mp hstopped
    rw [hfaces.stopped label hlabel]
    exact hafter.stopped label (hforeground.trans hlabel)
  · obtain ⟨⟨id, slot⟩, hslot⟩ := Option.isSome_iff_exists.mp hfront
    rw [hfaces.frame id slot hslot hredrawn]
    exact hafter.frame id slot (hbuffer.trans hslot) rfl

end Runs

/-- In a run whose steps are all clear, a device that sleeps and wakes shows what it would show if it
had not. In between it hands nothing to the panel. -/
theorem sleep_leaves_no_trace (panelSize : Size) (memory : Memory) (shown : Picture)
    (before during : List (Device.Act × Outcomes)) (o o' : Outcomes)
    (hawake : ((Device.start panelSize memory shown).run before).server.locked = false)
    (hlock : o.lock = true) (hduring : ∀ act ∈ during, act.1 ≠ .input .wake)
    (h : Transparent false (.start panelSize memory shown)
      (before ++ (.input .sleep, o) :: (during ++ [(.input .wake, o')]))) :
    (∀ past act outcomes later, during = past ++ (act, outcomes) :: later →
      ((Device.start panelSize memory shown).run
        (before ++ (.input .sleep, o) :: past)).hands outcomes act = []) ∧
    ((Device.start panelSize memory shown).run
      (before ++ (.input .sleep, o) :: (during ++ [(.input .wake, o')]))).shown =
    ((Device.start panelSize memory shown).run
      (before ++ during.filter (·.1 ≠ .input .sleep))).shown := by
  have hstart : Faces false (.start panelSize memory shown) := by
    refine ⟨fun id slot hslot _ => ?_, fun label hlabel => ?_⟩
    · cases hslot
    · cases hlabel
  obtain ⟨hbefore, hsleep⟩ := transparent_append.mp h
  have hfaces := faces_run (fun _ => hstart) hbefore hawake
  rw [Device.run_append, Device.run_append]
  simp only [@Device.run_append _ before]
  generalize (Device.start panelSize memory shown).run before = d at hawake hsleep hfaces ⊢
  generalize Device.redrawn false (.start panelSize memory shown) before = r at hsleep hfaces
  obtain ⟨hstep, hredraws⟩ := sleep_step (r := r) hawake hlock
  have hcovered (acts : List (Device.Act × Outcomes)) :
      d.run ((.input .sleep, o) :: acts) = d.cover.run acts := by
    show (d.step o (.input .sleep)).run acts = _
    rw [hstep]
  have hasleep : Transparent r d.cover (during ++ [(.input .wake, o')]) := by
    rw [← hstep, ← hredraws]
    exact hsleep.2
  obtain ⟨hclear, hwake⟩ := transparent_append.mp hasleep
  constructor
  · rintro past act outcomes later rfl
    obtain ⟨hpast, hnext⟩ := List.forall_mem_append.mp hduring
    have hrun := cover_run hawake hfaces (transparent_append.mp hclear).1 hpast
    rw [hcovered, hrun.1]
    cases act with
    | draw id slot pixels => rfl
    | input input =>
      refine step_asleep _ _ rfl fun heq => ?_
      exact hnext (.input input, outcomes) (List.mem_cons_self ..) (congrArg _ heq)
  · obtain ⟨hrun, -, hawakened⟩ := cover_run hawake hfaces hclear hduring
    rw [hcovered, Device.run_append, hrun]
    refine wake_shows hawakened ?_
    rw [hrun] at hwake
    exact hwake.1

/-- An app that has shown a frame, and what it does while the device sleeps: it shows another one. -/
def Sample.morning : List (Device.Act × Outcomes) :=
  [(.input (.connect ⟨.app, "Chess", Sample.panel⟩), {}), (.input (.request 0 (.attach .a)), {}),
    (.input (.request 0 (.commit .full)), {})]

def Sample.night : List (Device.Act × Outcomes) :=
  [(.draw 0 .b [1], {}), (.input (.request 0 (.attach .b)), {}),
    (.input (.request 0 (.commit .full)), {})]

/-- The frame that the app committed while the device slept is shown. -/
theorem second_frame_is_shown :
    let device := Device.start Sample.panel (fun _ _ => []) .blank
    let fine : Outcomes := {}
    (device.run (Sample.morning ++ (.input .sleep, fine) ::
      (Sample.night ++ [(.input .wake, fine)]))).shown = .frame [1] :=
  (sleep_leaves_no_trace Sample.panel (fun _ _ => []) .blank Sample.morning Sample.night {} {}
    (by decide +kernel) rfl (by decide +kernel) (by decide +kernel)).2.trans (by decide +kernel)

/-- Nothing is connected: the lock screen stays when the device wakes, and would not be there if it
had not slept. -/
theorem lock_screen_stays :
    let device := Device.start Sample.panel (fun _ _ => []) .blank
    (device.run [(.input .sleep, {}), (.input .wake, {})]).shown = .lockFrame ∧
      (device.run []).shown = .blank := by
  decide +kernel

end Paperclip.Compositor
