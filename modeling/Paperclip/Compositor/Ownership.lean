import Paperclip.Compositor.Server

/-!
# Whose buffer is read

A buffer is the compositor's from the commit of a frame in it until the client is told that it was
released. `Held` says so of what has happened. `Accounts` is the invariant: what the compositor
counts as presenting is its own, and so was every buffer that it copied.
-/

namespace Paperclip.Compositor

open Protocol

/-! ## Surfaces -/

namespace Surface

variable {s s' : Surface} {slot x : BufferSlot} {damage : Damage}

theorem released_slots (s : Surface) (slot : BufferSlot) :
    (s.released slot).slots =
      if s.slots slot = .presenting then Function.update s.slots slot .free else s.slots := by
  by_cases h : s.slots slot = .presenting <;> simp [released, release, h]

theorem released_rest (s : Surface) (slot : BufferSlot) :
    (s.released slot).current = s.current ∧ (s.released slot).pendingBuffer = s.pendingBuffer ∧
      (s.released slot).extent = s.extent := by
  by_cases h : s.slots slot = .presenting <;> simp [released, release, h]

/-- A buffer that is still presenting after a release is another one. -/
theorem presenting_of_released (h : (s.released slot).slots x = .presenting) :
    x ≠ slot ∧ s.slots x = .presenting := by
  rw [released_slots] at h
  split at h
  · by_cases hx : x = slot
    · subst hx
      simp at h
    · rw [Function.update_of_ne hx] at h
      exact ⟨hx, h⟩
  · next hp => exact ⟨fun hx => hp (hx ▸ h), h⟩

theorem presenting_of_attach (h : s.attach slot = .ok s') (hx : s'.slots x = .presenting) :
    s.slots x = .presenting := by
  obtain ⟨-, -, -, -, hslot, hother⟩ := attach_ok h
  rcases slot.eq_or_eq_other x with rfl | rfl
  · rw [hslot] at hx
    simp at hx
  · rw [hother] at hx
    split at hx
    · simp at hx
    · exact hx

theorem presenting_of_commit (h : s.commit damage = .ok (slot, s'))
    (hx : s'.slots x = .presenting) : x = slot ∨ s.slots x = .presenting := by
  obtain ⟨-, -, rfl⟩ := commit_ok h
  by_cases heq : x = slot
  · exact .inl heq
  · simp only [setSlotState_slots, Function.update_of_ne heq] at hx
    exact .inr hx

end Surface

/-! ## What showing a frame does -/

/-- What showing the current frame of the foreground client can do. -/
inductive Shows (o : Outcomes) (s : Compositor) : Compositor → List Happening → Prop where
  | nothing : Shows o s s []
  | covered {id : ClientId} {client : Client} {c : Committed}
      (hf : s.foregroundClient = some id) (hclient : s.clients id = some client)
      (hcurrent : client.surface.current = some c) (hlocked : s.locked = true) :
      Shows o s (s.giveBack id client c.buffer) [notifyRelease o id c.buffer]
  | unswapped {id : ClientId} {client : Client} {c : Committed}
      (hf : s.foregroundClient = some id) (hclient : s.clients id = some client)
      (hcurrent : client.surface.current = some c) (hlocked : s.locked = false)
      (hpool : client.pool = s.panelSize) (hframe : o.frame = .notSwapped) :
      Shows o s s [.copied id c.buffer]
  | shown {id : ClientId} {client : Client} {c : Committed}
      (hf : s.foregroundClient = some id) (hclient : s.clients id = some client)
      (hcurrent : client.surface.current = some c) (hlocked : s.locked = false)
      (hpool : client.pool = s.panelSize) (hframe : o.frame = .shown) :
      Shows o s (s.giveBack id client c.buffer)
        [.copied id c.buffer, .event (.framePresented id), notifyRelease o id c.buffer]

theorem presentForeground_shows (o : Outcomes) (s : Compositor) :
    Shows o s (s.presentForeground o).1 (s.presentForeground o).2 := by
  unfold presentForeground
  split
  · exact .nothing
  next id hf =>
  split
  · exact .nothing
  next client hclient =>
  split
  · exact .nothing
  next c hcurrent =>
  extract_lets slot
  split
  · next hlocked => exact .covered hf hclient hcurrent hlocked
  next hlocked =>
  rw [Bool.not_eq_true] at hlocked
  by_cases hpool : client.pool = s.panelSize
  · cases hframe : o.frame with
    | noBuffer =>
      simp only [presentPoolSlot, hpool, ne_eq, not_true, if_false]
      exact .nothing
    | notSwapped =>
      simp only [presentPoolSlot, hpool, ne_eq, not_true, if_false]
      exact .unswapped hf hclient hcurrent hlocked hpool hframe
    | shown =>
      simp only [presentPoolSlot, hpool, ne_eq, not_true, if_false]
      exact .shown hf hclient hcurrent hlocked hpool hframe
  · simp only [presentPoolSlot, ne_eq, hpool, not_false_eq_true, if_true]
    exact .nothing

/-- What ending a connection can do. -/
inductive Leaves (o : Outcomes) (s : Compositor) (id : ClientId) :
    Compositor → List Happening → Prop where
  | unknown (hclient : s.clients id = none) : Leaves o s id s []
  | gone (foreground : Foreground) (events : List CompositorEvent) :
      Leaves o s id { s.forget id with foreground } (events.map .event)
  | home {home : ClientId} {s' : Compositor} {hs : List Happening}
      (events : List CompositorEvent) (hback : s.returnsHome id = some home) (hne : home ≠ id)
      (hshows : Shows o { s.forget id with foreground := .client home } s' hs) :
      Leaves o s id s' (events.map .event ++ hs)

theorem disconnect_leaves (o : Outcomes) (s : Compositor) (id : ClientId) :
    Leaves o s id (s.disconnect o id).1 (s.disconnect o id).2 := by
  unfold disconnect
  split
  · next hclient => exact .unknown hclient
  next client hclient =>
  extract_lets gone s₁ stopped
  obtain ⟨events, hevents⟩ : ∃ events : List CompositorEvent, gone ++ stopped = events.map .event := by
    simp only [gone, stopped]
    split
    · exact ⟨[_, _], rfl⟩
    · exact ⟨[_], rfl⟩
  split
  · next hf =>
    split
    · rw [hevents]
      exact .gone _ events
    next home hhome =>
    have hhome' : (if s.home = some id then none else s.home) = some home := hhome
    split at hhome'
    · simp at hhome'
    next hne =>
    rw [hevents]
    have hback : s.returnsHome id = some home := by
      rw [returnsHome, if_pos ⟨hf, hne⟩, hhome']
    have hid : home ≠ id := by
      rintro rfl
      exact hne hhome'
    have := Leaves.home (events ++ [.foregroundHome home]) hback hid
      (presentForeground_shows o { s.forget id with foreground := .client home })
    simpa using this
  · exact .gone _ [_]

/-- What a step can do. -/
inductive Takes (o : Outcomes) (s : Compositor) :
    Input → Compositor → List Happening → Prop where
  | ignored {input : Input} (h : ∀ id r, input = .request id r → s.clients id = none) :
      Takes o s input s []
  | connected (hello : ClientHello) :
      Takes o s (.connect hello) (s.connect hello).1 (s.connect hello).2
  | attached {id : ClientId} {client : Client} {slot : BufferSlot} {surface : Surface}
      (hclient : s.clients id = some client) (hattach : client.surface.attach slot = .ok surface) :
      Takes o s (.request id (.attach slot)) (s.setClient id (some { client with surface })) []
  | committed {id : ClientId} {client : Client} {damage : Damage} {slot : BufferSlot}
      {surface : Surface} (hclient : s.clients id = some client)
      (hcommit : client.surface.commit damage = .ok (slot, surface)) :
      Takes o s (.request id (.commit damage)) (s.setClient id (some { client with surface }))
        [.committed id slot]
  | presented {id : ClientId} {client : Client} {damage : Damage} {slot : BufferSlot}
      {surface : Surface} {s' : Compositor} {hs : List Happening}
      (hclient : s.clients id = some client)
      (hcommit : client.surface.commit damage = .ok (slot, surface))
      (hf : s.foregroundClient = some id)
      (hshows : Shows o (s.setClient id (some { client with surface })) s' hs) :
      Takes o s (.request id (.commit damage)) s' (.committed id slot :: hs)
  | refused {id : ClientId} {client : Client} {r : ClientRequest} {e : SurfaceError}
      {s' : Compositor} {hs : List Happening} (hclient : s.clients id = some client)
      (herror : client.refusal r = some e) (hleaves : Leaves o s id s' hs) :
      Takes o s (.request id r) s' (.refused id e :: hs)
  | hungUp {id : ClientId} {s' : Compositor} {hs : List Happening}
      (hleaves : Leaves o s id s' hs) : Takes o s (.hangUp id) s' hs
  | slept : Takes o s .sleep { s with locked := true } [.event .locked]
  | woken {s' : Compositor} {hs : List Happening} (hlocked : s.locked = true)
      (hshows : Shows o { s with locked := false } s' hs) :
      Takes o s .wake s' (.event .unlocked :: hs)

theorem step_takes (o : Outcomes) (s : Compositor) (input : Input) :
    Takes o s input (s.step o input).1 (s.step o input).2 := by
  cases input with
  | connect hello => exact .connected hello
  | hangUp id => exact .hungUp (disconnect_leaves o s id)
  | request id r =>
    rw [step]
    unfold handleRequest
    split
    · next hclient =>
      refine .ignored fun id' r' heq => ?_
      rw [← (Input.request.inj heq).1, hclient]
    next client hclient =>
    split
    · next slot =>
      split
      · next surface hattach => exact .attached hclient hattach
      · next e herror =>
        exact .refused hclient (by simp [Client.refusal, herror]) (disconnect_leaves o s id)
    · next damage =>
      split
      · next slot surface hcommit =>
        extract_lets s₁ shown
        split
        · next hf => exact .presented hclient hcommit hf (presentForeground_shows o s₁)
        · exact .committed hclient hcommit
      · next e herror =>
        exact .refused hclient (by simp [Client.refusal, herror]) (disconnect_leaves o s id)
  | sleep =>
    rw [step, sleep]
    split
    · exact .ignored (by simp)
    split
    · exact .slept
    · exact .ignored (by simp)
  | wake =>
    rw [step]
    unfold wake
    split
    · exact .ignored (by simp)
    next hlocked =>
    simp only [Bool.not_eq_true, Bool.not_eq_false'] at hlocked
    extract_lets s₁ shown
    split
    · exact .woken hlocked (presentForeground_shows o s₁)
    · exact .woken hlocked .nothing
    · exact .woken hlocked .nothing

/-! ## Who has a buffer -/

/-- The client committed a frame in the buffer, and was not told since that it was released. -/
def Held (log : List Happening) (id : ClientId) (slot : BufferSlot) : Prop :=
  ∃ before after, log = before ++ .committed id slot :: after ∧ .released id slot ∉ after

theorem held_concat_iff {log : List Happening} {x : Happening} {id : ClientId}
    {slot : BufferSlot} : Held (log ++ [x]) id slot ↔
      x = .committed id slot ∨ x ≠ .released id slot ∧ Held log id slot := by
  constructor
  · rintro ⟨before, after, heq, hnot⟩
    rcases List.eq_nil_or_concat after with rfl | ⟨after, y, rfl⟩
    · obtain ⟨-, hlast⟩ := List.append_inj' heq rfl
      exact .inl (List.cons.inj hlast).1
    · have heq' : log ++ [x] = (before ++ .committed id slot :: after) ++ [y] := by simpa using heq
      obtain ⟨rfl, hlast⟩ := List.append_inj' heq' rfl
      simp only [List.concat_eq_append, List.mem_append, List.mem_singleton, not_or] at hnot
      refine .inr ⟨?_, before, after, rfl, hnot.1⟩
      rw [(List.cons.inj hlast).1]
      exact fun h => hnot.2 h.symm
  · rintro (rfl | ⟨hx, before, after, rfl, hnot⟩)
    · exact ⟨log, [], rfl, List.not_mem_nil⟩
    · refine ⟨before, after ++ [x], by simp, ?_⟩
      simp only [List.mem_append, List.mem_singleton, not_or]
      exact ⟨hnot, hx.symm⟩

/-- The last word about a buffer, with the latest happening first. -/
def lastHeld (id : ClientId) (slot : BufferSlot) : List Happening → Bool
  | [] => false
  | x :: past =>
    x = .committed id slot || (x ≠ .released id slot && lastHeld id slot past)

theorem held_iff {log : List Happening} {id : ClientId} {slot : BufferSlot} :
    Held log id slot ↔ lastHeld id slot log.reverse = true := by
  induction log using List.reverseRecOn with
  | nil => simp [Held, lastHeld]
  | append_singleton log x ih => simp [held_concat_iff, lastHeld, ih]

instance (log : List Happening) (id : ClientId) (slot : BufferSlot) :
    Decidable (Held log id slot) := decidable_of_iff _ held_iff.symm

/-- Every buffer that was copied was the compositor's at the time. -/
def ReadsHeld (log : List Happening) : Prop :=
  ∀ before id slot after, log = before ++ .copied id slot :: after → Held before id slot

variable {log : List Happening} {x : Happening} {id : ClientId} {slot : BufferSlot}

theorem held_committed (log : List Happening) (id : ClientId) (slot : BufferSlot) :
    Held (log ++ [.committed id slot]) id slot :=
  held_concat_iff.mpr (.inl rfl)

theorem Held.concat (h : Held log id slot) (hx : x ≠ .released id slot) :
    Held (log ++ [x]) id slot :=
  held_concat_iff.mpr (.inr ⟨hx, h⟩)

theorem ReadsHeld.concat (h : ReadsHeld log)
    (hx : ∀ id slot, x = .copied id slot → Held log id slot) : ReadsHeld (log ++ [x]) := by
  intro before id slot after heq
  rcases List.eq_nil_or_concat after with rfl | ⟨after, y, rfl⟩
  · obtain ⟨rfl, hlast⟩ := List.append_inj' heq rfl
    exact hx id slot (List.cons.inj hlast).1
  · have heq' : log ++ [x] = (before ++ .copied id slot :: after) ++ [y] := by simpa using heq
    exact h before id slot after (List.append_inj' heq' rfl).1

/-- What the compositor's books have to do with what has happened. -/
structure Accounts (log : List Happening) (s : Compositor) : Prop where
  presenting : ∀ id client slot, s.clients id = some client →
    client.surface.slots slot = .presenting → Held log id slot
  reads : ReadsHeld log

section Books

variable {s s' : Compositor} {o : Outcomes} {client : Client}

/-- Something happened that is neither a copy nor a notice. -/
theorem Accounts.quiet (h : Accounts log s) (hc : ∀ id slot, x ≠ .copied id slot)
    (hr : ∀ id slot, x ≠ .released id slot) : Accounts (log ++ [x]) s where
  presenting id client slot hclient hp := (h.presenting id client slot hclient hp).concat (hr id slot)
  reads := h.reads.concat fun id slot heq => absurd heq (hc id slot)

theorem Accounts.event (h : Accounts log s) (e : CompositorEvent) :
    Accounts (log ++ [.event e]) s :=
  h.quiet (fun _ _ => by simp) fun _ _ => by simp

/-- A buffer is copied that is the compositor's. -/
theorem Accounts.copy (h : Accounts log s) (hheld : Held log id slot) :
    Accounts (log ++ [.copied id slot]) s where
  presenting id client slot hclient hp :=
    (h.presenting id client slot hclient hp).concat (by simp)
  reads := h.reads.concat fun id' slot' heq => by
    obtain ⟨rfl, rfl⟩ := Happening.copied.inj heq
    exact hheld

/-- No new buffer counts as presenting. -/
theorem Accounts.mono (h : Accounts log s)
    (hp : ∀ id client slot, s'.clients id = some client →
      client.surface.slots slot = .presenting →
      ∃ old, s.clients id = some old ∧ old.surface.slots slot = .presenting) :
    Accounts log s' where
  presenting id client slot hclient hpres := by
    obtain ⟨old, hold, hpres⟩ := hp id client slot hclient hpres
    exact h.presenting id old slot hold hpres
  reads := h.reads

/-- A buffer is given back. -/
theorem Accounts.giveBack (h : Accounts log s) (hclient : s.clients id = some client) :
    Accounts (log ++ [notifyRelease o id slot]) (s.giveBack id client slot) where
  presenting id' client' slot' hclient' hp := by
    by_cases hid : id' = id
    · subst hid
      simp only [Compositor.giveBack, setClient, Function.update_self, Option.some.injEq] at hclient'
      subst hclient'
      obtain ⟨hne, hp⟩ := Surface.presenting_of_released hp
      refine (h.presenting id' client slot' hclient hp).concat ?_
      unfold notifyRelease
      split <;> simp [hne.symm]
    · simp only [Compositor.giveBack, setClient, Function.update_of_ne hid] at hclient'
      refine (h.presenting id' client' slot' hclient' hp).concat ?_
      unfold notifyRelease
      split <;> simp [Ne.symm hid]
  reads := by
    refine h.reads.concat fun id' slot' heq => ?_
    unfold notifyRelease at heq
    split at heq <;> simp at heq

/-- A client's frame is shown whose buffer the compositor has. -/
theorem Accounts.shows (h : Accounts log s) {hs : List Happening} (hshows : Shows o s s' hs)
    (hkeeps : ∀ id client, s.foregroundClient = some id → s.clients id = some client →
      s.locked = false → client.pool = s.panelSize → o.frame ≠ .noBuffer →
      client.surface.Keeps) : Accounts (log ++ hs) s' := by
  have hheld {id client c} (hf : s.foregroundClient = some id) (hclient : s.clients id = some client)
      (hcurrent : client.surface.current = some c) (hlocked : s.locked = false)
      (hpool : client.pool = s.panelSize) (hframe : o.frame ≠ .noBuffer) :
      Held log id c.buffer :=
    h.presenting id client c.buffer hclient
      (hkeeps id client hf hclient hlocked hpool hframe c hcurrent)
  cases hshows with
  | nothing => rw [List.append_nil]; exact h
  | covered hf hclient hcurrent hlocked => exact h.giveBack hclient
  | unswapped hf hclient hcurrent hlocked hpool hframe =>
    exact h.copy (hheld hf hclient hcurrent hlocked hpool (by rw [hframe]; simp))
  | @shown id client c hf hclient hcurrent hlocked hpool hframe =>
    have hcopy := h.copy (hheld hf hclient hcurrent hlocked hpool (by rw [hframe]; simp))
    have hevent := hcopy.event (.framePresented id)
    have hback : Accounts (_ ++ [notifyRelease o id c.buffer]) _ := hevent.giveBack hclient
    simpa using hback

/-! ### The steps -/

theorem Accounts.events (h : Accounts log s) (events : List CompositorEvent) :
    Accounts (log ++ events.map .event) s := by
  induction events using List.reverseRecOn with
  | nil =>
    rw [List.map_nil, List.append_nil]
    exact h
  | append_singleton events e ih => simpa using ih.event e

/-- The buffers of a client that is gone do not count. -/
theorem Accounts.forget (h : Accounts log s) (id : ClientId) (foreground : Foreground) :
    Accounts log { s.forget id with foreground } :=
  h.mono fun id' client slot hclient hp => by
    by_cases hid : id' = id
    · subst hid
      simp [Compositor.forget, setClient] at hclient
    · simp only [Compositor.forget, setClient, Function.update_of_ne hid] at hclient
      exact ⟨client, hclient, hp⟩

theorem Accounts.leaves (h : Accounts log s) {hs : List Happening} (hleaves : Leaves o s id s' hs)
    (hkeeps : ∀ home client, s.returnsHome id = some home → s.clients home = some client →
      s.locked = false → client.pool = s.panelSize → o.frame ≠ .noBuffer →
      client.surface.Keeps) : Accounts (log ++ hs) s' := by
  cases hleaves with
  | unknown =>
    rw [List.append_nil]
    exact h
  | gone foreground events => exact (h.forget id foreground).events events
  | @home home _ hs events hback hne hshows =>
    rw [← List.append_assoc]
    refine ((h.forget id (.client home)).events events).shows hshows ?_
    intro id' client hf hclient
    obtain rfl : home = id' := Option.some.inj hf
    simp only [Compositor.forget, setClient, Function.update_of_ne hne] at hclient
    exact hkeeps home client hback hclient

theorem Accounts.connect (h : Accounts log s) (hello : ClientHello) :
    Accounts (log ++ (s.connect hello).2) (s.connect hello).1 := by
  refine (h.event _).mono fun id client slot hclient hp => ?_
  by_cases hid : id = s.nextId
  · subst hid
    simp only [Compositor.connect, setClient, Function.update_self, Option.some.injEq] at hclient
    subst hclient
    simp [Surface.new] at hp
  · simp only [Compositor.connect, setClient, Function.update_of_ne hid] at hclient
    exact ⟨client, hclient, hp⟩

/-- A surface changes that counts nothing new. -/
theorem Accounts.setSurface (h : Accounts log s) (hclient : s.clients id = some client)
    {surface : Surface}
    (hp : ∀ slot, surface.slots slot = .presenting → client.surface.slots slot = .presenting) :
    Accounts log (s.setClient id (some { client with surface })) :=
  h.mono fun id' client' slot hclient' hpres => by
    by_cases hid : id' = id
    · subst hid
      simp only [setClient, Function.update_self, Option.some.injEq] at hclient'
      subst hclient'
      exact ⟨client, hclient, hp slot hpres⟩
    · simp only [setClient, Function.update_of_ne hid] at hclient'
      exact ⟨client', hclient', hpres⟩

/-- A frame is committed. -/
theorem Accounts.commit (h : Accounts log s) (hclient : s.clients id = some client)
    {surface : Surface} {damage : Damage}
    (hcommit : client.surface.commit damage = .ok (slot, surface)) :
    Accounts (log ++ [.committed id slot]) (s.setClient id (some { client with surface })) where
  presenting id' client' slot' hclient' hp := by
    by_cases hid : id' = id
    · subst hid
      simp only [setClient, Function.update_self, Option.some.injEq] at hclient'
      subst hclient'
      rcases Surface.presenting_of_commit hcommit hp with rfl | hp
      · exact held_committed log id' slot'
      · exact (h.presenting id' client slot' hclient hp).concat (by simp)
    · simp only [setClient, Function.update_of_ne hid] at hclient'
      exact (h.presenting id' client' slot' hclient' hp).concat (by simp)
  reads := h.reads.concat fun _ _ heq => by simp at heq

end Books

/-! ## Every run -/

/-- A frame that an input shows again, without a commit, is still the compositor's, unless the panel
does not take it. -/
def Fresh (s : Compositor) (o : Outcomes) (input : Input) : Prop :=
  ∀ id ∈ s.reshows input, ∀ client ∈ s.clients id, (input = .wake ∨ s.locked = false) →
    client.pool = s.panelSize → o.frame ≠ .noBuffer → client.surface.Keeps

instance (s : Compositor) (o : Outcomes) (input : Input) : Decidable (Fresh s o input) := by
  unfold Fresh
  infer_instance

section Runs

variable {s : Compositor} {o : Outcomes}

/-- Every step that shows nothing stale keeps the books. -/
theorem Accounts.takes (h : Accounts log s) {input : Input} {s' : Compositor}
    {hs : List Happening} (hfresh : Fresh s o input) (htakes : Takes o s input s' hs) :
    Accounts (log ++ hs) s' := by
  cases htakes with
  | ignored =>
    rw [List.append_nil]
    exact h
  | connected hello => exact h.connect hello
  | attached hclient hattach =>
    rw [List.append_nil]
    exact h.setSurface hclient fun slot => Surface.presenting_of_attach hattach
  | committed hclient hcommit => exact h.commit hclient hcommit
  | presented hclient hcommit hf hshows =>
    rw [List.append_cons]
    refine (h.commit hclient hcommit).shows hshows ?_
    -- The frame that is shown is the one that was just committed.
    intro id' client' hf' hclient' _ _ _
    obtain rfl := Option.some.inj (hf.symm.trans hf')
    simp only [setClient, Function.update_self, Option.some.injEq] at hclient'
    subst hclient'
    obtain ⟨-, -, rfl⟩ := Surface.commit_ok hcommit
    intro c hc
    obtain rfl := Option.some.inj hc
    simp
  | @refused id client r e _ _ hclient herror hleaves =>
    rw [List.append_cons]
    have hq : Accounts (log ++ [.refused id e]) s := h.quiet (by simp) (by simp)
    refine hq.leaves hleaves fun home client' hback hclient' hlocked => ?_
    refine hfresh home ?_ client' hclient' (.inr hlocked)
    simp [reshows, hclient, herror, hback]
  | hungUp hleaves =>
    refine h.leaves hleaves fun home client hback hclient hlocked => ?_
    exact hfresh home hback client hclient (.inr hlocked)
  | slept => exact (h.event _).mono fun id client slot hclient hp => ⟨client, hclient, hp⟩
  | woken hlocked hshows =>
    rw [List.append_cons]
    have hunlocked : Accounts (log ++ [.event .unlocked]) { s with locked := false } :=
      (h.event _).mono fun id client slot hclient hp => ⟨client, hclient, hp⟩
    refine hunlocked.shows hshows fun id client hf hclient _ => ?_
    refine hfresh id ?_ client hclient (.inl rfl)
    rw [reshows, if_pos hlocked]
    exact hf

theorem run_accounts (h : Accounts log s) {inputs : List (Input × Outcomes)}
    (hfresh : Along Fresh s inputs) : Accounts (s.run log inputs).2 (s.run log inputs).1 := by
  induction inputs generalizing s log with
  | nil => exact h
  | cons first rest ih => exact ih (h.takes hfresh.1 (step_takes _ s _)) hfresh.2

end Runs

/-- In every run in which no frame is shown again once its buffer was released, every buffer that is
copied to the panel is one that its client committed and was not told since to be its own again. -/
theorem copied_is_held (panelSize : Size) (inputs : List (Input × Outcomes))
    (h : Along Fresh (.bind panelSize) inputs) : ReadsHeld ((bind panelSize).run [] inputs).2 := by
  refine (run_accounts ⟨fun _ _ _ hclient => ?_, fun before _ _ _ heq => ?_⟩ h).reads
  · simp [bind] at hclient
  · simp at heq

/-- A small panel. -/
def Sample.panel : Size := ⟨4, 4⟩

/-- An app that shows one frame before the device sleeps and wakes again. -/
def Sample.nap (frame : PanelResult) : List (Input × Outcomes) :=
  [(.connect ⟨.app, "Chess", Sample.panel⟩, {}), (.request 0 (.attach .a), {}),
    (.request 0 (.commit .full), { frame }), (.sleep, {}), (.wake, {})]

/-- The panel fails on the frame at first, and shows it after the sleep. -/
theorem copied_is_held_nap : ReadsHeld ((bind Sample.panel).run [] (Sample.nap .notSwapped)).2 :=
  copied_is_held Sample.panel (Sample.nap .notSwapped) (by decide +kernel)

/-- When the panel takes the frame at once, the wake reads a buffer that was given back. -/
theorem released_buffer_is_read :
    ¬ReadsHeld ((bind Sample.panel).run [] (Sample.nap .shown)).2 := by
  intro h
  refine absurd (h [.event (.clientConnected 0 .app "Chess"), .committed 0 .a, .copied 0 .a,
    .event (.framePresented 0), .released 0 .a, .event .locked, .event .unlocked] 0 .a
    [.event (.framePresented 0), .released 0 .a] (by decide +kernel)) (by decide)

end Paperclip.Compositor
