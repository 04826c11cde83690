import Paperclip.Compositor.Network

/-!
# One release for each commit

Each buffer of a client is in one place: free with the client, in a request that is under way,
attached or presenting in the compositor, or in a release that is under way. `Ledger` says so of one
client (`tokens`), and what has happened to each buffer so far. `Sound` is the invariant of a network.
-/

namespace Paperclip.Compositor

open Protocol

/-! ## What has happened to a buffer -/

/-- How often the client committed a frame in the buffer. -/
def commits (log : List Happening) (id : ClientId) (slot : BufferSlot) : Nat :=
  log.count (.committed id slot)

/-- How often the client was told that the buffer is its own again. -/
def releases (log : List Happening) (id : ClientId) (slot : BufferSlot) : Nat :=
  log.count (.released id slot)

/-- Commits and releases of each buffer take turns, a commit first. -/
def TakeTurns (log : List Happening) : Prop :=
  ∀ past, past <+: log → ∀ id slot,
    releases past id slot ≤ commits past id slot ∧
      commits past id slot ≤ releases past id slot + 1

section Counting

variable {log : List Happening} {x : Happening} {id : ClientId} {slot : BufferSlot}

theorem commits_concat (log : List Happening) (x : Happening) (id : ClientId) (slot : BufferSlot) :
    commits (log ++ [x]) id slot =
      commits log id slot + if x = .committed id slot then 1 else 0 := by
  simp [commits, List.count_append, List.count_singleton]

theorem releases_concat (log : List Happening) (x : Happening) (id : ClientId)
    (slot : BufferSlot) :
    releases (log ++ [x]) id slot =
      releases log id slot + if x = .released id slot then 1 else 0 := by
  simp [releases, List.count_append, List.count_singleton]

theorem TakeTurns.concat (h : TakeTurns log)
    (hx : ∀ id slot, releases (log ++ [x]) id slot ≤ commits (log ++ [x]) id slot ∧
      commits (log ++ [x]) id slot ≤ releases (log ++ [x]) id slot + 1) :
    TakeTurns (log ++ [x]) := by
  intro past hpast
  rcases List.prefix_concat_iff.mp hpast with rfl | hpast
  · exact hx
  · exact h past hpast

end Counting

/-! ## The requests under way -/

/-- The requests of a client that publishes frames, while `pending` is attached: they attach the
buffers `queued`, one after the other, and commit each at once. -/
inductive Script : Option BufferSlot → List ClientRequest → List BufferSlot → Prop where
  | nil : Script none [] []
  | attach {slot : BufferSlot} {requests : List ClientRequest} {queued : List BufferSlot}
      (h : Script (some slot) requests queued) :
      Script none (.attach slot :: requests) (slot :: queued)
  | commit {slot : BufferSlot} {damage : Damage} {requests : List ClientRequest}
      {queued : List BufferSlot} (h : Script none requests queued) :
      Script (some slot) (.commit damage :: requests) queued

theorem Script.publish {pending : Option BufferSlot} {requests : List ClientRequest}
    {queued : List BufferSlot} (h : Script pending requests queued) (slot : BufferSlot)
    (damage : Damage) :
    Script pending (requests ++ [.attach slot, .commit damage]) (queued ++ [slot]) := by
  induction h with
  | nil => exact .attach (.commit .nil)
  | attach _ ih => exact .attach ih
  | commit _ ih => exact .commit ih

/-! ## The ledger of a client -/

/-- How many of `0` and `1` hold. -/
def bit (p : Prop) [Decidable p] : Nat := if p then 1 else 0

/-- The buffers that are or will be current, the latest last. -/
def line (surface : Surface) (queued : List BufferSlot) : List BufferSlot :=
  (surface.current.map Committed.buffer).toList ++ surface.pendingBuffer.toList ++ queued

/-- Where the buffers of a client are, and what has happened to them. -/
structure Ledger (log : List Happening) (id : ClientId) (surface : Surface) (peer : Peer)
    (queued : List BufferSlot) : Prop where
  script : Script surface.pendingBuffer peer.requests queued
  tokens : ∀ slot, queued.count slot + bit (surface.slots slot = .attached) +
    bit (surface.slots slot = .presenting) + peer.notices.count slot =
      bit (peer.surface.inFlight slot = true)
  pending : ∀ slot, surface.pendingBuffer = some slot ↔ surface.slots slot = .attached
  shown : ∀ slot, surface.slots slot = .presenting →
    surface.current.map Committed.buffer = some slot
  counts : ∀ slot,
    commits log id slot = releases log id slot + bit (surface.slots slot = .presenting)
  last : ∀ slot, (line surface queued).getLast? = some slot → peer.surface.next = slot.other

@[simp] theorem bit_true {p : Prop} [Decidable p] (h : p) : bit p = 1 := if_pos h

@[simp] theorem bit_false {p : Prop} [Decidable p] (h : ¬p) : bit p = 0 := if_neg h

theorem bit_le (p : Prop) [Decidable p] : bit p ≤ 1 := by
  unfold bit
  split <;> omega

theorem Script.attach_inv {pending : Option BufferSlot} {slot : BufferSlot}
    {requests : List ClientRequest} {queued : List BufferSlot}
    (h : Script pending (.attach slot :: requests) queued) :
    pending = none ∧ ∃ rest, queued = slot :: rest ∧ Script (some slot) requests rest := by
  cases h with
  | attach h => exact ⟨rfl, _, rfl, h⟩

theorem Script.commit_inv {pending : Option BufferSlot} {damage : Damage}
    {requests : List ClientRequest} {queued : List BufferSlot}
    (h : Script pending (.commit damage :: requests) queued) :
    ∃ slot, pending = some slot ∧ Script none requests queued := by
  cases h with
  | commit h => exact ⟨_, rfl, h⟩

theorem Script.nil_inv {pending : Option BufferSlot} {queued : List BufferSlot}
    (h : Script pending [] queued) : pending = none ∧ queued = [] := by
  cases h
  exact ⟨rfl, rfl⟩

/-- Reading releases moves buffers back to the client, and ends with the one that it waits for. -/
theorem readUntil_spec {slot : BufferSlot} {base : BufferSlot → Nat}
    {inFlight inFlight' : BufferSlot → Bool} {notices notices' : List BufferSlot}
    (h : Peer.readUntil slot inFlight notices = some (inFlight', notices'))
    (htokens : ∀ s, base s + notices.count s = bit (inFlight s = true)) :
    (∀ s, base s + notices'.count s = bit (inFlight' s = true)) ∧ inFlight' slot = false := by
  induction notices generalizing inFlight with
  | nil => simp [Peer.readUntil] at h
  | cons released rest ih =>
    have hread : ∀ s, base s + rest.count s
        = bit (Function.update inFlight released false s = true) := by
      intro s
      have hs := htokens s
      have hle := bit_le (inFlight s = true)
      rw [List.count_cons] at hs
      by_cases heq : released = s
      · subst heq
        rw [Function.update_self, bit_false (by simp)]
        simp only [beq_self_eq_true, if_true] at hs
        omega
      · rw [Function.update_of_ne (Ne.symm heq)]
        simpa [heq] using hs
    rw [Peer.readUntil] at h
    split at h
    · next heq =>
      rw [Option.some.injEq, Prod.mk.injEq] at h
      obtain ⟨rfl, rfl⟩ := h
      exact ⟨hread, by rw [heq, Function.update_self]⟩
    · exact ih h hread

theorem readUntil_isSome {slot : BufferSlot} {notices : List BufferSlot} (h : slot ∈ notices)
    (inFlight : BufferSlot → Bool) : (Peer.readUntil slot inFlight notices).isSome := by
  induction notices generalizing inFlight with
  | nil => simp at h
  | cons released rest ih =>
    rw [Peer.readUntil]
    split
    · rfl
    · next hne =>
      rcases List.mem_cons.mp h with rfl | h
      · exact absurd rfl hne
      · exact ih h _

namespace Ledger

variable {log : List Happening} {x : Happening} {id : ClientId} {surface surface' : Surface}
  {peer peer' : Peer} {queued rest : List BufferSlot} {slot : BufferSlot} {damage : Damage}
  {requests : List ClientRequest}

/-- A client that has just connected. -/
theorem connect (extent : Size) (hc : ∀ slot, commits log id slot = 0)
    (hr : ∀ slot, releases log id slot = 0) : Ledger log id (.new extent) {} [] where
  script := .nil
  tokens slot := by simp [Surface.new, bit]
  pending slot := by simp [Surface.new]
  shown slot h := by simp [Surface.new] at h
  counts slot := by rw [hc, hr, bit_false (by simp [Surface.new])]
  last slot h := by simp [line, Surface.new] at h

/-- Something happened that is not about the client's buffers. -/
theorem concat (h : Ledger log id surface peer queued) (hc : ∀ slot, x ≠ .committed id slot)
    (hr : ∀ slot, x ≠ .released id slot) : Ledger (log ++ [x]) id surface peer queued :=
  { h with
    counts := fun slot => by
      rw [commits_concat, releases_concat, if_neg (hc slot), if_neg (hr slot)]
      exact h.counts slot }

/-- The client publishes a frame. -/
theorem publish (h : Ledger log id surface peer queued)
    (hpublish : peer.publish damage = some peer') :
    Ledger log id surface peer' (queued ++ [peer.surface.next]) := by
  unfold Peer.publish at hpublish
  extract_lets slot at hpublish
  split at hpublish
  · simp at hpublish
  next inFlight notices hwait =>
  rw [Option.some.injEq] at hpublish
  subst hpublish
  obtain ⟨htokens, hfree⟩ : (∀ s, queued.count s + bit (surface.slots s = .attached) +
      bit (surface.slots s = .presenting) + notices.count s = bit (inFlight s = true)) ∧
      inFlight slot = false := by
    unfold Peer.waitForRelease at hwait
    split at hwait
    · next hnot =>
      rw [Option.some.injEq, Prod.mk.injEq] at hwait
      obtain ⟨rfl, rfl⟩ := hwait
      exact ⟨h.tokens, by simpa using hnot⟩
    · exact readUntil_spec hwait h.tokens
  refine ⟨h.script.publish slot damage, fun s => ?_, h.pending, h.shown, h.counts, fun s hs => ?_⟩
  · have hs := htokens s
    change (queued ++ [slot]).count s + _ + _ + notices.count s =
      bit (Function.update inFlight slot true s = true)
    rw [List.count_append, List.count_singleton]
    by_cases heq : slot = s
    · rw [← heq] at hs ⊢
      rw [hfree, show bit (false = true) = 0 from rfl] at hs
      rw [Function.update_self, bit_true rfl, if_pos (beq_self_eq_true _)]
      omega
    · rw [Function.update_of_ne (Ne.symm heq), if_neg (by simpa using heq)]
      omega
  · have hline : line surface (queued ++ [slot]) = line surface queued ++ [slot] := by
      simp [line]
    rw [show peer.surface.next = slot from rfl, hline, List.getLast?_concat,
      Option.some.injEq] at hs
    rw [← hs]

/-- A client whose requests were all served does not wait in vain. -/
theorem publish_isSome (h : Ledger log id surface peer queued) (hserved : peer.requests = [])
    (damage : Damage) : (peer.publish damage).isSome := by
  have hscript := h.script
  rw [hserved] at hscript
  obtain ⟨hpending, rfl⟩ := hscript.nil_inv
  have hwait : (peer.waitForRelease peer.surface.next).isSome := by
    unfold Peer.waitForRelease
    split
    · rfl
    next hflight =>
    simp only [Bool.not_eq_true, Bool.not_eq_false'] at hflight
    have htokens := h.tokens peer.surface.next
    rw [bit_true hflight, List.count_nil] at htokens
    have hattached : surface.slots peer.surface.next ≠ .attached := by
      rw [ne_eq, ← h.pending, hpending]
      simp
    have hpresenting : surface.slots peer.surface.next ≠ .presenting := by
      -- The current frame is in the other buffer.
      intro hp
      have hcurrent := h.shown _ hp
      have := h.last peer.surface.next (by simp [line, hcurrent, hpending])
      exact absurd this.symm (BufferSlot.other_ne _)
    rw [bit_false hattached, bit_false hpresenting] at htokens
    exact readUntil_isSome (List.count_pos_iff.mp (by omega)) _
  unfold Peer.publish
  obtain ⟨w, hw⟩ := Option.isSome_iff_exists.mp hwait
  simp [hw]

/-- An attach that comes to be served is granted. -/
theorem attach (h : Ledger log id surface peer queued)
    (hrequests : peer.requests = .attach slot :: requests) :
    ∃ surface' queued', surface.attach slot = .ok surface' ∧
      Ledger log id surface' { peer with requests } queued' := by
  have hscript := h.script
  rw [hrequests] at hscript
  obtain ⟨hpending, rest, rfl, hrest⟩ := hscript.attach_inv
  have htoken := h.tokens slot
  have hle := bit_le (peer.surface.inFlight slot = true)
  rw [List.count_cons_self] at htoken
  have hfree : surface.slots slot = .free := by
    cases hs : surface.slots slot with
    | free => rfl
    | attached => simp only [hs, bit_true] at htoken; omega
    | presenting => simp only [hs, bit_true] at htoken; omega
  have hattach : surface.attach slot =
      .ok { surface.setSlotState slot .attached with pendingBuffer := some slot } := by
    simp [Surface.attach, hfree, hpending]
  refine ⟨_, rest, hattach, hrest, fun s => ?_, fun s => ?_, fun s hs => ?_, fun s => ?_, ?_⟩
  · have hs := h.tokens s
    by_cases heq : s = slot
    · subst heq
      rw [hfree, List.count_cons_self] at hs
      simpa [bit, Nat.add_comm, Nat.add_left_comm] using hs
    · simpa [Function.update_of_ne heq, Ne.symm heq] using hs
  · by_cases heq : s = slot
    · subst heq
      simp
    · have := h.pending s
      rw [hpending] at this
      simpa [Function.update_of_ne heq, Ne.symm heq] using this
  · by_cases heq : s = slot
    · subst heq
      simp at hs
    · simp only [Surface.setSlotState_slots, Function.update_of_ne heq] at hs
      exact h.shown s hs
  · have hs := h.counts s
    by_cases heq : s = slot
    · subst heq
      simpa [hfree, bit] using hs
    · simpa [Function.update_of_ne heq] using hs
  · simpa [line, hpending] using h.last

/-- A commit that comes to be served takes the buffer, if the other one was given back. -/
theorem commit (h : Ledger log id surface peer queued)
    (hrequests : peer.requests = .commit damage :: requests)
    (hcommit : surface.commit damage = .ok (slot, surface'))
    (hother : surface.slots slot.other ≠ .presenting) :
    Ledger (log ++ [.committed id slot]) id surface' { peer with requests } queued := by
  have hscript := h.script
  rw [hrequests] at hscript
  obtain ⟨slot', hpending, hrest⟩ := hscript.commit_inv
  obtain ⟨hpending', -, rfl⟩ := Surface.commit_ok hcommit
  obtain rfl := Option.some.inj (hpending.symm.trans hpending')
  have hattached : surface.slots slot' = .attached := (h.pending slot').mp hpending
  refine ⟨hrest, fun s => ?_, fun s => ?_, fun s hs => ?_, fun s => ?_, fun s hs => ?_⟩
  · have hs := h.tokens s
    by_cases heq : s = slot'
    · subst heq
      simpa [bit, hattached] using hs
    · simpa [Function.update_of_ne heq] using hs
  · by_cases heq : s = slot'
    · subst heq
      simp
    · have := h.pending s
      rw [hpending] at this
      simpa [Function.update_of_ne heq, Ne.symm heq] using this
  · rcases slot'.eq_or_eq_other s with rfl | rfl
    · rfl
    · simp only [Surface.setSlotState_slots, Function.update_of_ne (BufferSlot.other_ne _)] at hs
      exact absurd hs hother
  · have hs := h.counts s
    rw [commits_concat, releases_concat]
    by_cases heq : s = slot'
    · subst heq
      simpa [bit, hattached] using hs
    · simpa [Function.update_of_ne heq, Ne.symm heq] using hs
  · refine h.last s ?_
    have hline : line surface queued = (surface.current.map Committed.buffer).toList ++
        (slot' :: queued) := by
      simp [line, hpending]
    rw [hline, List.getLast?_append_of_ne_nil _ (List.cons_ne_nil _ _)]
    exact hs

/-- A buffer is given back that is presenting. -/
theorem giveBack (h : Ledger log id surface peer queued)
    (hp : surface.slots slot = .presenting) :
    Ledger (log ++ [.released id slot]) id (surface.released slot)
      { peer with notices := peer.notices ++ [slot] } queued := by
  have hslots : (surface.released slot).slots = Function.update surface.slots slot .free := by
    rw [Surface.released_slots, if_pos hp]
  obtain ⟨hcurrent, hpending, -⟩ := Surface.released_rest surface slot
  refine ⟨?_, fun s => ?_, fun s => ?_, fun s hs => ?_, fun s => ?_, fun s hs => ?_⟩
  · rw [hpending]
    exact h.script
  · have hs := h.tokens s
    rw [hslots, List.count_append, List.count_singleton]
    by_cases heq : s = slot
    · subst heq
      rw [hp] at hs
      simpa [bit, Nat.add_comm, Nat.add_left_comm] using hs
    · simpa [Function.update_of_ne heq, Ne.symm heq] using hs
  · rw [hpending, hslots, h.pending]
    by_cases heq : s = slot
    · subst heq
      simp [hp]
    · rw [Function.update_of_ne heq]
  · rw [hslots] at hs
    rw [hcurrent]
    by_cases heq : s = slot
    · subst heq
      simp at hs
    · rw [Function.update_of_ne heq] at hs
      exact h.shown s hs
  · have hs := h.counts s
    rw [commits_concat, releases_concat, hslots]
    by_cases heq : s = slot
    · subst heq
      simpa [bit, hp] using hs
    · simpa [Function.update_of_ne heq, Ne.symm heq] using hs
  · refine h.last s ?_
    rw [← hs, line, line, hcurrent, hpending]

end Ledger

/-! ## The network -/

/-- The invariant of a network. -/
structure Sound (s : Compositor) (peers : ClientId → Peer) (log : List Happening) : Prop where
  ledgers : ∀ id client, s.clients id = some client →
    ∃ queued, Ledger log id client.surface (peers id) queued
  fresh : ∀ id, s.nextId ≤ id → s.clients id = none ∧ peers id = {} ∧
    ∀ slot, commits log id slot = 0 ∧ releases log id slot = 0
  turns : TakeTurns log
  notBusy : ∀ id slot, .refused id (.bufferBusy slot) ∉ log

/-- A commit takes the place of a frame whose buffer was given back. -/
def GivenBack (s : Compositor) : Input → Prop
  | .request id (.commit damage) =>
    ∀ client ∈ s.clients id, ∀ slot ∈ client.surface.pendingBuffer,
      validateDamage damage client.surface.extent = .ok () →
        client.surface.slots slot.other ≠ .presenting
  | _ => True

instance (s : Compositor) (input : Input) : Decidable (GivenBack s input) := by
  unfold GivenBack
  split <;> infer_instance

/-- A frame that an input shows again, without a commit, is still the compositor's, unless its
buffer is not given back. -/
def ShownOnce (s : Compositor) (o : Outcomes) (input : Input) : Prop :=
  ∀ id ∈ s.reshows input, ∀ client ∈ s.clients id,
    input ≠ .wake ∧ s.locked = true ∨ client.pool = s.panelSize ∧ o.frame = .shown →
      client.surface.Keeps

instance (s : Compositor) (o : Outcomes) (input : Input) : Decidable (ShownOnce s o input) := by
  unfold ShownOnce
  infer_instance

/-- What the compositor needs of a step to give each buffer back once. -/
def Regular (s : Compositor) (o : Outcomes) (input : Input) : Prop :=
  o.notice = true ∧ GivenBack s input ∧ ShownOnce s o input

instance (s : Compositor) (o : Outcomes) (input : Input) : Decidable (Regular s o input) :=
  inferInstanceAs (Decidable (_ ∧ _ ∧ _))

namespace Sound

variable {s s' : Compositor} {peers peers' : ClientId → Peer} {log hs : List Happening}
  {x : Happening} {o : Outcomes} {id : ClientId} {client : Client} {slot : BufferSlot}
  {r : ClientRequest} {requests : List ClientRequest} {input : Input}

/-- Something happened that is not about buffers. -/
theorem quiet (h : Sound s peers log) (hc : ∀ id slot, x ≠ .committed id slot)
    (hr : ∀ id slot, x ≠ .released id slot)
    (hb : ∀ id slot, x ≠ .refused id (.bufferBusy slot)) :
    Sound s (deliver [x] peers) (log ++ [x]) := by
  have hcommits (id : ClientId) (slot : BufferSlot) :
      commits (log ++ [x]) id slot = commits log id slot := by
    rw [commits_concat, if_neg (hc id slot), Nat.add_zero]
  have hreleases (id : ClientId) (slot : BufferSlot) :
      releases (log ++ [x]) id slot = releases log id slot := by
    rw [releases_concat, if_neg (hr id slot), Nat.add_zero]
  rw [deliver_quiet hr]
  refine ⟨fun id client hclient => ?_, fun id hid => ?_, ?_, fun id slot hmem => ?_⟩
  · obtain ⟨queued, hledger⟩ := h.ledgers id client hclient
    exact ⟨queued, hledger.concat (hc id) (hr id)⟩
  · obtain ⟨hclient, hpeer, hcounts⟩ := h.fresh id hid
    refine ⟨hclient, hpeer, fun slot => ?_⟩
    rw [hcommits, hreleases]
    exact hcounts slot
  · refine h.turns.concat fun id slot => ?_
    rw [hcommits, hreleases]
    exact h.turns log List.prefix_rfl id slot
  · rcases List.mem_append.mp hmem with hmem | hmem
    · exact h.notBusy id slot hmem
    · exact hb id slot (List.mem_singleton.mp hmem).symm

theorem event (h : Sound s peers log) (e : CompositorEvent) :
    Sound s (deliver [.event e] peers) (log ++ [.event e]) :=
  h.quiet (by simp) (by simp) (by simp)

theorem events (h : Sound s peers log) (events : List CompositorEvent) :
    Sound s (deliver (events.map .event) peers) (log ++ events.map .event) := by
  induction events using List.reverseRecOn with
  | nil =>
    rw [List.map_nil, deliver_nil, List.append_nil]
    exact h
  | append_singleton events e ih =>
    rw [List.map_append, deliver_append, ← List.append_assoc]
    exact ih.event e

/-- The books of one client change. -/
theorem setLedger (h : Sound s peers log) (hclient : s.clients id = some client)
    {client' : Client} {peer' : Peer} {log' : List Happening} {queued : List BufferSlot}
    (hledger : Ledger log' id client'.surface peer' queued)
    (hc : ∀ id' ≠ id, ∀ slot, commits log' id' slot = commits log id' slot)
    (hr : ∀ id' ≠ id, ∀ slot, releases log' id' slot = releases log id' slot)
    (hturns : TakeTurns log') (hbusy : ∀ id slot, .refused id (.bufferBusy slot) ∉ log') :
    Sound (s.setClient id (some client')) (Function.update peers id peer') log' where
  ledgers id' old hold := by
    by_cases hid : id' = id
    · subst hid
      simp only [setClient, Function.update_self, Option.some.injEq] at hold
      subst hold
      rw [Function.update_self]
      exact ⟨queued, hledger⟩
    · simp only [setClient, Function.update_of_ne hid] at hold
      obtain ⟨queued, hledger⟩ := h.ledgers id' old hold
      rw [Function.update_of_ne hid]
      refine ⟨queued, { hledger with counts := fun slot => ?_ }⟩
      rw [hc id' hid, hr id' hid]
      exact hledger.counts slot
  fresh id' hid' := by
    obtain ⟨hnone, hpeer, hcounts⟩ := h.fresh id' hid'
    have hid : id' ≠ id := by
      rintro rfl
      simp [hclient] at hnone
    refine ⟨?_, ?_, fun slot => ?_⟩
    · simp [setClient, Function.update_of_ne hid, hnone]
    · rw [Function.update_of_ne hid, hpeer]
    · rw [hc id' hid, hr id' hid]
      exact hcounts slot
  turns := hturns
  notBusy := hbusy

/-- A buffer is given back that is presenting. -/
theorem giveBack (h : Sound s peers log) (hclient : s.clients id = some client)
    (hp : client.surface.slots slot = .presenting) :
    Sound (s.giveBack id client slot) (deliver [.released id slot] peers)
      (log ++ [.released id slot]) := by
  obtain ⟨queued, hledger⟩ := h.ledgers id client hclient
  have hledger' := hledger.giveBack hp
  have hc (id' : ClientId) (slot' : BufferSlot) :
      commits (log ++ [.released id slot]) id' slot' = commits log id' slot' := by
    rw [commits_concat, if_neg (by simp), Nat.add_zero]
  have hr (id' : ClientId) (hid : id' ≠ id) (slot' : BufferSlot) :
      releases (log ++ [.released id slot]) id' slot' = releases log id' slot' := by
    rw [releases_concat, if_neg (by simp [Ne.symm hid]), Nat.add_zero]
  have hpeers : deliver [.released id slot] peers = Function.update peers id
      { peers id with notices := (peers id).notices ++ [slot] } := by
    funext id'
    by_cases hid : id' = id
    · subst hid
      simp [deliver, told]
    · simp [deliver, told, Ne.symm hid, Function.update_of_ne hid]
  rw [hpeers]
  refine h.setLedger hclient hledger' (fun id' _ => hc id') hr ?_ fun id' slot' hmem => ?_
  · refine h.turns.concat fun id' slot' => ?_
    by_cases hid : id' = id
    · subst hid
      rw [hledger'.counts slot']
      have := bit_le ((client.surface.released slot).slots slot' = .presenting)
      omega
    · rw [hc id', hr id' hid]
      exact h.turns log List.prefix_rfl id' slot'
  · rcases List.mem_append.mp hmem with hmem | hmem
    · exact h.notBusy id' slot' hmem
    · simp at hmem

/-- A frame is shown, or covered, whose buffer the compositor has. -/
theorem shows (h : Sound s peers log) (hnotice : o.notice = true) (hshows : Shows o s s' hs)
    (hkeeps : ∀ id client, s.foregroundClient = some id → s.clients id = some client →
      s.locked = true ∨ client.pool = s.panelSize ∧ o.frame = .shown → client.surface.Keeps) :
    Sound s' (deliver hs peers) (log ++ hs) := by
  have hrelease (id : ClientId) (slot : BufferSlot) :
      notifyRelease o id slot = .released id slot := by
    rw [notifyRelease, if_pos hnotice]
  cases hshows with
  | nothing =>
    rw [deliver_nil, List.append_nil]
    exact h
  | covered hf hclient hcurrent hlocked =>
    rw [hrelease]
    exact h.giveBack hclient (hkeeps _ _ hf hclient (.inl hlocked) _ hcurrent)
  | unswapped => exact h.quiet (by simp) (by simp) (by simp)
  | @shown id client c hf hclient hcurrent hlocked hpool hframe =>
    rw [hrelease]
    have hcopied := h.quiet (x := .copied id c.buffer) (by simp) (by simp) (by simp)
    have hback := (hcopied.event (.framePresented id)).giveBack hclient
      (hkeeps _ _ hf hclient (.inr ⟨hpool, hframe⟩) _ hcurrent)
    rw [← deliver_append, ← deliver_append] at hback
    simpa using hback

/-- A client is forgotten, whatever became of its requests. -/
theorem forget (h : Sound s peers log) (id : ClientId) (foreground : Foreground)
    (hpeers : ∀ id' ≠ id, peers' id' = peers id') (hid : s.nextId ≤ id → peers' id = {}) :
    Sound { s.forget id with foreground } peers' log where
  ledgers id' client hclient := by
    by_cases heq : id' = id
    · subst heq
      simp [Compositor.forget, setClient] at hclient
    · simp only [Compositor.forget, setClient, Function.update_of_ne heq] at hclient
      rw [hpeers id' heq]
      exact h.ledgers id' client hclient
  fresh id' hid' := by
    obtain ⟨hnone, hpeer, hcounts⟩ := h.fresh id' hid'
    by_cases heq : id' = id
    · subst heq
      exact ⟨by simp [Compositor.forget, setClient], hid hid', hcounts⟩
    · refine ⟨?_, by rw [hpeers id' heq, hpeer], hcounts⟩
      simp [Compositor.forget, setClient, Function.update_of_ne heq, hnone]
  turns := h.turns
  notBusy := h.notBusy

/-- A connection ends. -/
theorem leaves (h : Sound s peers log) (hnotice : o.notice = true)
    (hclient : s.clients id ≠ none ∨ peers' = peers)
    (hleaves : Leaves o s id s' hs)
    (hpeers : ∀ id' ≠ id, peers' id' = peers id')
    (hkeeps : ∀ home client, s.returnsHome id = some home → s.clients home = some client →
      s.locked = true ∨ client.pool = s.panelSize ∧ o.frame = .shown → client.surface.Keeps) :
    Sound s' (deliver hs peers') (log ++ hs) := by
  have hid : s.nextId ≤ id → peers' id = {} := by
    intro hid
    obtain ⟨hnone, hpeer, -⟩ := h.fresh id hid
    rcases hclient with hclient | rfl
    · exact absurd hnone hclient
    · exact hpeer
  cases hleaves with
  | unknown hnone =>
    rcases hclient with hclient | rfl
    · exact absurd hnone hclient
    · rw [deliver_nil, List.append_nil]
      exact h
  | gone foreground events => exact (h.forget id foreground hpeers hid).events events
  | @home home _ hs events hback hne hshows =>
    rw [deliver_append, ← List.append_assoc]
    refine ((h.forget id (.client home) hpeers hid).events events).shows hnotice hshows ?_
    intro id' client hf hclient
    obtain rfl : home = id' := Option.some.inj hf
    simp only [Compositor.forget, setClient, Function.update_of_ne hne] at hclient
    exact hkeeps home client hback hclient

/-- A request of a client is served. -/
theorem serve (h : Sound s peers log) (hrequests : (peers id).requests = r :: requests)
    (hregular : Regular s o (.request id r)) (htakes : Takes o s (.request id r) s' hs) :
    Sound s' (deliver hs (Function.update peers id { peers id with requests })) (log ++ hs) := by
  obtain ⟨hnotice, hback, honce⟩ := hregular
  have hpeers : ∀ id' ≠ id,
      Function.update peers id { peers id with requests } id' = peers id' :=
    fun id' hid => Function.update_of_ne hid _ _
  have hcommitted {client : Client} {surface : Surface} {damage : Damage} {slot : BufferSlot}
      (hr : r = .commit damage) (hclient : s.clients id = some client)
      (hcommit : client.surface.commit damage = .ok (slot, surface)) :
      Sound (s.setClient id (some { client with surface }))
        (Function.update peers id { peers id with requests }) (log ++ [.committed id slot]) := by
    subst hr
    obtain ⟨queued, hledger⟩ := h.ledgers id client hclient
    obtain ⟨hpending, hvalid, -⟩ := Surface.commit_ok hcommit
    have hledger' := hledger.commit hrequests hcommit (hback client hclient slot hpending hvalid)
    have hc (id' : ClientId) (hid : id' ≠ id) (slot' : BufferSlot) :
        commits (log ++ [.committed id slot]) id' slot' = commits log id' slot' := by
      rw [commits_concat, if_neg (by simp [Ne.symm hid]), Nat.add_zero]
    have hr (id' : ClientId) (slot' : BufferSlot) :
        releases (log ++ [.committed id slot]) id' slot' = releases log id' slot' := by
      rw [releases_concat, if_neg (by simp), Nat.add_zero]
    refine h.setLedger hclient hledger' hc (fun id' _ => hr id') ?_ fun id' slot' hmem => ?_
    · refine h.turns.concat fun id' slot' => ?_
      by_cases hid : id' = id
      · subst hid
        have hcounts := hledger'.counts slot'
        have := bit_le (surface.slots slot' = .presenting)
        omega
      · rw [hc id' hid, hr id']
        exact h.turns log List.prefix_rfl id' slot'
    · rcases List.mem_append.mp hmem with hmem | hmem
      · exact h.notBusy id' slot' hmem
      · simp at hmem
  have hquiet (slot : BufferSlot) (peers : ClientId → Peer) :
      deliver [.committed id slot] peers = peers := deliver_quiet (by simp) peers
  cases htakes with
  | ignored hnone =>
    have hnone := hnone id r rfl
    rw [deliver_nil, List.append_nil]
    refine { h with ledgers := fun id' client hclient => ?_, fresh := fun id' hid' => ?_ }
    · have hid : id' ≠ id := by
        rintro rfl
        simp [hnone] at hclient
      rw [hpeers id' hid]
      exact h.ledgers id' client hclient
    · obtain ⟨hclient, hpeer, hcounts⟩ := h.fresh id' hid'
      have hid : id' ≠ id := by
        rintro rfl
        simp [hpeer] at hrequests
      exact ⟨hclient, by rw [hpeers id' hid, hpeer], hcounts⟩
  | attached hclient hattach =>
    obtain ⟨queued, hledger⟩ := h.ledgers id _ hclient
    obtain ⟨surface, queued', hsurface, hledger'⟩ := hledger.attach hrequests
    obtain rfl := Except.ok.inj (hattach.symm.trans hsurface)
    rw [deliver_nil, List.append_nil]
    exact h.setLedger hclient hledger' (fun _ _ _ => rfl) (fun _ _ _ => rfl) h.turns h.notBusy
  | committed hclient hcommit =>
    rw [hquiet]
    exact hcommitted rfl hclient hcommit
  | @presented _ client damage slot surface _ hs hclient hcommit hf hshows =>
    rw [List.append_cons, ← List.singleton_append, deliver_append, hquiet]
    refine (hcommitted rfl hclient hcommit).shows hnotice hshows fun id' client' hf' hclient' _ => ?_
    -- The frame that is shown is the one that was just committed.
    obtain rfl := Option.some.inj (hf.symm.trans hf')
    simp only [setClient, Function.update_self, Option.some.injEq] at hclient'
    subst hclient'
    obtain ⟨-, -, rfl⟩ := Surface.commit_ok hcommit
    intro c hc
    obtain rfl := Option.some.inj hc
    simp
  | @refused _ client _ e _ hs hclient herror hleaves =>
    have hbusy : ∀ slot, e ≠ .bufferBusy slot := by
      obtain ⟨queued, hledger⟩ := h.ledgers id client hclient
      cases r with
      | attach slot =>
        obtain ⟨surface, -, hattach, -⟩ := hledger.attach hrequests
        simp [Client.refusal, hattach] at herror
      | commit damage =>
        simp only [Client.refusal] at herror
        split at herror
        · simp at herror
        · next e' hcommit =>
          obtain rfl := Option.some.inj herror
          exact Surface.commit_error hcommit
    have hq := h.quiet (x := .refused id e) (by simp) (by simp) (by simp [hbusy])
    rw [deliver_quiet (by simp)] at hq
    rw [List.append_cons, ← List.singleton_append, deliver_append, deliver_quiet (by simp)]
    refine hq.leaves hnotice (.inl (by simp [hclient])) hleaves hpeers ?_
    intro home client' hback' hclient' hshown
    refine honce home ?_ client' hclient' (hshown.imp_left fun hlocked => ⟨by simp, hlocked⟩)
    simp [reshows, hclient, herror, hback']

/-- The compositor takes an input that is not a request. -/
theorem takesInput (h : Sound s peers log) (hnot : ∀ id r, input ≠ .request id r)
    (hregular : Regular s o input) (htakes : Takes o s input s' hs) :
    Sound s' (deliver hs peers) (log ++ hs) := by
  obtain ⟨hnotice, -, honce⟩ := hregular
  cases htakes with
  | ignored =>
    rw [deliver_nil, List.append_nil]
    exact h
  | connected hello =>
    have hevent := h.event (.clientConnected s.nextId hello.role hello.label)
    obtain ⟨hnone, hpeer, hcounts⟩ := hevent.fresh s.nextId (Nat.le_refl _)
    refine { hevent with ledgers := fun id client hclient => ?_, fresh := fun id hid => ?_ }
    · by_cases hid : id = s.nextId
      · subst hid
        simp only [connect, setClient, Function.update_self, Option.some.injEq] at hclient
        subst hclient
        have hledger :=
          Ledger.connect hello.pool (fun slot => (hcounts slot).1) fun slot => (hcounts slot).2
        rw [← hpeer] at hledger
        exact ⟨[], hledger⟩
      · simp only [connect, setClient, Function.update_of_ne hid] at hclient
        exact hevent.ledgers id client hclient
    · have hid' : s.nextId + 1 ≤ id := hid
      obtain ⟨hclient, hpeer, hcounts⟩ := hevent.fresh id (by omega)
      refine ⟨?_, hpeer, hcounts⟩
      simp only [connect, setClient, Function.update_of_ne (by omega : id ≠ s.nextId)]
      exact hclient
  | attached => exact absurd rfl (hnot _ _)
  | committed => exact absurd rfl (hnot _ _)
  | presented => exact absurd rfl (hnot _ _)
  | refused => exact absurd rfl (hnot _ _)
  | @hungUp id _ _ hleaves =>
    refine h.leaves hnotice (.inr rfl) hleaves (fun _ _ => rfl) ?_
    intro home client hback hclient hshown
    exact honce home hback client hclient (hshown.imp_left fun hlocked => ⟨by simp, hlocked⟩)
  | slept => exact { h.event .locked with }
  | woken hlocked hshows =>
    rw [List.append_cons, ← List.singleton_append, deliver_append]
    have hevent := h.event .unlocked
    have hunlocked : Sound { s with locked := false } (deliver [.event .unlocked] peers)
        (log ++ [.event .unlocked]) := { hevent with }
    refine hunlocked.shows hnotice hshows fun id client hf hclient hshown => ?_
    refine honce id ?_ client hclient (.inr (hshown.resolve_left (by simp)))
    rw [reshows, if_pos hlocked]
    exact hf

end Sound

namespace Network

variable {net : Network} {o : Outcomes}

/-- A client that is connected publishes. -/
theorem sound_publish (h : Sound net.server net.peers net.log) {id : ClientId} {peer : Peer}
    {damage : Damage} (hconnected : (net.server.clients id).isSome)
    (hpublish : (net.peers id).publish damage = some peer) :
    Sound net.server (Function.update net.peers id peer) net.log := by
  refine { h with ledgers := fun id' client hclient => ?_, fresh := fun id' hid' => ?_ }
  · obtain ⟨queued, hledger⟩ := h.ledgers id' client hclient
    by_cases hid : id' = id
    · subst hid
      rw [Function.update_self]
      exact ⟨_, hledger.publish hpublish⟩
    · rw [Function.update_of_ne hid]
      exact ⟨queued, hledger⟩
  · obtain ⟨hnone, hpeer, hcounts⟩ := h.fresh id' hid'
    have hid : id' ≠ id := by
      rintro rfl
      simp [hnone] at hconnected
    exact ⟨hnone, by rw [Function.update_of_ne hid, hpeer], hcounts⟩

theorem sound_step (h : Sound net.server net.peers net.log) {act : Act}
    (hregular : ∀ input ∈ net.inputOf act, Regular net.server o input) :
    Sound (net.step o act).server (net.step o act).peers (net.step o act).log := by
  have htakes (input : Input) := step_takes o net.server input
  cases act with
  | connect hello => exact h.takesInput (by simp) (hregular _ rfl) (htakes _)
  | hangUp id => exact h.takesInput (by simp) (hregular _ rfl) (htakes _)
  | sleep => exact h.takesInput (by simp) (hregular _ rfl) (htakes _)
  | wake => exact h.takesInput (by simp) (hregular _ rfl) (htakes _)
  | publish id damage =>
    simp only [step]
    split
    · next hconnected =>
      split
      · exact h
      · next peer hpublish => exact sound_publish h hconnected hpublish
    · exact h
  | serve id =>
    simp only [step]
    split
    · exact h
    · next r requests hrequests =>
      refine h.serve hrequests (hregular _ ?_) (htakes _)
      simp [inputOf, hrequests]

theorem sound_run (h : Sound net.server net.peers net.log) {acts : List (Act × Outcomes)}
    (hregular : Along Regular net acts) :
    Sound (net.run acts).server (net.run acts).peers (net.run acts).log := by
  induction acts generalizing net with
  | nil => exact h
  | cons first rest ih => exact ih (sound_step h hregular.1) hregular.2

theorem sound_start (panelSize : Size) : Sound (bind panelSize) (fun _ => {}) [] where
  ledgers id client hclient := by simp [bind] at hclient
  fresh id _ := ⟨rfl, rfl, fun slot => ⟨rfl, rfl⟩⟩
  turns past hpast id slot := by
    rw [List.prefix_nil.mp hpast]
    exact ⟨Nat.le_refl _, Nat.zero_le _⟩
  notBusy id slot := List.not_mem_nil

end Network

/-- Each commit that was accepted has one release: it comes before the next commit in the buffer,
when another frame takes the place of the committed one, and before the client waits for it. No
client is disconnected because a buffer is busy. -/
structure ExactlyOnce (net : Network) : Prop where
  turns : TakeTurns net.log
  superseded : ∀ id client, net.server.clients id = some client → ∀ slot,
    client.surface.current.map Committed.buffer ≠ some slot →
      commits net.log id slot = releases net.log id slot
  needed : ∀ id, (net.server.clients id).isSome → (net.peers id).requests = [] →
    ∀ damage, ((net.peers id).publish damage).isSome
  notBusy : ∀ id slot, .refused id (.bufferBusy slot) ∉ net.log

theorem Sound.exactlyOnce {net : Network} (h : Sound net.server net.peers net.log) :
    ExactlyOnce net where
  turns := h.turns
  superseded id client hclient slot hcurrent := by
    obtain ⟨queued, hledger⟩ := h.ledgers id client hclient
    rw [hledger.counts, bit_false fun hp => hcurrent (hledger.shown slot hp), Nat.add_zero]
  needed id hconnected hserved damage := by
    obtain ⟨client, hclient⟩ := Option.isSome_iff_exists.mp hconnected
    obtain ⟨queued, hledger⟩ := h.ledgers id client hclient
    exact hledger.publish_isSome hserved damage
  notBusy := h.notBusy

/-- In every run in which each frame takes the place of one whose buffer was given back, no buffer
is given back a second time, and the notices arrive, each commit has exactly one release. -/
theorem exactly_one_release (panelSize : Size) (acts : List (Act × Outcomes))
    (h : Network.Along Regular (.start panelSize) acts) :
    ExactlyOnce ((Network.start panelSize).run acts) :=
  (Network.sound_run (Network.sound_start panelSize) h).exactlyOnce

/-- A client publishes a frame, and the compositor serves both requests. -/
def Sample.frame (id : ClientId) (frame : PanelResult) : List (Act × Outcomes) :=
  [(.publish id .full, {}), (.serve id, {}), (.serve id, { frame })]

/-- Something happens while the panel and the connection work. -/
def Sample.fine (act : Act) : Act × Outcomes := (act, {})

/-- Three frames, the last of which the panel shows only after the device slept. -/
def Sample.session : List (Act × Outcomes) :=
  Sample.fine (.connect ⟨.home, "Home", Sample.panel⟩) :: Sample.frame 0 .shown ++
    Sample.frame 0 .shown ++ Sample.frame 0 .notSwapped ++ [Sample.fine .sleep, Sample.fine .wake] ++
    Sample.frame 0 .shown

theorem exactly_one_release_session :
    ExactlyOnce ((Network.start Sample.panel).run Sample.session) :=
  exactly_one_release Sample.panel Sample.session (by decide +kernel)

/-- Home publishes two frames while an app is in the foreground. -/
def Sample.background : List (Act × Outcomes) :=
  Sample.fine (.connect ⟨.home, "Home", Sample.panel⟩) ::
    Sample.fine (.connect ⟨.app, "Chess", Sample.panel⟩) ::
    Sample.frame 0 .shown ++ Sample.frame 0 .shown

/-- The first frame's buffer is not given back, and Home waits for it. -/
theorem background_client_waits :
    ¬ExactlyOnce ((Network.start Sample.panel).run Sample.background) := by
  intro h
  have hneeded := h.needed 0 (by decide +kernel) (by decide +kernel) .full
  exact absurd hneeded (by decide +kernel)

end Paperclip.Compositor
