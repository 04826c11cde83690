import Paperclip.Protocol.Session

/-!
# Whole conversations

What holds over every sequence of calls on a session. `Kept` is the invariant: it relates the session
to the turns before it, and each move keeps it.
-/

namespace Paperclip.Protocol

/-! ## What a turn was about -/

/-- The frame that the turn asked for. -/
def Turn.issued (t : Turn) : Option FrameId :=
  match t.answer with
  | .said (.draw request) => some request.frame
  | _ => none

/-- The frame whose answer the turn accepted. -/
def Turn.accepted (t : Turn) : Option FrameId :=
  match t.call, t.answer with
  | .message (.frame done), .accepted => some done.frame
  | _, _ => none

/-- The turn asked the app to save. -/
def Turn.prepares (t : Turn) : Bool :=
  match t.answer with
  | .said (.lifecycle (.prepareToExit _ _)) => true
  | _ => false

/-- The turn said goodbye. -/
def Turn.parts (t : Turn) : Bool := t.answer == .said .goodbye

/-- The turn found a violation. -/
def Turn.Violates (t : Turn) : Prop := ∃ v, t.answer = .violation v

/-- The frames that were asked for, in order. -/
def issued (turns : List Turn) : List FrameId := turns.filterMap Turn.issued

/-- The frames whose answers were accepted, in order. -/
def accepted (turns : List Turn) : List FrameId := turns.filterMap Turn.accepted

/-- The frame id of the `n`-th draw request. -/
def frameAt (n : Nat) : FrameId := ⟨min n (2 ^ 64 - 1), by omega⟩

theorem frameAt_next (n : Nat) : (frameAt n).next = frameAt (n + 1) :=
  FrameId.ext (by simp only [FrameId.next, frameAt]; omega)

/-- What the frames of a session have to do with the turns before it. -/
structure Frames (past : List Turn) (s : Session) : Prop where
  next : s.nextFrame = frameAt (issued past).length
  issued : issued past = (List.range (issued past).length).map frameAt
  accepted : (accepted past).Sublist (Protocol.issued past)
  outstanding : ∀ f, s.outstanding = some f →
    ∃ before, Protocol.issued past = before ++ [f] ∧ (Protocol.accepted past).Sublist before
  drawn : ∀ t ∈ past, t.issued.isSome → t.before.state = .running ∧ t.before.outstanding = none

/-- The app was asked to save, or the session is over. -/
def Session.Leaving (s : Session) : Prop := s.state = .exiting ∨ s.state = .closed

instance (s : Session) : Decidable s.Leaving := inferInstanceAs (Decidable (_ ∨ _))

/-- What the state of a session has to do with the turns before it. -/
structure Phases (past : List Turn) (s : Session) : Prop where
  reasons : ∀ t ∈ past, t.after.state = .exiting → t.after.exiting.isSome
  prepares : past.countP Turn.prepares ≤ if s.Leaving then 1 else 0
  parts : past.countP Turn.parts ≤ if s.state = .closed then 1 else 0
  refused : (∃ t ∈ past, t.Violates) → s.state = .closed
  refusals : past.Pairwise fun t t' => t.Violates →
    ∀ m, t'.call = .message m → t'.answer = .violation (.afterClose m.name)

/-- The invariant of a conversation. -/
structure Kept (past : List Turn) (s : Session) : Prop where
  sound : s.Sound
  frames : Frames past s
  phases : Phases past s

theorem kept_greeting (id : Nat) (host : ProtocolVersion) (viewport : Size) :
    Kept [] (.greeting id host viewport) where
  sound := Session.sound_greeting id host viewport
  frames := ⟨rfl, rfl, .slnil, fun _ h => (by cases h), fun _ h => absurd h List.not_mem_nil⟩
  phases := ⟨fun _ h => absurd h List.not_mem_nil, Nat.zero_le _, Nat.zero_le _,
    fun ⟨_, h, _⟩ => absurd h List.not_mem_nil, .nil⟩

section Moves

variable {past : List Turn} {s s' : Session} {c : Call} {answer : Answer} {t : Turn}

theorem issued_concat (past : List Turn) (t : Turn) :
    issued (past ++ [t]) = issued past ++ t.issued.toList := by
  rw [issued, List.filterMap_append]
  cases h : t.issued <;> simp [issued, h]

theorem accepted_concat (past : List Turn) (t : Turn) :
    accepted (past ++ [t]) = accepted past ++ t.accepted.toList := by
  rw [accepted, List.filterMap_append]
  cases h : t.accepted <;> simp [accepted, h]

/-! ### Frames -/

/-- A turn that neither asks for a frame nor accepts one. -/
theorem Frames.quiet (h : Frames past s) (hi : t.issued = none) (ha : t.accepted = none)
    (hnext : s'.nextFrame = s.nextFrame)
    (ho : ∀ f, s'.outstanding = some f → s.outstanding = some f) : Frames (past ++ [t]) s' := by
  have hissued : Protocol.issued (past ++ [t]) = Protocol.issued past := by simp [issued_concat, hi]
  have haccepted : Protocol.accepted (past ++ [t]) = Protocol.accepted past := by
    simp [accepted_concat, ha]
  refine ⟨?_, ?_, ?_, ?_, ?_⟩
  · rw [hissued, hnext]
    exact h.next
  · rw [hissued]
    exact h.issued
  · rw [hissued, haccepted]
    exact h.accepted
  · rw [hissued, haccepted]
    exact fun f hf => h.outstanding f (ho f hf)
  · intro t' ht' hsome
    rcases List.mem_append.mp ht' with ht' | ht'
    · exact h.drawn t' ht' hsome
    · rw [List.mem_singleton.mp ht', hi] at hsome
      cases hsome

/-- A draw request takes the next frame id. -/
theorem Frames.draw {reason : DrawReason} (h : Frames past s) (hs : s.state = .running)
    (ho : s.outstanding = none) {s' : Session} (hnext : s'.nextFrame = s.nextFrame.next)
    (ho' : s'.outstanding = some s.nextFrame) :
    Frames (past ++ [⟨s, .draw reason, .said (.draw ⟨s.nextFrame, reason, s.viewport⟩), s'⟩]) s' := by
  generalize ht : Turn.mk s (.draw reason) (.said (.draw ⟨s.nextFrame, reason, s.viewport⟩)) s' = t
  have hissued : Protocol.issued (past ++ [t]) = Protocol.issued past ++ [s.nextFrame] := by
    subst ht
    exact issued_concat _ _
  have haccepted : Protocol.accepted (past ++ [t]) = Protocol.accepted past := by
    subst ht
    simp [accepted_concat, Turn.accepted]
  have hlength : (Protocol.issued (past ++ [t])).length = (Protocol.issued past).length + 1 := by
    simp [hissued]
  refine ⟨?_, ?_, ?_, ?_, ?_⟩
  · rw [hlength, hnext, h.next, frameAt_next]
  · rw [hlength, hissued, List.range_succ, List.map_append, ← h.issued, List.map_singleton, h.next]
  · rw [haccepted, hissued]
    exact h.accepted.trans (List.sublist_append_left _ _)
  · intro f hf
    cases ho'.symm.trans hf
    exact ⟨_, hissued, by rw [haccepted]; exact h.accepted⟩
  · intro t' ht' hsome
    rcases List.mem_append.mp ht' with ht' | ht'
    · exact h.drawn t' ht' hsome
    · rw [List.mem_singleton.mp ht', ← ht]
      exact ⟨hs, ho⟩

/-- An accepted answer is about the last frame that was asked for. -/
theorem Frames.frame {done : FrameDone} (h : Frames past s) (ho : s.outstanding = some done.frame) :
    Frames (past ++ [⟨s, .message (.frame done), .accepted, { s with outstanding := none }⟩])
      { s with outstanding := none } := by
  generalize ht : Turn.mk s (.message (.frame done)) .accepted { s with outstanding := none } = t
  have hissued : Protocol.issued (past ++ [t]) = Protocol.issued past := by
    subst ht
    simp [issued_concat, Turn.issued]
  have haccepted : Protocol.accepted (past ++ [t]) = Protocol.accepted past ++ [done.frame] := by
    subst ht
    exact accepted_concat _ _
  obtain ⟨before, hbefore, hsub⟩ := h.outstanding _ ho
  refine ⟨?_, ?_, ?_, fun _ h => (by cases h), ?_⟩
  · rw [hissued]
    exact h.next
  · rw [hissued]
    exact h.issued
  · rw [haccepted, hissued, hbefore]
    exact hsub.append (List.Sublist.refl _)
  · intro t' ht' hsome
    rcases List.mem_append.mp ht' with ht' | ht'
    · exact h.drawn t' ht' hsome
    · rw [List.mem_singleton.mp ht', ← ht] at hsome
      cases hsome

theorem Frames.move (h : Frames past s) (hm : Move s c answer s') :
    Frames (past ++ [⟨s, c, answer, s'⟩]) s' := by
  cases hm with
  | @violation m =>
    refine h.quiet rfl ?_ rfl fun _ h => h
    cases m <;> rfl
  | @tolerated m _ hframe =>
    refine h.quiet rfl ?_ rfl fun _ h => h
    cases m with
    | frame done => exact absurd rfl (hframe done)
    | _ => rfl
  | ready => exact h.quiet rfl rfl rfl fun _ h => h
  | frame _ ho => exact h.frame ho
  | saved => exact h.quiet rfl rfl rfl fun _ h => h
  | draw hs ho => exact h.draw hs ho rfl rfl
  | fault => exact h.quiet rfl rfl rfl fun _ h => h
  | suspend => exact h.quiet rfl rfl rfl fun _ h => by cases h
  | resume => exact h.quiet rfl rfl rfl fun _ h => h
  | prepare hc =>
    refine h.quiet rfl ?_ rfl fun _ h => by cases h
    cases c <;> first | rfl | exact absurd rfl (hc _)
  | close => exact h.quiet rfl rfl rfl fun _ h => h
  | silent hc =>
    refine h.quiet rfl ?_ rfl fun _ h => h
    cases c <;> first | rfl | exact absurd rfl (hc _)

/-! ### Phases -/

/-- After the close a message is refused, and nothing else is said. -/
theorem Move.refused (hm : Move s c answer s') (hs : s.state = .closed) :
    s'.state = .closed ∧ ∀ m, c = .message m → answer = .violation (.afterClose m.name) := by
  cases hm with
  | violation h => exact ⟨rfl, fun m hm => by cases hm; rw [h hs]⟩
  | tolerated h => exact absurd hs h
  | ready h => exact by cases hs.symm.trans h
  | frame h => rcases h with h | h <;> exact by cases hs.symm.trans h
  | saved h => exact by cases hs.symm.trans h
  | draw h => exact by cases hs.symm.trans h
  | fault => exact ⟨hs, fun _ h => (by cases h)⟩
  | suspend h => exact by cases hs.symm.trans h
  | resume h => exact by cases hs.symm.trans h
  | prepare _ h => rcases h with h | h <;> exact by cases hs.symm.trans h
  | close h => exact absurd hs h
  | silent hc => exact ⟨hs, fun m hm => absurd hm (hc m)⟩

/-- A session goes on leaving, and is asked to leave only while it does not. -/
theorem Move.leaving (hm : Move s c answer s') : (s.Leaving → s'.Leaving) ∧
    ((Turn.mk s c answer s').prepares = true → ¬ s.Leaving ∧ s'.Leaving) := by
  cases hm with
  | violation => exact ⟨fun _ => .inr rfl, (fun h => by cases h)⟩
  | tolerated => exact ⟨id, (fun h => by cases h)⟩
  | ready h => exact ⟨fun hl => by rw [Session.Leaving, h] at hl; simp at hl, (fun h => by cases h)⟩
  | frame => exact ⟨id, (fun h => by cases h)⟩
  | saved => exact ⟨fun _ => .inr rfl, (fun h => by cases h)⟩
  | draw => exact ⟨id, (fun h => by cases h)⟩
  | fault => exact ⟨id, (fun h => by cases h)⟩
  | suspend h => exact ⟨fun hl => by rw [Session.Leaving, h] at hl; simp at hl, (fun h => by cases h)⟩
  | resume h => exact ⟨fun hl => by rw [Session.Leaving, h] at hl; simp at hl, (fun h => by cases h)⟩
  | prepare _ h =>
    refine ⟨fun _ => .inl rfl, fun _ => ⟨?_, .inl rfl⟩⟩
    rcases h with h | h <;> simp [Session.Leaving, h]
  | close => exact ⟨fun _ => .inr rfl, (fun h => by cases h)⟩
  | silent => exact ⟨id, (fun h => by cases h)⟩

/-- A closed session stays so, and goodbye closes an open one. -/
theorem Move.closed (hm : Move s c answer s') (h : (Turn.mk s c answer s').parts = true) :
    s.state ≠ .closed ∧ s'.state = .closed := by
  cases hm with
  | close hopen => exact ⟨hopen, rfl⟩
  | _ => exact by cases h

theorem Move.violated {v : Violation} (hm : Move s c (.violation v) s') : s'.state = .closed := by
  cases hm
  rfl

theorem Phases.move (h : Phases past s) (hm : Move s c answer s') (hsound : s'.Sound) :
    Phases (past ++ [⟨s, c, answer, s'⟩]) s' := by
  refine ⟨?_, ?_, ?_, ?_, ?_⟩
  · intro t ht hstate
    rcases List.mem_append.mp ht with ht | ht
    · exact h.reasons t ht hstate
    · rw [List.mem_singleton.mp ht] at hstate ⊢
      exact hsound.reason hstate
  · have hcount := h.prepares
    obtain ⟨hstays, hleaves⟩ := hm.leaving
    rw [List.countP_append, List.countP_singleton]
    split
    · next hp =>
      rw [if_neg (hleaves hp).1] at hcount
      rw [if_pos (hleaves hp).2]
      omega
    · split at hcount
      · next hl =>
        rw [if_pos (hstays hl)]
        exact hcount
      · exact hcount.trans (Nat.zero_le _)
  · have hcount := h.parts
    rw [List.countP_append, List.countP_singleton]
    split
    · next hp =>
      rw [if_neg (hm.closed hp).1] at hcount
      rw [if_pos (hm.closed hp).2]
      omega
    · split at hcount
      · next hs =>
        rw [if_pos (hm.refused hs).1]
        exact hcount
      · exact hcount.trans (Nat.zero_le _)
  · rintro ⟨t, ht, v, hv⟩
    rcases List.mem_append.mp ht with ht | ht
    · exact (hm.refused (h.refused ⟨t, ht, v, hv⟩)).1
    · rw [List.mem_singleton.mp ht] at hv
      cases hv
      exact hm.violated
  · refine List.pairwise_append.mpr ⟨h.refusals, List.pairwise_singleton _ _, ?_⟩
    intro t ht t' ht' hviolates
    rw [List.mem_singleton.mp ht']
    exact (hm.refused (h.refused ⟨t, ht, hviolates⟩)).2

/-- The ids of the frames increase until 64 bits are used up. -/
theorem Frames.increasing (h : Frames past s) (hlength : (Protocol.issued past).length ≤ 2 ^ 64) :
    (Protocol.issued past).Pairwise (· < ·) := by
  rw [h.issued, List.pairwise_map]
  refine List.Pairwise.imp_of_mem ?_ List.pairwise_lt_range
  intro m n hm hn hlt
  have hn := List.mem_range.mp hn
  show min m (2 ^ 64 - 1) < min n (2 ^ 64 - 1)
  omega

/-- A move keeps the invariant. -/
theorem Kept.move (h : Kept past s) (hm : Move s c answer s') : Kept (past ++ [⟨s, c, answer, s'⟩]) s' :=
  ⟨h.sound.move hm, h.frames.move hm, h.phases.move hm (h.sound.move hm)⟩

/-- A sequence of calls does not panic, and keeps the invariant. -/
theorem Kept.run (h : Kept past s) (calls : List Call) :
    ∃ turns last, s.run calls = some (turns, last) ∧ Kept (past ++ turns) last := by
  induction calls generalizing past s with
  | nil => exact ⟨[], s, rfl, by rwa [List.append_nil]⟩
  | cons c calls ih =>
    obtain ⟨answer, s', hcall, hmove⟩ := Session.call_moves h.sound c
    obtain ⟨turns, last, hrun, hlast⟩ := ih (h.move hmove)
    refine ⟨⟨s, c, answer, s'⟩ :: turns, last, ?_, by simpa using hlast⟩
    simp only [Session.run, hcall, hrun, Option.bind_eq_bind, Option.bind_some, Option.pure_def]

end Moves

/-- Every sequence of calls on a session runs without a panic, and in it: a frame is asked for only
while the app runs and no other is outstanding, the ids of the frames increase until 64 bits are used
up, each request is answered at most once, an exiting session knows its reason, the app is asked to
save and told goodbye at most once, and after a violation every message is refused. -/
theorem session_keeps_order (id : Nat) (host : ProtocolVersion) (viewport : Size) (calls : List Call) :
    ∃ turns last, (Session.greeting id host viewport).run calls = some (turns, last) ∧
      (∀ t ∈ turns, t.issued.isSome → t.before.state = .running ∧ t.before.outstanding = none) ∧
      ((issued turns).Pairwise (· < ·) ∨ 2 ^ 64 < (issued turns).length) ∧
      (accepted turns).Sublist (issued turns) ∧
      (∀ t ∈ turns, t.after.state = .exiting → t.after.exiting.isSome) ∧
      turns.countP Turn.prepares ≤ 1 ∧ turns.countP Turn.parts ≤ 1 ∧
      turns.Pairwise fun t t' => t.Violates →
        ∀ m, t'.call = .message m → t'.answer = .violation (.afterClose m.name) := by
  obtain ⟨turns, last, hrun, hkept⟩ := (kept_greeting id host viewport).run calls
  rw [List.nil_append] at hkept
  refine ⟨turns, last, hrun, hkept.frames.drawn, ?_, hkept.frames.accepted, hkept.phases.reasons,
    hkept.phases.prepares.trans (by split <;> omega), hkept.phases.parts.trans (by split <;> omega),
    hkept.phases.refusals⟩
  by_cases hlength : 2 ^ 64 < (issued turns).length
  · exact .inr hlength
  · exact .inl (hkept.frames.increasing (Nat.not_lt.mp hlength))

end Paperclip.Protocol
