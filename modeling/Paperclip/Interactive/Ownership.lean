import Paperclip.Home.App
import Paperclip.Input.LifeCycle
import Paperclip.Interactive.Console

/-!
# Whose contact it is

A contact is told from its first event to its last. `paperctl run` may open another app's session in
between, and the rest of the contact is then that app's to be handed.

* `WellFormed`: pointers that tell lives of contacts, each up to where it has come.
  `wellFormed_decoded`: those of the decoders are such.
* `Owned`: what an app is handed of a contact begins with its beginning, and no app is handed the
  rest of what began with another.
* `AtRest`: no contact that has begun goes on. `Rested`: so it is whenever another app is opened.
* `contacts_owned`: in every state of a run that is so, the contacts are owned.
-/

namespace Paperclip.Interactive

open Protocol Sdk.Runtime

/-! ## Contacts -/

/-- A phase, as the decoders have it. -/
def decoded : PointerPhase → Input.PointerPhase
  | .hover => .hover
  | .down => .down
  | .moved => .moved
  | .up => .up
  | .cancelled => .cancelled

/-- Whether a pointer is the stylus, either way up. -/
def isStylus : Pointer → Bool
  | .pen | .eraser => true
  | .touch | .mouse => false

/-- The phases of the pointers of a contact. -/
def phases (events : List Protocol.PointerEvent) (contact : ℕ) : List PointerPhase :=
  (events.filter (·.contact = contact)).map (·.phase)

/-- Pointers of any number of contacts, in any order, that tell the life of each up to where it has
come. -/
def WellFormed (events : List Protocol.PointerEvent) : Prop :=
  ∀ event ∈ events,
    (∀ other ∈ events, other.contact = event.contact →
      isStylus other.pointer = isStylus event.pointer) ∧
    Input.Begins (Input.Life (isStylus event.pointer)) ((phases events event.contact).map decoded)

/-- The phase ends a contact. -/
def Ends (phase : PointerPhase) : Prop := phase = .up ∨ phase = .cancelled

/-- The phase begins a contact. `hovers` says whether a contact that hovers has begun. -/
def Began (hovers : Bool) (phase : PointerPhase) : Prop :=
  phase = .down ∨ hovers = true ∧ phase = .hover

/-- The phase is of the rest of a contact. -/
def Rest (phase : PointerPhase) : Prop := phase = .moved ∨ phase = .up ∨ phase = .cancelled

/-- What each app was handed of a contact begins with its hovering or its touching down, and no app
was handed the rest of a contact that began when an earlier session was open. -/
structure Owned (hovers : Bool) (visits : List Visit) : Prop where
  begins : ∀ visit ∈ visits, ∀ contact phase,
    (phases visit.received contact).head? = some phase → phase = .hover ∨ phase = .down
  own : visits.Pairwise fun earlier later =>
    ∀ d ∈ earlier.given, Began hovers d.phase →
      ∀ e ∈ later.received, Rest e.phase → e.contact ≠ d.contact

/-- Every contact that has begun has ended. -/
def AtRest (hovers : Bool) (events : List Protocol.PointerEvent) : Prop :=
  ∀ d ∈ events, Began hovers d.phase → ∃ e ∈ events, e.contact = d.contact ∧ Ends e.phase

instance (phase : PointerPhase) : Decidable (Ends phase) := inferInstanceAs (Decidable (_ ∨ _))

instance (hovers : Bool) (phase : PointerPhase) : Decidable (Began hovers phase) :=
  inferInstanceAs (Decidable (_ ∨ _))

instance (hovers : Bool) (events : List Protocol.PointerEvent) :
    Decidable (AtRest hovers events) :=
  inferInstanceAs (Decidable (∀ d ∈ events, Began hovers d.phase →
    ∃ e ∈ events, e.contact = d.contact ∧ Ends e.phase))

section

variable {σ γ : Type}

/-- The session has been left for another app. -/
def Console.Switches (c : Console σ γ) : Prop := ∃ slug, c.session.phase = .left (.switch slug)

/-- Whenever a session is left and the next one opened, the contacts that an app was given have
ended. -/
def Rested (hovers : Bool) (apps : String → App σ γ) : Console σ γ → List (Move σ γ) → Prop
  | _, [] => True
  | c, .session x :: moves => Rested hovers apps (c.step apps (.session x)) moves
  | c, .opened start :: moves =>
    (c.Switches → AtRest hovers c.taken) ∧ Rested hovers apps (c.step apps (.opened start)) moves

/-- The pointers that the readers have for the queue. -/
def touched : List (Move σ γ) → List Protocol.PointerEvent
  | [] => []
  | .session (.touched event) :: moves => event :: touched moves
  | _ :: moves => touched moves

end

/-! ## Streams -/

section

variable {first last events : List Protocol.PointerEvent} {d e : Protocol.PointerEvent}

theorem phases_append (first last : List Protocol.PointerEvent) (contact : ℕ) :
    phases (first ++ last) contact = phases first contact ++ phases last contact := by
  simp [phases]

theorem phases_cons_self (e : Protocol.PointerEvent) (last : List Protocol.PointerEvent) :
    phases (e :: last) e.contact = e.phase :: phases last e.contact := by
  simp [phases]

theorem mem_phases {phase : PointerPhase} {contact : ℕ} :
    phase ∈ phases events contact ↔ ∃ d ∈ events, d.contact = contact ∧ d.phase = phase := by
  simp [phases, and_assoc]

/-- The first pointer of a contact. -/
theorem exists_of_head? {phase : PointerPhase} {contact : ℕ}
    (h : (phases events contact).head? = some phase) : ∃ first e last,
      events = first ++ e :: last ∧ e.contact = contact ∧ e.phase = phase ∧
        ∀ d ∈ first, d.contact ≠ contact := by
  rw [phases, List.head?_map, List.head?_filter] at h
  obtain ⟨e, hfind, hphase⟩ := Option.map_eq_some_iff.1 h
  obtain ⟨he, first, last, hsplit, hfirst⟩ := List.find?_eq_some_iff_append.1 hfind
  exact ⟨first, e, last, hsplit, by simpa using he, hphase, by simpa using hfirst⟩

/-- The first part of a stream is one. -/
theorem WellFormed.of_first (h : WellFormed last) (hpre : first <+: last) :
    WellFormed first := by
  obtain ⟨rest, rfl⟩ := hpre
  intro event hmem
  obtain ⟨hsame, later, hlife⟩ := h event (List.mem_append_left _ hmem)
  refine ⟨fun other hother => hsame other (List.mem_append_left _ hother),
    (phases rest event.contact).map decoded ++ later, ?_⟩
  rwa [phases_append, List.map_append, List.append_assoc] at hlife

/-- A pointer of a stream, in the life of its contact. -/
theorem WellFormed.life (h : WellFormed (first ++ e :: last)) : ∃ hovers later,
    Input.Life hovers ((phases first e.contact).map decoded ++ decoded e.phase :: later) := by
  obtain ⟨-, later, hlife⟩ := h e (by simp)
  rw [phases_append, phases_cons_self, List.map_append, List.map_cons, List.append_assoc,
    List.cons_append] at hlife
  exact ⟨_, _, hlife⟩

/-- Nothing comes after the end of a contact. -/
theorem WellFormed.not_ends (h : WellFormed (first ++ last)) (hd : d ∈ first) (he : e ∈ last)
    (hcontact : d.contact = e.contact) : ¬ Ends d.phase := by
  obtain ⟨before, after, rfl⟩ := List.append_of_mem he
  rw [← List.append_assoc] at h
  obtain ⟨hovers, later, hlife⟩ := h.life
  have hmem : decoded d.phase ∈ (phases (first ++ before) e.contact).map decoded :=
    List.mem_map_of_mem (mem_phases.2 ⟨d, List.mem_append_left _ hd, hcontact, rfl⟩)
  have := hlife.not_ends _ hmem
  intro hend
  refine this ?_
  rcases hend with hend | hend <;> rw [hend]
  · exact .inl rfl
  · exact .inr rfl

/-- The rest of a contact comes after it has touched down. -/
theorem WellFormed.exists_down (h : WellFormed (first ++ e :: last)) (hrest : Rest e.phase) :
    ∃ d ∈ first, d.contact = e.contact ∧ d.phase = .down := by
  obtain ⟨hovers, later, hlife⟩ := h.life
  have hphase : decoded e.phase ≠ .hover ∧ decoded e.phase ≠ .down := by
    rcases hrest with hrest | hrest | hrest <;> rw [hrest] <;> decide
  obtain ⟨phase, hmem, hdown⟩ := List.mem_map.1 (hlife.down_mem hphase.1 hphase.2)
  obtain ⟨d, hd, hcontact, rfl⟩ := mem_phases.1 hmem
  refine ⟨d, hd, hcontact, ?_⟩
  cases hp : d.phase <;> rw [hp] at hdown <;> first | rfl | cases hdown

/-- The pointers that the two decoders make of what the kernel says tell lives of contacts. `into`
is what is sent for a pointer of theirs. -/
theorem wellFormed_decoded {Pt : Type} {s : Input.Decoders Pt} {inputs : List Input.Incoming}
    (h : Input.LifeCycle s inputs) {into : Input.PointerEvent Pt → Protocol.PointerEvent}
    (hphase : ∀ e, decoded (into e).phase = e.phase)
    (hcontact : ∀ e, (into e).contact = e.contact.value.toNat)
    (hpointer : ∀ e, isStylus (into e).pointer = e.pointer.isStylus) :
    WellFormed ((s.run inputs).1.map into) := by
  have hsame {e d : Input.PointerEvent Pt} :
      (into e).contact = (into d).contact ↔ e.contact = d.contact := by
    rw [hcontact, hcontact, UInt64.toNat_inj]
    exact ⟨congrArg Input.ContactId.mk, congrArg Input.ContactId.value⟩
  intro event hevent
  obtain ⟨e, he, rfl⟩ := List.mem_map.1 hevent
  obtain ⟨hstylus, hlife⟩ := h.lives e he
  refine ⟨fun other hother heq => ?_, ?_⟩
  · obtain ⟨d, hd, rfl⟩ := List.mem_map.1 hother
    rw [hpointer, hpointer]
    exact hstylus d hd (hsame.1 heq)
  · have hword : (phases ((s.run inputs).1.map into) (into e).contact).map decoded =
        Input.phases (s.run inputs).1 e.contact := by
      simp only [phases, Input.phases, List.filter_map, List.map_map, Function.comp_def, hphase,
        hsame]
    rw [hword, hpointer]
    exact hlife

end

/-! ## Runs -/

section

variable {σ γ : Type} {hovers : Bool} {apps : String → App σ γ} {c : Console σ γ}

/-- What the app was not handed of what its session was given is on its way, and what the sessions
before were given is of contacts that have ended. -/
structure Console.Sound (hovers : Bool) (c : Console σ γ) : Prop where
  given : c.visit.given = c.visit.received ++ c.session.held
  rest : AtRest hovers c.before
  owned : Owned hovers c.past

/-- What an app is handed of a contact begins with its beginning. -/
theorem Console.Sound.begins (h : c.Sound hovers) (hwell : WellFormed c.taken) {contact : ℕ}
    {phase : PointerPhase} (hhead : (phases c.visit.received contact).head? = some phase) :
    phase = .hover ∨ phase = .down := by
  obtain ⟨first, e, last, hsplit, hcontact, hphase, hfirst⟩ := exists_of_head? hhead
  by_contra hne
  have hrest : Rest e.phase := by
    rw [hphase]
    cases phase <;> simp [Rest] at hne ⊢
  have htaken : c.taken = c.before ++ first ++ e :: (last ++ c.session.held) := by
    rw [Console.taken, h.given, hsplit]
    simp
  obtain ⟨d, hd, hsame, hdown⟩ := (htaken ▸ hwell).exists_down hrest
  -- It touched down in an earlier session, at the end of which it had ended.
  have hbefore : d ∈ c.before := (List.mem_append.1 hd).resolve_right fun hin =>
    hfirst d hin (hsame.trans hcontact)
  obtain ⟨ending, hending, hsame', hends⟩ := h.rest d hbefore (.inl hdown)
  have he : e ∈ c.visit.given := by simp [h.given, hsplit]
  exact WellFormed.not_ends hwell hending he (hsame'.trans hsame) hends

/-- The contacts of all sessions are owned, if those of the sessions before are. -/
theorem Console.Sound.visits (h : c.Sound hovers) (hwell : WellFormed c.taken) :
    Owned hovers c.visits := by
  refine ⟨fun visit hvisit contact phase hhead => ?_, ?_⟩
  · rcases List.mem_append.1 hvisit with hpast | hlast
    · exact h.owned.begins visit hpast contact phase hhead
    · rw [List.mem_singleton.1 hlast] at hhead
      exact h.begins hwell hhead
  · rw [Console.visits, List.pairwise_append]
    refine ⟨h.owned.own, List.pairwise_singleton _ _, fun visit hvisit last hlast => ?_⟩
    rw [List.mem_singleton.1 hlast]
    intro d hd hbegan e he hrest hcontact
    have hbefore : d ∈ c.before := List.mem_flatMap.2 ⟨visit, hvisit, hd⟩
    obtain ⟨ending, hending, hsame, hends⟩ := h.rest d hbefore hbegan
    have hgiven : e ∈ c.visit.given := h.given ▸ List.mem_append_left _ he
    exact WellFormed.not_ends hwell hending hgiven (hsame.trans hcontact.symm) hends

/-- A step of the session that is open. -/
theorem Console.Sound.session (h : c.Sound hovers) (x : Step γ) :
    (c.step apps (.session x)).Sound hovers where
  given := by
    show c.visit.given ++ c.session.takes x = c.visit.received ++ c.session.handed x ++
      (c.session.step (apps c.visit.slug) x).held
    rw [List.append_assoc, Session.handed_held, h.given, List.append_assoc]
  rest := h.rest
  owned := h.owned

theorem Console.before_reopen (slug : String) (start : σ) :
    (c.reopen slug start).before = c.taken := by
  simp [Console.before, Console.reopen, Console.taken]

/-- The opening of the next session, when the contacts have ended. -/
theorem Console.Sound.reopen (h : c.Sound hovers) (hwell : WellFormed c.taken)
    (hrest : AtRest hovers c.taken) (slug : String) (start : σ) :
    (c.reopen slug start).Sound hovers where
  given := rfl
  rest := by rwa [Console.before_reopen]
  owned := h.visits hwell

/-- What came into the queue is what the readers had for it: all of it, as long as they are
there. -/
structure Console.Reads (c : Console σ γ) (moves : List (Move σ γ))
    (stream : List Protocol.PointerEvent) : Prop where
  arrived : c.arrived <+: stream
  rest : c.session.readers = true → c.arrived ++ touched moves = stream

theorem Console.arrived_session (apps : String → App σ γ) (c : Console σ γ) (x : Step γ) :
    (c.step apps (.session x)).arrived = c.arrived ++ c.session.touches x := by
  show c.before ++ (c.visit.given ++ c.session.takes x) ++
    (c.session.step (apps c.visit.slug) x).events = _
  rw [Console.arrived, Console.taken]
  simp only [List.append_assoc, Session.takes_events]

variable {moves : List (Move σ γ)} {stream : List Protocol.PointerEvent}

/-- A move that brings nothing. -/
theorem Console.Reads.quiet {c' : Console σ γ} {move : Move σ γ}
    (h : c.Reads (move :: moves) stream) (harrived : c'.arrived = c.arrived)
    (hreaders : c'.session.readers = true → c.session.readers = true)
    (htouched : touched (move :: moves) = touched moves) : c'.Reads moves stream where
  arrived := harrived ▸ h.arrived
  rest hr := by
    rw [harrived, ← htouched]
    exact h.rest (hreaders hr)

theorem Console.Reads.session {x : Step γ} (h : c.Reads (.session x :: moves) stream) :
    (c.step apps (.session x)).Reads moves stream := by
  have hreaders : (c.step apps (.session x)).session.readers = true → c.session.readers = true :=
    Session.readers_of_step
  have harrived := Console.arrived_session apps c x
  cases x with
  | touched event =>
    by_cases hr : c.session.readers = true
    · rw [Session.touches, if_pos hr] at harrived
      have hstream := h.rest hr
      rw [touched] at hstream
      refine ⟨?_, fun _ => ?_⟩ <;> rw [harrived, ← hstream]
      · exact ⟨touched moves, by simp⟩
      · simp
    · rw [Session.touches, if_neg hr, List.append_nil] at harrived
      refine ⟨harrived ▸ h.arrived, fun hr' => absurd (hreaders hr') hr⟩
  | unplugged | completed completion | pump | app | host changes result | tick =>
    exact h.quiet (harrived.trans (List.append_nil _)) hreaders rfl

theorem Console.arrived_reopen (slug : String) (start : σ) :
    (c.reopen slug start).arrived = c.arrived := by
  rw [Console.arrived, Console.taken, Console.before_reopen]
  simp [Console.reopen, Console.arrived]

theorem Console.Reads.opened {start : σ} (h : c.Reads (.opened start :: moves) stream)
    (apps : String → App σ γ) :
    (c.step apps (.opened start)).Reads moves stream := by
  rw [Console.step]
  split
  · next slug hphase => exact h.quiet (Console.arrived_reopen slug start) id rfl
  · exact h.quiet rfl id rfl

/-- The contacts are owned at the end of every run that opens sessions only when they have ended. -/
theorem owned_run (hwell : WellFormed stream) (hreads : c.Reads moves stream)
    (hsound : c.Sound hovers) (hrested : Rested hovers apps c moves) :
    Owned hovers (c.run apps moves).visits := by
  induction moves generalizing c with
  | nil =>
    have htaken : c.taken <+: stream := (List.prefix_append _ _).trans hreads.arrived
    exact hsound.visits (hwell.of_first htaken)
  | cons move moves ih =>
    cases move with
    | session x => exact ih hreads.session (hsound.session x) hrested
    | opened start =>
      obtain ⟨hrest, hrested⟩ := hrested
      have hnext := hreads.opened apps
      have htaken : c.taken <+: stream := (List.prefix_append _ _).trans hreads.arrived
      have hstep : c.step apps (.opened start) = c ∨ ∃ slug, c.Switches ∧
          c.step apps (.opened start) = c.reopen slug start := by
        rw [Console.step]
        split
        · next slug hphase => exact .inr ⟨slug, ⟨slug, hphase⟩, rfl⟩
        · exact .inl rfl
      rcases hstep with hstep | ⟨slug, hswitches, hstep⟩
      · exact ih hnext (hstep.symm ▸ hsound) hrested
      · exact ih hnext (hstep.symm ▸ hsound.reopen (hwell.of_first htaken) (hrest hswitches) slug
          start) hrested

theorem rested_take (h : Rested hovers apps c moves) (k : ℕ) :
    Rested hovers apps c (moves.take k) := by
  induction moves generalizing c k with
  | nil => simpa using h
  | cons move moves ih =>
    cases k with
    | zero => trivial
    | succ k =>
      cases move with
      | session x => exact ih h k
      | opened start => exact ⟨h.1, ih h.2 k⟩

theorem touched_take (moves : List (Move σ γ)) (k : ℕ) :
    touched (moves.take k) <+: touched moves := by
  induction moves generalizing k with
  | nil => simp
  | cons move moves ih =>
    cases k with
    | zero => exact List.nil_prefix
    | succ k =>
      rw [List.take_succ_cons]
      cases move with
      | session x =>
        cases x with
        | touched event => exact List.cons_prefix_cons.2 ⟨rfl, ih k⟩
        | _ => exact ih k
      | opened start => exact ih k

/-- In every state of a run in which the contacts of the pointers so far have ended whenever another
app's session is opened, what an app was handed of a contact begins with its beginning, and no app
was handed the rest of a contact that began with another. -/
theorem contacts_owned (hovers : Bool) (apps : String → App σ γ) (slug : String) (start : σ)
    (moves : List (Move σ γ)) (hwell : WellFormed (touched moves))
    (hrested : Rested hovers apps (.initial slug start) moves) (k : ℕ) :
    Owned hovers (Console.run apps (.initial slug start) (moves.take k)).visits := by
  refine owned_run (hwell.of_first (touched_take moves k)) ?_ ?_
    (rested_take hrested k)
  · exact ⟨List.nil_prefix, fun _ => rfl⟩
  · exact ⟨rfl, by simp [AtRest, Console.before, Console.initial],
      by simp [Console.initial], .nil⟩

end

/-! ## Home, and the app that it launches -/

/-- An app that does nothing with what it is handed. -/
def quiet : App Home.HomeApp Empty where
  event home _ := Home.told home .none
  draw home := Home.told home .full
  save home := Home.told home (.ok ())

/-- The shelf has one tile, which launches chess. -/
def launcher : Home.HomeApp := ⟨⟨[some "dev.calum.chess"], [], none⟩, true⟩

def launched (slug : String) : App Home.HomeApp Empty :=
  if slug = "home" then Home.homeApp fun _ _ => some 0 else quiet

/-- A finger on the tile. -/
def finger (contact : ℕ) (phase : PointerPhase) : Protocol.PointerEvent :=
  ⟨⟨0, 0⟩, phase, .touch, contact, none, none⟩

/-- The readers have a pointer for the queue. -/
def touch (contact : ℕ) (phase : PointerPhase) : Move Home.HomeApp Empty :=
  .session (.touched (finger contact phase))

/-- The host's next step. -/
def hosts : Move Home.HomeApp Empty := .session (.host [] (.ok (.battery ⟨80, .discharging⟩)))

/-- The first frame of a session. -/
def opening : List (Move Home.HomeApp Empty) := [hosts, .session .pump, .session .app, hosts]

/-- A pointer is taken, sent and handed over, and one answer is read. -/
def feeding : List (Move Home.HomeApp Empty) :=
  [hosts, .session .pump, .session .pump, .session .app, .session .app, hosts]

/-- A finger touches the tile and is lifted, and then another touches the board. -/
def oneFinger : List (Move Home.HomeApp Empty) :=
  opening ++ [touch 1 .down, touch 1 .up] ++ feeding ++ [hosts] ++ feeding ++ [hosts, hosts] ++
    [.opened launcher] ++ opening ++ [touch 2 .down] ++ feeding

/-- Two fingers touch the tile and one is lifted, which launches chess; then the other is. -/
def twoFingers : List (Move Home.HomeApp Empty) :=
  opening ++ [touch 1 .down, touch 2 .down, touch 1 .up] ++ feeding ++ [hosts] ++ feeding ++
    feeding ++ [hosts, hosts] ++ [.opened launcher] ++ opening ++ [touch 2 .up] ++ feeding

/-- A finger that touches the tile, and one that is also lifted, tell the life of a contact. -/
theorem begins_tap : Input.Begins (Input.Life false) [.down, .up] :=
  ⟨[], 0, .up, .inl rfl, rfl⟩

theorem begins_touch : Input.Begins (Input.Life false) [.down] :=
  ⟨[.up], 0, .up, .inl rfl, rfl⟩

theorem wellFormed_oneFinger : WellFormed (touched oneFinger) := by
  have hstream : touched oneFinger = [finger 1 .down, finger 1 .up, finger 2 .down] := rfl
  rw [hstream]
  intro event hevent
  simp only [List.mem_cons, List.not_mem_nil, or_false] at hevent
  rcases hevent with rfl | rfl | rfl
  · exact ⟨by simp [finger], begins_tap⟩
  · exact ⟨by simp [finger], begins_tap⟩
  · exact ⟨by simp [finger], begins_touch⟩

theorem wellFormed_twoFingers : WellFormed (touched twoFingers) := by
  have hstream : touched twoFingers =
      [finger 1 .down, finger 2 .down, finger 1 .up, finger 2 .up] := rfl
  rw [hstream]
  intro event hevent
  simp only [List.mem_cons, List.not_mem_nil, or_false] at hevent
  rcases hevent with rfl | rfl | rfl | rfl <;> exact ⟨by simp [finger], begins_tap⟩

/-- One finger after another: the first has been lifted when chess is opened. -/
theorem contacts_owned_oneFinger :
    Owned true (Console.run launched (.initial "home" launcher)
      (oneFinger.take oneFinger.length)).visits ∧
    (Console.run launched (.initial "home" launcher) oneFinger).visits.map (·.received) =
      [[finger 1 .down, finger 1 .up], [finger 2 .down]] := by
  have hrested : Rested true launched (.initial "home" launcher) oneFinger := by
    refine ⟨fun _ => ?_, trivial⟩
    decide +kernel
  exact ⟨contacts_owned true launched "home" launcher oneFinger wellFormed_oneFinger hrested _, rfl⟩

/-- Two fingers at a time: chess is handed the end of a contact that began with Home. -/
theorem contact_split : WellFormed (touched twoFingers) ∧
    (Console.run launched (.initial "home" launcher) twoFingers).visits.map (·.slug) =
      ["home", "chess"] ∧
    (Console.run launched (.initial "home" launcher) twoFingers).visits.map (·.received) =
      [[finger 1 .down, finger 2 .down, finger 1 .up], [finger 2 .up]] ∧
    ¬ Owned false (Console.run launched (.initial "home" launcher) twoFingers).visits := by
  refine ⟨wellFormed_twoFingers, rfl, rfl, fun h => ?_⟩
  have hvisits : (Console.run launched (.initial "home" launcher) twoFingers).visits =
      [⟨"home", [finger 1 .down, finger 2 .down, finger 1 .up],
        [finger 1 .down, finger 2 .down, finger 1 .up]⟩,
      ⟨"chess", [finger 2 .up], [finger 2 .up]⟩] := rfl
  rw [hvisits] at h
  rcases h.begins ⟨"chess", [finger 2 .up], [finger 2 .up]⟩ (by simp) 2 .up rfl with h | h <;>
    cases h

end Paperclip.Interactive
