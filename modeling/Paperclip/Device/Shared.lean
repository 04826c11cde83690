import Mathlib.Logic.Relation
import Paperclip.Device.Record

/-!
# The record between processes

The host, the recovery unit and the command line share one record. A call of `record` reads it,
truncates it and writes it, and others come between.

* `Shared.step`: the calls of any number of processes, one step of a file at a time.
* `Careful`: calls do not overlap, none dies halfway through its write, and whoever counts does not
  count too late.
* `record_never_undercounts`: as long as all are careful, every completed start is counted.
* `overlapping_records_lose_a_start`: a start that another call read past is lost.
-/

namespace Paperclip.Device

open StartBudget

/-! ## Calls -/

/-- Where a call of `record` is. -/
inductive Call where
  | reading (now : ℕ)
  /-- It knows what to write. -/
  | opening (now : ℕ) (text : String)
  /-- It truncated the record. -/
  | writing (now : ℕ) (text : String)
  | over
  deriving DecidableEq, Repr

namespace Call

/-- What is still to be written, and for which time. -/
def pending : Call → Option (ℕ × String)
  | opening now text | writing now text => some (now, text)
  | _ => none

/-- The call has read the record and not yet written it. -/
def holds (c : Call) : Bool := c.pending.isSome

/-- The call has truncated the record and not yet written it. -/
def writes : Call → Bool
  | writing _ _ => true
  | _ => false

end Call

/-- A call that completed. -/
structure Completed where
  /-- The time that it recorded. -/
  now : ℕ
  /-- When it returned. -/
  returned : ℕ
  deriving DecidableEq, Repr

/-- A look at the record: what was counted, and what should have been at least. -/
structure Look where
  answer : ℕ
  due : ℕ
  deriving DecidableEq, Repr

/-- The record, whoever is at it, and what they did so far. -/
structure Shared where
  clock : ℕ
  file : Option String
  calls : List Call
  completed : List Completed
  looks : List Look
  deriving DecidableEq, Repr

namespace Shared

/-- Before the first call, over any record. -/
def new (file : Option String) : Shared := ⟨0, file, [], [], []⟩

inductive Act where
  | tick (clock : ℕ)
  | begin (now : ℕ)
  | read (i : ℕ)
  | truncate (i : ℕ)
  | write (i : ℕ)
  /-- The call dies. Where it was writing, that much of the text was written. -/
  | crash (i written : ℕ)
  | look (now : ℕ)

/-- A write at the start of a file. -/
def overlay (text : List Char) (file : Option String) : String :=
  String.ofList (text ++ (file.getD "").toList.drop text.length)

/-- How many calls completed within the window before `now`. -/
def due (s : Shared) (now : ℕ) : ℕ :=
  s.completed.countP fun c => c.returned ≤ now ∧ now < c.returned + START_LIMIT_WINDOW * second

/-- A step of a process. -/
def step (s : Shared) : Act → Option Shared
  | .tick clock =>
    if s.clock ≤ clock ∧ clock / second < 2 ^ 64 then some { s with clock } else none
  | .begin now =>
    if now ≤ s.clock then some { s with calls := s.calls ++ [.reading now] } else none
  | .read i =>
    match s.calls[i]? with
    | some (.reading now) =>
      some { s with calls := s.calls.set i (.opening now (render (kept s.file now))) }
    | _ => none
  | .truncate i =>
    match s.calls[i]? with
    | some (.opening now text) =>
      some { s with file := some "", calls := s.calls.set i (.writing now text) }
    | _ => none
  | .write i =>
    match s.calls[i]? with
    | some (.writing now text) =>
      some { s with
        file := some (overlay text.toList s.file)
        calls := s.calls.set i .over
        completed := s.completed ++ [⟨now, s.clock⟩] }
    | _ => none
  | .crash i written =>
    match s.calls[i]? with
    | some (.writing _ text) =>
      some { s with
        file := some (overlay (text.toList.take written) s.file)
        calls := s.calls.set i .over }
    | some _ => some { s with calls := s.calls.set i .over }
    | none => none
  | .look now =>
    if now ≤ s.clock then some { s with looks := s.looks ++ [⟨recent s.file now, s.due now⟩] }
    else none

/-- Whoever counts at `now` can see every call that completed in the window before. -/
def Fresh (s : Shared) (now : ℕ) : Prop :=
  s.due now ≤ U32_MAX ∧ ∀ c ∈ s.completed, c.now ≤ now ∧
    (c.returned ≤ now ∧ now < c.returned + START_LIMIT_WINDOW * second →
      counts (now / second) (c.now / second) = true)

instance (s : Shared) (now : ℕ) : Decidable (s.Fresh now) := inferInstanceAs (Decidable (_ ∧ _))

/-- Calls do not overlap from their read to their write, none dies in its write, and the record is not
counted in the middle of a write, or so late that a stamp no longer counts although its call does. -/
def Careful (s : Shared) : Act → Prop
  | .read _ => ∀ c ∈ s.calls, c.holds = false
  | .crash i _ => (s.calls[i]?.getD .over).writes = false
  | .look now => (∀ c ∈ s.calls, c.writes = false) ∧ s.Fresh now
  | _ => True

instance (s : Shared) (a : Act) : Decidable (s.Careful a) := by
  cases a <;> unfold Careful <;> infer_instance

/-! ## What careful steps keep -/

variable {s s' : Shared} {i : ℕ} {c : Call}

/-- The stamps of the calls that completed. -/
def stamps (s : Shared) : List ℕ := s.completed.map fun c => c.now / second

/-- A time that no completed call is ahead of. -/
def Past (s : Shared) (later : ℕ) : Prop := ∀ c ∈ s.completed, c.now ≤ later

/-- The text counts every completed call. -/
def Covers (s : Shared) (text : String) : Prop :=
  ∀ later, s.Past later → live later s.stamps ≤ live later (StartBudget.stamps text)

/-- The text counts every completed call, and the start of `now` too. -/
def CoversWith (s : Shared) (now : ℕ) (text : String) : Prop :=
  ∀ later, now ≤ later → s.Past later →
    live later s.stamps + live later [now / second] ≤ live later (StartBudget.stamps text)

/-- What careful steps keep. -/
structure Sound (s : Shared) : Prop where
  clock : s.clock / second < 2 ^ 64
  fits : ∀ now, .reading now ∈ s.calls → now / second < 2 ^ 64
  alone : s.calls.countP Call.holds ≤ 1
  recorded : s.calls.countP Call.writes = 0 → s.Covers (s.file.getD "")
  pending : ∀ c ∈ s.calls, ∀ now text, c.pending = some (now, text) → s.CoversWith now text
  truncated : ∀ c ∈ s.calls, c.writes = true → s.file = some ""
  looks : ∀ l ∈ s.looks, l.due ≤ l.answer

/-- How a change of one call changes a count of calls. -/
theorem countP_call (p : Call → Bool) (c' : Call) (h : s.calls[i]? = some c) :
    (s.calls.set i c').countP p + (p c).toNat = s.calls.countP p + (p c').toNat := by
  obtain ⟨hi, rfl⟩ := List.getElem?_eq_some_iff.1 h
  have hpos : (p s.calls[i]).toNat ≤ s.calls.countP p := by
    cases hp : p s.calls[i] with
    | false => exact Nat.zero_le _
    | true => exact List.one_le_countP_iff.2 ⟨_, List.getElem_mem hi, hp⟩
  rw [List.countP_set hi]
  generalize p s.calls[i] = held at hpos ⊢
  cases held <;> cases p c' <;>
    simp only [Bool.toNat_true, Bool.toNat_false, if_true, if_false, Bool.false_eq_true] at hpos ⊢ <;>
    omega

theorem sound_new (file : Option String) : (new file).Sound :=
  ⟨(by decide : 0 / second < 2 ^ 64), nofun, Nat.zero_le _, fun _ _ _ => Nat.zero_le _, nofun, nofun, nofun⟩

/-- A call that is over leaves the others where they are. -/
theorem Sound.of_over (h : s.Sound) (hc : s.calls[i]? = some c) (hw : c.writes = false) :
    Sound { s with calls := s.calls.set i .over } := by
  have hmem {d : Call} (hd : d ∈ s.calls.set i .over) : d ∈ s.calls ∨ d = .over :=
    List.mem_or_eq_of_mem_set hd
  refine ⟨h.clock, fun now hn => ?_, ?_, fun hz => ?_, fun d hd now text hp => ?_,
    fun d hd hdw => ?_, h.looks⟩
  · exact h.fits now ((hmem hn).resolve_right nofun)
  · have hcount := countP_call Call.holds .over hc
    have halone := h.alone
    rw [show Call.holds .over = false from rfl, Bool.toNat_false] at hcount
    exact (Nat.le_add_right _ _).trans (hcount.trans_le halone)
  · have hcount := countP_call Call.writes .over hc
    rw [hw, show Call.writes .over = false from rfl] at hcount
    exact h.recorded (hcount.symm.trans hz)
  · rcases hmem hd with hd | rfl
    · exact h.pending d hd now text hp
    · cases hp
  · rcases hmem hd with hd | rfl
    · exact h.truncated d hd hdw
    · cases hdw

theorem Sound.of_read {now : ℕ} (h : s.Sound) (hc : s.calls[i]? = some (.reading now))
    (hfree : ∀ c ∈ s.calls, c.holds = false) :
    Sound { s with calls := s.calls.set i (.opening now (render (kept s.file now))) } := by
  have hmem {d : Call} (hd : d ∈ s.calls.set i (.opening now (render (kept s.file now)))) :
      d ∈ s.calls ∨ d = .opening now (render (kept s.file now)) := List.mem_or_eq_of_mem_set hd
  have hzero : s.calls.countP Call.holds = 0 :=
    List.countP_eq_zero.2 fun c hc => by rw [hfree c hc]; exact Bool.false_ne_true
  have hwrites {d : Call} (hd : d ∈ s.calls) : d.writes = false := by
    have := hfree d hd
    cases d <;> first | rfl | cases this
  have hcover : s.Covers (s.file.getD "") :=
    h.recorded (List.countP_eq_zero.2 fun d hd => by rw [hwrites hd]; exact Bool.false_ne_true)
  refine ⟨h.clock, fun n hn => ?_, ?_, fun hz => ?_, fun d hd n text hp => ?_,
    fun d hd hdw => ?_, h.looks⟩
  · exact h.fits n ((hmem hn).resolve_right nofun)
  · have hcount := countP_call Call.holds (.opening now (render (kept s.file now))) hc
    exact ((Nat.le_add_right _ _).trans hcount.le).trans_eq (by rw [hzero]; rfl)
  · exact hcover
  · rcases hmem hd with hd | rfl
    · have := hfree d hd
      rw [Call.holds, hp] at this
      cases this
    · cases hp
      intro later hl hpast
      rw [live_kept hl (h.fits now (List.mem_of_getElem? hc))]
      exact Nat.add_le_add_right (hcover later hpast) _
  · rcases hmem hd with hd | rfl
    · rw [hwrites hd] at hdw
      cases hdw
    · cases hdw

theorem Sound.of_truncate {now : ℕ} {text : String} (h : s.Sound)
    (hc : s.calls[i]? = some (.opening now text)) :
    Sound { s with file := some "", calls := s.calls.set i (.writing now text) } := by
  have hmem {d : Call} (hd : d ∈ s.calls.set i (.writing now text)) :
      d ∈ s.calls ∨ d = .writing now text := List.mem_or_eq_of_mem_set hd
  refine ⟨h.clock, fun n hn => ?_, ?_, fun hz => ?_, fun d hd n text' hp => ?_,
    fun _ _ _ => rfl, h.looks⟩
  · exact h.fits n ((hmem hn).resolve_right nofun)
  · have hcount := countP_call Call.holds (.writing now text) hc
    exact (Nat.add_right_cancel hcount).trans_le h.alone
  · have hcount := countP_call Call.writes (.writing now text) hc
    rw [hz] at hcount
    cases hcount
  · rcases hmem hd with hd | rfl
    · exact h.pending d hd n text' hp
    · cases hp
      exact h.pending _ (List.mem_of_getElem? hc) now text rfl

/-- A write that is not disturbed adds its call to what the record counts. -/
theorem Sound.of_write {now : ℕ} {text : String} (h : s.Sound)
    (hc : s.calls[i]? = some (.writing now text)) :
    Sound { s with
      file := some (overlay text.toList s.file)
      calls := s.calls.set i .over
      completed := s.completed ++ [⟨now, s.clock⟩] } := by
  have hmem {d : Call} (hd : d ∈ s.calls.set i .over) : d ∈ s.calls ∨ d = .over :=
    List.mem_or_eq_of_mem_set hd
  have hcount : (s.calls.set i .over).countP Call.holds = 0 := by
    have hcount := countP_call Call.holds .over hc
    have hle : (s.calls.set i .over).countP Call.holds + 1 ≤ 1 := hcount.trans_le h.alone
    omega
  have hfree {d : Call} (hd : d ∈ s.calls.set i .over) : d.holds = false :=
    Bool.eq_false_of_not_eq_true (List.countP_eq_zero.1 hcount d hd)
  have hfile : overlay text.toList s.file = text := by
    rw [h.truncated _ (List.mem_of_getElem? hc) rfl, overlay]
    simp
  refine ⟨h.clock, fun n hn => ?_, hcount.trans_le (Nat.zero_le _), fun _ later hpast => ?_,
    fun d hd n text' hp => ?_, fun d hd hdw => ?_, h.looks⟩
  · exact h.fits n ((hmem hn).resolve_right nofun)
  · have hnow : now ≤ later := hpast ⟨now, s.clock⟩ (List.mem_append_right _ List.mem_cons_self)
    have := h.pending _ (List.mem_of_getElem? hc) now text rfl later hnow
      fun d hd => hpast d (List.mem_append_left _ hd)
    rw [Option.getD_some, hfile]
    simpa [stamps] using this
  · have := hfree hd
    rw [Call.holds, hp] at this
    cases this
  · have := hfree hd
    cases d with
    | writing => cases this
    | _ => cases hdw

/-- Whoever counts while no call is in its write counts every call whose stamp still counts. -/
theorem Sound.of_look {now : ℕ} (h : s.Sound) (hw : ∀ c ∈ s.calls, c.writes = false)
    (hf : s.Fresh now) :
    Sound { s with looks := s.looks ++ [⟨recent s.file now, s.due now⟩] } := by
  refine ⟨h.clock, h.fits, h.alone, h.recorded, h.pending, h.truncated, fun l hl => ?_⟩
  rcases List.mem_append.1 hl with hl | hl
  · exact h.looks l hl
  rw [List.mem_singleton.1 hl]
  have hcover := h.recorded (List.countP_eq_zero.2 fun c hc => by rw [hw c hc]; exact Bool.false_ne_true)
    now fun c hc => (hf.2 c hc).1
  have hdue : s.due now ≤ live now s.stamps := by
    rw [live, stamps, List.filter_map, List.length_map, ← List.countP_eq_length_filter]
    exact List.countP_mono_left fun c hc hin => (hf.2 c hc).2 (of_decide_eq_true hin)
  rw [recent_eq]
  exact le_min (hdue.trans hcover) hf.1

/-- A careful step keeps what the record counts. -/
theorem Sound.step {a : Act} (h : s.Sound) (hs : s.step a = some s') (hc : s.Careful a) :
    s'.Sound := by
  cases a with
  | tick clock =>
    simp only [Shared.step, Option.ite_none_right_eq_some, Option.some.injEq] at hs
    obtain ⟨⟨-, hclock⟩, rfl⟩ := hs
    exact ⟨hclock, h.fits, h.alone, h.recorded, h.pending, h.truncated, h.looks⟩
  | begin now =>
    simp only [Shared.step, Option.ite_none_right_eq_some, Option.some.injEq] at hs
    obtain ⟨hnow, rfl⟩ := hs
    refine ⟨h.clock, fun n hn => ?_, ?_, fun hz => ?_, fun d hd n text hp => ?_,
      fun d hd hdw => ?_, h.looks⟩
    · rcases List.mem_append.1 hn with hn | hn
      · exact h.fits n hn
      · cases List.mem_singleton.1 hn
        exact (Nat.div_le_div_right hnow).trans_lt h.clock
    · rw [List.countP_append]
      exact h.alone
    · rw [List.countP_append] at hz
      exact h.recorded hz
    · rcases List.mem_append.1 hd with hd | hd
      · exact h.pending d hd n text hp
      · cases List.mem_singleton.1 hd
        cases hp
    · rcases List.mem_append.1 hd with hd | hd
      · exact h.truncated d hd hdw
      · cases List.mem_singleton.1 hd
        cases hdw
  | read i =>
    simp only [Shared.step] at hs
    split at hs
    · next now hcall =>
      cases hs
      exact h.of_read hcall hc
    · cases hs
  | truncate i =>
    simp only [Shared.step] at hs
    split at hs
    · next now text hcall =>
      cases hs
      exact h.of_truncate hcall
    · cases hs
  | write i =>
    simp only [Shared.step] at hs
    split at hs
    · next now text hcall =>
      cases hs
      exact h.of_write hcall
    · cases hs
  | crash i written =>
    simp only [Shared.step] at hs
    split at hs
    · next now text hcall =>
      rw [Careful, hcall] at hc
      cases hc
    · next c hne hcall =>
      cases hs
      rw [Careful, hcall] at hc
      exact h.of_over hcall hc
    · cases hs
  | look now =>
    simp only [Shared.step, Option.ite_none_right_eq_some, Option.some.injEq] at hs
    obtain ⟨-, rfl⟩ := hs
    exact h.of_look hc.1 hc.2

/-- Some steps in turn, where each must be one that `ok` lets through. -/
def run (ok : Shared → Act → Bool) (s : Shared) : List Act → Option Shared
  | [] => some s
  | a :: rest => if ok s a then (s.step a).bind fun s' => s'.run ok rest else none

theorem run_steps {ok : Shared → Act → Bool} {acts : List Act} (h : s.run ok acts = some s') :
    Relation.ReflTransGen (fun s s' => ∃ a, ok s a = true ∧ s.step a = some s') s s' := by
  induction acts generalizing s with
  | nil =>
    cases h
    exact .refl
  | cons a rest ih =>
    rw [run, Option.ite_none_right_eq_some] at h
    obtain ⟨hok, h⟩ := h
    obtain ⟨s₁, hs, h⟩ := Option.bind_eq_some_iff.1 h
    exact .head ⟨a, hok, hs⟩ (ih h)

end Shared

/-- However the calls of any number of processes come between one another, the record counts every call
that completed in the window, as long as every step is careful. -/
theorem record_never_undercounts (file : Option String) {s : Shared}
    (h : Relation.ReflTransGen (fun s s' => ∃ a, s.Careful a ∧ s.step a = some s') (.new file) s) :
    ∀ l ∈ s.looks, l.due ≤ l.answer := by
  suffices hs : s.Sound from hs.looks
  induction h with
  | refl => exact Shared.sound_new file
  | tail _ hstep ih =>
    obtain ⟨a, hc, hs⟩ := hstep
    exact ih.step hs hc

/-- Two calls, one after the other. -/
def inTurn : List Shared.Act :=
  [.tick (2 * second), .begin second, .begin (2 * second), .read 0, .truncate 0, .write 0,
    .read 1, .truncate 1, .write 1, .look (2 * second)]

/-- Two calls, of which the second reads before the first has written. -/
def overlapping : List Shared.Act :=
  [.tick (2 * second), .begin second, .begin (2 * second), .read 0, .read 1, .truncate 0, .write 0,
    .truncate 1, .write 1, .look (2 * second)]

theorem records_in_turn_counted : ∃ s, (Shared.new none).run (fun s a => s.Careful a) inTurn = some s ∧
    s.looks = [⟨2, 2⟩] ∧ ∀ l ∈ s.looks, l.due ≤ l.answer := by
  have hlooks : ((Shared.new none).run (fun s a => s.Careful a) inTurn).map (·.looks) =
      some [⟨2, 2⟩] := by decide +kernel
  obtain ⟨s, hs, hl⟩ := Option.map_eq_some_iff.1 hlooks
  refine ⟨s, hs, hl, record_never_undercounts none ?_⟩
  exact (Shared.run_steps hs).lift id fun _ _ ⟨a, hc, hstep⟩ => ⟨a, of_decide_eq_true hc, hstep⟩

/-- A call that another reads past is not in what the other writes. -/
theorem overlapping_records_lose_a_start : ¬ ∀ (file : Option String) (s : Shared),
    Relation.ReflTransGen (fun s s' => ∃ a, s.step a = some s') (.new file) s →
      ∀ l ∈ s.looks, l.due ≤ l.answer := by
  intro h
  have hlooks : ((Shared.new none).run (fun _ _ => true) overlapping).map (·.looks) =
      some [⟨1, 2⟩] := by decide +kernel
  obtain ⟨s, hs, hl⟩ := Option.map_eq_some_iff.1 hlooks
  have := h none s ((Shared.run_steps hs).lift id fun _ _ ⟨a, _, hstep⟩ => ⟨a, hstep⟩) ⟨1, 2⟩
    (by rw [hl]; exact List.mem_singleton_self _)
  exact absurd this (by decide)

end Paperclip.Device
