import Paperclip.Host.Machine
import Paperclip.Packages.Fields
import Paperclip.Trace.Since

/-!
# The command file

Requesters replace the command file, and the supervisor takes what is in it in three steps: it reads
the file, removes it, and interprets what it read.

* `Control`: the file, and how far the supervisor is. `Control.step`: a requester's or the
  supervisor's next step. `Control.collected`: what a take that ends asks the machine for.
* `Kept`: every command is returned, or replaced before it was read, or still to come. `Answered`:
  the last one before the requesters are quiet is returned.
* `Raced`: a command that the supervisor removes without having read it.
* `commands_kept_iff`: nothing is lost in a run if and only if there is no such step in it.
-/

namespace Paperclip.Host

open Packages Trace

/-- A text in the command file, and the step of the run that wrote it. -/
structure Written where
  step : ℕ
  text : String
  deriving DecidableEq

/-- How far the supervisor is with a command. -/
inductive Taking where
  | idle
  | read (raw : Written)
  | removed (raw : Written)
  deriving DecidableEq

/-- The command file and the supervisor, after `now` steps. -/
structure Control where
  now : ℕ
  file : Option Written
  taking : Taking
  deriving DecidableEq

/-- A requester replaces the file, or the supervisor takes its next step. -/
inductive Step where
  | replace (text : String)
  | advance
  deriving DecidableEq

/-- What a command that was read is: what `take_command` returns. -/
def takenCommand (raw : String) : Option String :=
  let command := String.ofList (trim raw.toList)
  if command = "" then none else some command

/-- The switch that a command asks for. -/
def switchRequest (command : String) : Option Foreground :=
  if command = "stock" ∨ command = "stop" then some .stock
  else if command = "home" then some .home
  else
    (stripPrefix "app ".toList command.toList).bind fun id =>
      (AppId.parse (String.ofList (trim id))).map .app

namespace Control

def initial : Control := ⟨0, none, .idle⟩

/-- The next step of a requester or of the supervisor. -/
def step (control : Control) : Step → Control
  | .replace text => ⟨control.now + 1, some ⟨control.now, text⟩, control.taking⟩
  | .advance =>
    match control.taking with
    | .idle =>
      match control.file with
      | none => ⟨control.now + 1, none, .idle⟩
      | some raw => ⟨control.now + 1, some raw, .read raw⟩
    | .read raw => ⟨control.now + 1, none, .removed raw⟩
    | .removed _ => ⟨control.now + 1, control.file, .idle⟩

/-- What the machine is told when the supervisor interprets what it has read. -/
def collected (control : Control) : List Event :=
  match control.taking with
  | .removed raw =>
    (((takenCommand raw.text).bind switchRequest).map Event.switchRequested).toList
  | _ => []

end Control

section

variable (inputs : List Step) (k : ℕ) (text : String)

/-- The file and the supervisor before a step of a run. -/
def controlAt : Control := at_ Control.step .initial inputs k

/-- A command, written at step `k`. -/
def Commands : Prop := inputs[k]? = some (.replace text) ∧ (takenCommand text).isSome = true

/-- The command is returned: a take that read it ends, and the machine is told of its switch. -/
def Returned : Prop :=
  ∃ j, inputs[j]? = some .advance ∧ (controlAt inputs j).taking = .removed ⟨k, text⟩ ∧
    (controlAt inputs j).collected =
      (((takenCommand text).bind switchRequest).map Event.switchRequested).toList

/-- The command is replaced before it was read. -/
def Replaced : Prop :=
  ∃ j later, inputs[j]? = some (.replace later) ∧ (controlAt inputs j).file = some ⟨k, text⟩ ∧
    (controlAt inputs j).taking ≠ .read ⟨k, text⟩

/-- The command is in the file, or the supervisor has read it and not interpreted it yet. -/
def Waits (control : Control) : Prop :=
  control.file = some ⟨k, text⟩ ∨ control.taking = .read ⟨k, text⟩ ∨
    control.taking = .removed ⟨k, text⟩

/-- Every command is returned, or replaced before it was read, or still to come. -/
def Kept : Prop :=
  ∀ k text, Commands inputs k text →
    Returned inputs k text ∨ Replaced inputs k text ∨
      Waits k text (controlAt inputs inputs.length)

/-- The last command is returned, if the supervisor has the time to take it. -/
def Answered : Prop :=
  ∀ k text, Commands inputs k text → (∀ j later, k < j → inputs[j]? ≠ some (.replace later)) →
    k + 4 < inputs.length → Returned inputs k text

/-- The supervisor removes a command that it has not read. -/
def Raced : Prop :=
  inputs[k]? = some .advance ∧ ∃ raw later, (controlAt inputs k).taking = .read raw ∧
    (controlAt inputs k).file = some later ∧ (takenCommand later.text).isSome = true ∧ later ≠ raw

end

/-! ## What a step keeps -/

/-- What was read is not newer than the file, and what was removed is older. -/
structure Control.Ordered (control : Control) : Prop where
  file : ∀ written, control.file = some written → written.step < control.now
  read : ∀ raw, control.taking = .read raw → raw.step < control.now ∧
    ∀ written, control.file = some written → raw.step < written.step ∨ written = raw
  removed : ∀ raw, control.taking = .removed raw → raw.step < control.now ∧
    ∀ written, control.file = some written → raw.step < written.step

/-- What step `n` wrote is neither in the file nor being taken. -/
structure Control.Gone (n : ℕ) (control : Control) : Prop where
  past : n < control.now
  file : ∀ written, control.file = some written → written.step ≠ n
  read : ∀ raw, control.taking = .read raw → raw.step ≠ n
  removed : ∀ raw, control.taking = .removed raw → raw.step ≠ n

section

variable {control : Control} {n : ℕ}

theorem Control.ordered_initial : Control.initial.Ordered :=
  ⟨fun _ h => (by cases h), fun _ h => (by cases h), fun _ h => (by cases h)⟩

theorem Control.Ordered.step (h : control.Ordered) (s : Step) : (control.step s).Ordered := by
  obtain ⟨now, file, taking⟩ := control
  obtain ⟨hfile, hread, hremoved⟩ := h
  dsimp only at hfile hread hremoved
  cases s with
  | replace text =>
    refine ⟨fun written hw => ?_, fun raw hr => ?_, fun raw hr => ?_⟩
    · cases hw
      exact now.lt_succ_self
    · obtain ⟨hlt, -⟩ := hread raw hr
      refine ⟨Nat.lt_succ_of_lt hlt, fun written hw => ?_⟩
      cases hw
      exact .inl hlt
    · obtain ⟨hlt, -⟩ := hremoved raw hr
      refine ⟨Nat.lt_succ_of_lt hlt, fun written hw => ?_⟩
      cases hw
      exact hlt
  | advance =>
    cases taking with
    | idle =>
      cases file with
      | none => exact ⟨fun _ h => (by cases h), fun _ h => (by cases h), fun _ h => (by cases h)⟩
      | some raw =>
        have hlt := hfile raw rfl
        refine ⟨fun written hw => ?_, fun raw' hr => ?_, fun _ h => (by cases h)⟩
        · cases hw
          exact Nat.lt_succ_of_lt hlt
        · cases hr
          exact ⟨Nat.lt_succ_of_lt hlt, fun written hw => .inr (Option.some.inj hw).symm⟩
    | read raw =>
      refine ⟨fun _ h => (by cases h), fun _ h => (by cases h), fun raw' hr => ?_⟩
      cases hr
      exact ⟨Nat.lt_succ_of_lt (hread raw rfl).1, fun _ h => (by cases h)⟩
    | removed raw =>
      exact ⟨fun written hw => Nat.lt_succ_of_lt (hfile written hw), fun _ h => (by cases h),
        fun _ h => (by cases h)⟩

/-- What is gone does not come back. -/
theorem Control.Gone.step (h : control.Gone n) (s : Step) : (control.step s).Gone n := by
  obtain ⟨now, file, taking⟩ := control
  obtain ⟨hpast, hfile, hread, hremoved⟩ := h
  dsimp only at hpast hfile hread hremoved
  have hpast' : n < now + 1 := Nat.lt_succ_of_lt hpast
  cases s with
  | replace text =>
    refine ⟨hpast', fun written hw => ?_, hread, hremoved⟩
    cases hw
    exact Nat.ne_of_gt hpast
  | advance =>
    cases taking with
    | idle =>
      cases file with
      | none => exact ⟨hpast', hfile, hread, hremoved⟩
      | some raw =>
        refine ⟨hpast', hfile, fun raw' hr => ?_, fun _ h => (by cases h)⟩
        cases hr
        exact hfile raw rfl
    | read raw =>
      refine ⟨hpast', fun _ h => (by cases h), fun _ h => (by cases h), fun raw' hr => ?_⟩
      cases hr
      exact hread raw rfl
    | removed raw =>
      exact ⟨hpast', hfile, fun _ h => (by cases h), fun _ h => (by cases h)⟩

end

/-! ## Runs -/

section

variable {inputs : List Step} {j k n : ℕ} {text : String}

theorem controlAt_succ {s : Step} (h : inputs[k]? = some s) :
    controlAt inputs (k + 1) = (controlAt inputs k).step s := at_succ h

theorem ordered_controlAt : (controlAt inputs k).Ordered :=
  at_invariant Control.ordered_initial fun _ s h => h.step s

theorem Control.step_now (control : Control) (s : Step) :
    (control.step s).now = control.now + 1 := by
  cases s with
  | replace text => rfl
  | advance =>
    obtain ⟨now, file, taking⟩ := control
    cases taking with
    | idle =>
      cases file with
      | none => rfl
      | some raw => rfl
    | read raw => rfl
    | removed raw => rfl

/-- The steps are counted. -/
theorem now_controlAt (h : k ≤ inputs.length) : (controlAt inputs k).now = k := by
  induction k with
  | zero => rfl
  | succ k ih =>
    have hi : inputs[k]? = some inputs[k] := List.getElem?_eq_getElem h
    rw [controlAt_succ hi, Control.step_now, ih (Nat.le_of_succ_le h)]

/-- A step of a run, with the number of steps before it. -/
theorem now_of_getElem? {s : Step} (h : inputs[k]? = some s) : (controlAt inputs k).now = k :=
  now_controlAt (Nat.le_of_lt (List.getElem?_eq_some_iff.1 h).1)

/-- What is gone stays so. -/
theorem gone_at (h : (controlAt inputs j).Gone n) (hjk : j ≤ k) : (controlAt inputs k).Gone n :=
  at_keeps (fun _ s hg => hg.step s) hjk h

theorem Control.Gone.not_waits {control : Control} (h : control.Gone k) :
    ¬ Waits k text control := by
  rintro (hf | hr | hr)
  · exact h.file _ hf rfl
  · exact h.read _ hr rfl
  · exact h.removed _ hr rfl

/-- What a take ends with is gone. -/
theorem gone_of_returned (hi : inputs[j]? = some .advance)
    (hr : (controlAt inputs j).taking = .removed ⟨k, text⟩) :
    (controlAt inputs (j + 1)).Gone k := by
  obtain ⟨hlt, hnewer⟩ := ordered_controlAt.removed _ hr
  rw [controlAt_succ hi]
  unfold Control.step
  rw [hr]
  exact ⟨Nat.lt_succ_of_lt hlt, fun written hw => Nat.ne_of_gt (hnewer written hw),
    fun _ h => (by cases h), fun _ h => (by cases h)⟩

/-- What is replaced before it was read is gone. -/
theorem gone_of_replaced {later : String} (hi : inputs[j]? = some (.replace later))
    (hf : (controlAt inputs j).file = some ⟨k, text⟩)
    (hr : (controlAt inputs j).taking ≠ .read ⟨k, text⟩) :
    (controlAt inputs (j + 1)).Gone k := by
  have hordered : (controlAt inputs j).Ordered := ordered_controlAt
  have hlt := hordered.file _ hf
  rw [controlAt_succ hi]
  refine ⟨Nat.lt_succ_of_lt hlt, fun written hw => ?_, fun raw h hstep => ?_, fun raw h hstep => ?_⟩
  · cases hw
    exact Nat.ne_of_gt hlt
  · rcases (hordered.read raw h).2 _ hf with hlt | heq
    · exact absurd hstep (Nat.ne_of_lt hlt)
    · exact hr (heq ▸ h)
  · exact absurd hstep (Nat.ne_of_lt ((hordered.removed raw h).2 _ hf))

/-- What the supervisor removes without having read it is gone. -/
theorem gone_of_raced {raw later : Written} (hi : inputs[j]? = some .advance)
    (hr : (controlAt inputs j).taking = .read raw) (hf : (controlAt inputs j).file = some later)
    (hne : later ≠ raw) : (controlAt inputs (j + 1)).Gone later.step := by
  have hordered : (controlAt inputs j).Ordered := ordered_controlAt
  have hlt := hordered.file _ hf
  have hnewer := ((hordered.read raw hr).2 _ hf).resolve_right hne
  rw [controlAt_succ hi]
  unfold Control.step
  rw [hr]
  refine ⟨Nat.lt_succ_of_lt hlt, fun _ h => (by cases h), fun _ h => (by cases h), fun raw' h => ?_⟩
  cases h
  exact Nat.ne_of_lt hnewer

/-- A text in the file was written by its step. -/
theorem written_by {written : Written} (h : (controlAt inputs j).file = some written) :
    inputs[written.step]? = some (.replace written.text) := by
  induction j with
  | zero => cases h
  | succ j ih =>
    rcases hi : inputs[j]? with _ | s
    · rw [controlAt, at_succ_of_none hi] at h
      exact ih h
    · rw [controlAt_succ hi] at h
      cases s with
      | replace text =>
        cases h
        rw [now_of_getElem? hi]
        exact hi
      | advance =>
        refine ih ?_
        generalize controlAt inputs j = control at h
        obtain ⟨now, file, taking⟩ := control
        cases taking with
        | idle =>
          cases file with
          | none => cases h
          | some raw => exact h
        | read raw => cases h
        | removed raw => exact h

/-- A command that is removed without having been read is lost. -/
theorem not_kept_of_raced (h : Raced inputs k) : ¬ Kept inputs := by
  obtain ⟨hi, raw, later, hr, hf, hcommand, hne⟩ := h
  obtain ⟨step, text⟩ := later
  intro hkept
  have hgone := gone_of_raced hi hr hf hne
  have hno : ¬ (controlAt inputs k).Gone step := fun hg => hg.file _ hf rfl
  have hk : k < inputs.length := (List.getElem?_eq_some_iff.1 hi).1
  rcases hkept step text ⟨written_by hf, hcommand⟩ with
    ⟨j, hj, hj', -⟩ | ⟨j, later, hj, hj', hj''⟩ | hwaits
  · rcases Nat.lt_or_ge k j with hlt | hge
    · exact (gone_at hgone hlt).removed _ hj' rfl
    · rcases Nat.lt_or_ge j k with hlt | hge'
      · exact hno (gone_at (gone_of_returned hj hj') hlt)
      · obtain rfl : j = k := Nat.le_antisymm hge hge'
        rw [hr] at hj'
        cases hj'
  · rcases Nat.lt_or_ge k j with hlt | hge
    · exact (gone_at hgone hlt).file _ hj' rfl
    · rcases Nat.lt_or_ge j k with hlt | hge'
      · exact hno (gone_at (gone_of_replaced hj hj' hj'') hlt)
      · obtain rfl : j = k := Nat.le_antisymm hge hge'
        rw [hi] at hj
        cases hj
  · exact (gone_at hgone hk).not_waits hwaits

/-- With no such step, a command that waits is returned or replaced, or waits on. -/
theorem waits_step (hno : ∀ k, ¬ Raced inputs k) (hcommand : (takenCommand text).isSome = true)
    (hw : Waits k text (controlAt inputs j)) {s : Step} (hi : inputs[j]? = some s) :
    Returned inputs k text ∨ Replaced inputs k text ∨
      Waits k text (controlAt inputs (j + 1)) := by
  rw [controlAt_succ hi]
  cases s with
  | replace later =>
    rcases hw with hf | hr | hr
    · by_cases hr : (controlAt inputs j).taking = .read ⟨k, text⟩
      · exact .inr (.inr (.inr (.inl hr)))
      · exact .inr (.inl ⟨j, later, hi, hf, hr⟩)
    · exact .inr (.inr (.inr (.inl hr)))
    · exact .inr (.inr (.inr (.inr hr)))
  | advance =>
    rcases htaking : (controlAt inputs j).taking with _ | raw | raw
    · have hf : (controlAt inputs j).file = some ⟨k, text⟩ := by
        rcases hw with hf | hr | hr
        · exact hf
        · rw [htaking] at hr
          cases hr
        · rw [htaking] at hr
          cases hr
      unfold Control.step
      rw [htaking, hf]
      exact .inr (.inr (.inr (.inl rfl)))
    · -- What is removed was read.
      have hraw : raw = ⟨k, text⟩ := by
        rcases hw with hf | hr | hr
        · by_contra hne
          exact hno j ⟨hi, raw, _, htaking, hf, hcommand, fun h => hne h.symm⟩
        · rw [htaking] at hr
          exact Taking.read.inj hr
        · rw [htaking] at hr
          cases hr
      unfold Control.step
      rw [htaking, hraw]
      exact .inr (.inr (.inr (.inr rfl)))
    · rcases hw with hf | hr | hr
      · unfold Control.step
        rw [htaking]
        exact .inr (.inr (.inl hf))
      · rw [htaking] at hr
        cases hr
      · refine .inl ⟨j, hi, hr, ?_⟩
        rw [Control.collected, hr]

/-- A command waits right after it was written. -/
theorem waits_of_commands (h : Commands inputs k text) :
    Waits k text (controlAt inputs (k + 1)) := by
  rw [controlAt_succ h.1, Control.step, now_of_getElem? h.1]
  exact .inl rfl

/-- With no such step, every command is kept. -/
theorem kept_of_not_raced (hno : ∀ k, ¬ Raced inputs k) : Kept inputs := by
  intro k text h
  suffices hall : ∀ m, k + 1 + m ≤ inputs.length → Returned inputs k text ∨
      Replaced inputs k text ∨ Waits k text (controlAt inputs (k + 1 + m)) by
    have hk : k < inputs.length := (List.getElem?_eq_some_iff.1 h.1).1
    have := hall (inputs.length - (k + 1)) (by omega)
    rwa [show k + 1 + (inputs.length - (k + 1)) = inputs.length by omega] at this
  intro m
  induction m with
  | zero => exact fun _ => .inr (.inr (waits_of_commands h))
  | succ m ih =>
    intro hm
    rcases ih (by omega) with hr | hr | hw
    · exact .inl hr
    · exact .inr (.inl hr)
    · exact waits_step hno h.2 hw (List.getElem?_eq_getElem (show k + 1 + m < _ by omega))

/-- Three steps return what is in the file. -/
theorem returned_of_idle (hf : (controlAt inputs j).file = some ⟨k, text⟩)
    (ht : (controlAt inputs j).taking = .idle) (h0 : inputs[j]? = some .advance)
    (h1 : inputs[j + 1]? = some .advance) (h2 : inputs[j + 2]? = some .advance) :
    Returned inputs k text := by
  have hread : (controlAt inputs (j + 1)).taking = .read ⟨k, text⟩ := by
    rw [controlAt_succ h0]
    unfold Control.step
    rw [ht, hf]
  have hremoved : (controlAt inputs (j + 2)).taking = .removed ⟨k, text⟩ := by
    rw [controlAt_succ h1]
    unfold Control.step
    rw [hread]
  exact ⟨j + 2, h2, hremoved, by rw [Control.collected, hremoved]⟩

/-- With no such step, the last command is returned. -/
theorem answered_of_not_raced (hno : ∀ k, ¬ Raced inputs k) : Answered inputs := by
  intro k text h hquiet hlen
  have hadvance : ∀ j, k < j → j < inputs.length → inputs[j]? = some .advance := by
    intro j hkj hj
    have hi : inputs[j]? = some inputs[j] := List.getElem?_eq_getElem hj
    rcases hs : inputs[j] with later | _
    · rw [hs] at hi
      exact absurd hi (hquiet j later hkj)
    · rw [hs] at hi
      exact hi
  have hnext : controlAt inputs (k + 1) = ⟨k + 1, some ⟨k, text⟩, (controlAt inputs k).taking⟩ := by
    rw [controlAt_succ h.1, Control.step, now_of_getElem? h.1]
  have hf : (controlAt inputs (k + 1)).file = some ⟨k, text⟩ := by rw [hnext]
  rcases ht : (controlAt inputs k).taking with _ | raw | raw
  · exact returned_of_idle hf (by rw [hnext, ht]) (hadvance _ (by omega) (by omega))
      (hadvance _ (by omega) (by omega)) (hadvance _ (by omega) (by omega))
  · -- The supervisor would remove the command over one that it has read before.
    have hlt := (ordered_controlAt.read raw ht).1
    rw [now_of_getElem? h.1] at hlt
    refine absurd ⟨hadvance (k + 1) (by omega) (by omega), raw, _, by rw [hnext, ht], hf, h.2, ?_⟩
      (hno (k + 1))
    rintro rfl
    exact Nat.lt_irrefl k hlt
  · have hidle : controlAt inputs (k + 2) = ⟨k + 2, some ⟨k, text⟩, .idle⟩ := by
      rw [controlAt_succ (hadvance (k + 1) (by omega) (by omega)), hnext, ht]
      rfl
    exact returned_of_idle (j := k + 2) (by rw [hidle]) (by rw [hidle])
      (hadvance _ (by omega) (by omega)) (hadvance _ (by omega) (by omega))
      (hadvance _ (by omega) (by omega))

/-- In every interleaving of requesters and the supervisor, every command is returned or replaced
before it was read, and the last one is returned, if and only if no command is written between the
read and the removal of another. -/
theorem commands_kept_iff (inputs : List Step) :
    (Kept inputs ∧ Answered inputs) ↔ ∀ k, ¬ Raced inputs k := by
  constructor
  · rintro ⟨hkept, -⟩ k hraced
    exact not_kept_of_raced hraced hkept
  · exact fun hno => ⟨kept_of_not_raced hno, answered_of_not_raced hno⟩

end

/-! ## Two requests -/

/-- STOCK is asked for between the read and the removal of HOME, and the supervisor goes on. -/
def homeThenStock : List Step :=
  [.replace "home\n", .advance, .replace "stock\n", .advance, .advance, .advance, .advance]

/-- The supervisor removes the second with the first, and never returns it. -/
theorem stock_lost :
    ¬ Kept homeThenStock ∧ ¬ Answered homeThenStock ∧
      ¬ Returned homeThenStock 2 "stock\n" := by
  have hne : (⟨2, "stock\n"⟩ : Written) ≠ ⟨0, "home\n"⟩ := by decide
  have hreturned : ¬ Returned homeThenStock 2 "stock\n" := by
    rintro ⟨j, -, htaking, -⟩
    have hgone : (controlAt homeThenStock 4).Gone 2 := gone_of_raced (j := 3) rfl rfl rfl hne
    rcases Nat.lt_or_ge j 4 with hlt | hge
    · have hearly : ∀ j < 4, (controlAt homeThenStock j).taking ≠ .removed ⟨2, "stock\n"⟩ := by
        decide
      exact hearly j hlt htaking
    · exact (gone_at hgone hge).removed _ htaking rfl
  refine ⟨not_kept_of_raced (k := 3) ⟨rfl, _, _, rfl, rfl, by decide, hne⟩,
    fun hanswered => ?_, hreturned⟩
  refine hreturned (hanswered 2 "stock\n" ⟨rfl, by decide⟩ (fun j later hlt hj => ?_) (by decide))
  have hlast : ∀ j < 7, 2 < j → homeThenStock[j]? = some .advance := by decide
  rw [hlast j (List.getElem?_eq_some_iff.1 hj).1 hlt] at hj
  cases hj

end Paperclip.Host
