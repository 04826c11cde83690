import Paperclip.Input.Evdev
import Mathlib.Data.List.Basic

/-!
# The lives of contacts

What the decoders of input events are for: whoever touches the panel holds at most one contact,
takes a fresh id for it, and tells its whole life under that id.

* `Stroke`, `PenLife`: the phases of a contact, as words.
* `Roster.Step`: what one holder may do with its contact.
* `Traced`: what the events emitted so far have to do with what is held. Every step keeps it.
-/

namespace Paperclip.Input

/-! ## Words of phases -/

/-- `Down Moved* (Up | Cancelled)`. -/
def Stroke (w : List PointerPhase) : Prop :=
  ∃ n last, (last = .up ∨ last = .cancelled) ∧
    w = PointerPhase.down :: List.replicate n .moved ++ [last]

/-- `Hover* (Down Moved* (Up | Cancelled))?`. -/
def PenLife (w : List PointerPhase) : Prop :=
  ∃ m rest, w = List.replicate m .hover ++ rest ∧ (rest = [] ∨ Stroke rest)

/-- The life of a contact, which may or may not hover. -/
def Life (hovers : Bool) : List PointerPhase → Prop := if hovers then PenLife else Stroke

/-- The word can be continued to one of the kind. -/
def Begins (L : List PointerPhase → Prop) (w : List PointerPhase) : Prop := ∃ later, L (w ++ later)

/-- How far a life has come. -/
inductive Stage where
  | hovering
  | pressing
  | ended

/-- The stage of a contact that is held. -/
def Stage.ofPressed (pressed : Bool) : Stage := if pressed then .pressing else .hovering

/-- The words of a stage. -/
def At (hovers : Bool) : Stage → List PointerPhase → Prop
  | .hovering, w => ∃ m, (hovers = false → m = 0) ∧ w = List.replicate m .hover
  | .pressing, w => ∃ m n, (hovers = false → m = 0) ∧
      w = List.replicate m .hover ++ .down :: List.replicate n .moved
  | .ended, w => ∃ m n last, (hovers = false → m = 0) ∧ (last = .up ∨ last = .cancelled) ∧
      w = List.replicate m .hover ++ .down :: List.replicate n .moved ++ [last]

section
variable {hovers : Bool} {w : List PointerPhase}

theorem at_nil : At hovers .hovering [] := ⟨0, fun _ => rfl, rfl⟩

theorem At.hover (h : At hovers .hovering w) (hh : hovers = true) :
    At hovers .hovering (w ++ [.hover]) := by
  obtain ⟨m, -, rfl⟩ := h
  refine ⟨m + 1, fun hf => ?_, List.replicate_succ'.symm⟩
  rw [hh] at hf
  cases hf

theorem At.down (h : At hovers .hovering w) : At hovers .pressing (w ++ [.down]) := by
  obtain ⟨m, hm, rfl⟩ := h
  exact ⟨m, 0, hm, rfl⟩

theorem At.moved (h : At hovers .pressing w) : At hovers .pressing (w ++ [.moved]) := by
  obtain ⟨m, n, hm, rfl⟩ := h
  refine ⟨m, n + 1, hm, ?_⟩
  rw [List.append_assoc, List.cons_append, List.replicate_succ']

theorem At.finish {last : PointerPhase} (h : At hovers .pressing w)
    (hl : last = .up ∨ last = .cancelled) : At hovers .ended (w ++ [last]) := by
  obtain ⟨m, n, hm, rfl⟩ := h
  exact ⟨m, n, last, hm, hl, rfl⟩

/-- A stroke after some hovering is a life, if only a contact that may hover has hovered. -/
theorem life_of_stroke {m : Nat} {u : List PointerPhase} (hm : hovers = false → m = 0)
    (hu : Stroke u) : Life hovers (List.replicate m .hover ++ u) := by
  cases hovers with
  | false =>
    rw [hm rfl]
    exact hu
  | true => exact ⟨m, u, rfl, .inr hu⟩

/-- Whatever the stage, the life can be led to its end. -/
theorem At.begins {stage : Stage} (h : At hovers stage w) : Begins (Life hovers) w := by
  cases stage with
  | hovering =>
    obtain ⟨m, hm, rfl⟩ := h
    exact ⟨[.down, .up], life_of_stroke hm ⟨0, .up, .inl rfl, rfl⟩⟩
  | pressing =>
    obtain ⟨m, n, hm, rfl⟩ := h
    refine ⟨[.up], ?_⟩
    rw [List.append_assoc]
    exact life_of_stroke hm ⟨n, .up, .inl rfl, rfl⟩
  | ended =>
    obtain ⟨m, n, last, hm, hl, rfl⟩ := h
    refine ⟨[], ?_⟩
    rw [List.append_nil, List.append_assoc]
    exact life_of_stroke hm ⟨n, last, hl, rfl⟩

end

/-! ## What comes before what -/

/-- The phase ends a contact. -/
def PointerPhase.Ends (phase : PointerPhase) : Prop := phase = .up ∨ phase = .cancelled

section
variable {hovers : Bool} {w v : List PointerPhase} {phase : PointerPhase}

/-- A life is some hovering, and a stroke or nothing. -/
theorem Life.penLife (h : Life hovers w) : PenLife w := by
  cases hovers with
  | false => exact ⟨0, w, rfl, .inr h⟩
  | true => exact h

/-- Nothing comes after the end of a contact. -/
theorem Life.not_ends (h : Life hovers (w ++ phase :: v)) : ∀ q ∈ w, ¬ q.Ends := by
  obtain ⟨m, rest, heq, rfl | ⟨n, last, -, rfl⟩⟩ := h.penLife
  · intro q hq hend
    have hmem : q ∈ List.replicate m PointerPhase.hover ++ [] :=
      heq ▸ List.mem_append_left _ hq
    rw [List.append_nil] at hmem
    rcases List.eq_of_mem_replicate hmem ▸ hend with h | h <;> cases h
  · obtain ⟨first, final, hfinal⟩ : ∃ first final, phase :: v = first ++ [final] := by
      rcases List.eq_nil_or_concat (phase :: v) with hnil | ⟨first, final, h⟩
      · cases hnil
      · exact ⟨first, final, h.trans List.concat_eq_append⟩
    rw [hfinal, ← List.append_assoc, ← List.append_assoc] at heq
    have hinit := (List.append_inj' heq rfl).1
    intro q hq hend
    have hmem := hinit ▸ List.mem_append_left first hq
    rcases List.mem_append.1 hmem with hmem | hmem
    · rcases List.eq_of_mem_replicate hmem ▸ hend with h | h <;> cases h
    · rcases List.mem_cons.1 hmem with rfl | hmem
      · rcases hend with h | h <;> cases h
      · rcases List.eq_of_mem_replicate hmem ▸ hend with h | h <;> cases h

/-- What is not hovering, and does not begin a stroke, comes after what does. -/
theorem Life.down_mem (h : Life hovers (w ++ phase :: v)) (hhover : phase ≠ .hover)
    (hdown : phase ≠ .down) : PointerPhase.down ∈ w := by
  obtain ⟨m, rest, heq, hrest⟩ := h.penLife
  have hstroke {c : List PointerPhase} (hc : rest = c ++ phase :: v) : PointerPhase.down ∈ c := by
    rcases hrest with rfl | ⟨n, last, -, rfl⟩
    · simp at hc
    · cases c with
      | nil => exact absurd (List.cons.inj hc).1.symm hdown
      | cons q c =>
        rw [← (List.cons.inj hc).1]
        exact List.mem_cons_self
  rcases List.append_eq_append_iff.1 heq with ⟨a, ha, hrest'⟩ | ⟨c, rfl, hc⟩
  · cases a with
    | nil => exact absurd (hstroke (c := []) hrest'.symm) List.not_mem_nil
    | cons q a =>
      have hq : q ∈ List.replicate m PointerPhase.hover := ha ▸ by simp
      rw [(List.cons.inj hrest').1, List.eq_of_mem_replicate hq] at hhover
      exact absurd rfl hhover
  · exact List.mem_append_right _ (hstroke hc)
end

/-! ## The roster -/

/-- One event: whose it is, of which contact, and its phase. -/
structure Emission (H : Type) where
  holder : H
  contact : Nat
  phase : PointerPhase

/-- The phases emitted for a contact. -/
def word {H : Type} (out : List (Emission H)) (c : Nat) : List PointerPhase :=
  (out.filter (·.contact = c)).map (·.phase)

/-- Who holds which contact, and whether it is pressed; and the next free id. -/
structure Roster (H : Type) where
  held : H → Option (Nat × Bool)
  next : Nat

namespace Roster

variable {H : Type} [DecidableEq H] {hovers : H → Bool}

/-- The roster with another contact of one holder. -/
def put (r : Roster H) (h : H) (held : Option (Nat × Bool)) : Roster H :=
  { r with held := Function.update r.held h held }

@[simp] theorem put_next (r : Roster H) (h : H) (v : Option (Nat × Bool)) :
    (r.put h v).next = r.next := rfl

@[simp] theorem put_held_self (r : Roster H) (h : H) (v : Option (Nat × Bool)) :
    (r.put h v).held h = v := Function.update_self ..

theorem put_held_of_ne {r : Roster H} {h h' : H} {v : Option (Nat × Bool)} (hne : h' ≠ h) :
    (r.put h v).held h' = r.held h' := Function.update_of_ne hne ..

theorem put_held {r : Roster H} {h : H} {v : Option (Nat × Bool)} (hh : r.held h = v) :
    r.put h v = r := by
  rw [put, ← hh, Function.update_eq_self]

def empty : Roster H := ⟨fun _ => none, 0⟩

/-- What one holder may do. -/
inductive Step (hovers : H → Bool) : Roster H → List (Emission H) → Roster H → Prop
  | begin {r h} (unpressed : ∀ c, r.held h ≠ some (c, true)) :
      Step hovers r [] { r.put h (some (r.next, false)) with next := r.next + 1 }
  | abandon {r h} (unpressed : ∀ c, r.held h ≠ some (c, true)) : Step hovers r [] (r.put h none)
  | hover {r h c} (held : r.held h = some (c, false)) (may : hovers h = true) :
      Step hovers r [⟨h, c, .hover⟩] r
  | press {r h c} (held : r.held h = some (c, false)) :
      Step hovers r [⟨h, c, .down⟩] (r.put h (some (c, true)))
  | move {r h c} (held : r.held h = some (c, true)) : Step hovers r [⟨h, c, .moved⟩] r
  | finish {r h c last} (held : r.held h = some (c, true)) (ends : last = .up ∨ last = .cancelled) :
      Step hovers r [⟨h, c, last⟩] (r.put h none)

/-- Some steps, with all they emit. -/
inductive Steps (hovers : H → Bool) : Roster H → List (Emission H) → Roster H → Prop
  | refl {r} : Steps hovers r [] r
  | head {r r' r'' out out'} (step : Step hovers r out r') (rest : Steps hovers r' out' r'') :
      Steps hovers r (out ++ out') r''

theorem Step.steps {r r' : Roster H} {out : List (Emission H)} (h : Step hovers r out r') :
    Steps hovers r out r' := by
  simpa using Steps.head h .refl

theorem Steps.trans {r r' r'' : Roster H} {out out' : List (Emission H)}
    (h : Steps hovers r out r') (h' : Steps hovers r' out' r'') :
    Steps hovers r (out ++ out') r'' := by
  induction h with
  | refl => exact h'
  | head step _ ih =>
    rw [List.append_assoc]
    exact .head step (ih h')

end Roster

/-! ## What has been emitted -/

section
variable {H : Type} {out : List (Emission H)} {e : Emission H} {c : Nat}

theorem word_append_self : word (out ++ [e]) e.contact = word out e.contact ++ [e.phase] := by
  simp [word]

theorem word_append_of_ne (h : c ≠ e.contact) : word (out ++ [e]) c = word out c := by
  simp [word, Ne.symm h]

theorem word_eq_nil (h : ∀ e ∈ out, e.contact ≠ c) : word out c = [] := by
  rw [word, List.map_eq_nil_iff, List.filter_eq_nil_iff]
  simpa using h

end

/-- What the events emitted so far have to do with what is held. -/
structure Traced {H : Type} (hovers : H → Bool) (out : List (Emission H)) (r : Roster H) :
    Prop where
  /-- No two hold one contact. -/
  apart : ∀ {h h' c b b'}, r.held h = some (c, b) → r.held h' = some (c, b') → h = h'
  below : ∀ {h c b}, r.held h = some (c, b) → c < r.next
  spent : ∀ e ∈ out, e.contact < r.next
  /-- What is held has come as far as its holder has it. -/
  stage : ∀ {h c b}, r.held h = some (c, b) → At (hovers h) (.ofPressed b) (word out c)
  own : ∀ {h c b}, r.held h = some (c, b) → ∀ e ∈ out, e.contact = c → e.holder = h
  /-- An id has had one holder, and tells the beginning of a life. -/
  life : ∀ e ∈ out, (∀ e' ∈ out, e'.contact = e.contact → e'.holder = e.holder) ∧
    Begins (Life (hovers e.holder)) (word out e.contact)

namespace Traced

variable {H : Type} {hovers : H → Bool} {out : List (Emission H)} {r : Roster H} {h : H} {c : Nat}
  {b : Bool}

theorem empty : Traced hovers [] (.empty : Roster H) where
  apart := nofun
  below := nofun
  spent := by simp
  stage := nofun
  own := nofun
  life := by simp

variable [DecidableEq H]

/-- Giving up a contact emits nothing. -/
theorem abandon (t : Traced hovers out r) : Traced hovers out (r.put h none) := by
  have back {h' c b} (hv : (r.put h none).held h' = some (c, b)) : r.held h' = some (c, b) := by
    rcases eq_or_ne h' h with rfl | hne
    · rw [Roster.put_held_self] at hv
      cases hv
    · rwa [Roster.put_held_of_ne hne] at hv
  exact ⟨fun h₁ h₂ => t.apart (back h₁) (back h₂), fun h₁ => t.below (back h₁), t.spent,
    fun h₁ => t.stage (back h₁), fun h₁ => t.own (back h₁), t.life⟩

/-- A fresh id has not been heard of. -/
theorem start (t : Traced hovers out r) :
    Traced hovers out { r.put h (some (r.next, false)) with next := r.next + 1 } := by
  have back {h' c b} (hv : (r.put h (some (r.next, false))).held h' = some (c, b)) :
      h' = h ∧ c = r.next ∧ b = false ∨ h' ≠ h ∧ r.held h' = some (c, b) := by
    rcases eq_or_ne h' h with rfl | hne
    · rw [Roster.put_held_self] at hv
      cases hv
      exact .inl ⟨rfl, rfl, rfl⟩
    · rw [Roster.put_held_of_ne hne] at hv
      exact .inr ⟨hne, hv⟩
  have unheard : ∀ e ∈ out, e.contact ≠ r.next := fun e he => Nat.ne_of_lt (t.spent e he)
  refine ⟨fun h₁ h₂ => ?_, fun h₁ => ?_, fun e he => Nat.lt_succ_of_lt (t.spent e he),
    fun h₁ => ?_, fun h₁ e he hc => ?_, t.life⟩
  · rcases back h₁ with ⟨rfl, rfl, -⟩ | ⟨-, old₁⟩ <;> rcases back h₂ with ⟨rfl, hc, -⟩ | ⟨-, old₂⟩
    · rfl
    · exact absurd (t.below old₂) (Nat.lt_irrefl _)
    · exact absurd (hc ▸ t.below old₁) (Nat.lt_irrefl _)
    · exact t.apart old₁ old₂
  · rcases back h₁ with ⟨-, rfl, -⟩ | ⟨-, h₁⟩
    · exact Nat.lt_succ_self _
    · exact Nat.lt_succ_of_lt (t.below h₁)
  · rcases back h₁ with ⟨rfl, rfl, rfl⟩ | ⟨-, h₁⟩
    · rw [word_eq_nil unheard]
      exact at_nil
    · exact t.stage h₁
  · rcases back h₁ with ⟨-, rfl, -⟩ | ⟨-, h₁⟩
    · exact absurd hc (unheard e he)
    · exact t.own h₁ e he hc

/-- A holder emits an event of its contact, and keeps it at the stage that this reaches or lets it
go. -/
theorem emit {phase : PointerPhase} {stage : Stage} (t : Traced hovers out r)
    (hh : r.held h = some (c, b)) (hw : At (hovers h) stage (word out c ++ [phase]))
    (v : Option (Nat × Bool)) (hv : ∀ c' b', v = some (c', b') → c' = c ∧ stage = .ofPressed b') :
    Traced hovers (out ++ [⟨h, c, phase⟩]) (r.put h v) := by
  have back {h' c' b'} (hp : (r.put h v).held h' = some (c', b')) :
      h' = h ∧ c' = c ∧ stage = .ofPressed b' ∨ h' ≠ h ∧ c' ≠ c ∧ r.held h' = some (c', b') := by
    rcases eq_or_ne h' h with rfl | hne
    · rw [Roster.put_held_self] at hp
      exact .inl ⟨rfl, hv c' b' hp⟩
    · rw [Roster.put_held_of_ne hne] at hp
      refine .inr ⟨hne, ?_, hp⟩
      rintro rfl
      exact hne (t.apart hp hh)
  have mine {e : Emission H} (he : e ∈ out ++ [⟨h, c, phase⟩]) (hc : e.contact = c) :
      e.holder = h := by
    rcases List.mem_append.1 he with he | he
    · exact t.own hh e he hc
    · rw [List.mem_singleton.1 he]
  refine ⟨fun h₁ h₂ => ?_, fun h₁ => ?_, fun e he => ?_, fun h₁ => ?_, fun h₁ e he hc => ?_,
    fun e he => ?_⟩
  · rcases back h₁ with ⟨rfl, rfl, -⟩ | ⟨-, hn, old₁⟩ <;>
      rcases back h₂ with ⟨rfl, hc, -⟩ | ⟨-, hn', old₂⟩
    · rfl
    · exact absurd rfl hn'
    · exact absurd hc hn
    · exact t.apart old₁ old₂
  · rcases back h₁ with ⟨-, rfl, -⟩ | ⟨-, -, h₁⟩
    · exact t.below hh
    · exact t.below h₁
  · rcases List.mem_append.1 he with he | he
    · exact t.spent e he
    · rw [List.mem_singleton.1 he]
      exact t.below hh
  · rcases back h₁ with ⟨rfl, rfl, rfl⟩ | ⟨-, hn, h₁⟩
    · exact word_append_self (e := ⟨_, _, phase⟩) ▸ hw
    · rw [word_append_of_ne hn]
      exact t.stage h₁
  · rcases back h₁ with ⟨rfl, rfl, -⟩ | ⟨-, hn, h₁⟩
    · exact mine he hc
    · rcases List.mem_append.1 he with he | he
      · exact t.own h₁ e he hc
      · rw [List.mem_singleton.1 he] at hc
        exact absurd hc.symm hn
  · rcases eq_or_ne e.contact c with hc | hn
    · refine ⟨fun e' he' hc' => (mine he' (hc'.trans hc)).trans (mine he hc).symm, ?_⟩
      rw [mine he hc, hc]
      exact word_append_self (e := ⟨_, _, phase⟩) ▸ hw.begins
    · rw [word_append_of_ne hn]
      have he : e ∈ out := by
        rcases List.mem_append.1 he with he | he
        · exact he
        · rw [List.mem_singleton.1 he] at hn
          exact absurd rfl hn
      refine ⟨fun e' he' hc' => ?_, (t.life e he).2⟩
      rcases List.mem_append.1 he' with he' | he'
      · exact (t.life e he).1 e' he' hc'
      · rw [List.mem_singleton.1 he'] at hc'
        exact absurd hc'.symm hn

theorem step {out' : List (Emission H)} {r' : Roster H} (t : Traced hovers out r)
    (hs : Roster.Step hovers r out' r') : Traced hovers (out ++ out') r' := by
  cases hs with
  | begin _ => rw [List.append_nil]; exact t.start
  | abandon _ => rw [List.append_nil]; exact t.abandon
  | hover held may =>
    have := t.emit held ((t.stage held).hover may) (some (_, false))
      (by rintro c' b' ⟨⟩; exact ⟨rfl, rfl⟩)
    rwa [Roster.put_held held] at this
  | press held =>
    exact t.emit held (t.stage held).down _ (by rintro c' b' ⟨⟩; exact ⟨rfl, rfl⟩)
  | move held =>
    have := t.emit held (t.stage held).moved (some (_, true))
      (by rintro c' b' ⟨⟩; exact ⟨rfl, rfl⟩)
    rwa [Roster.put_held held] at this
  | finish held ends => exact t.emit held ((t.stage held).finish ends) none nofun

/-- Whatever the holders do, what was emitted stays in order. -/
theorem steps {out' : List (Emission H)} {r' : Roster H} (t : Traced hovers out r)
    (hs : Roster.Steps hovers r out' r') : Traced hovers (out ++ out') r' := by
  induction hs generalizing out with
  | refl => rwa [List.append_nil]
  | head step _ ih =>
    rw [← List.append_assoc]
    exact ih (t.step step)

end Traced

end Paperclip.Input
