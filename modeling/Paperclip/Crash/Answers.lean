import Paperclip.Crash.Prog

/-!
# Whatever the answers

Where nothing is assumed of the other side, what a program does is known by the steps that it took and
by their answers, and a statement about it is one about every answer to every step.

* `Prog.answers`: the steps of a run with their answers.
* `p.Every Q l`: after the steps `l`, whatever is answered from now on, the outcome of `p` and all the
  steps so far satisfy `Q`.
* `Every.bind`, `Every.attempt_bind`: the structural rules.
-/

namespace Crash

/-- A step with its answer. -/
structure Event (S : Sig) where
  op : S.Op
  ret : S.Ret op

namespace Prog

variable {S : Sig} {W ε ε' α β : Type} {Q Q' : Except ε α → List (Event S) → Prop}
  {l : List (Event S)}

/-- The steps of a run, with their answers. -/
def answers (h : Handler S W) (p : Prog S ε α) (w : W) : List (Event S) :=
  (p.trace h w).map fun step => ⟨step.op, step.ret⟩

/-- Whatever is answered, the program ends in `Q`. -/
def Every (Q : Except ε α → List (Event S) → Prop) : Prog S ε α → List (Event S) → Prop
  | done a, l => Q (.ok a) l
  | fail e, l => Q (.error e) l
  | step op k, l => ∀ r, (k r).Every Q (l ++ [⟨op, r⟩])

@[simp] theorem every_done {a : α} : (done a : Prog S ε α).Every Q l ↔ Q (.ok a) l := Iff.rfl

@[simp] theorem every_fail {e : ε} : (fail e : Prog S ε α).Every Q l ↔ Q (.error e) l := Iff.rfl

@[simp] theorem every_step {op : S.Op} {k : S.Ret op → Prog S ε α} :
    (step op k).Every Q l ↔ ∀ r, (k r).Every Q (l ++ [⟨op, r⟩]) := Iff.rfl

@[simp] theorem every_ask {op : S.Op} {Q : Except ε (S.Ret op) → List (Event S) → Prop} :
    (ask op : Prog S ε _).Every Q l ↔ ∀ r, Q (.ok r) (l ++ [⟨op, r⟩]) := Iff.rfl

@[simp] theorem every_ofExcept {r : Except ε α} : (ofExcept r : Prog S ε α).Every Q l ↔ Q r l := by
  cases r <;> rfl

/-- What holds whatever is answered holds of every run. -/
theorem Every.run {p : Prog S ε α} (h : Handler S W) (w : W) (hp : p.Every Q l) :
    Q (p.run h w).1 (l ++ p.answers h w) := by
  induction p generalizing w l with
  | done a => simpa [answers, trace, Prog.run] using hp
  | fail e => simpa [answers, trace, Prog.run] using hp
  | step op k ih => simpa [answers, trace, Prog.run] using ih _ (h op w).2 (hp (h op w).1)

theorem Every.mono {p : Prog S ε α} (hp : p.Every Q l) (hQ : ∀ r l', Q r l' → Q' r l') :
    p.Every Q' l := by
  induction p generalizing l with
  | done a => exact hQ _ _ hp
  | fail e => exact hQ _ _ hp
  | step op k ih => exact fun r => ih r (hp r)

/-- The sequencing rule: what `f` needs is the postcondition of `p`. -/
theorem Every.bind {p : Prog S ε α} {f : α → Prog S ε β} {R : Except ε β → List (Event S) → Prop}
    (hp : p.Every Q l) (hf : ∀ a l', Q (.ok a) l' → (f a).Every R l')
    (he : ∀ e l', Q (.error e) l' → R (.error e) l') : (p.bind f).Every R l := by
  induction p generalizing l with
  | done a => exact hf a l hp
  | fail e => exact he e l hp
  | step op k ih => exact fun r => ih r (hp r)

/-- The rule for a part whose failure is handed on. -/
theorem Every.attempt_bind {p : Prog S ε α} {f : Except ε α → Prog S ε' β}
    {R : Except ε' β → List (Event S) → Prop} (hp : p.Every (fun r l' => (f r).Every R l') l) :
    (p.attempt.bind f).Every R l := by
  induction p generalizing l with
  | done a => exact hp
  | fail e => exact hp
  | step op k ih => exact fun r => ih r (hp r)

end Prog

end Crash
