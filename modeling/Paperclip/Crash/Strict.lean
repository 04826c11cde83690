import Paperclip.Crash.Safe

/-!
# Programs that give up

Where a failed step ends a program, what the step left is what the program leaves, but for what it
does on the way out.

* `p.Ends P`: `p` does not return, and takes only steps of `P`, whatever is answered.
* `p.Strict P F`: after a step whose answer is a failure (`F`), all that is left of `p` is such an
  end.
* `Strict.run`: the run of such a program, seen from one of its failed steps.
-/

namespace Crash.Prog

variable {S : Sig} {W ε ε' α β : Type} {h : Handler S W} {P : S.Op → Prop}
  {F : (op : S.Op) → S.Ret op → Prop}

/-! ## Ends -/

/-- The program fails in the end, and only takes steps of `P` until it does. -/
def Ends (P : S.Op → Prop) : Prog S ε α → Prop
  | done _ => False
  | fail _ => True
  | step op k => P op ∧ ∀ r, (k r).Ends P

@[simp] theorem ends_fail {e : ε} : (fail e : Prog S ε α).Ends P := trivial

@[simp] theorem ends_ofExcept_error {e : ε} : (ofExcept (.error e) : Prog S ε α).Ends P := trivial

theorem Ends.bind {p : Prog S ε α} {f : α → Prog S ε β} (hp : p.Ends P) : (p.bind f).Ends P := by
  induction p with
  | done a => exact hp.elim
  | fail e => trivial
  | step op k ih => exact ⟨hp.1, fun r => ih r (hp.2 r)⟩

theorem Ends.mapError {p : Prog S ε α} {g : ε → ε'} (hp : p.Ends P) : (p.mapError g).Ends P := by
  induction p with
  | done a => exact hp.elim
  | fail e => trivial
  | step op k ih => exact ⟨hp.1, fun r => ih r (hp.2 r)⟩

/-- Whatever comes of a part that stays within `P`, an end may follow it. -/
theorem Only.bind_ends {p : Prog S ε α} {f : α → Prog S ε β} (hp : p.Only P)
    (hf : ∀ a, (f a).Ends P) : (p.bind f).Ends P := by
  induction p with
  | done a => exact hf a
  | fail e => trivial
  | step op k ih => exact ⟨hp.1, fun r => ih r (hp.2 r)⟩

/-- A failure that is handed on to an end. -/
theorem Ends.attempt_bind {p : Prog S ε α} {f : Except ε α → Prog S ε' β} (hp : p.Ends P)
    (hf : ∀ e, (f (.error e)).Ends P) : (p.attempt.bind f).Ends P := by
  induction p with
  | done a => exact hp.elim
  | fail e => exact hf e
  | step op k ih => exact ⟨hp.1, fun r => ih r (hp.2 r)⟩

/-- A program that ends fails, and keeps what the steps of `P` keep. -/
theorem Ends.run {p : Prog S ε α} (hp : p.Ends P) (w : W) :
    (∃ e, (p.run h w).1 = .error e) ∧
      ∀ I : W → Prop, (∀ op w, P op → I w → I (h op w).2) → I w → I (p.run h w).2 := by
  induction p generalizing w with
  | done a => exact hp.elim
  | fail e => exact ⟨⟨e, rfl⟩, fun _ _ hw => hw⟩
  | step op k ih =>
    obtain ⟨hfails, hkeeps⟩ := ih _ (hp.2 _) (h op w).2
    exact ⟨hfails, fun I hI hw => hkeeps I hI (hI op w hp.1 hw)⟩

/-! ## Strictness -/

/-- After a failure the program ends. -/
def Strict (P : S.Op → Prop) (F : (op : S.Op) → S.Ret op → Prop) : Prog S ε α → Prop
  | done _ => True
  | fail _ => True
  | step op k => ∀ r, (F op r → (k r).Ends P) ∧ (k r).Strict P F

@[simp] theorem strict_done {a : α} : (done a : Prog S ε α).Strict P F := trivial

@[simp] theorem strict_fail {e : ε} : (fail e : Prog S ε α).Strict P F := trivial

@[simp] theorem strict_ofExcept {r : Except ε α} : (ofExcept r : Prog S ε α).Strict P F := by
  cases r <;> trivial

theorem Ends.strict {p : Prog S ε α} (hp : p.Ends P) : p.Strict P F := by
  induction p with
  | done a => trivial
  | fail e => trivial
  | step op k ih => exact fun r => ⟨fun _ => hp.2 r, ih r (hp.2 r)⟩

theorem Strict.bind {p : Prog S ε α} {f : α → Prog S ε β} (hp : p.Strict P F)
    (hf : ∀ a, (f a).Strict P F) : (p.bind f).Strict P F := by
  induction p with
  | done a => exact hf a
  | fail e => trivial
  | step op k ih => exact fun r => ⟨fun hr => ((hp r).1 hr).bind, ih r (hp r).2⟩

theorem Strict.mapError {p : Prog S ε α} {g : ε → ε'} (hp : p.Strict P F) :
    (p.mapError g).Strict P F := by
  induction p with
  | done a => trivial
  | fail e => trivial
  | step op k ih => exact fun r => ⟨fun hr => ((hp r).1 hr).mapError, ih r (hp r).2⟩

theorem Strict.each {f : β → Prog S ε Unit} {xs : List β} (hf : ∀ x, (f x).Strict P F) :
    (Prog.each f xs).Strict P F := by
  induction xs with
  | nil => trivial
  | cons x xs ih => exact (hf x).bind fun _ => ih

/-- The rule for a part whose failure is handed on: what follows a failure is an end. -/
theorem Strict.attempt_bind {p : Prog S ε α} {f : Except ε α → Prog S ε' β} (hp : p.Strict P F)
    (hok : ∀ a, (f (.ok a)).Strict P F) (he : ∀ e, (f (.error e)).Ends P) :
    (p.attempt.bind f).Strict P F := by
  induction p with
  | done a => exact hok a
  | fail e => exact (he e).strict
  | step op k ih => exact fun r => ⟨fun hr => ((hp r).1 hr).attempt_bind he, ih r (hp r).2⟩

/-- A part with no failures may go before anything. -/
theorem Only.strict {p : Prog S ε α} (hp : p.Only fun op => ∀ r, ¬ F op r) : p.Strict P F := by
  induction p with
  | done a => trivial
  | fail e => trivial
  | step op k ih => exact fun r => ⟨fun hr => absurd hr (hp.1 r), ih r (hp.2 r)⟩

/-- From a failed step on, the run keeps what the steps of `P` keep, and it fails. -/
theorem Strict.run {p : Prog S ε α} {w : W} {s : Step S W} (hp : p.Strict P F)
    (hs : s ∈ p.trace h w) (hF : F s.op s.ret) :
    (∃ e, (p.run h w).1 = .error e) ∧
      ∀ I : W → Prop, (∀ op w, P op → I w → I (h op w).2) → I s.after → I (p.run h w).2 := by
  induction p generalizing w with
  | done a => cases hs
  | fail e => cases hs
  | step op k ih =>
    rcases List.mem_cons.mp hs with rfl | hs
    · exact ((hp _).1 hF).run _
    · exact ih _ (hp _).2 hs

end Crash.Prog
