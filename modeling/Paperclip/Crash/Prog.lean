import Mathlib.Control.Lawful

/-!
# Programs of atomic steps

A program asks for one atomic step at a time and waits for the answer. Between two steps the
machine may stop, so besides its result a program has the list of worlds it passes through
(`Prog.points`), which is what a crash leaves behind, and the list of the steps it took
(`Prog.trace`).

* `Sig`: the steps and the type of each answer; `Prog S ε α`: a program over them that returns
  an `α` or fails with an `ε` (`?` is the monad's bind, `let _ =` is `Prog.attempt`).
* `Handler`: what a step does to a world. A world may carry the answers that are still to come,
  so one handler covers every behaviour of the other side.
* `Handler.logged`: the same handler with a log of the events that the steps emit.
-/

namespace Crash

/-- The steps a program may take, with the type of the answer to each. -/
structure Sig where
  Op : Type
  Ret : Op → Type

/-- A program over the steps of `S` that returns an `α` or fails with an `ε`. -/
inductive Prog (S : Sig) (ε α : Type) where
  | done (a : α)
  | fail (e : ε)
  | step (op : S.Op) (k : S.Ret op → Prog S ε α)

namespace Prog

variable {S : Sig} {ε ε' α β γ : Type}

/-- Sequencing. A failure of the first part ends the program. -/
def bind : Prog S ε α → (α → Prog S ε β) → Prog S ε β
  | done a, f => f a
  | fail e, _ => fail e
  | step op k, f => step op fun r => (k r).bind f

instance : Monad (Prog S ε) where
  pure := done
  bind := bind

@[simp] theorem pure_eq (a : α) : (pure a : Prog S ε α) = done a := rfl

@[simp] theorem bind_eq (p : Prog S ε α) (f : α → Prog S ε β) : p >>= f = p.bind f := rfl

@[simp] theorem bind_done (a : α) (f : α → Prog S ε β) : (done a : Prog S ε α).bind f = f a := rfl

@[simp] theorem bind_fail (e : ε) (f : α → Prog S ε β) : (fail e : Prog S ε α).bind f = fail e := rfl

@[simp] theorem bind_step (op : S.Op) (k : S.Ret op → Prog S ε α) (f : α → Prog S ε β) :
    (step op k).bind f = step op fun r => (k r).bind f := rfl

theorem bind_assoc (p : Prog S ε α) (f : α → Prog S ε β) (g : β → Prog S ε γ) :
    (p.bind f).bind g = p.bind fun a => (f a).bind g := by
  induction p with
  | done a => rfl
  | fail e => rfl
  | step op k ih => exact congrArg (step op) (funext ih)

theorem bind_pure (p : Prog S ε α) : p.bind done = p := by
  induction p with
  | done a => rfl
  | fail e => rfl
  | step op k ih => exact congrArg (step op) (funext ih)

instance : LawfulMonad (Prog S ε) :=
  LawfulMonad.mk' _ (fun p => bind_pure p) (fun _ _ => rfl) bind_assoc

/-- One step. -/
def ask (op : S.Op) : Prog S ε (S.Ret op) := step op done

/-- Runs `p` and hands its outcome, a failure included, to what follows. -/
def attempt : Prog S ε α → Prog S ε' (Except ε α)
  | done a => done (.ok a)
  | fail e => done (.error e)
  | step op k => step op fun r => (k r).attempt

/-- Runs `p` for its effects, and goes on whatever its outcome. -/
def ignore (p : Prog S ε α) : Prog S ε' Unit := p.attempt.bind fun (_ : Except ε α) => done ()

/-- The program with its failures translated. -/
def mapError (g : ε → ε') : Prog S ε α → Prog S ε' α
  | done a => done a
  | fail e => fail (g e)
  | step op k => step op fun r => (k r).mapError g

/-- The program over another set of steps, of which its own are some. -/
def embed {T : Sig} (f : S.Op → T.Op) (g : (op : S.Op) → T.Ret (f op) → S.Ret op) :
    Prog S ε α → Prog T ε α
  | done a => done a
  | fail e => fail e
  | step op k => step (f op) fun r => (k (g op r)).embed f g

/-- An answer that may be a failure, as a program. -/
def ofExcept : Except ε α → Prog S ε α
  | .ok a => done a
  | .error e => fail e

@[simp] theorem ofExcept_ok (a : α) : (ofExcept (.ok a) : Prog S ε α) = done a := rfl

@[simp] theorem ofExcept_error (e : ε) : (ofExcept (.error e) : Prog S ε α) = fail e := rfl

/-- `f` for each item in turn; the first failure ends the loop. -/
def each (f : β → Prog S ε Unit) : List β → Prog S ε Unit
  | [] => done ()
  | b :: bs => (f b).bind fun _ => each f bs

end Prog

/-- What a step answers and does to the world. -/
abbrev Handler (S : Sig) (W : Type) := (op : S.Op) → W → S.Ret op × W

/-- One step of a run. -/
structure Step (S : Sig) (W : Type) where
  op : S.Op
  ret : S.Ret op
  before : W
  after : W

namespace Prog

variable {S : Sig} {W ε ε' α β : Type}

/-- The outcome of a run that nothing interrupts, and the world it ends in. -/
def run (h : Handler S W) : Prog S ε α → W → Except ε α × W
  | done a, w => (.ok a, w)
  | fail e, w => (.error e, w)
  | step op k, w => (k (h op w).1).run h (h op w).2

/-- The worlds of a run: the first, the one after each step, the last. Stopped at any point, the
program leaves one of them. -/
def points (h : Handler S W) : Prog S ε α → W → List W
  | done _, w => [w]
  | fail _, w => [w]
  | step op k, w => w :: (k (h op w).1).points h (h op w).2

/-- The steps of a run, in order. -/
def trace (h : Handler S W) : Prog S ε α → W → List (Step S W)
  | done _, _ => []
  | fail _, _ => []
  | step op k, w => ⟨op, (h op w).1, w, (h op w).2⟩ :: (k (h op w).1).trace h (h op w).2

theorem run_bind (h : Handler S W) (p : Prog S ε α) (f : α → Prog S ε β) (w : W) :
    (p.bind f).run h w = match p.run h w with
      | (.ok a, w') => (f a).run h w'
      | (.error e, w') => (.error e, w') := by
  induction p generalizing w with
  | done a => rfl
  | fail e => rfl
  | step op k ih => exact ih _ _

theorem mem_points_self (h : Handler S W) (p : Prog S ε α) (w : W) : w ∈ p.points h w := by
  cases p <;> simp [points]

/-- The last world of a run is one of its points. -/
theorem run_mem_points (h : Handler S W) (p : Prog S ε α) (w : W) :
    (p.run h w).2 ∈ p.points h w := by
  induction p generalizing w with
  | done a => simp [run, points]
  | fail e => simp [run, points]
  | step op k ih => exact List.mem_cons_of_mem _ (ih _ _)

end Prog

/-! ## Logs -/

variable {S : Sig} {W E ε α : Type}

/-- The handler with a log of the events that each step emits. -/
def Handler.logged (h : Handler S W) (emit : Step S W → List E) : Handler S (W × List E) :=
  fun op w => ((h op w.1).1, (h op w.1).2, w.2 ++ emit ⟨op, (h op w.1).1, w.1, (h op w.1).2⟩)

namespace Prog

/-- The events of a run. -/
def events (h : Handler S W) (emit : Step S W → List E) (p : Prog S ε α) (w : W) : List E :=
  (p.trace h w).flatMap emit

theorem run_logged (h : Handler S W) (emit : Step S W → List E) (p : Prog S ε α) (w : W)
    (l : List E) :
    p.run (h.logged emit) (w, l) =
      ((p.run h w).1, (p.run h w).2, l ++ p.events h emit w) := by
  induction p generalizing w l with
  | done a => simp [run, events, trace]
  | fail e => simp [run, events, trace]
  | step op k ih => simp [run, Handler.logged, ih, events, trace, List.append_assoc]

/-- The log of a point is what the log of the run starts with. -/
theorem log_prefix (h : Handler S W) (emit : Step S W → List E) {p : Prog S ε α} {x y : W × List E}
    (hy : y ∈ p.points (h.logged emit) x) : y.2 <+: (p.run (h.logged emit) x).2.2 := by
  have hgrows : ∀ (p : Prog S ε α) (x : W × List E), x.2 <+: (p.run (h.logged emit) x).2.2 := by
    intro p x
    rw [show x = (x.1, x.2) from rfl, run_logged]
    exact List.prefix_append _ _
  induction p generalizing x with
  | done a =>
    rw [List.mem_singleton.mp hy]
    exact hgrows (.done a) x
  | fail e =>
    rw [List.mem_singleton.mp hy]
    exact hgrows (.fail e) x
  | step op k ih =>
    rcases List.mem_cons.mp hy with rfl | hy
    · exact hgrows (.step op k) y
    · exact ih _ hy

/-- Every point of a run is a point of the logged run, with some log. -/
theorem exists_logged_point (h : Handler S W) (emit : Step S W → List E) {p : Prog S ε α} {w w' : W}
    (l : List E) (hw : w' ∈ p.points h w) : ∃ l', (w', l') ∈ p.points (h.logged emit) (w, l) := by
  induction p generalizing w l with
  | done a => simp only [points, List.mem_singleton] at hw; exact ⟨l, by simp [points, hw]⟩
  | fail e => simp only [points, List.mem_singleton] at hw; exact ⟨l, by simp [points, hw]⟩
  | step op k ih =>
    rcases List.mem_cons.mp hw with rfl | hw
    · exact ⟨l, List.mem_cons_self⟩
    · obtain ⟨l', hl⟩ := ih _ _ hw
      exact ⟨l', List.mem_cons_of_mem _ hl⟩

end Prog

end Crash
