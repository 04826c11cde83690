import Paperclip.Crash.Strict
import Paperclip.Files.Recursive

/-!
# Filesystems that fault

* `Faults`: which operations of a run fault, and how. `faulty`: a filesystem that nobody else uses,
  with such faults.
* `Failure`: an operation that failed, in the eyes of the programs. A directory to be removed that is
  not there, and one to be made that is, are none.
* `Loud`: the failures that a program hears. A program that removes a tree gives up at the first.
-/

namespace Files

open Crash Prog

/-- How a faulting operation answers. -/
def Fault.error : Fault → IoError
  | before e | after e => e

/-- Which operations of a run fault. What is or is not there is an answer, and no fault. -/
structure Faults where
  at_ : ℕ → Option Fault
  device : ∀ n fault, at_ n = some fault → fault.error ≠ .notFound ∧ fault.error ≠ .alreadyExists

variable {S : Sig} {P F : Type} {D : F → Type} {ε : Type}

/-- An operation that failed. -/
def Failure : (op : (withFs S P F D).Op) → (withFs S P F D).Ret op → Prop
  | .inl (.removalOrder _), r => ∃ e, r = .error e ∧ e ≠ .notFound
  | .inl (.createDir _ _), r => ∃ e, r = .error e ∧ e ≠ .alreadyExists
  | .inl _, r => ∃ e, r = .error e
  | .inr _, _ => False

/-- Failures of operations, among those that a program hears. -/
def Loud (H : (op : (withFs S P F D).Op) → (withFs S P F D).Ret op → Prop) : Prop :=
  ∀ op r, H op r → Failure op r

section Strictness

variable {H : (op : (withFs S P F D).Op) → (withFs S P F D).Ret op → Prop}
  {Q : (withFs S P F D).Op → Prop}

theorem Failure.error {o : FsOp P F D} {r : Except IoError o.Ok}
    (h : Failure (S := S) (.inl o) r) : ∃ e, r = .error e := by
  cases o
  case removalOrder => exact h.imp fun _ h => h.1
  case createDir => exact h.imp fun _ h => h.1
  all_goals exact h

theorem strict_fs (hH : Loud H) (o : FsOp P F D) :
    (fs o : Prog (withFs S P F D) IoError o.Ok).Strict Q H := by
  refine fun r => ⟨fun hr => ?_, strict_ofExcept⟩
  obtain ⟨e, rfl⟩ := (hH _ _ hr).error
  exact ends_ofExcept_error

theorem strict_removeTree (hH : Loud H) (p : P) :
    (removeTree p : Prog (withFs S P F D) IoError Unit).Strict Q H := by
  refine fun r => ⟨fun hr => ?_, ?_⟩
  · obtain ⟨e, rfl, he⟩ := hH _ _ hr
    cases e
    case notFound => exact absurd rfl he
    all_goals trivial
  · cases r with
    | error e => cases e <;> trivial
    | ok paths =>
      exact (Strict.each fun x => strict_fs hH _).bind fun _ => strict_fs hH _

end Strictness

variable [DecidableEq P] [DecidableEq F]

/-- A filesystem that nobody else uses, on which the `n`th operation faults as `faults` says. -/
def faulty (order : Tree.Order) (faults : Faults) :
    Handler (withFs noCalls P F D) (Disk P F D × ℕ)
  | .inl o, (d, n) => ((o.execWith order (faults.at_ n) d).1, (o.execWith order (faults.at_ n) d).2, n + 1)
  | .inr o, _ => o.elim

/-- An operation changes only the documents it names, even if it faults. -/
theorem faulty_doc (order : Tree.Order) (faults : Faults) {o : FsOp P F D} {f : F}
    (hf : f ∉ o.names) (w : Disk P F D × ℕ) :
    ((faulty order faults (.inl o) w).2.1).doc f = w.1.doc f := by
  rcases FsOp.execWith_snd order (faults.at_ w.2) o w.1 with h | h
  · exact congrArg (Disk.doc · f) h
  · exact (congrArg (Disk.doc · f) h).trans (FsOp.exec_doc order o w.1 hf)

end Files
