import Paperclip.Crash.Safe
import Paperclip.Files.Tree

/-!
# Disks of named directories and documents

A `Disk P F D` has a directory tree for each place of `P` that exists, and a document of type
`D f` for each name `f` of `F` that exists. A document is a file, or a symbolic link, that is only
ever replaced whole: the new content goes to a temporary name that nothing reads and is renamed
over the old one, so `FsOp.put` is one step. Everything else about a directory happens one entry
at a time.

* `FsOp`: the operations; `FsOp.exec`: what one does. `fsync` has no step: a disk is what a
  process that was killed leaves, and what survives a power cut once the directory was synced.
* `FsOp.execWith`: the same with a fault, which an operation reports before or after its effect.
* `FsOp.places`, `FsOp.names`: what an operation may change; `exec_dir`, `exec_doc`: it changes
  nothing else.
-/

namespace Files

open Crash

/-- Named directories and documents. -/
structure Disk (P F : Type) (D : F → Type) where
  dirs : AList fun _ : P => Tree
  docs : AList D

/-- What kind of entry a listing says a name is. -/
inductive Kind where
  | file
  | dir
  | special
  deriving DecidableEq, Repr

/-- The kind of an entry. -/
def Entry.kind : Entry → Kind
  | file _ _ => .file
  | dir => .dir
  | special => .special

/-- The operations of a filesystem. A place `p` with a path `x` names an entry below it. -/
inductive FsOp (P F : Type) (D : F → Type) where
  | dirNames
  | docNames
  | isDir (p : P) (x : Path)
  | createDirAll (p : P)
  | rename (p q : P)
  | removalOrder (p : P)
  | removeDir (p : P)
  | unlink (p : P) (x : Path)
  | lookup (p : P) (x : Path)
  | readDir (p : P) (x : Path)
  | createDir (p : P) (x : Path)
  | createNew (p : P) (x : Path)
  | write (p : P) (x : Path) (bytes : Bytes)
  | setExecutable (p : P) (x : Path)
  | copyFile (p : P) (x : Path) (q : P) (y : Path)
  | get (f : F)
  | has (f : F)
  | put (f : F) (d : D f)
  | delete (f : F)

namespace FsOp

variable {P F : Type} {D : F → Type}

/-- What an operation gives when it does not fail. `lookup` gives the entry, contents included. -/
@[reducible] def Ok : FsOp P F D → Type
  | dirNames => List P
  | docNames => List F
  | isDir _ _ | has _ => Bool
  | removalOrder _ => List Path
  | lookup _ _ => Option Entry
  | readDir _ _ => List (String × Kind)
  | get f => Option (D f)
  | _ => Unit

/-- The places whose directory the operation may change. -/
def places : FsOp P F D → List P
  | createDirAll p | removeDir p | unlink p _ | createDir p _ | createNew p _ | write p _ _ => [p]
  | setExecutable p _ => [p]
  | rename p q => [p, q]
  | copyFile _ _ q _ => [q]
  | _ => []

/-- The documents the operation may change. -/
def names : FsOp P F D → List F
  | put f _ | delete f => [f]
  | _ => []

/-- Whether the operation makes a file executable. -/
def setsMode : FsOp P F D → Bool
  | setExecutable _ _ => true
  | _ => false

/-- The operations that look at what a directory holds. -/
def looks (p : P) : FsOp P F D → Prop
  | isDir q x => p = q ∧ x ≠ []
  | readDir q _ | copyFile q _ _ _ => p = q
  | _ => False

end FsOp

namespace Disk

variable {P F : Type} {D : F → Type}

section Dirs

variable [DecidableEq P]

/-- The directory at `p`, if it is there. -/
def dir (d : Disk P F D) (p : P) : Option Tree := d.dirs.lookup p

/-- The disk with the directory `t` at `p`. -/
def setDir (d : Disk P F D) (p : P) (t : Tree) : Disk P F D := { d with dirs := d.dirs.insert p t }

/-- The disk with no directory at `p`. -/
def dropDir (d : Disk P F D) (p : P) : Disk P F D := { d with dirs := d.dirs.erase p }

variable (d : Disk P F D) {p q : P} (t : Tree)

@[simp] theorem setDir_dir_self : (d.setDir p t).dir p = some t := AList.lookup_insert _

@[simp] theorem setDir_dir_ne (h : q ≠ p) : (d.setDir p t).dir q = d.dir q := AList.lookup_insert_ne h

@[simp] theorem dropDir_dir_self : (d.dropDir p).dir p = none := AList.lookup_erase _ _

@[simp] theorem dropDir_dir_ne (h : q ≠ p) : (d.dropDir p).dir q = d.dir q := AList.lookup_erase_ne h

/-- Changes the directory at `p` by `change`, which may refuse. -/
def modify (d : Disk P F D) (p : P) (change : Tree → Except IoError Tree) :
    Except IoError Unit × Disk P F D :=
  match d.dir p with
  | none => (.error .notFound, d)
  | some t =>
    match change t with
    | .ok t' => (.ok (), d.setDir p t')
    | .error e => (.error e, d)

theorem modify_dir (h : q ≠ p) (change : Tree → Except IoError Tree) :
    (d.modify p change).2.dir q = d.dir q := by
  unfold modify
  split
  · rfl
  · split
    · exact setDir_dir_ne _ _ h
    · rfl

theorem modify_docs (p : P) (change : Tree → Except IoError Tree) :
    (d.modify p change).2.docs = d.docs := by
  unfold modify
  split
  · rfl
  · split <;> rfl

/-- Copies the file at `x` below `p` over `y` below `q`, contents and mode. -/
def copy (d : Disk P F D) (p : P) (x : Path) (q : P) (y : Path) :
    Except IoError Unit × Disk P F D :=
  match (d.dir p).bind (·.get x) with
  | none => (.error .notFound, d)
  | some .dir | some .special => (.error (.other "not an existing regular file"), d)
  | some (.file b m) => d.modify q fun t => if t.get y = none then t.add y (.file b m)
      else t.setFile y b m

theorem copy_dir (h : q ≠ p) (p' : P) (x y : Path) : (d.copy p' x p y).2.dir q = d.dir q := by
  unfold copy
  split
  · rfl
  · rfl
  · rfl
  · exact modify_dir _ h _

theorem copy_docs (p' : P) (x y : Path) : (d.copy p' x p y).2.docs = d.docs := by
  unfold copy
  split
  · rfl
  · rfl
  · rfl
  · exact modify_docs _ _ _

theorem modify_ok {d : Disk P F D} {t t' : Tree} {change : Tree → Except IoError Tree}
    (ht : d.dir p = some t) (hc : change t = .ok t') :
    d.modify p change = (.ok (), d.setDir p t') := by
  simp [modify, ht, hc]

/-- A change that succeeded. -/
theorem of_modify_ok {d d' : Disk P F D} {change : Tree → Except IoError Tree}
    (h : d.modify p change = (.ok (), d')) :
    ∃ t t', d.dir p = some t ∧ change t = .ok t' ∧ d' = d.setDir p t' := by
  unfold modify at h
  split at h
  · cases h
  · next t ht =>
    split at h
    · next t' hc => cases h; exact ⟨t, t', ht, hc, rfl⟩
    · cases h

end Dirs

section Docs

variable [DecidableEq F]

/-- The document `f`, if it is there. -/
def doc (d : Disk P F D) (f : F) : Option (D f) := d.docs.lookup f

/-- The disk with the document `x` at `f`. -/
def setDoc (d : Disk P F D) (f : F) (x : D f) : Disk P F D := { d with docs := d.docs.insert f x }

/-- The disk with no document at `f`. -/
def dropDoc (d : Disk P F D) (f : F) : Disk P F D := { d with docs := d.docs.erase f }

variable (d : Disk P F D) {f g : F} (x : D f)

@[simp] theorem setDoc_doc_self : (d.setDoc f x).doc f = some x := AList.lookup_insert _

@[simp] theorem setDoc_doc_ne (h : g ≠ f) : (d.setDoc f x).doc g = d.doc g := AList.lookup_insert_ne h

@[simp] theorem dropDoc_doc_self : (d.dropDoc f).doc f = none := AList.lookup_erase _ _

@[simp] theorem dropDoc_doc_ne (h : g ≠ f) : (d.dropDoc f).doc g = d.doc g := AList.lookup_erase_ne h

end Docs

section Both

variable [DecidableEq P] [DecidableEq F] (d : Disk P F D) {p : P} {f : F} (t : Tree) (x : D f)

@[simp] theorem setDir_doc : (d.setDir p t).doc f = d.doc f := rfl

@[simp] theorem dropDir_doc : (d.dropDir p).doc f = d.doc f := rfl

@[simp] theorem setDoc_dir : (d.setDoc f x).dir p = d.dir p := rfl

@[simp] theorem dropDoc_dir : (d.dropDoc f).dir p = d.dir p := rfl

@[simp] theorem modify_doc (change : Tree → Except IoError Tree) :
    (d.modify p change).2.doc f = d.doc f :=
  congrArg (AList.lookup f) (d.modify_docs p change)

end Both

end Disk

/-- How an operation that fails reports it: with nothing done, or after its effect, as when the
directory that holds a renamed file cannot be synced. -/
inductive Fault where
  | before (e : IoError)
  | after (e : IoError)
  deriving DecidableEq, Repr

namespace FsOp

variable {P F : Type} [DecidableEq P] [DecidableEq F] {D : F → Type}

/-- What an operation answers and does. `order` is the order in which the filesystem lists a
directory to a recursive removal. -/
def exec (order : Tree.Order) : (o : FsOp P F D) → Disk P F D → Except IoError o.Ok × Disk P F D
  | dirNames, d => (.ok d.dirs.keys, d)
  | docNames, d => (.ok d.docs.keys, d)
  | isDir p x, d => (.ok ((d.dir p).any fun t => t.isDir x), d)
  | createDirAll p, d => (.ok (), if (d.dir p).isSome then d else d.setDir p .empty)
  | rename p q, d =>
    match d.dir p with
    | none => (.error .notFound, d)
    | some t =>
      match d.dir q with
      | some t' =>
        if t'.paths = [] ∨ p = q then (.ok (), (d.dropDir p).setDir q t) else (.error .notEmpty, d)
      | none => (.ok (), (d.dropDir p).setDir q t)
  | removalOrder p, d =>
    match d.dir p with
    | none => (.error .notFound, d)
    | some t => (.ok (order.list t), d)
  | removeDir p, d =>
    match d.dir p with
    | none => (.error .notFound, d)
    | some t => if t.paths = [] then (.ok (), d.dropDir p) else (.error .notEmpty, d)
  | unlink p x, d => d.modify p (·.remove x)
  | lookup p x, d => (.ok ((d.dir p).bind fun t => if x = [] then some .dir else t.get x), d)
  | readDir p x, d =>
    match d.dir p with
    | none => (.error .notFound, d)
    | some t =>
      if t.isDir x then
        (.ok ((t.children x).filterMap fun c => (t.get (x ++ [c])).map fun e => (c, e.kind)), d)
      else (.error (if (t.get x).isSome then .notADirectory else .notFound), d)
  | createDir p x, d => d.modify p (·.add x .dir)
  | createNew p x, d => d.modify p (·.add x (.file [] false))
  | write p x b, d => d.modify p fun t =>
      match t.get x with
      | some (.file _ m) => t.setFile x b m
      | _ => t.setFile x b false
  | setExecutable p x, d => d.modify p fun t =>
      match t.get x with
      | some (.file b _) => t.setFile x b true
      | _ => t.setFile x [] true
  | copyFile p x q y, d => d.copy p x q y
  | get f, d => (.ok (d.doc f), d)
  | has f, d => (.ok (d.doc f).isSome, d)
  | put f x, d => (.ok (), d.setDoc f x)
  | delete f, d => (.ok (), d.dropDoc f)

/-- A document is only looked at. -/
example (order : Tree.Order) (f : F) (d : Disk P F D) :
    (get f).exec order d = (.ok (d.doc f), d) := by
  simp only [exec]

/-- A rename over nothing succeeds. -/
theorem exec_rename_ok (order : Tree.Order) {p q : P} {d : Disk P F D} {t : Tree}
    (hp : d.dir p = some t) (hq : d.dir q = none ∨ p = q) :
    (rename p q).exec order d = (.ok (), (d.dropDir p).setDir q t) := by
  simp only [exec, hp]
  rcases hq with hq | rfl
  · rw [hq]
  · rw [hp]
    simp

/-- A rename moves the directory, or changes nothing. -/
theorem exec_rename (order : Tree.Order) (p q : P) (d : Disk P F D) :
    (∃ t, d.dir p = some t ∧
      (rename p q).exec order d = (.ok (), (d.dropDir p).setDir q t)) ∨
    ∃ e, (rename p q).exec order d = (.error e, d) := by
  cases hp : d.dir p with
  | none => exact .inr ⟨_, by simp only [exec, hp]; rfl⟩
  | some t =>
    by_cases hq : d.dir q = none ∨ p = q
    · exact .inl ⟨t, rfl, exec_rename_ok order hp hq⟩
    · obtain ⟨t', ht'⟩ := Option.ne_none_iff_exists'.mp fun h => hq (.inl h)
      by_cases he : t'.paths = []
      · exact .inl ⟨t, rfl, by simp [exec, hp, ht', he]⟩
      · have hpq : p ≠ q := fun h => hq (.inr h)
        exact .inr ⟨.notEmpty, by simp [exec, hp, ht', he, hpq]⟩

/-- A write to a file that is there keeps its mode. -/
theorem exec_write (order : Tree.Order) {p : P} {x : Path} {d : Disk P F D} {t : Tree} {b : Bytes}
    {m : Bool} (ht : d.dir p = some t) (hx : t.get x = some (.file b m)) (bytes : Bytes) :
    (write p x bytes).exec order d = d.modify p (·.setFile x bytes m) := by
  simp only [exec, Disk.modify, ht, hx]

/-- A file that is there can be made executable. -/
theorem exec_setExecutable (order : Tree.Order) {p : P} {x : Path} {d : Disk P F D} {t t' : Tree}
    {b : Bytes} {m : Bool} (ht : d.dir p = some t) (hx : t.get x = some (.file b m))
    (hset : t.setFile x b true = .ok t') :
    (setExecutable p x).exec order d = (.ok (), d.setDir p t') := by
  simp only [exec]
  refine Disk.modify_ok ht ?_
  simp only [hx, hset]

/-- An operation changes only the directories at its places. -/
theorem exec_dir (order : Tree.Order) (o : FsOp P F D) (d : Disk P F D) {p : P}
    (hp : p ∉ o.places) : (o.exec order d).2.dir p = d.dir p := by
  cases o <;> simp only [places, List.mem_cons, List.not_mem_nil, or_false, not_or] at hp <;>
    simp only [exec]
  case createDirAll => split <;> simp [hp]
  case rename => (repeat' split) <;> simp [hp]
  case removalOrder => split <;> rfl
  case removeDir => (repeat' split) <;> simp [hp]
  case readDir => (repeat' split) <;> rfl
  case copyFile => exact Disk.copy_dir _ hp _ _ _
  case put => rfl
  case delete => rfl
  all_goals exact Disk.modify_dir _ hp _

/-- An operation changes only the documents it names. -/
theorem exec_doc (order : Tree.Order) (o : FsOp P F D) (d : Disk P F D) {f : F}
    (hf : f ∉ o.names) : (o.exec order d).2.doc f = d.doc f := by
  cases o <;> simp only [names, List.mem_cons, List.not_mem_nil, or_false] at hf <;>
    simp only [exec, Disk.modify_doc]
  case createDirAll => split <;> rfl
  case rename => (repeat' split) <;> rfl
  case removalOrder => split <;> rfl
  case removeDir => (repeat' split) <;> rfl
  case readDir => (repeat' split) <;> rfl
  case copyFile => exact congrArg (AList.lookup f) (Disk.copy_docs _ _ _ _)
  case put => simp [hf]
  case delete => simp [hf]

/-- An operation on a filesystem that may fault. -/
def execWith (order : Tree.Order) (fault : Option Fault) (o : FsOp P F D) (d : Disk P F D) :
    Except IoError o.Ok × Disk P F D :=
  match fault with
  | none => o.exec order d
  | some (.before e) => (.error e, d)
  | some (.after e) => (.error e, (o.exec order d).2)

theorem execWith_snd (order : Tree.Order) (fault : Option Fault) (o : FsOp P F D) (d : Disk P F D) :
    (o.execWith order fault d).2 = d ∨ (o.execWith order fault d).2 = (o.exec order d).2 := by
  unfold execWith
  split
  · exact .inr rfl
  · exact .inl rfl
  · exact .inr rfl

end FsOp

end Files
