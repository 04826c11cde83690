import Mathlib.Data.List.AList
import Mathlib.Data.List.Induction
import Mathlib.Data.List.Sort

/-!
# Directory trees

A `Tree` is what a directory holds: its entries by path, where the parent of every entry is the
directory itself or a `dir` entry. The invariant is part of the type, so a tree with an orphan
cannot be built, and each operation says with an `IoError` what a filesystem would refuse.

`Tree.Order` is an order in which a recursive removal may visit the entries: the children of a
directory come before it. A filesystem lists a directory in an order of its own choosing, so a
result about removal holds for every such order.
-/

namespace Files

abbrev Bytes := List UInt8

/-- A path below a directory, one item a component. `[]` is the directory itself. -/
abbrev Path := List String

/-- Why a filesystem operation failed. -/
inductive IoError where
  | notFound
  | alreadyExists
  | notADirectory
  | isADirectory
  | notEmpty
  | nameTooLong
  | other (text : String)
  deriving DecidableEq, Repr

/-- What a name in a directory is. `special` is a link, a device, a socket or a pipe. -/
inductive Entry where
  | file (bytes : Bytes) (executable : Bool)
  | dir
  | special
  deriving DecidableEq, Repr

/-- The most components a path can have: `PATH_MAX` is 4096 bytes, and a component takes two. -/
def maxDepth : Nat := 2048

/-- What a directory holds. -/
structure Tree where
  entries : AList fun _ : Path => Entry
  rooted : ∀ p ∈ entries, p ≠ [] ∧ (p.dropLast = [] ∨ entries.lookup p.dropLast = some .dir)
  short : ∀ p ∈ entries, p.length ≤ maxDepth

namespace Tree

instance : DecidableEq Tree := fun t t' =>
  decidable_of_iff (t.entries.entries = t'.entries.entries)
    ⟨fun h => by cases t; cases t'; cases AList.ext h; rfl, fun h => by rw [h]⟩

/-- The entry at `p`. -/
def get (t : Tree) (p : Path) : Option Entry := t.entries.lookup p

/-- The paths of the entries. -/
def paths (t : Tree) : List Path := t.entries.keys

theorem mem_entries {t : Tree} {p : Path} {e : Entry} (h : t.get p = some e) : p ∈ t.entries :=
  AList.lookup_isSome.mp (Option.isSome_iff_exists.mpr ⟨e, h⟩)

theorem mem_paths {t : Tree} {p : Path} : p ∈ t.paths ↔ ∃ e, t.get p = some e := by
  rw [← Option.isSome_iff_exists]
  exact AList.lookup_isSome.symm

theorem get_eq_none {t : Tree} {p : Path} : t.get p = none ↔ p ∉ t.paths :=
  AList.lookup_eq_none

@[simp] theorem get_nil (t : Tree) : t.get [] = none :=
  get_eq_none.mpr fun h => (t.rooted [] h).1 rfl

/-- The empty directory. -/
def empty : Tree := ⟨∅, by simp, by simp⟩

@[simp] theorem get_empty (p : Path) : empty.get p = none := AList.lookup_empty p

/-- Whether `p` is a directory: the root, or a `dir` entry. -/
def isDir (t : Tree) (p : Path) : Prop := p = [] ∨ t.get p = some .dir

instance (t : Tree) (p : Path) : Decidable (t.isDir p) :=
  inferInstanceAs (Decidable (_ ∨ _))

/-- The parent of an entry is a directory. -/
theorem isDir_dropLast {t : Tree} {p : Path} {e : Entry} (h : t.get p = some e) :
    t.isDir p.dropLast := (t.rooted p (mem_entries h)).2

theorem length_le {t : Tree} {p : Path} {e : Entry} (h : t.get p = some e) :
    p.length ≤ maxDepth := t.short p (mem_entries h)

/-- Everything an entry is below is a directory. -/
theorem isDir_of_append {t : Tree} {x y : Path} {e : Entry} (h : t.get (x ++ y) = some e)
    (hy : y ≠ []) : t.isDir x := by
  induction y using List.reverseRecOn generalizing e with
  | nil => exact absurd rfl hy
  | append_singleton y c ih =>
    have hd := isDir_dropLast h
    rw [← List.append_assoc, List.dropLast_concat] at hd
    rcases hd with hn | hd
    · exact .inl (List.append_eq_nil_iff.mp hn).1
    · by_cases hy : y = []
      · subst hy
        rw [List.append_nil] at hd
        exact .inr hd
      · exact ih hd hy

/-- Nothing is below what is not a directory. -/
theorem get_below {t : Tree} {x y : Path} (hx : ¬ t.isDir x) (hy : y ≠ []) :
    t.get (x ++ y) = none := by
  by_contra h
  obtain ⟨e, he⟩ := Option.ne_none_iff_exists'.mp h
  exact hx (isDir_of_append he hy)

/-- The entry at `p` when it is a file or a directory. -/
def plain (t : Tree) (p : Path) : Option Entry :=
  match t.get p with
  | some .special => none
  | e => e

/-- The two trees have the same files and directories. -/
def Same (t t' : Tree) : Prop := ∀ p, t.plain p = t'.plain p

theorem Same.refl (t : Tree) : t.Same t := fun _ => rfl

theorem Same.symm {t t' : Tree} (h : t.Same t') : t'.Same t := fun p => (h p).symm

theorem Same.trans {t t' t'' : Tree} (h : t.Same t') (h' : t'.Same t'') : t.Same t'' :=
  fun p => (h p).trans (h' p)

theorem plain_ne_special (t : Tree) (p : Path) : t.plain p ≠ some .special := by
  unfold plain
  split
  · exact fun h => nomatch h
  · next h => exact h

/-- A tree whose entries are the files and the directories of `t`. -/
theorem same_of_get {t t' : Tree} (h : ∀ p, t'.get p = t.plain p) : t'.Same t := by
  intro p
  show (match t'.get p with | some .special => none | e => e) = _
  split
  · next hs => exact absurd ((h p).symm.trans hs) (plain_ne_special t p)
  · exact h p

/-! ## Changes -/

/-- The tree with `e` at `p`, where the parent of `p` is a directory and no `dir` is lost. -/
def put (t : Tree) (p : Path) (e : Entry) (hp : p ≠ []) (hl : p.length ≤ maxDepth)
    (hd : t.isDir p.dropLast) (hk : t.get p = some .dir → e = .dir) : Tree :=
  have hdir : ∀ q, t.entries.lookup q = some .dir →
      (t.entries.insert p e).lookup q = some .dir := by
    intro q hq
    by_cases h : q = p
    · subst h
      rw [AList.lookup_insert, hk hq]
    · rwa [AList.lookup_insert_ne h]
  ⟨t.entries.insert p e, by
    intro q hq
    rcases (AList.mem_insert _).mp hq with rfl | hq
    · exact ⟨hp, hd.imp id (hdir _)⟩
    · exact ⟨(t.rooted q hq).1, (t.rooted q hq).2.imp id (hdir _)⟩, by
    intro q hq
    rcases (AList.mem_insert _).mp hq with rfl | hq
    · exact hl
    · exact t.short q hq⟩

theorem get_put {t : Tree} {p : Path} {e : Entry} (hp hl hd hk) (q : Path) :
    (t.put p e hp hl hd hk).get q = if q = p then some e else t.get q := by
  show (t.entries.insert p e).lookup q = _
  split
  · next h => subst h; exact AList.lookup_insert _
  · next h => exact AList.lookup_insert_ne h

/-- Adds an entry that is not there yet, as `mkdir(2)` and an exclusive `open(2)` do. -/
def add (t : Tree) (p : Path) (e : Entry) : Except IoError Tree :=
  if h : p ≠ [] ∧ t.get p = none then
    if hl : p.length ≤ maxDepth then
      if hd : t.isDir p.dropLast then
        .ok (t.put p e h.1 hl hd (by rw [h.2]; exact fun h => nomatch h))
      else if t.get p.dropLast = none then .error .notFound else .error .notADirectory
    else .error .nameTooLong
  else .error .alreadyExists

theorem get_add {t t' : Tree} {p : Path} {e : Entry} (h : t.add p e = .ok t') (q : Path) :
    t'.get q = if q = p then some e else t.get q := by
  unfold add at h
  split at h
  · split at h
    · split at h
      · cases h; exact get_put _ _ _ _ q
      · split at h <;> cases h
    · cases h
  · cases h

/-- When an entry can be added. -/
theorem add_ok {t : Tree} {p : Path} (e : Entry) (hp : p ≠ []) (hn : t.get p = none)
    (hl : p.length ≤ maxDepth) (hd : t.isDir p.dropLast) : ∃ t', t.add p e = .ok t' := by
  unfold add
  rw [dif_pos ⟨hp, hn⟩, dif_pos hl, dif_pos hd]
  exact ⟨_, rfl⟩

theorem get_of_add {t t' : Tree} {p : Path} {e : Entry} (h : t.add p e = .ok t') :
    p ≠ [] ∧ t.get p = none := by
  unfold add at h
  split at h
  · assumption
  · cases h

/-- Changes the bytes and the mode of a file that is there. -/
def setFile (t : Tree) (p : Path) (bytes : Bytes) (executable : Bool) : Except IoError Tree :=
  match hg : t.get p with
  | some (.file _ _) =>
    .ok (t.put p (.file bytes executable) (t.rooted p (mem_entries hg)).1 (length_le hg)
      (isDir_dropLast hg) (by rw [hg]; exact fun h => nomatch h))
  | some .dir => .error .isADirectory
  | some .special => .error (.other "not a regular file")
  | none => .error .notFound

theorem get_setFile {t t' : Tree} {p : Path} {b : Bytes} {x : Bool} (h : t.setFile p b x = .ok t')
    (q : Path) : t'.get q = if q = p then some (.file b x) else t.get q := by
  unfold setFile at h
  split at h
  · cases h; exact get_put _ _ _ _ q
  all_goals cases h

theorem setFile_ok {t : Tree} {p : Path} {b : Bytes} {x : Bool} (hg : t.get p = some (.file b x))
    (b' : Bytes) (x' : Bool) : ∃ t', t.setFile p b' x' = .ok t' := by
  unfold setFile
  split
  · exact ⟨_, rfl⟩
  all_goals simp_all

/-- Only a file can be changed. -/
theorem get_of_setFile {t t' : Tree} {p : Path} {b : Bytes} {x : Bool}
    (h : t.setFile p b x = .ok t') : ∃ b' x', t.get p = some (.file b' x') := by
  unfold setFile at h
  split at h
  · next hg => exact ⟨_, _, hg⟩
  all_goals cases h

/-- Removes a file, or a directory that holds nothing. -/
def remove (t : Tree) (p : Path) : Except IoError Tree :=
  if t.get p = none then .error .notFound
  else if hc : ∀ q ∈ t.paths, q.dropLast ≠ p then
    .ok ⟨t.entries.erase p, by
      intro q hq
      have hq' := (AList.mem_erase.mp hq).2
      refine ⟨(t.rooted q hq').1, (t.rooted q hq').2.imp id fun h => ?_⟩
      rwa [AList.lookup_erase_ne (hc q hq')], by
      intro q hq
      exact t.short q (AList.mem_erase.mp hq).2⟩
  else .error .notEmpty

theorem get_remove {t t' : Tree} {p : Path} (h : t.remove p = .ok t') (q : Path) :
    t'.get q = if q = p then none else t.get q := by
  unfold remove at h
  split at h
  · cases h
  split at h
  · cases h
    split
    · next hq => subst hq; exact AList.lookup_erase _ _
    · next hq => exact AList.lookup_erase_ne hq
  · cases h

theorem remove_ok {t : Tree} {p : Path} (hp : p ∈ t.paths) (hc : ∀ q ∈ t.paths, q.dropLast ≠ p) :
    ∃ t', t.remove p = .ok t' := by
  unfold remove
  rw [if_neg fun h => get_eq_none.mp h hp, dif_pos hc]
  exact ⟨_, rfl⟩

/-! ## Listings -/

/-- The names in the directory `dir`. -/
def children (t : Tree) (dir : Path) : List String :=
  t.paths.filterMap fun p => if p.dropLast = dir then p.getLast? else none

private theorem eq_concat_of_child {p dir : Path} {x : String}
    (h : (if p.dropLast = dir then p.getLast? else none) = some x) : p = dir ++ [x] := by
  split at h
  · next hd =>
    obtain ⟨q, rfl⟩ := List.getLast?_eq_some_iff.mp h
    rw [← hd, List.dropLast_concat]
  · cases h

theorem mem_children {t : Tree} {dir : Path} {x : String} :
    x ∈ t.children dir ↔ dir ++ [x] ∈ t.paths := by
  unfold children
  rw [List.mem_filterMap]
  constructor
  · rintro ⟨p, hp, h⟩
    rwa [← eq_concat_of_child h]
  · intro h
    exact ⟨_, h, by simp⟩

/-- A tree with no names at its top is empty. -/
theorem get_of_children_nil {t : Tree} (h : t.children [] = []) (p : Path) : t.get p = none := by
  by_contra hp
  obtain ⟨e, he⟩ := Option.ne_none_iff_exists'.mp hp
  obtain ⟨x, q, rfl⟩ : ∃ x q, p = x :: q := by
    cases p with
    | nil => simp at he
    | cons x q => exact ⟨x, q, rfl⟩
  have hx : [] ++ [x] ∈ t.paths := by
    by_cases hq : q = []
    · exact mem_paths.mpr ⟨e, by rw [hq] at he; exact he⟩
    · rcases isDir_of_append (x := [x]) he hq with hn | hd
      · cases hn
      · exact mem_paths.mpr ⟨_, hd⟩
  rw [← mem_children, h] at hx
  cases hx

theorem nodup_children (t : Tree) (dir : Path) : (t.children dir).Nodup := by
  exact t.entries.keys_nodup.filterMap fun _ _ _ hp hq =>
    (eq_concat_of_child hp).trans (eq_concat_of_child hq).symm

/-- The files of the tree, with their contents. -/
def files (t : Tree) : List (Path × Bytes) :=
  t.paths.filterMap fun x =>
    match t.get x with
    | some (.file bytes _) => some (x, bytes)
    | _ => none

theorem mem_files {t : Tree} {x : Path} {bytes : Bytes} :
    (x, bytes) ∈ t.files ↔ ∃ mode, t.get x = some (.file bytes mode) := by
  unfold files
  rw [List.mem_filterMap]
  constructor
  · rintro ⟨y, -, hy⟩
    split at hy
    · next mode hget =>
      cases hy
      exact ⟨mode, hget⟩
    · cases hy
  · rintro ⟨mode, hget⟩
    exact ⟨x, mem_paths.mpr ⟨_, hget⟩, by rw [hget]⟩

theorem nodup_files (t : Tree) : t.files.Nodup := by
  refine t.entries.keys_nodup.filterMap fun x y file hx hy => ?_
  split at hx
  · split at hy
    · exact congrArg Prod.fst ((Option.some.inj hx).trans (Option.some.inj hy).symm)
    · cases hy
  · cases hx

/-- An order in which a recursive removal visits the entries: children before their parents. -/
structure Order where
  list : Tree → List Path
  perm : ∀ t, (list t).Perm t.paths
  childrenFirst : ∀ t, (list t).Pairwise fun p q => q.dropLast ≠ p

/-- The order by depth, deepest first. -/
def Order.byDepth : Order where
  list t := t.paths.insertionSort fun p q => q.length ≤ p.length
  perm t := List.perm_insertionSort _ _
  childrenFirst t := by
    have hs := List.pairwise_insertionSort (fun p q : Path => q.length ≤ p.length) t.paths
    have hm : ∀ q ∈ t.paths.insertionSort fun p q => q.length ≤ p.length, q ≠ [] := fun q hq =>
      (t.rooted q (AList.mem_keys.mpr ((List.perm_insertionSort _ _).mem_iff.mp hq))).1
    refine hs.imp_of_mem fun {p q} _ hq hle h => ?_
    have hpos := List.length_pos_iff.mpr (hm q hq)
    have := congrArg List.length h
    rw [List.length_dropLast] at this
    omega

end Tree

end Files
