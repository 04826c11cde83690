import Mathlib.Data.Finset.Sort
import Paperclip.Files.Tree
import Paperclip.Order.Saturate
import Paperclip.Packages.Fields
import Paperclip.Text.Lines

/-!
# The process tree of a session

Which processes a session has, as far as they can be read.

* `cgroupMembers`: the processes of a control group and of those below it. `Cgroup.Within`: what is
  below it.
* `descendants`: the descendants of a process, by what `/proc` says of parents.
* `SessionTree.members`: the processes of a session, without those that must not be signalled.
* `members_exact`: none is left out that can be read, and none is among them that must be spared.
-/

namespace Paperclip.Host.Process

open Files Packages

/-- A number below `2 ^ 32`, which a sign may precede. -/
def parsePid (text : List Char) : Option ℕ := (parseU64 text).filter (· < 2 ^ 32)

/-! ## Control groups -/

/-- A control group: the text of its `cgroup.procs`, and the groups below it, where these can be
read. -/
inductive Cgroup where
  | group (procs : Option String) (groups : Option (List Cgroup))

namespace Cgroup

/-- The processes that the group itself lists. -/
def listed : Cgroup → Finset ℕ
  | group none _ => ∅
  | group (some raw) _ =>
    ((Text.lines raw.toList).filterMap fun line => parsePid (trim line)).toFinset

/-- The groups that can be seen directly below. -/
def subgroups : Cgroup → List Cgroup
  | group _ none => []
  | group _ (some groups) => groups

mutual

/-- How many groups can be seen at a group and below it. -/
def weight : Cgroup → ℕ
  | group _ none => 1
  | group _ (some groups) => extent groups + 1

/-- How many groups can be seen at some groups and below them. -/
def extent : List Cgroup → ℕ
  | [] => 0
  | g :: rest => weight g + extent rest

end

theorem extent_append (groups others : List Cgroup) :
    extent (groups ++ others) = extent groups + extent others := by
  induction groups with
  | nil => exact (Nat.zero_add _).symm
  | cons g rest ih =>
    rw [List.cons_append, extent, extent, ih]
    omega

theorem extent_reverse (groups : List Cgroup) : extent groups.reverse = extent groups := by
  induction groups with
  | nil => rfl
  | cons g rest ih =>
    rw [List.reverse_cons, extent_append, ih, extent, extent, extent]
    omega

theorem extent_subgroups_lt (g : Cgroup) : extent g.subgroups < weight g := by
  cases g with
  | group procs groups =>
    cases groups with
    | none => rw [subgroups, extent, weight]; exact Nat.one_pos
    | some groups => rw [subgroups, weight]; exact Nat.lt_succ_self _

/-- The processes of the groups that are pending and of those below them. -/
def membersFrom : List Cgroup → Finset ℕ → Finset ℕ
  | [], found => found
  | dir :: pending, found => membersFrom (dir.subgroups.reverse ++ pending) (found ∪ dir.listed)
termination_by pending => extent pending
decreasing_by
  rw [extent_append, extent_reverse, extent]
  exact Nat.add_lt_add_right (extent_subgroups_lt dir) _

/-- A group that can be seen at `g` or below it. -/
inductive Within (h : Cgroup) : Cgroup → Prop where
  | self : Within h h
  | inner {g inner : Cgroup} (hmem : inner ∈ g.subgroups) (hin : Within h inner) : Within h g

theorem within_iff {h g : Cgroup} : Within h g ↔ h = g ∨ ∃ inner ∈ g.subgroups, Within h inner := by
  constructor
  · intro hin
    cases hin with
    | self => exact .inl rfl
    | inner hmem hin => exact .inr ⟨_, hmem, hin⟩
  · rintro (rfl | ⟨inner, hmem, hin⟩)
    · exact .self
    · exact .inner hmem hin

theorem mem_membersFrom {pid : ℕ} (pending : List Cgroup) (found : Finset ℕ) :
    pid ∈ membersFrom pending found ↔
      pid ∈ found ∨ ∃ dir ∈ pending, ∃ g, Within g dir ∧ pid ∈ g.listed := by
  induction pending, found using membersFrom.induct with
  | case1 found => simp [membersFrom]
  | case2 dir pending found ih =>
    rw [membersFrom, ih]
    constructor
    · rintro (hfound | ⟨d, hd, g, hin, hmem⟩)
      · rcases Finset.mem_union.1 hfound with hfound | hlisted
        · exact .inl hfound
        · exact .inr ⟨dir, List.mem_cons_self, dir, .self, hlisted⟩
      · rcases List.mem_append.1 hd with hd | hd
        · exact .inr ⟨dir, List.mem_cons_self, g, .inner (List.mem_reverse.1 hd) hin, hmem⟩
        · exact .inr ⟨d, List.mem_cons_of_mem _ hd, g, hin, hmem⟩
    · rintro (hfound | ⟨d, hd, g, hin, hmem⟩)
      · exact .inl (Finset.mem_union_left _ hfound)
      · rcases List.mem_cons.1 hd with rfl | hd
        · rcases within_iff.1 hin with rfl | ⟨inner, hinner, hin⟩
          · exact .inl (Finset.mem_union_right _ hmem)
          · exact .inr ⟨inner, List.mem_append_left _ (List.mem_reverse.2 hinner), g, hin, hmem⟩
        · exact .inr ⟨d, List.mem_append_right _ hd, g, hin, hmem⟩

end Cgroup

/-- Reads the processes of a control group and of those below it. -/
def cgroupMembers (dir : Cgroup) : Finset ℕ := Cgroup.membersFrom [dir] ∅

theorem mem_cgroupMembers {pid : ℕ} {dir : Cgroup} :
    pid ∈ cgroupMembers dir ↔ ∃ g, Cgroup.Within g dir ∧ pid ∈ g.listed := by
  rw [cgroupMembers, Cgroup.mem_membersFrom]
  constructor
  · rintro (hfound | ⟨d, hd, hin⟩)
    · cases hfound
    · rwa [List.mem_singleton.1 hd] at hin
  · exact fun hin => .inr ⟨dir, List.mem_singleton_self _, hin⟩

/-! ## Descendants -/

/-- An entry of `/proc`: its name, and the text of its `status`, where these can be read. -/
structure ProcEntry where
  name : Option String
  status : Option String

/-- The number after `PPid:`. -/
def parentOf (entry : ProcEntry) : Option ℕ := do
  let status ← entry.status
  let parent ← (Text.lines status.toList).findSome? (stripPrefix "PPid:".toList)
  parsePid (trim parent)

/-- The process of an entry, and its parent. -/
def ProcEntry.edge (entry : ProcEntry) : Option (ℕ × ℕ) := do
  let name ← entry.name
  let pid ← parsePid name.toList
  let parent ← parentOf entry
  return (pid, parent)

/-- The process and every descendant of it. -/
def descendants (entries : List ProcEntry) (pid : ℕ) : Finset ℕ :=
  let parents := entries.filterMap ProcEntry.edge
  Saturate.close parents (parents.length + 1) {pid}

/-- An entry says that one process is the parent of another. -/
def Parent (entries : List ProcEntry) (parent child : ℕ) : Prop :=
  ∃ entry ∈ entries, entry.edge = some (child, parent)

theorem mem_descendants {entries : List ProcEntry} {pid child : ℕ} :
    child ∈ descendants entries pid ↔ Relation.ReflTransGen (Parent entries) pid child := by
  have hedge (parent child : ℕ) :
      (child, parent) ∈ entries.filterMap ProcEntry.edge ↔ Parent entries parent child :=
    List.mem_filterMap
  rw [descendants, Saturate.mem_close]
  simp only [hedge]

example : descendants [⟨some "8", some "PPid: 7"⟩, ⟨some "7", some "Name:\tx\nPPid:\t3\n"⟩,
    ⟨some "self", none⟩, ⟨some "9", some "PPid: 1"⟩] 3 = {3, 7, 8} := by decide

/-! ## Sessions -/

/-- Where the membership of a session is read from. -/
inductive TreeSource where
  | cgroup
  | descendants (pid : ℕ)
  | explicit (pids : Finset ℕ)

/-- What a machine shows when it is looked at: the control group of the session, the processes, and
which of them there are. -/
structure Snapshot where
  cgroup : Cgroup
  proc : Except IoError (List ProcEntry)
  exists_ : ℕ → Bool

/-- A session's process tree, and the processes that must never be signalled. -/
structure SessionTree where
  source : TreeSource
  protected_ : Finset ℕ

namespace SessionTree

/-- The process may be signalled by the process `own`. -/
def MaySignal (tree : SessionTree) (own pid : ℕ) : Prop :=
  1 < pid ∧ pid ≠ own ∧ pid ∉ tree.protected_

instance (tree : SessionTree) (own : ℕ) : DecidablePred (tree.MaySignal own) := fun pid =>
  inferInstanceAs (Decidable (1 < pid ∧ pid ≠ own ∧ pid ∉ tree.protected_))

/-- What the source of a tree gives. -/
def found (tree : SessionTree) (seen : Snapshot) : Except IoError (Finset ℕ) :=
  match tree.source with
  | .cgroup => .ok (cgroupMembers seen.cgroup)
  | .descendants pid => seen.proc.map fun entries => Process.descendants entries pid
  | .explicit pids => .ok (pids.filter fun pid => seen.exists_ pid)

/-- Everything in the tree, without what must not be signalled. -/
def members (tree : SessionTree) (own : ℕ) (seen : Snapshot) : Except IoError (Finset ℕ) :=
  (tree.found seen).map fun pids => pids.filter (tree.MaySignal own)

/-- The process can be read to be one of the session. -/
def Holds (tree : SessionTree) (seen : Snapshot) (pid : ℕ) : Prop :=
  match tree.source with
  | .cgroup => ∃ g, Cgroup.Within g seen.cgroup ∧ pid ∈ g.listed
  | .descendants root => ∃ entries, seen.proc = .ok entries ∧
    Relation.ReflTransGen (Parent entries) root pid
  | .explicit pids => pid ∈ pids ∧ seen.exists_ pid = true

/-- A read fails only where `/proc` is read and cannot be. -/
def Unreadable (tree : SessionTree) (seen : Snapshot) (e : IoError) : Prop :=
  (∃ root, tree.source = .descendants root) ∧ seen.proc = .error e

variable {tree : SessionTree} {own : ℕ} {seen : Snapshot}

theorem found_error {e : IoError} : tree.found seen = .error e ↔ tree.Unreadable seen e := by
  unfold found Unreadable
  cases tree.source with
  | cgroup => simp
  | descendants root => cases seen.proc <;> simp [Except.map]
  | explicit pids => simp

theorem mem_of_found {pids : Finset ℕ} (h : tree.found seen = .ok pids) (pid : ℕ) :
    pid ∈ pids ↔ tree.Holds seen pid := by
  unfold found at h
  unfold Holds
  cases hsource : tree.source with
  | cgroup =>
    simp only [hsource] at h
    cases h
    exact mem_cgroupMembers
  | descendants root =>
    simp only [hsource] at h
    cases hproc : seen.proc with
    | error e => rw [hproc] at h; cases h
    | ok entries =>
      rw [hproc] at h
      cases h
      simp [mem_descendants]
  | explicit listed =>
    simp only [hsource] at h
    cases h
    exact Finset.mem_filter

/-- A read of the tree gives the processes of the session that may be signalled, and no others. -/
theorem members_exact (tree : SessionTree) (own : ℕ) (seen : Snapshot) :
    match tree.members own seen with
    | .ok pids => ∀ pid, pid ∈ pids ↔ tree.Holds seen pid ∧ tree.MaySignal own pid
    | .error e => tree.Unreadable seen e := by
  unfold members
  cases hfound : tree.found seen with
  | error e => exact found_error.1 hfound
  | ok pids =>
    intro pid
    rw [Finset.mem_filter, mem_of_found hfound]

/-- What is read may be signalled. -/
theorem maySignal_of_members {pids : Finset ℕ} (h : tree.members own seen = .ok pids) {pid : ℕ}
    (hp : pid ∈ pids) : tree.MaySignal own pid := by
  unfold members at h
  cases hfound : tree.found seen with
  | error e => rw [hfound] at h; cases h
  | ok found =>
    rw [hfound] at h
    cases h
    exact (Finset.mem_filter.1 hp).2

end SessionTree

end Paperclip.Host.Process
