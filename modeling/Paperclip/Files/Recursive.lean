import Paperclip.Files.Disk

/-!
# Recursive operations

A program over a filesystem (`withFs`) removes or copies a directory one entry at a time, so it may
stop with a part of the work done.

* `removeTree`: `remove_dir_all`, for which a directory that is not there is removed already.
* `copyTree`: the regular files and the directories of a place, into another.
* `Within`: the operations that stay inside a set of places and documents; a program that takes only
  those is framed by `Only`.
* `Serves`: a handler that runs the operations on a disk, where only some places belong to the
  program alone. `removeTree_spec`, `copyTree_spec`: what the programs do under such a handler. The
  source of a copy need not belong to the program: the copy is exact if every look at it saw the
  same tree.
-/

namespace Files

open Crash Prog

/-- The signature of a program that uses a filesystem and the operations of `S`. -/
@[reducible] def withFs (S : Sig) (P F : Type) (D : F → Type) : Sig where
  Op := FsOp P F D ⊕ S.Op
  Ret := Sum.elim (fun o => Except IoError o.Ok) S.Ret

variable {S : Sig} {P F : Type} {D : F → Type} {ε : Type}

/-- The signature of no other operations. -/
def noCalls : Sig := ⟨Empty, fun _ => Empty⟩

/-- One operation of the filesystem. -/
def fs (o : FsOp P F D) : Prog (withFs S P F D) IoError o.Ok := .step (.inl o) .ofExcept

/-- One operation of `S`. -/
def call (o : S.Op) : Prog (withFs S P F D) ε (S.Ret o) := .step (.inr o) .done

/-- Removes a directory with everything in it. -/
def removeTree (p : P) : Prog (withFs S P F D) IoError Unit := do
  match ← (fs (.removalOrder p)).attempt with
  | .error .notFound => pure ()
  | .error e => .fail e
  | .ok paths => do
    each (fun x => fs (.unlink p x)) paths
    fs (.removeDir p)

/-- Creates the directory `x` below `p` if it is not there. -/
def makeDir (p : P) (x : Path) : Prog (withFs S P F D) IoError Unit :=
  match x with
  | [] => fs (.createDirAll p)
  | _ => do
    match ← (fs (.createDir p x)).attempt with
    | .ok _ => pure ()
    | .error e => if ← fs (.isDir p x) then pure () else .fail e

/-- Copies an entry of `x`, where `copyDir` copies a directory. -/
def copyEntry (p q : P) (copyDir : Path → Prog (withFs S P F D) IoError Unit) (x : Path)
    (entry : String × Kind) : Prog (withFs S P F D) IoError Unit :=
  match entry.2 with
  | .dir => copyDir (x ++ [entry.1])
  | .file => fs (.copyFile p (x ++ [entry.1]) q (x ++ [entry.1]))
  | .special => pure ()

/-- Copies what is at `x` below `p` to the same path below `q`: the files and the directories.
`depth` bounds the recursion, and a path has at most `maxDepth` components. -/
def copyTree (p q : P) : (depth : Nat) → Path → Prog (withFs S P F D) IoError Unit
  | 0, _ => .fail .nameTooLong
  | depth + 1, x => do
    makeDir q x
    if ← fs (.isDir p x) then
      let entries ← fs (.readDir p x)
      each (copyEntry p q (copyTree p q depth) x) entries

/-! ## Footprints -/

/-- The filesystem operations that change only places of `U` and documents of `N`. -/
def Within (U : P → Prop) (N : F → Prop) : (withFs S P F D).Op → Prop
  | .inl o => (∀ p ∈ o.places, U p) ∧ ∀ f ∈ o.names, N f
  | .inr _ => False

section Footprints

variable {U U' : P → Prop} {N N' : F → Prop} {p q : P}

theorem Within.mono {op : (withFs S P F D).Op} (h : Within U N op) (hp : ∀ p, U p → U' p)
    (hn : ∀ f, N f → N' f) : Within U' N' op :=
  match op, h with
  | .inl _, h => ⟨fun p hm => hp p (h.1 p hm), fun f hm => hn f (h.2 f hm)⟩

@[simp] theorem only_fs {W : (withFs S P F D).Op → Prop} {o : FsOp P F D} :
    (fs o : Prog (withFs S P F D) IoError o.Ok).Only W ↔ W (.inl o) :=
  ⟨fun h => h.1, fun h => ⟨h, fun _ => only_ofExcept⟩⟩

/-- An operation that changes nothing is inside every footprint. -/
theorem only_read {o : FsOp P F D} (hp : o.places = []) (hn : o.names = []) :
    (fs o : Prog (withFs S P F D) IoError o.Ok).Only (Within U N) :=
  only_fs.mpr ⟨by simp [hp], by simp [hn]⟩

/-- An operation that changes one place of the footprint. -/
theorem only_change {o : FsOp P F D} (hp : o.places = [p]) (hn : o.names = []) (h : U p) :
    (fs o : Prog (withFs S P F D) IoError o.Ok).Only (Within U N) :=
  only_fs.mpr ⟨by simp [hp, h], by simp [hn]⟩

/-- `W` allows every operation that changes nothing. -/
def Reads (W : (withFs S P F D).Op → Prop) : Prop :=
  ∀ o : FsOp P F D, o.places = [] → o.names = [] → o.setsMode = false → W (.inl o)

/-- `W` allows every operation that changes `p` alone, but for making a file executable. -/
def Builds (W : (withFs S P F D).Op → Prop) (p : P) : Prop :=
  ∀ o : FsOp P F D, (∀ q ∈ o.places, q = p) → o.names = [] → o.setsMode = false → W (.inl o)

theorem Builds.reads {W : (withFs S P F D).Op → Prop} (h : Builds W p) : Reads W :=
  fun o hp => h o (by rw [hp]; exact fun _ h => (by cases h))

theorem reads_within : Reads (Within U N : (withFs S P F D).Op → Prop) :=
  fun _ hp hn _ => ⟨by simp [hp], by simp [hn]⟩

theorem builds_within (h : U p) : Builds (Within U N : (withFs S P F D).Op → Prop) p :=
  fun _ hp hn _ => ⟨fun q hq => hp q hq ▸ h, by simp [hn]⟩

theorem only_removeTree (h : U p) :
    (removeTree p : Prog (withFs S P F D) IoError Unit).Only (Within U N) := by
  refine Only.bind (only_read rfl rfl).attempt fun r => ?_
  split
  · trivial
  · trivial
  · exact (Only.each fun x => only_change rfl rfl h).bind fun _ => only_change rfl rfl h

theorem only_makeDir (h : U q) (x : Path) :
    (makeDir q x : Prog (withFs S P F D) IoError Unit).Only (Within U N) := by
  unfold makeDir
  split
  · exact only_change rfl rfl h
  · refine Only.bind (only_change rfl rfl h).attempt fun r => ?_
    split
    · trivial
    · refine Only.bind (only_read rfl rfl) fun b => ?_
      split <;> trivial

theorem only_copyEntry (h : U q) {copyDir : Path → Prog (withFs S P F D) IoError Unit}
    (hdir : ∀ x, (copyDir x).Only (Within U N)) (x : Path) (entry : String × Kind) :
    (copyEntry p q copyDir x entry).Only (Within U N) := by
  unfold copyEntry
  split
  · exact hdir _
  · exact only_change rfl rfl h
  · trivial

theorem only_copyTree (h : U q) (depth : Nat) (x : Path) :
    (copyTree p q depth x : Prog (withFs S P F D) IoError Unit).Only (Within U N) := by
  induction depth generalizing x with
  | zero => trivial
  | succ depth ih =>
    refine (only_makeDir h x).bind fun _ => ?_
    refine Only.bind (only_read rfl rfl) fun b => ?_
    split
    · refine Only.bind (only_read rfl rfl) fun entries => ?_
      exact Only.each (only_copyEntry h ih x)
    · trivial

end Footprints

/-! ## What the programs do -/

section Specs

variable {W : Type} {h : Handler (withFs S P F D) W}

theorem safe_fs (o : FsOp P F D) {C : W → Prop} {Q : Except IoError o.Ok → W → Prop} {w : W} :
    (fs o : Prog (withFs S P F D) IoError o.Ok).Safe h C Q w ↔
      C w ∧ C (h (.inl o) w).2 ∧ Q (h (.inl o) w).1 (h (.inl o) w).2 :=
  and_congr Iff.rfl safe_ofExcept

variable [DecidableEq P] [DecidableEq F]

/-- A handler that runs each filesystem operation on the disk it finds once others have had their
turn (`settle`), and they leave the places of `own` alone. -/
structure Serves (h : Handler (withFs S P F D) W) (disk settle : W → Disk P F D)
    (order : Tree.Order) (own : P → Prop) : Prop where
  ret : ∀ o w, (h (.inl o) w).1 = (o.exec order (settle w)).1
  next : ∀ o w, disk (h (.inl o) w).2 = (o.exec order (settle w)).2
  mine : ∀ w p, own p → (settle w).dir p = (disk w).dir p

/-- A handler whose operations may fault: each either does what it should, or answers a failure,
with its effect or without. -/
structure Tries (h : Handler (withFs S P F D) W) (disk settle : W → Disk P F D)
    (order : Tree.Order) (own : P → Prop) : Prop where
  tried : ∀ o w,
    (h (.inl o) w).1 = (o.exec order (settle w)).1 ∧
        disk (h (.inl o) w).2 = (o.exec order (settle w)).2 ∨
      (∃ e, (h (.inl o) w).1 = .error e) ∧
        (disk (h (.inl o) w).2 = settle w ∨ disk (h (.inl o) w).2 = (o.exec order (settle w)).2)
  mine : ∀ w p, own p → (settle w).dir p = (disk w).dir p

variable {disk settle : W → Disk P F D} {order : Tree.Order} {own : P → Prop} {p q : P} {w : W}

theorem Serves.tries (hs : Serves h disk settle order own) : Tries h disk settle order own where
  tried o w := .inl ⟨hs.ret o w, hs.next o w⟩
  mine := hs.mine

/-- A filesystem that nobody else uses, and on which everything succeeds that can. -/
def alone (order : Tree.Order) : Handler (withFs noCalls P F D) (Disk P F D)
  | .inl o, d => o.exec order d
  | .inr o, _ => o.elim

theorem serves_alone (order : Tree.Order) :
    Serves (alone order : Handler (withFs noCalls P F D) _) id id order fun _ => True where
  ret _ _ := rfl
  next _ _ := rfl
  mine _ _ _ := rfl

/-- An operation that succeeded did what it should. -/
theorem Tries.of_ok (hs : Tries h disk settle order own) {o : FsOp P F D} {a : o.Ok}
    (ha : (h (.inl o) w).1 = .ok a) :
    (o.exec order (settle w)).1 = .ok a ∧ disk (h (.inl o) w).2 = (o.exec order (settle w)).2 := by
  rcases hs.tried o w with ⟨hr, hd⟩ | ⟨⟨e, hr⟩, -⟩
  · exact ⟨hr.symm.trans ha, hd⟩
  · rw [hr] at ha
    cases ha

/-- What is true of the tree at `p` before a step and after its effect is true after the step. -/
theorem Tries.keeps (hs : Tries h disk settle order own) (hp : own p) (o : FsOp P F D)
    {X : Option Tree → Prop} (hw : X ((disk w).dir p))
    (ho : ∀ d : Disk P F D, X (d.dir p) → X ((o.exec order d).2.dir p)) :
    X ((disk (h (.inl o) w).2).dir p) := by
  rw [← hs.mine w p hp] at hw
  rcases hs.tried o w with ⟨-, hd⟩ | ⟨-, hd | hd⟩
  · rw [hd]
    exact ho _ hw
  · rw [hd]
    exact hw
  · rw [hd]
    exact ho _ hw

/-- What an operation that changes the tree at `p` by `g` leaves there, whether it fails or not. -/
theorem Tries.changes (hs : Tries h disk settle order own) (hp : own p) {o : FsOp P F D}
    {g : Tree → Except IoError Tree} {t : Tree} (ht : (disk w).dir p = some t)
    (hok : ∀ d a, d.dir p = some t → (o.exec order d).1 = .ok a → (d.modify p g).1 = .ok ())
    (heffect : ∀ d, d.dir p = some t → (o.exec order d).2 = (d.modify p g).2) :
    ∃ t', (disk (h (.inl o) w).2).dir p = some t' ∧ (t' = t ∨ g t = .ok t') ∧
      ∀ a, (h (.inl o) w).1 = .ok a → g t = .ok t' := by
  rw [← hs.mine w p hp] at ht
  have hafter : ∃ t', ((o.exec order (settle w)).2).dir p = some t' ∧ (t' = t ∨ g t = .ok t') ∧
      ∀ a, (o.exec order (settle w)).1 = .ok a → g t = .ok t' := by
    rw [heffect _ ht]
    cases hg : g t with
    | error e =>
      have hmod : (settle w).modify p g = (.error e, settle w) := by simp [Disk.modify, ht, hg]
      rw [hmod]
      refine ⟨t, ht, .inl rfl, fun a ha => ?_⟩
      have hret := hok _ a ht ha
      rw [hmod] at hret
      cases hret
    | ok t' =>
      rw [Disk.modify_ok ht hg]
      exact ⟨t', Disk.setDir_dir_self _ _, .inr rfl, fun _ _ => rfl⟩
  obtain ⟨t', ht', hor, hret⟩ := hafter
  rcases hs.tried o w with ⟨hr, hd⟩ | ⟨⟨e, hr⟩, hd | hd⟩
  · rw [hd, hr]
    exact ⟨t', ht', hor, hret⟩
  · rw [hd, hr]
    exact ⟨t, ht, .inl rfl, fun a ha => by cases ha⟩
  · rw [hd, hr]
    exact ⟨t', ht', hor, fun a ha => by cases ha⟩

/-- A log changes nothing about what the operations do. -/
theorem Tries.logged {E : Type} (hs : Tries h disk settle order own)
    (emit : Step (withFs S P F D) W → List E) :
    Tries (h.logged emit) (fun x => disk x.1) (fun x => settle x.1) order own where
  tried o x := hs.tried o x.1
  mine x := hs.mine x.1

/-- An operation on other places leaves a place of `own` as it is. -/
theorem Serves.frame (hs : Serves h disk settle order own) (hp : own p) {o : FsOp P F D}
    (ho : p ∉ o.places) (w : W) : (disk (h (.inl o) w).2).dir p = (disk w).dir p := by
  rw [hs.next, FsOp.exec_dir order o _ ho, hs.mine w p hp]

/-- A program leaves a place of `own` outside its footprint as it is. -/
theorem Serves.within {α : Type} (hs : Serves h disk settle order own) (hp : own p)
    {U : P → Prop} {N : F → Prop} (hps : ¬ U p) {prog : Prog (withFs S P F D) ε α}
    (hprog : prog.Only (Within U N)) :
    prog.Safe h (fun w' => (disk w').dir p = (disk w).dir p)
      (fun _ w' => (disk w').dir p = (disk w).dir p) w := by
  refine Safe.of_only hprog ?_ rfl
  rintro (o | o) w' hop hw'
  · rw [hs.frame hp (fun hm => hps (hop.1 p hm)), hw']
  · exact hop.elim

/-- A path whose turn has come can be unlinked: everything below it is gone. -/
private theorem unlink_spec (hs : Serves h disk settle order own) (hp : own p) {t t' : Tree}
    {gone rest : List Path} {x : Path} (hlist : order.list t = gone ++ x :: rest)
    (ht' : (disk w).dir p = some t') (hget : ∀ y, t'.get y = if y ∈ gone then none else t.get y) :
    (fs (.unlink p x) : Prog (withFs S P F D) IoError Unit).Safe h (fun _ => True)
      (fun r w' => r = .ok () ∧ ∃ t'', (disk w').dir p = some t'' ∧
        ∀ y, t''.get y = if y ∈ gone ++ [x] then none else t.get y) w := by
  have hnd : (order.list t).Nodup := (order.perm t).nodup_iff.mpr t.entries.nodupKeys
  have hpw := order.childrenFirst t
  rw [hlist] at hnd hpw
  have hleft : ∀ y, y ∈ t'.paths ↔ y ∉ gone ∧ y ∈ gone ++ x :: rest := by
    intro y
    rw [← hlist, (order.perm t).mem_iff, Tree.mem_paths, Tree.mem_paths, hget]
    split <;> simp_all
  have hx : x ∈ t'.paths :=
    (hleft x).mpr ⟨fun hm => (List.nodup_append.mp hnd).2.2 x hm x (by simp) rfl, by simp⟩
  have hchild : ∀ y ∈ t'.paths, y.dropLast ≠ x := by
    intro y hy hd
    obtain ⟨hyg, hym⟩ := (hleft y).mp hy
    rcases List.mem_cons.mp ((List.mem_append.mp hym).resolve_left hyg) with rfl | hyr
    · have hpos := List.length_pos_iff.mpr (t'.rooted y hy).1
      have hlen := congrArg List.length hd
      rw [List.length_dropLast] at hlen
      omega
    · exact (List.pairwise_cons.mp (List.pairwise_append.mp hpw).2.1).1 y hyr hd
  obtain ⟨t'', hrem⟩ := Tree.remove_ok hx hchild
  have hmod : (settle w).modify p (·.remove x) = (.ok (), (settle w).setDir p t'') :=
    Disk.modify_ok ((hs.mine w p hp).trans ht') hrem
  refine (safe_fs (.unlink p x)).mpr ⟨trivial, trivial, ?_⟩
  rw [hs.ret, hs.next]
  simp only [FsOp.exec, hmod, Disk.setDir_dir_self]
  refine ⟨trivial, t'', rfl, fun y => ?_⟩
  rw [Tree.get_remove hrem, hget]
  by_cases hy : y = x <;> simp [hy]

/-- A removal of a place that nobody else writes to succeeds, and leaves nothing there. -/
theorem removeTree_spec (hs : Serves h disk settle order own) (hp : own p) :
    (removeTree p : Prog (withFs S P F D) IoError Unit).Safe h (fun _ => True)
      (fun r w' => r = .ok () ∧ (disk w').dir p = none) w := by
  refine ⟨trivial, ?_⟩
  have hkeep := hs.frame hp (by simp [FsOp.places] : p ∉ (FsOp.removalOrder p).places) w
  rw [hs.ret]
  simp only [FsOp.exec, hs.mine w p hp]
  cases ht : (disk w).dir p with
  | none => exact ⟨trivial, rfl, hkeep.trans ht⟩
  | some t =>
    -- each unlink leaves what is not among the paths `gone`, and at the end nothing
    show ((each (fun x => fs (.unlink p x)) (order.list t)).bind fun _ =>
      fs (.removeDir p)).Safe h _ _ _
    refine Safe.bind (Safe.each
      (Q := fun r w' => r = .ok () ∧ ∃ t', (disk w').dir p = some t' ∧ t'.paths = [])
      (I := fun gone w' => ∃ t', (disk w').dir p = some t' ∧
        ∀ x, t'.get x = if x ∈ gone then none else t.get x) ⟨t, hkeep.trans ht, by simp⟩ ?_ ?_) ?_ ?_
    · rintro w' ⟨t', ht', hget⟩
      refine ⟨trivial, rfl, t', ht', List.eq_nil_iff_forall_not_mem.mpr fun x hx => ?_⟩
      obtain ⟨e, he⟩ := Tree.mem_paths.mp hx
      rw [hget] at he
      split at he
      · cases he
      · next hn => exact hn ((order.perm t).mem_iff.mpr (Tree.mem_paths.mpr ⟨e, he⟩))
    · rintro gone x rest w' hlist ⟨t', ht', hget⟩
      refine (unlink_spec hs hp hlist ht' hget).mono (fun _ h => h) ?_
      rintro r w'' - ⟨rfl, h⟩
      exact h
    · rintro - w' ⟨-, t', ht', hempty⟩
      refine (safe_fs (.removeDir p)).mpr ⟨trivial, trivial, ?_⟩
      rw [hs.ret, hs.next]
      simp [FsOp.exec, (hs.mine w' p hp).trans ht', hempty]
    · rintro e w' ⟨hr, -⟩
      cases hr

/-! ### Copies -/

/-- What a copy may assume of its source `p`: `J` says that every look so far saw the tree `s`.
It is only ever lost, by a look that sees something else. -/
structure Steady (h : Handler (withFs S P F D) W) (settle : W → Disk P F D) (p : P) (s : Tree)
    (J : W → Prop) : Prop where
  lost : ∀ o w, p ∉ o.places → J (h (.inl o) w).2 → J w
  sees : ∀ o w, o.looks p → p ∉ o.places → J (h (.inl o) w).2 → (settle w).dir p = some s
  there : ∀ w, J w → ((settle w).dir p).isSome

/-- The destination before the copy of `x`: nothing is there, and `g` is what is elsewhere. -/
def Fresh (d : Option Tree) (x : Path) (g : Path → Option Entry) : Prop :=
  (x = [] → d = none) ∧
    (x ≠ [] → ∃ t, d = some t ∧ t.isDir x.dropLast ∧ (∀ y, t.get (x ++ y) = none) ∧ t.get = g)

/-- The destination during the copy of `x`, where the names `done` had their turn. -/
def Partly (s t : Tree) (x : Path) (done : List String) (g : Path → Option Entry) : Prop :=
  t.isDir x ∧ (∀ c y, t.get (x ++ c :: y) = if c ∈ done then s.plain (x ++ c :: y) else none) ∧
    ∀ y, ¬ x <+: y → t.get y = g y

/-- The destination after the copy of `x`. -/
def Copied (s t : Tree) (x : Path) (g : Path → Option Entry) : Prop :=
  (∀ y, t.get (x ++ y) = s.plain (x ++ y)) ∧ ∀ y, ¬ x <+: y → t.get y = g y

theorem partly_nil_of_empty (s : Tree) (g : Path → Option Entry) : Partly s .empty [] [] g :=
  ⟨.inl rfl, fun c y => by simp, fun y hy => absurd y.nil_prefix hy⟩

/-- A new directory has nothing in it. -/
theorem partly_nil_of_add {s t t' : Tree} {x : Path} (h : t.add x .dir = .ok t')
    (hn : ∀ y, t.get (x ++ y) = none) : Partly s t' x [] t.get := by
  refine ⟨.inr (by rw [Tree.get_add h, if_pos rfl]), fun c y => ?_, fun y hy => ?_⟩
  · rw [Tree.get_add h, if_neg (by simp), hn, if_neg List.not_mem_nil]
  · rw [Tree.get_add h, if_neg fun he : y = x => hy (he ▸ List.prefix_rfl)]

/-- The copy is complete when every name in the source had its turn. -/
theorem Partly.copied {s t : Tree} {x : Path} {done : List String} {g : Path → Option Entry}
    (h : Partly s t x done g) (hx : s.isDir x) (hdone : ∀ c ∈ s.children x, c ∈ done) :
    Copied s t x g := by
  refine ⟨fun y => ?_, h.2.2⟩
  cases y with
  | nil =>
    rw [List.append_nil]
    rcases h.1 with rfl | ht
    · simp [Tree.plain]
    · rcases hx with rfl | hs
      · simp at ht
      · rw [ht, Tree.plain, hs]
  | cons c y =>
    rw [h.2.1]
    split
    · rfl
    · next hc =>
      have hnone : s.get (x ++ [c]) = none :=
        Tree.get_eq_none.mpr fun hm => hc (hdone c (Tree.mem_children.mpr hm))
      have hbelow : s.get (x ++ c :: y) = none := by
        rw [List.append_cons]
        by_cases hy : y = []
        · rw [hy, List.append_nil, hnone]
        · exact Tree.get_below (by simp [Tree.isDir, hnone]) hy
      rw [Tree.plain, hbelow]

/-- One more name is done when everything below it is copied and nothing else changed. -/
theorem Partly.add {s t t' : Tree} {x : Path} {done : List String} {g : Path → Option Entry}
    {c : String} (h : Partly s t x done g) (hc : Copied s t' (x ++ [c]) t.get) :
    Partly s t' x (done ++ [c]) g := by
  have hother : ∀ y, ¬ x ++ [c] <+: y → t'.get y = t.get y := hc.2
  have hlen : ∀ y : Path, y.length ≤ x.length → ¬ x ++ [c] <+: y := fun y hy hp => by
    have := hp.length_le
    simp only [List.length_append, List.length_singleton] at this
    omega
  refine ⟨h.1.imp id fun hd => (hother x (hlen x le_rfl)).trans hd, fun d y => ?_, fun y hy => ?_⟩
  · by_cases hd : d = c
    · subst hd
      rw [if_pos (by simp), List.append_cons]
      exact hc.1 y
    · rw [hother _ fun hp => hd ?_, h.2.1]
      · simp [hd]
      · rw [List.prefix_append_right_inj, List.cons_prefix_cons] at hp
        exact hp.1.symm
  · rw [hother y fun hp => hy ((List.prefix_append x [c]).trans hp), h.2.2 y hy]

variable {s : Tree} {J : W → Prop} {α : Type}

omit [DecidableEq F] in
/-- Once a look saw something else nothing is promised. -/
private theorem safe_of_not (hst : Steady h settle p s J) (hpq : p ≠ q) (hw : ¬ J w)
    {prog : Prog (withFs S P F D) ε α} {R : Except ε α → W → Prop}
    (hp : prog.Only (Within (· = q) fun _ => False)) :
    prog.Safe h (fun _ => True) (fun r w' => J w' → R r w') w := by
  refine (Safe.of_only (I := fun w => ¬ J w) hp ?_ hw).mono (fun _ _ => trivial)
    fun r w' _ hn hJ => absurd hJ hn
  rintro (o | o) w hop hn hJ
  · exact hn (hst.lost o w (fun hm => hpq (hop.1 p hm)) hJ)
  · exact hop.elim

/-- The copy of a directory starts with an empty directory. -/
private theorem makeDir_spec (hs : Serves h disk settle order own) (hst : Steady h settle p s J)
    (hq : own q) (hpq : p ≠ q) {x : Path} {g : Path → Option Entry} (hx : s.isDir x)
    (hw : J w → Fresh ((disk w).dir q) x g) :
    (makeDir q x : Prog (withFs S P F D) IoError Unit).Safe h (fun _ => True)
      (fun r w' => J w' → r = .ok () ∧ ∃ t, (disk w').dir q = some t ∧ Partly s t x [] g) w := by
  by_cases hJ : J w
  swap
  · exact safe_of_not hst hpq hJ (only_makeDir (by rfl) x)
  unfold makeDir
  split
  · refine (safe_fs (.createDirAll q)).mpr ⟨trivial, trivial, fun _ => ?_⟩
    rw [hs.ret, hs.next]
    simp only [FsOp.exec, (hs.mine w q hq).trans ((hw hJ).1 rfl), Option.isSome_none,
      Bool.false_eq_true, if_false, Disk.setDir_dir_self]
    exact ⟨trivial, _, rfl, partly_nil_of_empty s g⟩
  · next hne =>
    obtain ⟨t, ht, hd, hbelow, rfl⟩ := (hw hJ).2 hne
    obtain ⟨e, he⟩ : ∃ e, s.get x = some e := hx.elim (absurd · hne) fun h => ⟨_, h⟩
    obtain ⟨t', hadd⟩ := Tree.add_ok .dir hne (by simpa using hbelow []) (Tree.length_le he) hd
    have hmod : (settle w).modify q (·.add x .dir) = (.ok (), (settle w).setDir q t') :=
      Disk.modify_ok ((hs.mine w q hq).trans ht) hadd
    refine Safe.bind (Q := fun r w' => r = .ok (.ok ()) ∧ (disk w').dir q = some t')
      (Safe.attempt ((safe_fs (.createDir q x)).mpr ⟨trivial, trivial, ?_⟩)) ?_ ?_
    · rw [hs.ret, hs.next]
      simp only [FsOp.exec, hmod, Disk.setDir_dir_self, and_self]
    · rintro r w' ⟨hr, ht'⟩
      cases hr
      exact ⟨trivial, fun _ => ⟨rfl, t', ht', partly_nil_of_add hadd hbelow⟩⟩
    · rintro e w' ⟨hr, -⟩
      cases hr

/-- An entry is copied whole, below a directory that is there. -/
private theorem copyEntry_spec (hs : Serves h disk settle order own)
    (hst : Steady h settle p s J) (hq : own q) (hpq : p ≠ q)
    {copyDir : Path → Prog (withFs S P F D) IoError Unit}
    (honly : ∀ x, (copyDir x).Only (Within (· = q) fun _ => False))
    {x : Path} {c : String} {e : Entry} {done : List String} {g : Path → Option Entry}
    (hc : c ∉ done) (he : s.get (x ++ [c]) = some e)
    (hw : J w → ∃ t, (disk w).dir q = some t ∧ Partly s t x done g)
    (hdir : ∀ t : Tree, e = .dir → Fresh ((disk w).dir q) (x ++ [c]) t.get →
      (copyDir (x ++ [c])).Safe h (fun _ => True) (fun r w' => J w' → r = .ok () ∧
        ∃ t', (disk w').dir q = some t' ∧ Copied s t' (x ++ [c]) t.get) w) :
    (copyEntry p q copyDir x (c, e.kind)).Safe h (fun _ => True)
      (fun r w' => J w' → r = .ok () ∧
        ∃ t, (disk w').dir q = some t ∧ Partly s t x (done ++ [c]) g) w := by
  by_cases hJ : J w
  swap
  · exact safe_of_not hst hpq hJ (only_copyEntry (by rfl) honly x _)
  obtain ⟨t, ht, hp⟩ := hw hJ
  have hnone : ∀ y, t.get (x ++ [c] ++ y) = none := fun y => by
    rw [← List.append_cons, hp.2.1, if_neg hc]
  have hparent : t.isDir (x ++ [c]).dropLast := by
    rw [List.dropLast_concat]
    exact hp.1
  cases e with
  | dir =>
    refine (hdir t rfl ⟨fun h => by simp at h, fun _ => ⟨t, ht, hparent, hnone, rfl⟩⟩).mono
      (fun _ h => h) fun r w' _ hr hJ' => ?_
    obtain ⟨hr, t', ht', hcopied⟩ := hr hJ'
    exact ⟨hr, t', ht', hp.add hcopied⟩
  | special =>
    refine ⟨trivial, fun _ => ⟨rfl, t, ht, hp.add ⟨fun y => ?_, fun y _ => rfl⟩⟩⟩
    rw [hnone, Tree.plain]
    by_cases hy : y = []
    · rw [hy, List.append_nil, he]
    · rw [Tree.get_below (by simp [Tree.isDir, he]) hy]
  | file b m =>
    refine (safe_fs (.copyFile p (x ++ [c]) q (x ++ [c]))).mpr ⟨trivial, trivial, fun hJ' => ?_⟩
    have hsrc := hst.sees _ _ (show FsOp.looks p (.copyFile p (x ++ [c]) q (x ++ [c])) from rfl)
      (by simp [FsOp.places, hpq]) hJ'
    obtain ⟨t', hadd⟩ := Tree.add_ok (.file b m) (by simp) (by simpa using hnone [])
      (Tree.length_le he) hparent
    have hcopy : (settle w).copy p (x ++ [c]) q (x ++ [c]) = (.ok (), (settle w).setDir q t') := by
      simp only [Disk.copy, hsrc, Option.bind_some, he]
      refine Disk.modify_ok ((hs.mine w q hq).trans ht) ?_
      rw [if_pos (by simpa using hnone []), hadd]
    rw [hs.ret, hs.next]
    simp only [FsOp.exec, hcopy, Disk.setDir_dir_self]
    refine ⟨trivial, t', rfl, hp.add ⟨fun y => ?_, fun y hy => ?_⟩⟩
    · rw [Tree.get_add hadd, Tree.plain]
      by_cases hy : y = []
      · rw [hy, List.append_nil, if_pos rfl, he]
      · rw [if_neg (by simpa using hy), hnone, Tree.get_below (by simp [Tree.isDir, he]) hy]
    · rw [Tree.get_add hadd, if_neg fun he : y = _ => hy (he ▸ List.prefix_rfl)]

/-- The entries that `readDir` lists for a directory of `s`. -/
private def listing (s : Tree) (x : Path) : List (String × Kind) :=
  (s.children x).filterMap fun c => (s.get (x ++ [c])).map fun e => (c, e.kind)

private theorem map_listing (s : Tree) (x : Path) : (listing s x).map Prod.fst = s.children x := by
  have hall : ∀ cs : List String, (∀ c ∈ cs, c ∈ s.children x) →
      (cs.filterMap fun c => (s.get (x ++ [c])).map fun e => (c, e.kind)).map Prod.fst = cs := by
    intro cs
    induction cs with
    | nil => intro _; rfl
    | cons c cs ih =>
      intro hcs
      obtain ⟨e, he⟩ := Tree.mem_paths.mp (Tree.mem_children.mp (hcs c List.mem_cons_self))
      rw [List.filterMap_cons_some (by rw [he]; rfl), List.map_cons,
        ih fun d hd => hcs d (List.mem_cons_of_mem _ hd)]
  exact hall _ fun _ h => h

/-- A listing of a directory of `s`. -/
private theorem readDir_spec (hs : Serves h disk settle order own) (hst : Steady h settle p s J)
    (hq : own q) {x : Path} (hx : s.isDir x) (X : Option Tree → Prop)
    (hw : J w → X ((disk w).dir q)) :
    (fs (.readDir p x) : Prog (withFs S P F D) IoError _).Safe h (fun _ => True)
      (fun r w' => J w' → r = .ok (listing s x) ∧ X ((disk w').dir q)) w := by
  refine (safe_fs (.readDir p x)).mpr ⟨trivial, trivial, fun hJ => ?_⟩
  have hsrc := hst.sees _ _ (show FsOp.looks p (.readDir p x) from rfl) (by simp [FsOp.places]) hJ
  rw [hs.frame hq (by simp [FsOp.places]), hs.ret]
  simp only [FsOp.exec, hsrc, if_pos hx]
  exact ⟨rfl, hw (hst.lost _ w (by simp [FsOp.places]) hJ)⟩

/-- A directory of `s` is found to be one. -/
private theorem isDir_spec (hs : Serves h disk settle order own) (hst : Steady h settle p s J)
    (hq : own q) {x : Path} (hx : s.isDir x) (X : Option Tree → Prop)
    (hw : J w → X ((disk w).dir q)) :
    (fs (.isDir p x) : Prog (withFs S P F D) IoError _).Safe h (fun _ => True)
      (fun r w' => J w' → r = .ok true ∧ X ((disk w').dir q)) w := by
  refine (safe_fs (.isDir p x)).mpr ⟨trivial, trivial, fun hJ => ?_⟩
  have hJw := hst.lost (.isDir p x) w (by simp [FsOp.places]) hJ
  rw [hs.frame hq (by simp [FsOp.places]), hs.ret]
  refine ⟨?_, hw hJw⟩
  simp only [FsOp.exec]
  by_cases hne : x = []
  · obtain ⟨t, ht⟩ := Option.isSome_iff_exists.mp (hst.there w hJw)
    simp [ht, Tree.isDir, hne]
  · have hsrc := hst.sees _ _ (show FsOp.looks p (.isDir p x) from ⟨rfl, hne⟩)
      (by simp [FsOp.places]) hJ
    simp [hsrc, hx]

/-- The copy of a directory of `s`, by induction on the depth that is left. -/
private theorem copyDir_spec (hs : Serves h disk settle order own)
    (hst : Steady h settle p s J) (hq : own q) (hpq : p ≠ q) (depth : Nat) :
    ∀ (w : W) (x : Path) (g : Path → Option Entry), s.isDir x → maxDepth < x.length + depth →
      (J w → Fresh ((disk w).dir q) x g) →
      (copyTree p q depth x : Prog (withFs S P F D) IoError Unit).Safe h (fun _ => True)
        (fun r w' => J w' → r = .ok () ∧ ∃ t, (disk w').dir q = some t ∧ Copied s t x g) w := by
  induction depth with
  | zero =>
    intro w x g hx hlen _
    rcases hx with rfl | hx
    · simp at hlen
    · have := Tree.length_le hx
      omega
  | succ depth ih =>
    intro w x g hx hlen hw
    refine (makeDir_spec hs hst hq hpq hx hw).bind (fun _ w₁ hw₁ => ?_) fun e w₁ h hJ => ?_
    swap
    · cases (h hJ).1
    have hentries : ∀ entries, (each (copyEntry p q (copyTree p q depth) x) entries :
        Prog (withFs S P F D) IoError Unit).Only (Within (· = q) fun _ => False) := fun _ =>
      Only.each (only_copyEntry (by rfl) (only_copyTree (by rfl) depth) x)
    refine (isDir_spec hs hst hq hx (fun d => ∃ t, d = some t ∧ Partly s t x [] g) fun hJ => (hw₁ hJ).2).bind (fun b w₂ hw₂ => ?_)
      fun e w₂ h hJ => by cases (h hJ).1
    by_cases hJ₂ : J w₂
    swap
    · refine safe_of_not hst hpq hJ₂ ?_
      split
      · exact (only_read rfl rfl).bind hentries
      · trivial
    cases (hw₂ hJ₂).1
    refine (readDir_spec hs hst hq hx (fun d => ∃ t, d = some t ∧ Partly s t x [] g) fun hJ => (hw₂ hJ).2).bind (fun entries w₃ hw₃ => ?_)
      fun e w₃ h hJ => by cases (h hJ).1
    by_cases hJ₃ : J w₃
    swap
    · exact safe_of_not hst hpq hJ₃ (hentries entries)
    cases (hw₃ hJ₃).1
    refine Safe.each (I := fun done w' => J w' → ∃ t, (disk w').dir q = some t ∧
      Partly s t x (done.map Prod.fst) g) (fun hJ => (hw₃ hJ).2) ?_ ?_
    · intro w' hI
      refine ⟨trivial, fun hJ => ?_⟩
      obtain ⟨t, ht, hp⟩ := hI hJ
      exact ⟨rfl, t, ht, hp.copied hx fun c hc => (map_listing s x).symm ▸ hc⟩
    · rintro done ⟨c, k⟩ rest w' hl hI
      have hnd : ((listing s x).map Prod.fst).Nodup := map_listing s x ▸ s.nodup_children x
      rw [hl, List.map_append, List.map_cons] at hnd
      have hc : c ∉ done.map Prod.fst := fun hm => (List.nodup_append.mp hnd).2.2 c hm c (by simp) rfl
      have hmem : (c, k) ∈ listing s x := hl ▸ by simp
      obtain ⟨c', -, hmap⟩ := List.mem_filterMap.mp hmem
      obtain ⟨e, he, heq⟩ := Option.map_eq_some_iff.mp hmap
      cases heq
      refine (copyEntry_spec hs hst hq hpq (only_copyTree (by rfl) depth) hc he hI
        fun t hdir hfresh => ih w' _ _ (.inr (hdir ▸ he)) (by simp; omega) fun _ => hfresh).mono
        (fun _ h => h) fun r w'' _ hr => ?_
      cases r with
      | ok u =>
        intro hJ
        obtain ⟨-, t, ht, hp⟩ := hr hJ
        exact ⟨t, ht, by simpa using hp⟩
      | error e => exact fun hJ => by cases (hr hJ).1

/-- The copy of a tree that every look at the source saw is that tree, without what is neither a
file nor a directory. -/
theorem copyTree_spec (hs : Serves h disk settle order own) (hst : Steady h settle p s J)
    (hq : own q) (hpq : p ≠ q) (hw : J w → (disk w).dir q = none) :
    (copyTree p q (maxDepth + 1) [] : Prog (withFs S P F D) IoError Unit).Safe h (fun _ => True)
      (fun r w' => J w' → r = .ok () ∧
        ∃ t, (disk w').dir q = some t ∧ ∀ x, t.get x = s.plain x) w := by
  refine (copyDir_spec hs hst hq hpq (maxDepth + 1) w [] (fun _ => none) (.inl rfl) (by simp)
    fun hJ => ⟨fun _ => hw hJ, fun h => absurd rfl h⟩).mono (fun _ h => h) fun r w' _ hr hJ => ?_
  obtain ⟨hr, t, ht, hcopied⟩ := hr hJ
  exact ⟨hr, t, ht, hcopied.1⟩

end Specs

end Files
