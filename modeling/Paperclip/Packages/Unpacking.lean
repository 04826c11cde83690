import Paperclip.Packages.Extraction

/-!
# Streams that can be unpacked

* `TarEntry.Whole`: an entry of a regular file that has a path, and all of its content.
* `Unrelated`: places of which none is at or below another one.
* `extractTree_cases`: what is so of a stream that was unpacked. `extractTree_fits`: whole entries
  whose places are apart are unpacked into an empty directory.
-/

namespace Paperclip.Packages

open Crash Files Protocol Prog

/-- The entry is that of a regular file, and has all of it. -/
def TarEntry.Whole (limits : ArchiveLimits) (entry : TarEntry) : Prop :=
  ∃ name, entry.kind = .regular ∧ entry.path = some name ∧
    entry.size = some entry.available.length ∧ entry.available.length ≤ limits.fileBytes

/-- No place is at or below another one. -/
def Unrelated (places : List Path) : Prop := places.Pairwise fun x y => ¬ x <+: y ∧ ¬ y <+: x

/-- Nothing is in the way of a directory. -/
def Free (t : Tree) (x : Path) : Prop := t.get x = none ∨ t.get x = some .dir

section

variable {S : Sig} {P F : Type} {D : F → Type} {W : Type} [DecidableEq P] [DecidableEq F]
  {h : Handler (withFs S P F D) W} {disk settle : W → Disk P F D} {order : Tree.Order}
  {own : P → Prop} {dest : P} {limits : ArchiveLimits} {entries : List TarEntry} {t : Tree} {w : W}

/-- A handler serves with a log as it does without. -/
theorem serves_log {Event : Type} (hs : Serves h disk settle order own)
    (log : Step (withFs S P F D) W → List Event) :
    Serves (h.logged log) (fun x => disk x.1) (fun x => settle x.1) order own where
  ret o x := hs.ret o x.1
  next o x := hs.next o x.1
  mine x := hs.mine x.1

theorem createDirectory_fits (hs : Serves h disk settle order own) (hd : own dest)
    {walked : Path} {component : String} (ht : (disk w).dir dest = some t)
    (hwalked : t.isDir walked) (hfree : Free t (walked ++ [component]))
    (hlen : (walked ++ [component]).length ≤ maxDepth) :
    (createDirectory dest (walked ++ [component]) :
      Prog (withFs S P F D) ArchiveError Unit).Safe h (fun _ => True)
      (fun r w' => ∃ u, r = .ok u ∧ ∃ t', (disk w').dir dest = some t' ∧
        ∀ x, t'.get x = if x = walked ++ [component] then some .dir else t.get x) w := by
  have ht' : (settle w).dir dest = some t := (hs.mine w dest hd).trans ht
  refine Safe.attempt_bind ((safe_fs (.createDir dest (walked ++ [component]))).mpr
    ⟨trivial, trivial, ?_⟩)
  rw [hs.ret]
  rcases hfree with hnone | hdir
  · obtain ⟨t₁, hadd⟩ := Tree.add_ok (t := t) .dir (by simp) hnone hlen (by
      rw [List.dropLast_concat]
      exact hwalked)
    have hexec : (FsOp.createDir dest (walked ++ [component])).exec order (settle w) =
        (.ok (), (settle w).setDir dest t₁) := Disk.modify_ok ht' hadd
    rw [hexec]
    refine ⟨trivial, (), rfl, t₁, ?_, Tree.get_add hadd⟩
    rw [hs.next, hexec]
    exact Disk.setDir_dir_self _ _
  · have hexec : (FsOp.createDir dest (walked ++ [component])).exec order (settle w) =
        (.error .alreadyExists, settle w) := by
      simp only [FsOp.exec, Disk.modify, ht', Tree.add]
      rw [dif_neg (by simp [hdir])]
    rw [hexec]
    refine ⟨trivial, (), rfl, t, ?_, fun x => ?_⟩
    · rw [hs.next, hexec]
      exact ht'
    · split
      · next hx => rw [hx, hdir]
      · rfl

theorem createDirectories_fits (hs : Serves h disk settle order own) (hd : own dest)
    {walked x : Path} (ht : (disk w).dir dest = some t) (hwalked : t.isDir walked)
    (hfree : ∀ y, y <+: walked ++ x → y ≠ [] → Free t y)
    (hlen : (walked ++ x).length ≤ maxDepth) :
    (createDirectories dest walked x : Prog (withFs S P F D) ArchiveError Unit).Safe h
      (fun _ => True) (fun r w' => ∃ u, r = .ok u ∧ ∃ t', (disk w').dir dest = some t' ∧
        t'.isDir (walked ++ x) ∧ ∀ y, ¬ y <+: walked ++ x → t'.get y = t.get y) w := by
  induction x generalizing walked t w with
  | nil => exact ⟨trivial, (), rfl, t, ht, by rwa [List.append_nil], fun _ _ => rfl⟩
  | cons component rest ih =>
    rw [List.append_cons] at hfree hlen ⊢
    have hpre : walked ++ [component] <+: walked ++ [component] ++ rest :=
      List.prefix_append _ _
    refine Safe.bind_ok (createDirectory_fits hs hd ht hwalked (hfree _ hpre (by simp))
      (hpre.length_le.trans hlen)) fun _ w' hq => ?_
    obtain ⟨t₁, ht₁, hget⟩ := hq
    have hmade : t₁.isDir (walked ++ [component]) := .inr (by rw [hget, if_pos rfl])
    refine (ih ht₁ hmade (fun y hy hne => ?_) hlen).mono (fun _ h => h) ?_
    · rw [Free, hget]
      split
      · exact .inr rfl
      · exact hfree y hy hne
    · rintro r w'' - ⟨u, hr, t₂, ht₂, hdir, hsame⟩
      refine ⟨u, hr, t₂, ht₂, hdir, fun y hy => ?_⟩
      rw [hsame y hy, hget, if_neg]
      rintro rfl
      exact hy hpre

/-- A file that nothing is in the way of is written. -/
theorem writeFile_fits (hs : Serves h disk settle order own) (hd : own dest) (entry : TarEntry)
    {name : RelativePath} (ht : (disk w).dir dest = some t)
    (hfree : ∀ y, y <+: name.components → y ≠ [] → y ≠ name.components → Free t y)
    (hnone : t.get name.components = none) (hlen : name.components.length ≤ maxDepth) :
    (writeFile entry dest name entry.available.length :
      Prog (withFs S P F D) ArchiveError Unit).Safe h (fun _ => True)
      (fun r _ => ∃ u, r = .ok u) w := by
  have hne := name.components_ne_nil
  have hshort : ¬ name.components <+: name.components.dropLast := by
    intro hpre
    have hle := hpre.length_le
    rw [List.length_dropLast] at hle
    have := List.length_pos_iff.mpr hne
    omega
  have hparents : ∀ y, y <+: [] ++ name.components.dropLast → y ≠ [] → Free t y := by
    intro y hy hy'
    rw [List.nil_append] at hy
    refine hfree y (hy.trans (List.dropLast_prefix _)) hy' ?_
    rintro rfl
    exact hshort hy
  refine Safe.bind_ok (createDirectories_fits hs hd ht (.inl rfl) hparents
    ((List.dropLast_prefix _).length_le.trans hlen)) fun _ w₁ hq => ?_
  obtain ⟨t₁, ht₁, hparent, hsame⟩ := hq
  rw [List.nil_append] at hparent hsame
  have hnone₁ : t₁.get name.components = none := (hsame _ hshort).trans hnone
  obtain ⟨t₂, hadd⟩ := Tree.add_ok (.file [] false) hne hnone₁ hlen hparent
  have hcreate : (FsOp.createNew dest name.components).exec order (settle w₁) =
      (.ok (), (settle w₁).setDir dest t₂) :=
    Disk.modify_ok ((hs.mine w₁ dest hd).trans ht₁) hadd
  refine Safe.bind_ok (T := fun _ w₂ => (disk w₂).dir dest = some t₂)
    (Safe.mapError ((safe_fs (.createNew dest name.components)).mpr ⟨trivial, trivial, ?_⟩))
    fun _ w₂ ht₂ => ?_
  · rw [hs.ret, hs.next, hcreate]
    exact ⟨(), rfl, Disk.setDir_dir_self _ _⟩
  have hempty : t₂.get name.components = some (.file [] false) := by
    rw [Tree.get_add hadd, if_pos rfl]
  obtain ⟨t₃, hset⟩ :=
    Tree.setFile_ok hempty (entry.available.take entry.available.length) false
  have hwrite : (FsOp.write dest name.components
      (entry.available.take entry.available.length)).exec order (settle w₂) =
        (.ok (), (settle w₂).setDir dest t₃) := by
    rw [FsOp.exec_write order ((hs.mine w₂ dest hd).trans ht₂) hempty]
    exact Disk.modify_ok ((hs.mine w₂ dest hd).trans ht₂) hset
  refine Safe.bind_ok (T := fun _ _ => True)
    (Safe.mapError ((safe_fs (.write dest name.components _)).mpr ⟨trivial, trivial, ?_⟩))
    fun _ w₃ _ => ?_
  · rw [hs.ret, hwrite]
    exact ⟨(), rfl, trivial⟩
  rw [if_neg (by simp)]
  exact ⟨trivial, (), rfl⟩

/-- Where a whole entry's file goes, after entries whose places are apart from it. -/
theorem Laid.free {done : List TarEntry} {name : RelativePath}
    (hlaid : Laid (made done) done t) (hwhole : ∀ entry ∈ done, entry.Whole limits)
    (hapart : ∀ f ∈ made done, ¬ place f <+: name.components ∧ ¬ name.components <+: place f) :
    (∀ y, y <+: name.components → y ≠ [] → y ≠ name.components → Free t y) ∧
      t.get name.components = none := by
  have hclear : ∀ y, y <+: name.components → Free t y := by
    intro y hy
    rw [Free]
    cases hget : t.get y with
    | none => exact .inl rfl
    | some e =>
      cases e with
      | dir => exact .inr rfl
      | special => exact absurd hget (hlaid.plain y)
      | file bytes mode =>
        obtain ⟨-, f, hf, rfl, -⟩ := (hlaid.file y bytes mode).mp hget
        exact absurd hy (hapart f hf).1
  refine ⟨fun y hy _ _ => hclear y hy, ?_⟩
  rcases hclear _ List.prefix_rfl with hnone | hdir
  · exact hnone
  · obtain ⟨e, he, name', hname', hpre⟩ := hlaid.dir _ hdir
    obtain ⟨name'', hkind, hpath'', hsize, -⟩ := hwhole e he
    obtain rfl : name' = name'' := Option.some.inj (hname'.symm.trans hpath'')
    have hfile := file_of_regular hkind hpath'' hsize
    exact absurd hpre (hapart _ (List.mem_filterMap.mpr ⟨e, he, hfile⟩)).2

theorem extractEntries_fits (hs : Serves h disk settle order own) (hd : own dest)
    (rest done : List TarEntry) (hentries : entries = done ++ rest)
    (hwhole : ∀ entry ∈ entries, entry.Whole limits) (hfew : entries.length ≤ limits.entries)
    (hapart : Unrelated ((made entries).map place)) (hfits : Fits limits entries (made done) done)
    {x : W × List Path} (hx : Filled disk dest (made done) done ((made done).map place) x) :
    (extractEntries dest limits none rest done.length (.of (made done)) :
      Prog (withFs S P F D) ArchiveError ExtractedTree).Safe (h.logged writes) (fun _ => True)
      (fun r _ => ∃ tree, r = .ok tree) x := by
  induction rest generalizing done x with
  | nil => exact ⟨trivial, _, rfl⟩
  | cons entry rest ih =>
    have hmem : entry ∈ done ++ [entry] := by simp
    have hstep : entries = (done ++ [entry]) ++ rest := by rw [hentries, List.append_cons]
    have hlen : done.length + 1 = (done ++ [entry]).length := by simp
    have hcount : done.length + 1 ≤ limits.entries := by
      rw [hentries, List.length_append, List.length_cons] at hfew
      omega
    obtain ⟨name, hkind, hpath, hsize, hsmall⟩ := hwhole entry (hentries ▸ by simp)
    have hname : entryName entry.name .regular = .ok name := by
      unfold TarEntry.path at hpath
      rw [hkind] at hpath
      split at hpath
      · next hok =>
        cases hpath
        exact hok
      · cases hpath
    have hfile := file_of_regular hkind hpath hsize
    have hcross : ∀ f ∈ made done,
        ¬ place f <+: name.components ∧ ¬ name.components <+: place f := by
      intro f hf
      rw [hstep, made_append, made_concat_some done hfile, List.map_append, List.map_append,
        List.append_assoc] at hapart
      exact (List.pairwise_append.mp hapart).2.2 _ (List.mem_map_of_mem hf) name.components
        (List.mem_append_left _ (List.mem_singleton.mpr rfl))
    obtain ⟨⟨t, ht, hlaid⟩, -⟩ := id hx
    obtain ⟨hfree, hnone⟩ := hlaid.free
      (fun e he => hwhole e (hentries ▸ List.mem_append_left _ he)) hcross
    have hmake : Fits limits entries
        (made done ++ [(name, entry.available.take entry.available.length)]) (done ++ [entry]) := by
      rw [hentries] at hfits ⊢
      refine hfits.make hcount ?_ (length_of_file hfile)
      rw [List.length_take]
      omega
    have hdepth : name.components.length ≤ maxDepth := name.length_components_le.trans (by decide)
    have hok := writeFile_fits (serves_log hs writes) hd entry ht hfree hnone hdepth
    have hfilled := writeFile_filled hs.tries hd hmake hmem hpath (hx.see entry)
    unfold extractEntries
    rw [if_neg (not_lt.mpr hcount), hkind, hname, Prog.bind_eq, Prog.ofExcept_ok, Prog.bind_done]
    dsimp only
    rw [hsize]
    dsimp only
    rw [if_neg (not_lt.mpr hsmall)]
    refine Safe.bind_ok (T := fun _ x' => Filled disk dest (made (done ++ [entry]))
      (done ++ [entry]) ((made (done ++ [entry])).map place) x')
      ((hok.and hfilled).mono (fun _ _ => trivial) ?_) fun _ x' hx' => ?_
    · rintro r x' - ⟨⟨u, rfl⟩, hq⟩
      rw [made_concat_some done hfile]
      exact ⟨u, rfl, (hq u rfl).2⟩
    · have hof : (⟨(ExtractedTree.of (made done)).files + 1,
          (ExtractedTree.of (made done)).bytes + entry.available.length,
          (ExtractedTree.of (made done)).names ++ [name]⟩ : ExtractedTree) =
          .of (made (done ++ [entry])) := by
        rw [made_concat_some done hfile]
        simp [ExtractedTree.of]
      rw [hof, hlen]
      rw [← made_concat_some done hfile] at hmake
      exact ih _ hstep hmake hx'

/-- Whole entries, no more than are allowed, are unpacked into an empty directory where their places
are apart. -/
theorem extractTree_fits (hs : Serves h disk settle order own) (hd : own dest)
    (hwhole : ∀ entry ∈ entries, entry.Whole limits) (hfew : entries.length ≤ limits.entries)
    (hapart : Unrelated ((made entries).map place)) (hempty : (disk w).dir dest = some .empty) :
    (extractTree ⟨entries, none⟩ dest limits : Prog (withFs S P F D) ArchiveError _).Safe h
      (fun _ => True) (fun r w' => r = .ok (.of (made entries)) ∧
        ∃ t, (disk w').dir dest = some t ∧ Laid (made entries) entries t) w := by
  have hlist : (FsOp.readDir dest []).exec order (settle w) = (.ok [], settle w) := by
    simp only [FsOp.exec, (hs.mine w dest hd).trans hempty]
    rw [if_pos (.inl rfl)]
    rfl
  have hok : (extractTree ⟨entries, none⟩ dest limits :
      Prog (withFs S P F D) ArchiveError ExtractedTree).Safe (h.logged writes) (fun _ => True)
      (fun r _ => ∃ tree, r = .ok tree) (w, []) := by
    refine Safe.bind_ok (T := fun _ x => Filled disk dest [] [] [] x) ?_ fun _ x hx => ?_
    · refine Safe.bind_ok (T := fun found x => found = [] ∧ Filled disk dest [] [] [] x)
        (Safe.mapError ((safe_fs (.readDir dest [])).mpr ⟨trivial, trivial, ?_⟩))
        fun found x hq => ?_
      · rw [(serves_log hs writes).ret]
        dsimp only
        rw [hlist]
        refine ⟨[], rfl, rfl, ⟨.empty, ?_, .nil Tree.get_empty⟩, rfl⟩
        rw [(serves_log hs writes).next]
        dsimp only
        rw [hlist]
        exact (hs.mine w dest hd).trans hempty
      · obtain ⟨rfl, hx⟩ := hq
        rw [if_neg (not_not.mpr rfl)]
        exact ⟨trivial, (), rfl, hx⟩
    · exact extractEntries_fits hs hd entries [] rfl hwhole hfew hapart (Fits.nil _ _) hx
  have hresult := hok.result
  rw [run_logged] at hresult
  obtain ⟨tree, htree⟩ := hresult
  obtain ⟨rfl, -, hlaid⟩ :=
    (extractTree_laid hs.tries hd ⟨entries, none⟩ limits).result tree htree
  exact safe_iff.mpr ⟨fun _ _ => trivial, htree, hlaid⟩

omit [DecidableEq P] [DecidableEq F] in
/-- A stream that is unpacked ends well. -/
theorem extractEntries_ended (limits : ArchiveLimits) (ending : Option IoError)
    (rest : List TarEntry) (seen : Nat) (tree : ExtractedTree) :
    (extractEntries dest limits ending rest seen tree :
      Prog (withFs S P F D) ArchiveError ExtractedTree).Safe h (fun _ => True)
      (OnOk fun _ _ => ending = none) w := by
  induction rest generalizing seen tree w with
  | nil =>
    unfold extractEntries
    split
    · exact ⟨trivial, fun _ h => (by cases h)⟩
    · exact ⟨trivial, fun _ _ => rfl⟩
  | cons entry rest ih =>
    unfold extractEntries
    split
    · exact ⟨trivial, fun _ h => (by cases h)⟩
    refine (safe_onOk_true _ w).bind_onOk fun name w₁ _ => ?_
    split
    · exact (safe_onOk_true _ w₁).bind_onOk fun _ _ _ => ih _ _
    · split
      · exact ⟨trivial, fun _ h => (by cases h)⟩
      split
      · exact ⟨trivial, fun _ h => (by cases h)⟩
      exact (safe_onOk_true _ w₁).bind_onOk fun _ _ _ => ih _ _
    · exact ⟨trivial, fun _ h => (by cases h)⟩

/-- What is so of a stream that was unpacked. -/
theorem extractTree_cases (hs : Tries h disk settle order own) (hd : own dest)
    (source : TarStream) (limits : ArchiveLimits) :
    (extractTree source dest limits : Prog (withFs S P F D) ArchiveError ExtractedTree).Safe h
      (fun _ => True) (OnOk fun tree w' => tree = .of (made source.entries) ∧
        source.ending = none ∧ source.entries.length ≤ limits.entries ∧
        (∀ entry ∈ source.entries, entry.Taken limits) ∧
        ∃ t, (disk w').dir dest = some t ∧ Laid (made source.entries) source.entries t) w := by
  have hended : (extractTree source dest limits :
      Prog (withFs S P F D) ArchiveError ExtractedTree).Safe h (fun _ => True)
      (OnOk fun _ _ => source.ending = none) w :=
    (safe_onOk_true _ w).bind_onOk fun _ _ _ => extractEntries_ended ..
  refine safe_iff.mpr ⟨fun _ _ => trivial, fun tree htree => ?_⟩
  have hresult := (extractTree_confined hs hd source limits w).result
  rw [run_logged] at hresult
  obtain ⟨rfl, hfits, htaken, hlaid, -⟩ := hresult tree htree
  exact ⟨rfl, hended.result _ htree, hfits.few, htaken, hlaid⟩

end

end Paperclip.Packages
