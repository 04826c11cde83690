import Paperclip.Packages.Build
import Paperclip.Packages.Confinement

/-!
# Build, then extract

What is built from a package directory can be extracted again, unless the package declares its own
manifest as one of its files: the archive then has that file twice, and the extraction refuses the
second.

* `Shadow t s`: the tree `t` has files and directories only where `s` has them. Extraction keeps
  this of the tree it fills and the tree that was packed, so nothing is ever in its way.
* `extractTree_ok`: files with different places that come from a tree can be extracted.
* `extract_build_iff`: when the extraction of a build is the package again.
-/

namespace Paperclip.Packages

open Crash Files Protocol Prog

/-- What a tar reader makes of a file that was packed. -/
def PackedFile.entry (file : PackedFile) : TarEntry where
  name := some file.name
  kind := .regular
  size := some file.bytes.length
  available := file.bytes
  broken := none

/-- Wherever `t` has something, `s` has something of the same kind. -/
def Shadow (t s : Tree) : Prop :=
  ∀ x e, t.get x = some e → (s.get x).map Entry.kind = some e.kind

namespace Shadow

variable {t t' s : Tree} {x : Path}

theorem of_get (h : Shadow t s) {e e' : Entry} (hx : s.get x = some e')
    (hkind : e.kind = e'.kind)
    (ht : ∀ y, t'.get y = if y = x then some e else t.get y) : Shadow t' s := by
  intro y e'' hy
  rw [ht] at hy
  split at hy
  · next hyx =>
    cases hy
    rw [hyx, hx, hkind]
    rfl
  · exact h y e'' hy

/-- Where `s` has a directory, `t` has one or nothing. -/
theorem dir (h : Shadow t s) (hx : s.get x = some .dir) :
    t.get x = none ∨ t.get x = some .dir := by
  cases ht : t.get x with
  | none => exact .inl rfl
  | some e =>
    have hkind := h x e ht
    rw [hx] at hkind
    cases e with
    | dir => exact .inr rfl
    | file => cases hkind
    | special => cases hkind

/-- Where `s` has a file, `t` has one or nothing. -/
theorem file (h : Shadow t s) {bytes : Bytes} {mode : Bool}
    (hx : s.get x = some (.file bytes mode)) :
    t.get x = none ∨ ∃ bytes' mode', t.get x = some (.file bytes' mode') := by
  cases ht : t.get x with
  | none => exact .inl rfl
  | some e =>
    have hkind := h x e ht
    rw [hx] at hkind
    cases e with
    | dir => cases hkind
    | file bytes' mode' => exact .inr ⟨bytes', mode', rfl⟩
    | special => cases hkind

end Shadow

/-- The file comes from the tree `s`, and is small enough for an extraction. -/
def Comes (limits : ArchiveLimits) (s : Tree) (file : PackedFile) : Prop :=
  file.bytes.length ≤ limits.fileBytes ∧ ∃ path : RelativePath, file.name = path.text ∧
    rejectReserved path = .ok () ∧ ∃ mode, s.get path.components = some (.file file.bytes mode)

theorem entryName_regular {path : RelativePath} (hreserved : rejectReserved path = .ok ()) :
    entryName (some path.text) .regular = .ok path := by
  unfold entryName
  dsimp only
  rw [if_neg (by decide), RelativePath.parse_of_valid]
  dsimp only
  rw [hreserved]

theorem entryName_entry {file : PackedFile} {path : RelativePath} (hname : file.name = path.text)
    (hreserved : rejectReserved path = .ok ()) :
    entryName file.entry.name file.entry.kind = .ok path := by
  show entryName (some file.name) .regular = .ok path
  rw [hname]
  exact entryName_regular hreserved

section Extraction

variable {P F : Type} {D : F → Type} [DecidableEq P] [DecidableEq F] {order : Tree.Order}
  {dest : P} {d : Disk P F D} {s t : Tree} {limits : ArchiveLimits}

/-- The destination holds a shadow of `s`, with no files but those that `t` has. -/
def Shadowed (dest : P) (s t : Tree) (x : Path) (d : Disk P F D) : Prop :=
  ∃ t', d.dir dest = some t' ∧ Shadow t' s ∧ t'.isDir x ∧
    ∀ y bytes mode, t'.get y = some (.file bytes mode) → t.get y = some (.file bytes mode)

theorem createDirectory_ok {walked : Path} {component : String}
    (hdir : s.get (walked ++ [component]) = some .dir) (hd : Shadowed dest s t walked d) :
    (createDirectory dest (walked ++ [component]) :
      Prog (withFs noCalls P F D) ArchiveError Unit).Safe (alone order) (fun _ => True)
      (fun r d' => r = .ok () ∧ Shadowed dest s t (walked ++ [component]) d') d := by
  obtain ⟨t', ht', hshadow, hwalked, hfiles⟩ := hd
  refine ⟨trivial, ?_⟩
  rcases hshadow.dir hdir with hnone | hsome
  · obtain ⟨t'', hadd⟩ := Tree.add_ok (t := t') .dir (by simp) hnone (Tree.length_le hdir) (by
      rw [List.dropLast_concat]
      exact hwalked)
    have hexec : (FsOp.createDir dest (walked ++ [component])).exec order d =
        (.ok (), d.setDir dest t'') := Disk.modify_ok ht' hadd
    simp only [alone, hexec]
    refine ⟨trivial, rfl, t'', Disk.setDir_dir_self _ _,
      hshadow.of_get hdir rfl (Tree.get_add hadd), .inr ?_, fun y bytes mode hy => ?_⟩
    · rw [Tree.get_add hadd, if_pos rfl]
    · rw [Tree.get_add hadd] at hy
      split at hy
      · cases hy
      · exact hfiles y bytes mode hy
  · have hexec : (FsOp.createDir dest (walked ++ [component])).exec order d =
        (.error .alreadyExists, d) := by
      simp only [FsOp.exec, Disk.modify, ht', Tree.add]
      rw [dif_neg (by simp [hsome])]
    simp only [alone, hexec]
    exact ⟨trivial, rfl, t', ht', hshadow, .inr hsome, hfiles⟩

theorem createDirectories_ok {walked x : Path}
    (hdirs : ∀ y, y <+: walked ++ x → y ≠ [] → s.get y = some .dir)
    (hd : Shadowed dest s t walked d) :
    (createDirectories dest walked x : Prog (withFs noCalls P F D) ArchiveError Unit).Safe
      (alone order) (fun _ => True) (fun r d' => r = .ok () ∧ Shadowed dest s t (walked ++ x) d')
      d := by
  induction x generalizing walked d with
  | nil => exact ⟨trivial, rfl, by rwa [List.append_nil]⟩
  | cons component rest ih =>
    rw [List.append_cons] at hdirs ⊢
    refine (createDirectory_ok (hdirs _ (List.prefix_append _ _) (by simp)) hd).bind
      (fun _ d' hq => ih hdirs hq.2) ?_
    rintro e d' ⟨hr, -⟩
    cases hr

/-- A file that comes from `s` and is not there yet can be written. -/
theorem writeFile_ok {file : PackedFile} {path : RelativePath} {mode : Bool}
    (hget : s.get path.components = some (.file file.bytes mode)) (ht : d.dir dest = some t)
    (hshadow : Shadow t s) (hfresh : ∀ b m, t.get path.components ≠ some (.file b m)) :
    (writeFile file.entry dest path file.bytes.length :
      Prog (withFs noCalls P F D) ArchiveError Unit).Safe (alone order) (fun _ => True)
      (fun r d' => r = .ok () ∧ ∃ t', d'.dir dest = some t' ∧ Shadow t' s ∧
        ∀ y b m, t'.get y = some (.file b m) → y = path.components ∨ t.get y = some (.file b m))
      d := by
  have hparents : ∀ y, y <+: [] ++ path.components.dropLast → y ≠ [] → s.get y = some .dir := by
    rintro y ⟨z, hz⟩ hy
    have hwhole : path.components = y ++ (z ++ [path.components.getLast path.components_ne_nil]) := by
      rw [← List.append_assoc, hz, List.nil_append, List.dropLast_concat_getLast]
    rw [hwhole] at hget
    exact (Tree.isDir_of_append hget (by simp)).resolve_left hy
  refine Safe.bind (createDirectories_ok (t := t) hparents ⟨t, ht, hshadow, .inl rfl, fun _ _ _ h => h⟩)
    (fun _ d₁ hq => ?_) fun e d' hq => by cases hq.1
  obtain ⟨-, t₁, ht₁, hshadow₁, hparent, hfiles⟩ := hq
  rw [List.nil_append] at hparent
  have hnone : t₁.get path.components = none := by
    rcases hshadow₁.file hget with hnone | ⟨b, m, hsome⟩
    · exact hnone
    · exact absurd (hfiles _ _ _ hsome) (hfresh b m)
  obtain ⟨t₂, hadd⟩ := Tree.add_ok (.file [] false) path.components_ne_nil hnone
    (Tree.length_le hget) hparent
  have hcreate : (FsOp.createNew dest path.components).exec order d₁ =
      (.ok (), d₁.setDir dest t₂) := Disk.modify_ok ht₁ hadd
  have hempty : t₂.get path.components = some (.file [] false) := by
    rw [Tree.get_add hadd, if_pos rfl]
  obtain ⟨t₃, hset⟩ := Tree.setFile_ok hempty (file.bytes.take file.bytes.length) false
  have hwrite : (FsOp.write dest path.components (file.bytes.take file.bytes.length)).exec order
      (d₁.setDir dest t₂) = (.ok (), (d₁.setDir dest t₂).setDir dest t₃) := by
    rw [FsOp.exec_write order (Disk.setDir_dir_self _ _) hempty]
    exact Disk.modify_ok (Disk.setDir_dir_self _ _) hset
  have hall : ∀ y, t₃.get y = if y = path.components then
      some (.file (file.bytes.take file.bytes.length) false) else t₁.get y := by
    intro y
    rw [Tree.get_setFile hset, Tree.get_add hadd]
    split <;> rfl
  refine Safe.bind (Q := fun r d' => r = .ok () ∧ d' = d₁.setDir dest t₂)
    (Safe.mapError ((safe_fs (.createNew dest path.components)).mpr
      ⟨trivial, trivial, by simp [alone, hcreate, Except.mapError]⟩))
    (fun _ d₂ hq => ?_) fun e d' hq => by cases hq.1
  obtain ⟨-, rfl⟩ := hq
  refine Safe.bind (Q := fun r d' => r = .ok () ∧ d' = (d₁.setDir dest t₂).setDir dest t₃)
    (Safe.mapError ((safe_fs (.write dest path.components _)).mpr
      ⟨trivial, trivial, by simp [alone, PackedFile.entry, hwrite, Except.mapError]⟩))
    (fun _ d₃ hq => ?_) fun e d' hq => by cases hq.1
  obtain ⟨-, rfl⟩ := hq
  rw [if_neg (by simp [PackedFile.entry])]
  refine ⟨trivial, rfl, t₃, Disk.setDir_dir_self _ _, hshadow₁.of_get (e := .file _ false) hget rfl hall, ?_⟩
  intro y b m hy
  rw [hall] at hy
  split at hy
  · next hyp => exact .inl hyp
  · exact .inr (hfiles y b m hy)

/-- Files with different places that come from `s` can all be extracted. -/
theorem extractEntries_ok (files : List PackedFile) (seen : Nat) (tree : ExtractedTree)
    (xs : List Path) (hcomes : ∀ file ∈ files, Comes limits s file)
    (hfew : seen + files.length ≤ limits.entries)
    (hnodup : (xs ++ files.map fun file => Protocol.components file.name).Nodup)
    (ht : d.dir dest = some t) (hshadow : Shadow t s)
    (hfiles : ∀ y b m, t.get y = some (.file b m) → y ∈ xs) :
    (extractEntries dest limits none (files.map PackedFile.entry) seen tree :
      Prog (withFs noCalls P F D) ArchiveError ExtractedTree).Safe (alone order) (fun _ => True)
      (fun r _ => ∃ tree', r = .ok tree') d := by
  induction files generalizing seen tree xs t d with
  | nil => exact ⟨trivial, tree, rfl⟩
  | cons file rest ih =>
    obtain ⟨hsmall, path, hname, hreserved, mode, hget⟩ := hcomes file List.mem_cons_self
    have hplace : Protocol.components file.name = path.components := by rw [hname]; rfl
    rw [List.length_cons] at hfew
    rw [List.map_cons, hplace, List.append_cons] at hnodup
    have hfresh : ∀ b m, t.get path.components ≠ some (.file b m) := by
      intro b m h
      have hxs := (List.nodup_append.mp hnodup).1
      exact (List.nodup_append.mp hxs).2.2 _ (hfiles _ b m h) _ (List.mem_singleton_self _) rfl
    rw [List.map_cons]
    unfold extractEntries
    rw [if_neg (by omega), entryName_entry hname hreserved, Prog.bind_eq, Prog.ofExcept_ok,
      Prog.bind_done]
    dsimp only [PackedFile.entry]
    rw [if_neg (by omega)]
    refine (writeFile_ok hget ht hshadow hfresh).bind (fun _ d' hq => ?_) fun e d' hq => by cases hq.1
    obtain ⟨-, t', ht', hshadow', hfiles'⟩ := hq
    refine ih _ _ _ (fun file hm => hcomes file (List.mem_cons_of_mem _ hm)) (by omega) hnodup ht'
      hshadow' fun y b m hy => ?_
    rcases hfiles' y b m hy with rfl | hy
    · simp
    · exact List.mem_append_left _ (hfiles y b m hy)

/-- The files of an archive can be extracted into an empty directory. -/
theorem extractTree_ok {files : List PackedFile} (hcomes : ∀ file ∈ files, Comes limits s file)
    (hfew : files.length ≤ limits.entries)
    (hnodup : (files.map fun file => Protocol.components file.name).Nodup)
    (hempty : d.dir dest = some .empty) :
    (extractTree ⟨files.map PackedFile.entry, none⟩ dest limits :
      Prog (withFs noCalls P F D) ArchiveError ExtractedTree).Safe (alone order) (fun _ => True)
      (fun r _ => ∃ tree', r = .ok tree') d := by
  have hlist : (FsOp.readDir dest []).exec order d = (.ok [], d) := by
    simp only [FsOp.exec, hempty]
    rw [if_pos (.inl rfl)]
    rfl
  refine Safe.bind (Q := fun r d' => r = .ok () ∧ d' = d) ?_ (fun _ d' hq => ?_)
    fun e d' hq => by cases hq.1
  · refine Safe.bind (Q := fun r d' => r = .ok [] ∧ d' = d)
      (Safe.mapError ((safe_fs (.readDir dest [])).mpr
        ⟨trivial, trivial, by simp [alone, hlist, Except.mapError]⟩))
      (fun entries d' hq => ?_) fun e d' hq => by cases hq.1
    obtain ⟨hentries, rfl⟩ := hq
    cases hentries
    rw [if_neg (not_not.mpr rfl)]
    exact ⟨trivial, rfl, rfl⟩
  · obtain ⟨-, rfl⟩ := hq
    refine extractEntries_ok files 0 ⟨0, 0, []⟩ [] hcomes (by omega) hnodup hempty ?_ ?_
    · intro x e hx
      simp at hx
    · intro y b m hy
      simp at hy

end Extraction

section Contents

variable {parse : Bytes → Except ManifestError Manifest} {s t : Tree} {manifest : Manifest}
  {files : List PackedFile} {limits : ArchiveLimits} {file : PackedFile}

/-- The path of the manifest itself. -/
def manifestPath : RelativePath := ⟨MANIFEST_FILE_NAME, by decide⟩

theorem components_manifestPath : manifestPath.components = [MANIFEST_FILE_NAME] := by decide

/-- Where the files of a package are: its manifest, and those it declares. -/
def Manifest.places (manifest : Manifest) : List Path :=
  [MANIFEST_FILE_NAME] :: manifest.declared.map (·.components)

/-- `t` has the files of the package that `s` holds and no others, byte for byte, and only the
entrypoint is executable. -/
def IsPackage (manifest : Manifest) (s t : Tree) : Prop :=
  ∀ x bytes mode, t.get x = some (.file bytes mode) ↔ x ∈ manifest.places ∧
    (∃ mode', s.get x = some (.file bytes mode')) ∧
    mode = decide (x = manifest.entrypoint.components)

/-- A package has every file in a place of its own, unless it declares its manifest. -/
theorem nodup_places : manifest.places.Nodup ↔
    MANIFEST_FILE_NAME ∉ (manifest.entrypoint :: manifest.assets).map (·.text) := by
  have hdeclared : (manifest.declared.map (·.components)).Nodup :=
    (nodup_declared manifest).map fun _ _ h => RelativePath.components_injective h
  rw [Manifest.places, List.nodup_cons, and_iff_left hdeclared, not_iff_not,
    ← components_manifestPath]
  constructor
  · intro h
    obtain ⟨path, hpath, hcomponents⟩ := List.mem_map.mp h
    rw [RelativePath.components_injective hcomponents] at hpath
    exact List.mem_map.mpr ⟨manifestPath, List.mem_cons.mpr (mem_declared.mp hpath), rfl⟩
  · intro h
    obtain ⟨path, hpath, htext⟩ := List.mem_map.mp h
    have heq : path = manifestPath := RelativePath.text_injective htext
    subst heq
    exact List.mem_map.mpr ⟨_, mem_declared.mpr (List.mem_cons.mp hpath), rfl⟩

theorem places_of_packed {entrypoint : RelativePath} {paths : List RelativePath}
    {rest : List PackedFile} (h : List.Forall₂ (PackedFrom s entrypoint) paths rest) :
    (rest.map fun file => Protocol.components file.name) = paths.map (·.components) := by
  induction h with
  | nil => rfl
  | cons hpacked _ ih =>
    rw [List.map_cons, List.map_cons, ih, hpacked.2.1]
    rfl

theorem exists_of_packed {entrypoint : RelativePath} {paths : List RelativePath}
    {rest : List PackedFile} (h : List.Forall₂ (PackedFrom s entrypoint) paths rest)
    (hfile : file ∈ rest) : ∃ path, PackedFrom s entrypoint path file := by
  induction h with
  | nil => cases hfile
  | cons hpacked _ ih =>
    rcases List.mem_cons.mp hfile with rfl | hfile
    · exact ⟨_, hpacked⟩
    · exact ih hfile

theorem Packs.places (h : Packs parse s manifest files) :
    (files.map fun file => Protocol.components file.name) = manifest.places := by
  obtain ⟨document, mode, rest, -, -, -, rfl, hrest⟩ := h.packed
  rw [List.map_cons, Manifest.places, places_of_packed hrest]
  exact congrArg (· :: _) components_manifestPath

/-- Every file of a package has a path of the package's directory. -/
theorem Packs.source (h : Packs parse s manifest files) (hfile : file ∈ files) :
    ∃ path : RelativePath, file.name = path.text ∧ rejectReserved path = .ok () ∧
      ∃ mode, s.get path.components = some (.file file.bytes mode) := by
  obtain ⟨document, mode, rest, hget, -, -, rfl, hrest⟩ := h.packed
  rcases List.mem_cons.mp hfile with rfl | hfile
  · refine ⟨manifestPath, rfl, rfl, mode, ?_⟩
    rw [components_manifestPath]
    exact hget
  · obtain ⟨path, hreserved, hname, -, hpath⟩ := exists_of_packed hrest hfile
    exact ⟨path, hname, hreserved, hpath⟩

theorem Comes.makes (h : Comes limits s file) :
    ∃ path : RelativePath, file.name = path.text ∧ file.entry.file = some (path, file.bytes) := by
  obtain ⟨-, path, hname, hreserved, -⟩ := h
  refine ⟨path, hname, ?_⟩
  rw [file_of_regular rfl (path_of_ok (entryName_entry hname hreserved)) rfl]
  exact congrArg (fun bytes => some (path, bytes)) List.take_length

theorem places_made (hcomes : ∀ file ∈ files, Comes limits s file) :
    (made (files.map PackedFile.entry)).map place =
      files.map fun file => Protocol.components file.name := by
  induction files with
  | nil => rfl
  | cons file rest ih =>
    obtain ⟨path, hname, hfile⟩ := (hcomes file List.mem_cons_self).makes
    rw [List.map_cons, List.map_cons, hname, ← ih fun f hf => hcomes f (List.mem_cons_of_mem _ hf),
      made, List.filterMap_cons_some hfile]
    rfl

/-- The files that were laid out are the files of the package. -/
theorem Packs.get_iff (h : Packs parse s manifest files)
    (hcomes : ∀ file ∈ files, Comes limits s file) {seen : List TarEntry}
    (hlaid : Laid (made (files.map PackedFile.entry)) seen t) (x : Path) (bytes : Bytes)
    (mode : Bool) :
    t.get x = some (.file bytes mode) ↔
      mode = false ∧ x ∈ manifest.places ∧ ∃ mode', s.get x = some (.file bytes mode') := by
  rw [hlaid.file, ← h.places]
  refine and_congr_right fun _ => ⟨?_, ?_⟩
  · rintro ⟨f, hf, rfl, rfl⟩
    obtain ⟨entry, hentry, hmakes⟩ := List.mem_filterMap.mp hf
    obtain ⟨file, hfile, rfl⟩ := List.mem_map.mp hentry
    obtain ⟨path, hname, hmade⟩ := (hcomes file hfile).makes
    cases hmade.symm.trans hmakes
    refine ⟨List.mem_map.mpr ⟨file, hfile, by rw [hname]; rfl⟩, ?_⟩
    obtain ⟨-, path', hname', -, hget⟩ := hcomes file hfile
    rwa [RelativePath.text_injective (hname.symm.trans hname')]
  · rintro ⟨hx, mode', hget⟩
    obtain ⟨file, hfile, rfl⟩ := List.mem_map.mp hx
    obtain ⟨path, hname, hmade⟩ := (hcomes file hfile).makes
    obtain ⟨-, path', hname', -, mode'', hget'⟩ := hcomes file hfile
    have hplace : Protocol.components file.name = path'.components := by rw [hname']; rfl
    rw [hplace, hget'] at hget
    cases hget
    refine ⟨(path, file.bytes), List.mem_filterMap.mpr ⟨_, List.mem_map_of_mem hfile, hmade⟩, ?_,
      rfl⟩
    rw [hname]
    rfl

end Contents

section Runs

variable {P F : Type} {D : F → Type} [DecidableEq P] [DecidableEq F] {order : Tree.Order}
  {dest : P} {d : Disk P F D} {s t : Tree} {limits : ArchiveLimits} {manifest : Manifest}
  {parse : Bytes → Except ManifestError Manifest} {files : List PackedFile}

/-- The manifest that was unpacked is read again. -/
theorem readPackage_ok {document : Bytes} {mode : Bool} (ht : d.dir dest = some t)
    (hget : t.get [MANIFEST_FILE_NAME] = some (.file document mode))
    (hlen : document.length ≤ MAX_MANIFEST_BYTES) (hparse : parse document = .ok manifest) :
    (Manifest.readPackage parse dest : Prog (withFs noCalls P F D) ManifestError _).Safe
      (alone order) (fun _ => True) (fun r d' => r = .ok manifest ∧ d' = d) d := by
  refine (lookup_spec [MANIFEST_FILE_NAME] _).bind (fun entry d' hq => ?_) fun e d' hq => by
    cases hq.2
  obtain ⟨rfl, hentry⟩ := hq
  rw [ht, Option.bind_some, if_neg (List.cons_ne_nil _ _), hget] at hentry
  cases hentry
  dsimp only
  rw [if_neg (not_lt.mpr hlen), hparse]
  exact ⟨trivial, rfl, rfl⟩

/-- There are no links where only files and directories are. -/
theorem refuseLinks_ok (ht : d.dir dest = some t) (hplain : ∀ x, t.get x ≠ some .special)
    (path : RelativePath) (walked rest : List String) :
    (Manifest.refuseLinks dest path walked rest :
      Prog (withFs noCalls P F D) PayloadError Unit).Safe (alone order) (fun _ => True)
      (fun r d' => r = .ok () ∧ d' = d) d := by
  induction rest generalizing walked with
  | nil => exact ⟨trivial, rfl, rfl⟩
  | cons component rest ih =>
    refine (lookup_spec (walked ++ [component]) _).bind (fun entry d' hq => ?_) fun e d' hq => by
      cases hq.2
    obtain ⟨rfl, hentry⟩ := hq
    rw [ht, Option.bind_some, if_neg (by simp)] at hentry
    cases hentry
    split
    · exact ⟨trivial, rfl, rfl⟩
    · next hspecial => exact absurd hspecial (hplain _)
    · exact ih _

/-- Looking up a path of a package finds what is there. -/
theorem lookup_ok {ε : Type} {g : IoError → ε} {path : RelativePath} (ht : d.dir dest = some t) :
    ((fs (.lookup dest path.components)).mapError g : Prog (withFs noCalls P F D) ε _).Safe
      (alone order) (fun _ => True) (fun r d' => r = .ok (t.get path.components) ∧ d' = d) d := by
  refine (lookup_spec path.components g).mono (fun _ h => h) fun r d' _ hq => ?_
  obtain ⟨rfl, hr⟩ := hq
  rw [ht, Option.bind_some, if_neg path.components_ne_nil] at hr
  exact ⟨hr, rfl⟩

/-- A payload in which every declared path is a file passes the check. -/
theorem validatePayload_ok (ht : d.dir dest = some t) (hplain : ∀ x, t.get x ≠ some .special)
    (hfile : ∀ path ∈ manifest.declared, ∃ bytes mode,
      t.get path.components = some (.file bytes mode)) :
    (manifest.validatePayload dest : Prog (withFs noCalls P F D) PayloadError Unit).Safe
      (alone order) (fun _ => True) (fun r d' => r = .ok () ∧ d' = d) d := by
  refine (refuseLinks_ok ht hplain _ _ _).bind (fun _ d' hq => ?_) fun e d' hq => by cases hq.1
  obtain ⟨-, rfl⟩ := hq
  refine (lookup_ok ht).bind (fun entry d' hq => ?_) fun e d' hq => by cases hq.1
  obtain ⟨hentry, rfl⟩ := hq
  obtain ⟨bytes, mode, hget⟩ := hfile _ (mem_declared.mpr (.inl rfl))
  rw [hget] at hentry
  cases hentry
  refine Safe.each (I := fun _ d'' => d'' = d') rfl (fun d'' h => ⟨trivial, rfl, h⟩) ?_
  rintro ys asset zs d'' hassets rfl
  refine (refuseLinks_ok ht hplain _ _ _).bind (fun _ d' hq => ?_) fun e d' hq => by cases hq.1
  obtain ⟨-, rfl⟩ := hq
  refine (lookup_ok ht).bind (fun entry d' hq => ?_) fun e d' hq => by cases hq.1
  obtain ⟨hentry, rfl⟩ := hq
  obtain ⟨bytes, mode, hget⟩ := hfile asset (mem_declared.mpr (.inr (by rw [hassets]; simp)))
  rw [hget] at hentry
  cases hentry
  exact ⟨trivial, rfl⟩

/-- An archive of a package that does not declare its manifest gives the package again. -/
theorem extract_ok (hpacks : Packs parse s manifest files)
    (hcomes : ∀ file ∈ files, Comes limits s file) (hfew : files.length ≤ limits.entries)
    (hnodup : manifest.places.Nodup) (hempty : d.dir dest = some .empty) :
    (extract parse ⟨files.map PackedFile.entry, none⟩ dest limits :
      Prog (withFs noCalls P F D) ArchiveError Extracted).Safe (alone order) (fun _ => True)
      (fun r d' => ∃ extracted t, r = .ok extracted ∧ extracted.manifest = manifest ∧
        d'.dir dest = some t ∧ IsPackage manifest s t) d := by
  have hok := (extractTree_ok hcomes hfew (hpacks.places ▸ hnodup) hempty).and
    (extractTree_laid (serves_alone order).tries trivial ⟨files.map PackedFile.entry, none⟩ limits)
  refine (hok.mono (fun _ _ => trivial) fun r d' _ h => h).bind (fun tree d' hq => ?_) fun e d' hq => by
    obtain ⟨⟨_, hr⟩, -⟩ := hq
    cases hr
  obtain ⟨-, hresult⟩ := hq
  obtain ⟨rfl, -, t, ht, hlaid⟩ := hresult tree rfl
  have ht : d'.dir dest = some t := ht
  have hget := hpacks.get_iff hcomes hlaid
  have hfile : ∀ x ∈ manifest.places, ∃ bytes, t.get x = some (.file bytes false) ∧
      ∃ mode, s.get x = some (.file bytes mode) := by
    intro x hx
    rw [← hpacks.places] at hx
    obtain ⟨file, hfile, rfl⟩ := List.mem_map.mp hx
    obtain ⟨-, path, hname, -, mode, hsource⟩ := hcomes file hfile
    rw [show Protocol.components file.name = path.components by rw [hname]; rfl] at hx ⊢
    exact ⟨file.bytes, (hget _ _ _).mpr ⟨rfl, hpacks.places ▸ hx, mode, hsource⟩, mode, hsource⟩
  obtain ⟨document, mode, rest, hdocument, hlen, hparse, hfiles, -⟩ := hpacks.packed
  have hmanifest : t.get [MANIFEST_FILE_NAME] = some (.file document false) :=
    (hget _ _ _).mpr ⟨rfl, List.mem_cons_self, mode, hdocument⟩
  have hcontains : (ExtractedTree.of (made (files.map PackedFile.entry))).contains
      MANIFEST_FILE_NAME = true := by
    obtain ⟨-, f, hf, hplace, -⟩ := (hlaid.file _ _ _).mp hmanifest
    rw [← components_manifestPath] at hplace
    refine List.any_eq_true.mpr ⟨f.1, List.mem_map_of_mem hf, ?_⟩
    rw [RelativePath.components_injective hplace]
    rfl
  rw [if_neg (not_not.mpr hcontains)]
  refine Safe.bind (Q := fun r d'' => r = .ok manifest ∧ d'' = d')
    (Safe.mapError ((readPackage_ok ht hmanifest hlen hparse).mono (fun _ h => h) ?_))
    (fun read d'' hq => ?_) fun e d'' hq => by cases hq.1
  · rintro r d'' - ⟨rfl, rfl⟩
    exact ⟨rfl, rfl⟩
  obtain ⟨hread, rfl⟩ := hq
  cases hread
  have hdeclared : ∀ path ∈ manifest.declared, ∃ bytes,
      t.get path.components = some (.file bytes false) := fun path hpath => by
    obtain ⟨bytes, hbytes, -⟩ := hfile _ (List.mem_cons_of_mem _ (List.mem_map_of_mem hpath))
    exact ⟨bytes, hbytes⟩
  refine Safe.bind (Q := fun r d' => r = .ok () ∧ d' = d'')
    (Safe.mapError ((validatePayload_ok ht hlaid.plain fun path hpath => ?_).mono (fun _ h => h) ?_))
    (fun _ d' hq => ?_) fun e d'' hq => by cases hq.1
  · obtain ⟨bytes, hbytes⟩ := hdeclared path hpath
    exact ⟨bytes, false, hbytes⟩
  · rintro r d' - ⟨rfl, rfl⟩
    exact ⟨rfl, rfl⟩
  obtain ⟨-, rfl⟩ := hq
  obtain ⟨bytes, hentry⟩ := hdeclared _ (mem_declared.mpr (.inl rfl))
  obtain ⟨t', hset⟩ := Tree.setFile_ok hentry bytes true
  have hexec := FsOp.exec_setExecutable order ht hentry hset
  refine Safe.bind (Q := fun r d'' => r = .ok () ∧ d'' = d'.setDir dest t')
    (Safe.mapError ((safe_fs (.setExecutable dest manifest.entrypoint.components)).mpr
      ⟨trivial, trivial, by simp [alone, hexec, Except.mapError]⟩)) (fun _ d'' hq => ?_)
    fun e d'' hq => by cases hq.1
  obtain ⟨-, rfl⟩ := hq
  refine ⟨trivial, _, t', rfl, rfl, Disk.setDir_dir_self _ _, fun x bytes' mode' => ?_⟩
  rw [Tree.get_setFile hset]
  split
  · next hx =>
    subst hx
    have hplace : manifest.entrypoint.components ∈ manifest.places :=
      List.mem_cons_of_mem _ (List.mem_map_of_mem (mem_declared.mpr (.inl rfl)))
    obtain ⟨-, -, mode'', hsource⟩ := (hget _ _ _).mp hentry
    rw [decide_eq_true rfl]
    constructor
    · rintro h
      cases h
      exact ⟨hplace, ⟨mode'', hsource⟩, rfl⟩
    · rintro ⟨-, ⟨mode', hsource'⟩, rfl⟩
      cases hsource.symm.trans hsource'
      rfl
  · next hx =>
    rw [hget, decide_eq_false hx]
    constructor
    · rintro ⟨hmode, hplace, hsource⟩
      exact ⟨hplace, hsource, hmode⟩
    · rintro ⟨hplace, hsource, hmode⟩
      exact ⟨hmode, hplace, hsource⟩

/-- An archive that has a file twice cannot be extracted. -/
theorem nodup_of_extract {tree : Extracted} (hpacks : Packs parse s manifest files)
    (hcomes : ∀ file ∈ files, Comes limits s file)
    (h : ((extract parse ⟨files.map PackedFile.entry, none⟩ dest limits :
      Prog (withFs noCalls P F D) ArchiveError Extracted).run (alone order) d).1 = .ok tree) :
    manifest.places.Nodup := by
  have hlaid := (@extractTree_laid _ P F D _ _ _ _ id _ order _ dest d (serves_alone order).tries trivial
    ⟨files.map PackedFile.entry, none⟩ limits).result
  unfold extract at h
  rw [Prog.bind_eq, run_bind] at h
  split at h
  · next tree' d' hrun =>
    rw [hrun] at hlaid
    obtain ⟨-, -, t, -, hlaid⟩ := hlaid tree' rfl
    rw [← hpacks.places, ← places_made hcomes]
    exact hlaid.nodup
  · cases h

end Runs

/-- The archive is within the limits: its bytes, what they expand to, and the files in that. -/
structure Codec.Within (codec : Codec) (limits : ArchiveLimits) (archive : ByteStream) : Prop where
  compressed : archive.bytes.length ≤ limits.compressedBytes
  uncompressed : (codec.gunzip archive).bytes.length ≤ limits.uncompressedBytes
  few : (codec.untar (codec.gunzip archive)).entries.length ≤ limits.entries
  small : ∀ entry ∈ (codec.untar (codec.gunzip archive)).entries, ∀ size ∈ entry.size,
    size ≤ limits.fileBytes

/-- The decoders read from this archive what the encoder wrote, where the names are paths. -/
def Codec.Undoes (codec : Codec) (encode : List PackedFile → Bytes) (archive : Bytes) : Prop :=
  ∀ files, (∀ file ∈ files, ∃ path : RelativePath, path.text = file.name) →
    encode files = archive →
      codec.untar (codec.gunzip ⟨archive, none⟩) = ⟨files.map PackedFile.entry, none⟩

section RoundTrip

variable {P F : Type} {D : F → Type} [DecidableEq P] [DecidableEq F]

/-- An extraction of `stream` into `dest` succeeds, with the manifest and the files of the package at
`source`. -/
def Restores (parse : Bytes → Except ManifestError Manifest) (limits : ArchiveLimits)
    (order : Tree.Order) (manifest : Manifest) (source : P) (d : Disk P F D) (stream : TarStream)
    (dest : P) (d' : Disk P F D) : Prop :=
  ∃ extracted s t, ((extract parse stream dest limits :
      Prog (withFs noCalls P F D) ArchiveError Extracted).run (alone order) d').1 = .ok extracted ∧
    extracted.manifest = manifest ∧ d.dir source = some s ∧
    ((extract parse stream dest limits :
      Prog (withFs noCalls P F D) ArchiveError Extracted).run (alone order) d').2.dir dest = some t ∧
    IsPackage manifest s t

/-- What was built is extracted again into an empty directory, if and only if the package does not
declare its manifest as its entrypoint or as one of its assets. -/
theorem extract_build_iff {codec : Codec} {limits : ArchiveLimits}
    {parse : Bytes → Except ManifestError Manifest} {encode : List PackedFile → Bytes}
    {order order' : Tree.Order} {source dest : P} {d d' : Disk P F D} {built : BuiltArchive}
    {archive : Bytes} {stream : TarStream}
    (hbuild : ((build parse encode source :
      Prog (withFs noCalls P F D) ArchiveError _).run (alone order) d).1 = .ok (built, archive))
    (hundoes : codec.Undoes encode archive) (hwithin : codec.Within limits ⟨archive, none⟩)
    (hdecodes : codec.Decodes limits ⟨archive, none⟩ stream)
    (hempty : d'.dir dest = some .empty) :
    Restores parse limits order' built.manifest source d stream dest d' ↔
      MANIFEST_FILE_NAME ∉
        (built.manifest.entrypoint :: built.manifest.assets).map (·.text) := by
  obtain ⟨-, s, files, hs, hpacks, rfl⟩ := build_spec.result _ hbuild
  have hpaths : ∀ file ∈ files, ∃ path : RelativePath, path.text = file.name := by
    intro file hfile
    obtain ⟨path, hname, -⟩ := hpacks.source hfile
    exact ⟨path, hname.symm⟩
  have hstream := hundoes files hpaths rfl
  have hwhole := hdecodes.eq hwithin.compressed hwithin.uncompressed
  rw [hstream] at hwhole
  subst hwhole
  have hcomes : ∀ file ∈ files, Comes limits s file := fun file hfile =>
    ⟨hwithin.small file.entry (hstream ▸ List.mem_map_of_mem hfile) _ rfl, hpacks.source hfile⟩
  have hfew : files.length ≤ limits.entries := by
    have := hwithin.few
    rwa [hstream, List.length_map] at this
  rw [← nodup_places]
  constructor
  · rintro ⟨extracted, -, -, hrun, -⟩
    exact nodup_of_extract hpacks hcomes hrun
  · intro hnodup
    obtain ⟨extracted, t, hrun, hmanifest, ht, hpackage⟩ :=
      (extract_ok hpacks hcomes hfew hnodup hempty).result
    exact ⟨extracted, s, t, hrun, hmanifest, hs, ht, hpackage⟩

end RoundTrip

/-! ## Two packages -/

/-- A parser that knows one document. -/
def parseOnly (document : Bytes) (manifest : Manifest) (bytes : Bytes) :
    Except ManifestError Manifest :=
  if bytes = document then .ok manifest else .error (.document "expected `app`")

/-- An encoder that packs these files, and no others. -/
def encodeOnly (packed : List PackedFile) (archive : Bytes) (files : List PackedFile) : Bytes :=
  if files = packed then archive else []

theorem undoes_encodeOnly {packed : List PackedFile} {archive tar : Bytes} (hne : archive ≠ [])
    (hfits) :
    (Codec.knowing archive tar (packed.map PackedFile.entry) hfits).Undoes
      (encodeOnly packed archive) archive := by
  intro files _ hfiles
  unfold encodeOnly at hfiles
  split at hfiles
  · next heq => rw [Codec.untar_knowing, heq]
  · exact absurd hfiles.symm hne

theorem within_knowing {packed : List PackedFile} {limits : ArchiveLimits} {archive tar : Bytes}
    (hfits) (hcompressed : archive.length ≤ limits.compressedBytes)
    (huncompressed : tar.length ≤ limits.uncompressedBytes) (hfew : packed.length ≤ limits.entries)
    (hsmall : ∀ file ∈ packed, file.bytes.length ≤ limits.fileBytes) :
    (Codec.knowing archive tar (packed.map PackedFile.entry) hfits).Within limits
      ⟨archive, none⟩ := by
  refine ⟨hcompressed, ?_, ?_, ?_⟩
  · rw [Codec.gunzip_knowing]
    exact huncompressed
  · rw [Codec.untar_knowing, List.length_map]
    exact hfew
  · rw [Codec.untar_knowing]
    intro entry hentry size hsize
    obtain ⟨file, hfile, rfl⟩ := List.mem_map.mp hentry
    cases hsize
    exact hsmall file hfile

/-- The tree with one entry more. -/
def plant (t : Tree) (x : Path) (e : Entry) : Tree :=
  match t.add x e with
  | .ok t' => t'
  | .error _ => t

/-- A manifest document with this entrypoint. -/
def documentFor (entrypoint : String) : Bytes :=
  ascii ("[app]\nid = \"a.b\"\nname = \"A\"\nversion = \"1.0.0\"\nprotocol = \"1.0\"\n" ++
    "entrypoint = \"" ++ entrypoint ++ "\"\n")

def chessDocument : Bytes := documentFor "run"

/-- A package whose entrypoint is a file of its own. -/
def chessManifest : Manifest where
  id := ⟨"a.b"⟩
  name := "A"
  version := ⟨1, 0, 0, [], []⟩
  protocol := ⟨1, 0⟩
  entrypoint := ⟨"run", by decide⟩
  assets := []

def chessFiles : List PackedFile := [⟨"paper.toml", false, chessDocument⟩, ⟨"run", true, ascii "#!"⟩]

def chessTar : Bytes :=
  tarHeader "paper.toml" "0000644" "00000000122" "0007704" ++ tarField chessDocument 512 ++
    tarHeader "run" "0000755" "00000000002" "0006427" ++ tarField (ascii "#!") 512 ++
    tarField [] 1024

def chessArchive : Bytes :=
  [31, 139, 8, 0, 0, 0, 0, 0, 0, 255, 237, 211, 177, 14, 194, 32, 16, 0, 80, 103, 190, 2, 113, 39, 87,
    210, 150, 201, 161, 223, 97, 28, 80, 25, 72, 90, 32, 148, 154, 248, 247, 130, 105, 52, 209, 56,
    56, 180, 56, 220, 91, 142, 187, 144, 220, 17, 114, 94, 121, 29, 120, 116, 67, 191, 89, 12, 36,
    109, 93, 63, 98, 242, 30, 161, 18, 226, 121, 158, 235, 82, 66, 186, 191, 220, 72, 47, 211, 24,
    85, 160, 116, 141, 86, 255, 232, 160, 188, 63, 18, 115, 161, 123, 202, 20, 63, 49, 98, 213, 160,
    115, 210, 49, 114, 213, 97, 52, 206, 230, 172, 226, 192, 129, 17, 31, 92, 116, 103, 215, 207,
    37, 70, 180, 141, 225, 230, 157, 177, 49, 151, 194, 100, 25, 41, 253, 34, 244, 139, 244, 101,
    139, 247, 200, 75, 45, 155, 230, 235, 254, 3, 124, 236, 127, 91, 11, 137, 251, 191, 130, 221,
    182, 244, 4, 8, 33, 132, 74, 184, 3, 12, 224, 72, 172, 0, 12, 0, 0]

/-- A disk with the directory of a package. -/
def packageDisk (t : Tree) : Disk Unit Unit fun _ => Unit := ⟨AList.singleton () t, ∅⟩

def chessTree : Tree :=
  plant (plant .empty ["paper.toml"] (.file chessDocument false)) ["run"] (.file (ascii "#!") true)

theorem chess_is_built :
    ((build (parseOnly chessDocument chessManifest) (encodeOnly chessFiles chessArchive) () :
      Prog (withFs noCalls Unit Unit fun _ => Unit) ArchiveError _).run (alone .byDepth)
        (packageDisk chessTree)).1 = .ok (⟨chessManifest, 2, 84⟩, chessArchive) := by
  rfl

theorem chess_is_restored :
    Restores (parseOnly chessDocument chessManifest) .DEFAULT .byDepth chessManifest ()
      (packageDisk chessTree) ⟨chessFiles.map PackedFile.entry, none⟩ () (packageDisk .empty) := by
  have hfits : ((chessFiles.map PackedFile.entry).map fun entry => entry.available.length).sum ≤
      chessTar.length := by
    simp [chessFiles, PackedFile.entry, chessTar, chessDocument, documentFor, ascii]
  have hcompressed : chessArchive.length ≤ ArchiveLimits.DEFAULT.compressedBytes := by
    decide +kernel
  have hexpanded : chessTar.length ≤ ArchiveLimits.DEFAULT.uncompressedBytes := by
    simp [chessTar, ArchiveLimits.DEFAULT]
  have hsmall : ∀ file ∈ chessFiles, file.bytes.length ≤ ArchiveLimits.DEFAULT.fileBytes := by
    simp [chessFiles, ArchiveLimits.DEFAULT, chessDocument, documentFor, ascii]
  exact (extract_build_iff chess_is_built
    (undoes_encodeOnly (by decide) hfits)
    (within_knowing hfits hcompressed hexpanded (by decide) hsmall)
    (Codec.decodes_knowing hfits hcompressed hexpanded) rfl).mpr (by decide)

def selfishDocument : Bytes := documentFor "paper.toml"

/-- A package whose entrypoint is its own manifest. -/
def selfishManifest : Manifest := { chessManifest with entrypoint := manifestPath }

def selfishFiles : List PackedFile :=
  [⟨"paper.toml", false, selfishDocument⟩, ⟨"paper.toml", true, selfishDocument⟩]

def selfishTar : Bytes :=
  tarHeader "paper.toml" "0000644" "00000000131" "0007704" ++ tarField selfishDocument 512 ++
    tarHeader "paper.toml" "0000755" "00000000131" "0007707" ++ tarField selfishDocument 512 ++
    tarField [] 1024

def selfishArchive : Bytes :=
  [31, 139, 8, 0, 0, 0, 0, 0, 0, 255, 237, 211, 193, 10, 2, 33, 16, 6, 224, 206, 243, 20, 50, 15,
    32, 74, 187, 121, 234, 208, 115, 68, 7, 43, 15, 194, 174, 14, 174, 5, 189, 125, 26, 203, 6, 157,
    234, 176, 91, 208, 124, 151, 113, 6, 65, 5, 127, 178, 228, 146, 204, 177, 239, 86, 179, 81, 197,
    166, 105, 30, 181, 120, 173, 74, 175, 245, 180, 30, 231, 198, 168, 178, 127, 190, 43, 61, 93,
    134, 108, 147, 16, 75, 28, 245, 139, 246, 150, 232, 0, 254, 44, 182, 2, 173, 60, 34, 4, 219,
    187, 218, 236, 16, 174, 46, 13, 62, 134, 218, 105, 169, 164, 66, 160, 20, 115, 60, 197, 110, 28,
    33, 184, 144, 211, 141, 162, 15, 185, 142, 104, 250, 76, 8, 223, 126, 24, 123, 11, 45, 148, 127,
    211, 182, 31, 230, 223, 112, 254, 23, 192, 249, 103, 140, 177, 255, 116, 7, 33, 107, 166, 18, 0,
    12, 0, 0]

def selfishTree : Tree := plant .empty ["paper.toml"] (.file selfishDocument false)

theorem selfish_is_not_restored :
    ((build (parseOnly selfishDocument selfishManifest) (encodeOnly selfishFiles selfishArchive) () :
      Prog (withFs noCalls Unit Unit fun _ => Unit) ArchiveError _).run (alone .byDepth)
        (packageDisk selfishTree)).1 = .ok (⟨selfishManifest, 2, 178⟩, selfishArchive) ∧
    (∃ codec : Codec,
      codec.Undoes (encodeOnly selfishFiles selfishArchive) selfishArchive ∧
      codec.Within .DEFAULT ⟨selfishArchive, none⟩ ∧
      codec.Decodes .DEFAULT ⟨selfishArchive, none⟩ ⟨selfishFiles.map PackedFile.entry, none⟩) ∧
    ¬ Restores (parseOnly selfishDocument selfishManifest) .DEFAULT .byDepth selfishManifest ()
      (packageDisk selfishTree) ⟨selfishFiles.map PackedFile.entry, none⟩ () (packageDisk .empty) := by
  refine ⟨rfl, ?_, ?_⟩
  · have hfits : ((selfishFiles.map PackedFile.entry).map
        fun entry => entry.available.length).sum ≤ selfishTar.length := by
      simp [selfishFiles, PackedFile.entry, selfishTar, selfishDocument, documentFor, ascii]
    have hcompressed : selfishArchive.length ≤ ArchiveLimits.DEFAULT.compressedBytes := by
      decide +kernel
    have hexpanded : selfishTar.length ≤ ArchiveLimits.DEFAULT.uncompressedBytes := by
      simp [selfishTar, ArchiveLimits.DEFAULT]
    have hsmall : ∀ file ∈ selfishFiles, file.bytes.length ≤ ArchiveLimits.DEFAULT.fileBytes := by
      simp [selfishFiles, ArchiveLimits.DEFAULT, selfishDocument, documentFor, ascii]
    exact ⟨_, undoes_encodeOnly (by decide) hfits,
      within_knowing hfits hcompressed hexpanded (by decide) hsmall,
      Codec.decodes_knowing hfits hcompressed hexpanded⟩
  · rintro ⟨extracted, -, -, hrun, -⟩
    have hrefused : ((extract (parseOnly selfishDocument selfishManifest)
        ⟨selfishFiles.map PackedFile.entry, none⟩ () .DEFAULT :
        Prog (withFs noCalls Unit Unit fun _ => Unit) ArchiveError _).run (alone .byDepth)
          (packageDisk .empty)).1 = .error (.io ["paper.toml"] .alreadyExists) := by
      rfl
    rw [hrefused] at hrun
    cases hrun

end Paperclip.Packages
