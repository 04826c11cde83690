import Paperclip.Packages.Archive

/-!
# What an extraction leaves

At every point of an extraction the destination holds the files of the entries that had their turn,
and directories that lead to the entries read so far. Whatever a stream is made of, nothing else can
come out.

* `Laid files seen t`: the tree `t` has the files `files`, and directories on the way to `seen`.
* `Confined`: the same for a prefix of a stream that keeps the limits, with each file written once.
* `extractTree_confined`: the triple, under a handler whose operations may fault.
* `Unpacked done names t`: the tree `t` is what the entries `done` make, with the files `names`.
-/

namespace Paperclip.Packages

open Crash Files Protocol Prog

/-- The path that an entry names. -/
def TarEntry.path (entry : TarEntry) : Option RelativePath :=
  match entryName entry.name entry.kind with
  | .ok name => some name
  | .error _ => none

/-- The file that an entry makes: its header says how much of the stream belongs to it. -/
def TarEntry.file (entry : TarEntry) : Option (RelativePath × Bytes) :=
  match entry.kind, entry.path, entry.size with
  | .regular, some name, some size => some (name, entry.available.take size)
  | _, _, _ => none

/-- The files that entries make. -/
def made (entries : List TarEntry) : List (RelativePath × Bytes) := entries.filterMap (·.file)

/-- Where a file is. -/
def place (file : RelativePath × Bytes) : Path := file.1.components

theorem path_of_ok {entry : TarEntry} {name : RelativePath}
    (h : entryName entry.name entry.kind = .ok name) : entry.path = some name := by
  unfold TarEntry.path
  rw [h]

theorem inside_of_path {entry : TarEntry} {name : RelativePath} (h : entry.path = some name) :
    Inside name.components := by
  unfold TarEntry.path at h
  split at h
  · next hname =>
    cases h
    exact inside_of_entryName hname
  · cases h

theorem file_of_regular {entry : TarEntry} {name : RelativePath} {size : Nat}
    (hkind : entry.kind = .regular) (hpath : entry.path = some name) (hsize : entry.size = some size) :
    entry.file = some (name, entry.available.take size) := by
  unfold TarEntry.file
  rw [hkind, hpath, hsize]

theorem file_of_directory {entry : TarEntry} (hkind : entry.kind = .directory) :
    entry.file = none := by
  unfold TarEntry.file
  rw [hkind]

/-- What makes a file is a regular file with a path and a size. -/
theorem of_file {entry : TarEntry} {file : RelativePath × Bytes} (h : entry.file = some file) :
    entry.kind = .regular ∧ entry.path = some file.1 ∧
      ∃ size, entry.size = some size ∧ file.2 = entry.available.take size := by
  unfold TarEntry.file at h
  split at h
  · next hkind hpath hsize =>
    cases h
    exact ⟨hkind, hpath, _, hsize, rfl⟩
  · cases h

theorem length_of_file {entry : TarEntry} {file : RelativePath × Bytes}
    (h : entry.file = some file) : file.2.length ≤ entry.available.length := by
  obtain ⟨-, -, size, -, hbytes⟩ := of_file h
  rw [hbytes]
  exact List.length_take_le' _ _

/-- The tree has the files `files`, each at a place of its own and none executable, and directories
that lead to entries of `seen`; and nothing else. -/
structure Laid (files : List (RelativePath × Bytes)) (seen : List TarEntry) (t : Tree) : Prop where
  file : ∀ x bytes mode, t.get x = some (.file bytes mode) ↔
    mode = false ∧ ∃ f ∈ files, place f = x ∧ f.2 = bytes
  dir : ∀ x, t.get x = some .dir → ∃ entry ∈ seen, ∃ name, entry.path = some name ∧
    x <+: name.components
  plain : ∀ x, t.get x ≠ some .special
  named : ∀ f ∈ files, ∃ entry ∈ seen, entry.path = some f.1
  nodup : (files.map place).Nodup

namespace Laid

variable {files : List (RelativePath × Bytes)} {seen : List TarEntry} {t t' : Tree}
  {entry : TarEntry} {name : RelativePath} {bytes bytes' : Bytes}

theorem nil (h : ∀ x, t.get x = none) : Laid [] [] t where
  file x bytes mode := by simp [h]
  dir x hx := by rw [h] at hx; cases hx
  plain x := by simp [h]
  named _ hf := absurd hf List.not_mem_nil
  nodup := List.nodup_nil

/-- One more entry is read. -/
theorem see (h : Laid files seen t) (entry : TarEntry) : Laid files (seen ++ [entry]) t where
  file := h.file
  dir x hx := by
    obtain ⟨e, he, hname⟩ := h.dir x hx
    exact ⟨e, List.mem_append_left _ he, hname⟩
  plain := h.plain
  named f hf := by
    obtain ⟨e, he, hname⟩ := h.named f hf
    exact ⟨e, List.mem_append_left _ he, hname⟩
  nodup := h.nodup

/-- A directory more, on the way to an entry. -/
theorem add_dir (h : Laid files seen t) {x : Path} (he : entry ∈ seen)
    (hpath : entry.path = some name) (hx : x <+: name.components) (ht : t.add x .dir = .ok t') :
    Laid files seen t' where
  file y bytes mode := by
    rw [Tree.get_add ht]
    split
    · next hy =>
      subst hy
      rw [← h.file, (Tree.get_of_add ht).2]
      simp
    · exact h.file y bytes mode
  dir y hy := by
    rw [Tree.get_add ht] at hy
    split at hy
    · next hyx => exact ⟨entry, he, name, hpath, hyx ▸ hx⟩
    · exact h.dir y hy
  plain y := by
    rw [Tree.get_add ht]
    split
    · simp
    · exact h.plain y
  named := h.named
  nodup := h.nodup

/-- A file more, that nothing was at. -/
theorem add_file (h : Laid files seen t) (he : entry ∈ seen) (hpath : entry.path = some name)
    (hnone : t.get name.components = none) (ht : ∀ y, t'.get y =
      if y = name.components then some (.file bytes false) else t.get y) :
    Laid (files ++ [(name, bytes)]) seen t' where
  file y b m := by
    have hmem : (∃ f ∈ files ++ [(name, bytes)], place f = y ∧ f.2 = b) ↔
        (∃ f ∈ files, place f = y ∧ f.2 = b) ∨ name.components = y ∧ bytes = b := by
      simp [or_and_right, exists_or, place]
    rw [ht, hmem]
    split
    · next hy =>
      subst hy
      have hold : ¬ ∃ f ∈ files, place f = name.components ∧ f.2 = b := by
        intro hex
        have hfile := (h.file name.components b false).mpr ⟨rfl, hex⟩
        rw [hnone] at hfile
        cases hfile
      rw [or_iff_right hold]
      simp [eq_comm, and_comm]
    · next hy => simp [h.file y b m, Ne.symm hy]
  dir y hy := by
    rw [ht] at hy
    split at hy
    · cases hy
    · exact h.dir y hy
  plain y := by
    rw [ht]
    split
    · simp
    · exact h.plain y
  named f hf := by
    rcases List.mem_append.mp hf with hf | hf
    · exact h.named f hf
    · rw [List.mem_singleton.mp hf]
      exact ⟨entry, he, hpath⟩
  nodup := by
    rw [List.map_append, List.map_singleton]
    refine List.nodup_append.mpr ⟨h.nodup, List.nodup_singleton _, ?_⟩
    rintro x hx y hy rfl
    obtain ⟨f, hf, hfx⟩ := List.mem_map.mp hx
    have hplace : place f = name.components := hfx.trans (List.mem_singleton.mp hy)
    have hfile := (h.file name.components f.2 false).mpr ⟨rfl, f, hf, hplace, rfl⟩
    rw [hnone] at hfile
    cases hfile

/-- A path of the tree is inside the directory. -/
theorem inside (h : Laid files seen t) {x : Path} {e : Entry} (hx : t.get x = some e) : Inside x := by
  have hne : x ≠ [] := by
    rintro rfl
    simp at hx
  cases e with
  | dir =>
    obtain ⟨entry, -, name, hpath, hup⟩ := h.dir x hx
    exact (inside_of_path hpath).upward hup hne
  | special => exact absurd hx (h.plain x)
  | file bytes mode =>
    obtain ⟨-, f, hf, rfl, -⟩ := (h.file x bytes mode).mp hx
    obtain ⟨entry, -, hpath⟩ := h.named f hf
    exact inside_of_path hpath

end Laid

/-- A new file gets its bytes. -/
theorem Laid.fill {files : List (RelativePath × Bytes)} {seen : List TarEntry} {t t' : Tree}
    {name : RelativePath} {old bytes : Bytes} (h : Laid (files ++ [(name, old)]) seen t)
    (ht : ∀ y, t'.get y = if y = name.components then some (.file bytes false) else t.get y) :
    Laid (files ++ [(name, bytes)]) seen t' := by
  have hother : name.components ∉ files.map place := by
    have hnodup := h.nodup
    rw [List.map_append, List.map_singleton] at hnodup
    exact fun hm => (List.nodup_append.mp hnodup).2.2 _ hm _ (List.mem_singleton_self _) rfl
  have hmem (new : Bytes) (y : Path) (b : Bytes) :
      (∃ f ∈ files ++ [(name, new)], place f = y ∧ f.2 = b) ↔
        (∃ f ∈ files, place f = y ∧ f.2 = b) ∨ name.components = y ∧ new = b := by
    simp [or_and_right, exists_or, place]
  refine ⟨fun y b m => ?_, fun y hy => ?_, fun y => ?_, fun f hf => ?_, ?_⟩
  · rw [ht, hmem]
    split
    · next hy =>
      subst hy
      rw [or_iff_right fun ⟨f, hf, hplace, _⟩ => hother (hplace ▸ List.mem_map_of_mem hf)]
      simp [eq_comm, and_comm]
    · next hy =>
      rw [h.file, hmem]
      simp [Ne.symm hy]
  · rw [ht] at hy
    split at hy
    · cases hy
    · exact h.dir y hy
  · rw [ht]
    split
    · simp
    · exact h.plain y
  · rcases List.mem_append.mp hf with hf | hf
    · exact h.named f (List.mem_append_left _ hf)
    · rw [List.mem_singleton.mp hf]
      exact h.named (name, old) (by simp)
  · have hnodup := h.nodup
    rw [List.map_append, List.map_singleton] at hnodup ⊢
    exact hnodup

/-- What the limits say of the files that the entries `seen` of a stream made. -/
structure Fits (limits : ArchiveLimits) (entries : List TarEntry)
    (files : List (RelativePath × Bytes)) (seen : List TarEntry) : Prop where
  begun : seen <+: entries
  few : seen.length ≤ limits.entries
  fewer : files.length ≤ seen.length
  small : ∀ f ∈ files, f.2.length ≤ limits.fileBytes
  total : (files.map fun f => f.2.length).sum ≤ (seen.map fun entry => entry.available.length).sum

namespace Fits

variable {limits : ArchiveLimits} {entries seen rest : List TarEntry}
  {files : List (RelativePath × Bytes)} {name : RelativePath} {bytes : Bytes} {entry : TarEntry}

theorem nil (limits : ArchiveLimits) (entries : List TarEntry) : Fits limits entries [] [] where
  begun := List.nil_prefix
  few := Nat.zero_le _
  fewer := le_rfl
  small _ hf := absurd hf List.not_mem_nil
  total := le_rfl

/-- The files so far fit if one more does. -/
theorem init (h : Fits limits entries (files ++ [(name, bytes)]) seen) :
    Fits limits entries files seen where
  begun := h.begun
  few := h.few
  fewer := by have := h.fewer; rw [List.length_append] at this; omega
  small f hf := h.small f (List.mem_append_left _ hf)
  total := by have := h.total; rw [List.map_append, List.sum_append] at this; omega

/-- A file that is not written yet fits if its bytes do. -/
theorem empty (h : Fits limits entries (files ++ [(name, bytes)]) seen) :
    Fits limits entries (files ++ [(name, [])]) seen where
  begun := h.begun
  few := h.few
  fewer := by simpa using h.fewer
  small f hf := by
    rcases List.mem_append.mp hf with hf | hf
    · exact h.small f (List.mem_append_left _ hf)
    · rw [List.mem_singleton.mp hf]
      exact Nat.zero_le _
  total := by
    have := h.total
    simp only [List.map_append, List.sum_append, List.map_singleton, List.sum_singleton,
      List.length_nil] at this ⊢
    omega

/-- One more entry is read. -/
theorem see (h : Fits limits (seen ++ entry :: rest) files seen)
    (hfew : seen.length + 1 ≤ limits.entries) :
    Fits limits (seen ++ entry :: rest) files (seen ++ [entry]) where
  begun := ⟨rest, (List.append_cons seen entry rest).symm⟩
  few := by rwa [List.length_append]
  fewer := by have := h.fewer; rw [List.length_append]; omega
  small := h.small
  total := by have := h.total; rw [List.map_append, List.sum_append]; omega

/-- One more entry is read that makes a file. -/
theorem make (h : Fits limits (seen ++ entry :: rest) files seen)
    (hfew : seen.length + 1 ≤ limits.entries) (hsmall : bytes.length ≤ limits.fileBytes)
    (hbytes : bytes.length ≤ entry.available.length) :
    Fits limits (seen ++ entry :: rest) (files ++ [(name, bytes)]) (seen ++ [entry]) where
  begun := (h.see hfew).begun
  few := (h.see hfew).few
  fewer := by have := h.fewer; simp only [List.length_append, List.length_singleton]; omega
  small f hf := by
    rcases List.mem_append.mp hf with hf | hf
    · exact h.small f hf
    · rw [List.mem_singleton.mp hf]
      exact hsmall
  total := by
    have := h.total
    simp only [List.map_append, List.sum_append, List.map_singleton, List.sum_singleton]
    omega

end Fits

/-- The tree holds what some first entries of a stream make within the limits, and `log`, the places
that were written to, has each of them once at most. -/
def Confined (limits : ArchiveLimits) (entries : List TarEntry) (t : Tree) (log : List Path) : Prop :=
  ∃ files seen, Laid files seen t ∧ Fits limits entries files seen ∧ log.Sublist (files.map place)

/-- The entry is one that an extraction takes: a directory, or a file whose content is all there. -/
def TarEntry.Taken (limits : ArchiveLimits) (entry : TarEntry) : Prop :=
  (∃ name, entry.path = some name) ∧ (entry.kind = .directory ∨
    ∃ file, entry.file = some file ∧ entry.size = some file.2.length ∧
      file.2.length ≤ limits.fileBytes)

/-- What an extraction answers once it made these files. -/
def ExtractedTree.of (files : List (RelativePath × Bytes)) : ExtractedTree where
  files := files.length
  bytes := (files.map fun f => f.2.length).sum
  names := files.map (·.1)

section Specs

variable {S : Sig} {P F : Type} {D : F → Type} {W : Type} [DecidableEq P] [DecidableEq F]
  {h : Handler (withFs S P F D) W} {disk settle : W → Disk P F D} {order : Tree.Order}
  {own : P → Prop} {dest : P} {limits : ArchiveLimits} {entries seen : List TarEntry}
  {files : List (RelativePath × Bytes)} {log : List Path} {entry : TarEntry} {name : RelativePath}

/-- The places that a step writes to. -/
def writes (s : Step (withFs S P F D) W) : List Path :=
  match s.op with
  | .inl (.write _ x _) => [x]
  | _ => []

/-- The destination holds `files`, after writes to the places `log`. -/
def Filled (disk : W → Disk P F D) (dest : P) (files : List (RelativePath × Bytes))
    (seen : List TarEntry) (log : List Path) (x : W × List Path) : Prop :=
  (∃ t, (disk x.1).dir dest = some t ∧ Laid files seen t) ∧ x.2 = log

/-- The destination is confined. -/
def AtConfined (disk : W → Disk P F D) (dest : P) (limits : ArchiveLimits)
    (entries : List TarEntry) (x : W × List Path) : Prop :=
  ∃ t, (disk x.1).dir dest = some t ∧ Confined limits entries t x.2

omit [DecidableEq F] in
theorem Filled.confined {x : W × List Path} (hx : Filled disk dest files seen log x)
    (hfits : Fits limits entries files seen) (hlog : log.Sublist (files.map place)) :
    AtConfined disk dest limits entries x := by
  obtain ⟨⟨t, ht, hlaid⟩, rfl⟩ := hx
  exact ⟨t, ht, files, seen, hlaid, hfits, hlog⟩

omit [DecidableEq F] in
theorem Filled.see {x : W × List Path} (hx : Filled disk dest files seen log x)
    (entry : TarEntry) : Filled disk dest files (seen ++ [entry]) log x := by
  obtain ⟨⟨t, ht, hlaid⟩, hlog⟩ := hx
  exact ⟨⟨t, ht, hlaid.see entry⟩, hlog⟩

/-- Creating a directory on the way to an entry makes no file, whether it succeeds or not. -/
theorem createDirectory_filled (hs : Tries h disk settle order own) (hd : own dest)
    (hfits : Fits limits entries files seen) (hlog : log.Sublist (files.map place))
    (he : entry ∈ seen) (hpath : entry.path = some name) {x : Path} (hx : x <+: name.components)
    {w : W × List Path} (hw : Filled disk dest files seen log w) :
    (createDirectory dest x : Prog (withFs S P F D) ArchiveError Unit).Safe (h.logged writes)
      (AtConfined disk dest limits entries) (fun _ => Filled disk dest files seen log) w := by
  have hC : ∀ x, Filled disk dest files seen log x → AtConfined disk dest limits entries x :=
    fun _ hx => hx.confined hfits hlog
  have hnext : Filled disk dest files seen log
      ((h.logged writes) (.inl (.createDir dest x)) w).2 := by
    obtain ⟨⟨t, ht, hlaid⟩, hl⟩ := hw
    obtain ⟨t', ht', hchange, -⟩ := hs.changes hd (o := .createDir dest x) (g := (·.add x .dir)) ht
      (fun _ _ _ h => h) (fun _ _ => rfl)
    refine ⟨⟨t', ht', ?_⟩, (List.append_nil _).trans hl⟩
    rcases hchange with rfl | hadd
    · exact hlaid
    · exact hlaid.add_dir he hpath hx hadd
  refine Safe.bind (Q := fun _ => Filled disk dest files seen log)
    (Safe.attempt ((safe_fs (.createDir dest x)).mpr ⟨hC _ hw, hC _ hnext, hnext⟩))
    (fun r w' hw' => ?_) fun _ _ hw' => hw'
  split
  · exact ⟨hC _ hw', hw'⟩
  · exact ⟨hC _ hw', hw'⟩
  · exact ⟨hC _ hw', hw'⟩

theorem createDirectories_filled (hs : Tries h disk settle order own) (hd : own dest)
    (hfits : Fits limits entries files seen) (hlog : log.Sublist (files.map place))
    (he : entry ∈ seen) (hpath : entry.path = some name) {walked x : Path}
    (hx : walked ++ x <+: name.components) {w : W × List Path}
    (hw : Filled disk dest files seen log w) :
    (createDirectories dest walked x : Prog (withFs S P F D) ArchiveError Unit).Safe
      (h.logged writes) (AtConfined disk dest limits entries)
      (fun _ => Filled disk dest files seen log) w := by
  induction x generalizing walked w with
  | nil => exact ⟨hw.confined hfits hlog, hw⟩
  | cons component rest ih =>
    rw [List.append_cons] at hx
    exact (createDirectory_filled hs hd hfits hlog he hpath
      ((List.prefix_append _ _).trans hx) hw).bind (fun _ _ hw' => ih hx hw') fun _ _ hw' => hw'

/-- A file is written into an empty one that was not there before. -/
theorem writeFile_filled (hs : Tries h disk settle order own) (hd : own dest) {size : Nat}
    (hfits : Fits limits entries (files ++ [(name, entry.available.take size)]) seen)
    (he : entry ∈ seen) (hpath : entry.path = some name) {w : W × List Path}
    (hw : Filled disk dest files seen (files.map place) w) :
    (writeFile entry dest name size : Prog (withFs S P F D) ArchiveError Unit).Safe
      (h.logged writes) (AtConfined disk dest limits entries)
      (OnOk fun _ w' => (entry.available.take size).length = size ∧
        Filled disk dest (files ++ [(name, entry.available.take size)]) seen
          ((files ++ [(name, entry.available.take size)]).map place) w') w := by
  set bytes := entry.available.take size with hbytes
  have hplaces (new : Bytes) :
      (files ++ [(name, new)]).map place = files.map place ++ [name.components] := by
    rw [List.map_append]
    rfl
  refine Safe.bind (Q := fun _ => Filled disk dest files seen (files.map place)) ?_
    (fun _ w₁ hw₁ => ?_) fun _ _ _ _ h => by cases h
  · exact createDirectories_filled hs hd hfits.init (List.Sublist.refl _) he hpath
      (List.dropLast_prefix _) hw
  -- the file is new
  refine Safe.bind_onOk (T := fun _ => Filled disk dest (files ++ [(name, [])]) seen
    (files.map place)) (Safe.mapError_onOk ((safe_fs (.createNew dest name.components)).mpr
      ⟨hw₁.confined hfits.init (List.Sublist.refl _), ?_⟩)) fun _ w₂ hw₂ => ?_
  · obtain ⟨⟨t, ht, hlaid⟩, hl⟩ := hw₁
    obtain ⟨t', ht', hchange, hret⟩ := hs.changes hd (o := .createNew dest name.components)
      (g := (·.add name.components (.file [] false))) ht (fun _ _ _ h => h) (fun _ _ => rfl)
    have hlog : ((h.logged writes) (.inl (.createNew dest name.components)) w₁).2.2 =
        files.map place := (List.append_nil _).trans hl
    have hadded : t.add name.components (.file [] false) = .ok t' →
        Laid (files ++ [(name, [])]) seen t' := fun hadd =>
      hlaid.add_file he hpath (Tree.get_of_add hadd).2 (Tree.get_add hadd)
    refine ⟨?_, fun a ha => ⟨⟨t', ht', hadded (hret a ha)⟩, hlog⟩⟩
    rcases hchange with rfl | hadd
    · exact Filled.confined ⟨⟨t', ht', hlaid⟩, hlog⟩ hfits.init (List.Sublist.refl _)
    · refine Filled.confined ⟨⟨t', ht', hadded hadd⟩, hlog⟩ hfits.empty ?_
      rw [hplaces]
      exact List.sublist_append_left _ _
  -- its bytes
  refine Safe.bind_onOk (T := fun _ => Filled disk dest (files ++ [(name, bytes)]) seen
    ((files ++ [(name, bytes)]).map place))
    (Safe.mapError_onOk ((safe_fs (.write dest name.components bytes)).mpr
      ⟨hw₂.confined hfits.empty ?_, ?_⟩)) fun _ w₃ hw₃ => ?_
  · rw [hplaces]
    exact List.sublist_append_left _ _
  · obtain ⟨⟨t, ht, hlaid⟩, hl⟩ := hw₂
    have hempty : t.get name.components = some (.file [] false) :=
      (hlaid.file _ _ _).mpr ⟨rfl, (name, []), by simp, rfl, rfl⟩
    obtain ⟨t', ht', hchange, hret⟩ := hs.changes hd (o := .write dest name.components bytes)
      (g := (·.setFile name.components bytes false)) ht
      (fun d a ht ha => by rwa [FsOp.exec_write order ht hempty] at ha)
      (fun d ht => by rw [FsOp.exec_write order ht hempty])
    have hlog : ((h.logged writes) (.inl (.write dest name.components bytes)) w₂).2.2 =
        files.map place ++ [name.components] := congrArg (· ++ _) hl
    have hset : t.setFile name.components bytes false = .ok t' →
        Laid (files ++ [(name, bytes)]) seen t' := fun hset => hlaid.fill (Tree.get_setFile hset)
    rw [hplaces]
    refine ⟨?_, fun a ha => ⟨⟨t', ht', hset (hret a ha)⟩, hlog⟩⟩
    rcases hchange with rfl | hchange
    · exact Filled.confined ⟨⟨t', ht', hlaid⟩, hlog⟩ hfits.empty (by rw [hplaces])
    · exact Filled.confined ⟨⟨t', ht', hset hchange⟩, hlog⟩ hfits (by rw [hplaces])
  · have hC := hw₃.confined hfits (List.Sublist.refl _)
    split
    · split <;> exact ⟨hC, fun _ h => (by cases h)⟩
    · next hlen => exact ⟨hC, fun _ _ => ⟨not_not.mp hlen, hw₃⟩⟩

theorem made_append (done rest : List TarEntry) : made (done ++ rest) = made done ++ made rest :=
  List.filterMap_append

theorem made_concat_none (done : List TarEntry) (hfile : entry.file = none) :
    made (done ++ [entry]) = made done := by
  rw [made_append, show made [entry] = [] from List.filterMap_cons_none hfile, List.append_nil]

theorem made_concat_some (done : List TarEntry) {file : RelativePath × Bytes}
    (hfile : entry.file = some file) : made (done ++ [entry]) = made done ++ [file] := by
  rw [made_append, show made [entry] = [file] from List.filterMap_cons_some hfile]

/-- The entries that are left, `rest`, make their files, if all of them can be made. -/
theorem extractEntries_filled (hs : Tries h disk settle order own) (hd : own dest)
    (ending : Option IoError) (rest done : List TarEntry) (hentries : entries = done ++ rest)
    (hfits : Fits limits entries (made done) done)
    (htaken : ∀ entry ∈ done, entry.Taken limits) {w : W × List Path}
    (hw : Filled disk dest (made done) done ((made done).map place) w) :
    (extractEntries dest limits ending rest done.length (.of (made done)) :
      Prog (withFs S P F D) ArchiveError ExtractedTree).Safe (h.logged writes)
      (AtConfined disk dest limits entries)
      (OnOk fun tree w' => tree = .of (made entries) ∧ Fits limits entries (made entries) entries ∧
        (∀ entry ∈ entries, entry.Taken limits) ∧
        Filled disk dest (made entries) entries ((made entries).map place) w') w := by
  induction rest generalizing done w with
  | nil =>
    rw [List.append_nil] at hentries
    subst hentries
    have hC := hw.confined hfits (List.Sublist.refl _)
    unfold extractEntries
    split
    · exact ⟨hC, fun _ h => (by cases h)⟩
    · refine ⟨hC, fun tree h => ?_⟩
      cases h
      exact ⟨rfl, hfits, htaken, hw⟩
  | cons entry rest ih =>
    have hC := hw.confined hfits (List.Sublist.refl _)
    have hmem : entry ∈ done ++ [entry] := by simp
    have hstep : entries = (done ++ [entry]) ++ rest := by rw [hentries, List.append_cons]
    have hlen : done.length + 1 = (done ++ [entry]).length := by simp
    unfold extractEntries
    split
    · exact ⟨hC, fun _ h => (by cases h)⟩
    next hfew =>
    have hfew : done.length + 1 ≤ limits.entries := not_lt.mp hfew
    cases hname : entryName entry.name entry.kind with
    | error e => exact ⟨hC, fun _ h => (by cases h)⟩
    | ok name =>
    have hpath := path_of_ok hname
    rw [Prog.bind_eq, Prog.ofExcept_ok, Prog.bind_done]
    split
    · next hkind =>
      have hfile := file_of_directory hkind
      have hsee : Fits limits entries (made done) (done ++ [entry]) := by
        rw [hentries] at hfits ⊢
        exact hfits.see hfew
      refine (createDirectory_filled hs hd hsee (List.Sublist.refl _) hmem hpath
        List.prefix_rfl (hw.see entry)).bind (fun _ w₁ hw₁ => ?_) fun _ _ _ _ h => by cases h
      rw [← made_concat_none done hfile] at hsee hw₁
      rw [hlen, ← made_concat_none done hfile]
      refine ih _ hstep hsee (fun e he => ?_) hw₁
      rcases List.mem_append.mp he with he | he
      · exact htaken e he
      · rw [List.mem_singleton.mp he]
        exact ⟨⟨name, hpath⟩, .inl hkind⟩
    · next hkind =>
      split
      · exact ⟨hC, fun _ h => (by cases h)⟩
      next size hsize =>
      split
      · exact ⟨hC, fun _ h => (by cases h)⟩
      next hsmall =>
      have hfile := file_of_regular hkind hpath hsize
      have hmake : Fits limits entries (made done ++ [(name, entry.available.take size)])
          (done ++ [entry]) := by
        rw [hentries] at hfits ⊢
        refine hfits.make hfew ?_ (length_of_file hfile)
        rw [List.length_take]
        omega
      refine (writeFile_filled hs hd hmake hmem hpath (hw.see entry)).bind_onOk
        fun _ w₁ hw₁ => ?_
      obtain ⟨hwhole, hw₁⟩ := hw₁
      have hof : (⟨(ExtractedTree.of (made done)).files + 1,
          (ExtractedTree.of (made done)).bytes + size,
          (ExtractedTree.of (made done)).names ++ [name]⟩ : ExtractedTree) =
          .of (made (done ++ [entry])) := by
        rw [made_concat_some done hfile]
        simp [ExtractedTree.of, hwhole]
      rw [hof, hlen]
      rw [← made_concat_some done hfile] at hmake hw₁
      refine ih _ hstep hmake (fun e he => ?_) hw₁
      rcases List.mem_append.mp he with he | he
      · exact htaken e he
      · rw [List.mem_singleton.mp he]
        exact ⟨⟨name, hpath⟩, .inr ⟨_, hfile, by rw [hwhole]; exact hsize,
          by rw [hwhole]; exact not_lt.mp hsmall⟩⟩
    · exact ⟨hC, fun _ h => (by cases h)⟩

/-- A listing of an empty directory. -/
private theorem empty_of_readDir {t : Tree} {d : Disk P F D} (ht : d.dir dest = some t)
    (hr : ((FsOp.readDir dest []).exec order d).1 = .ok []) : ∀ x, t.get x = none := by
  simp only [FsOp.exec, ht] at hr
  rw [if_pos (show t.isDir [] from .inl rfl)] at hr
  refine Tree.get_of_children_nil (List.eq_nil_iff_forall_not_mem.mpr fun c hc => ?_)
  obtain ⟨e, he⟩ := Tree.mem_paths.mp (Tree.mem_children.mp hc)
  have hnone := List.filterMap_eq_nil_iff.mp (Except.ok.inj hr) c hc
  rw [he] at hnone
  cases hnone

/-- Extraction leaves a directory alone that is not empty; and it fills one that is, within its
limits, with the files of the stream and the directories that lead to its entries. -/
theorem extractTree_confined (hs : Tries h disk settle order own) (hd : own dest)
    (source : TarStream) (limits : ArchiveLimits) (w : W) :
    (extractTree source dest limits : Prog (withFs S P F D) ArchiveError ExtractedTree).Safe
      (h.logged writes)
      (fun x => (disk x.1).dir dest = (disk w).dir dest ∧ x.2 = [] ∨
        AtConfined disk dest limits source.entries x)
      (OnOk fun tree w' => tree = .of (made source.entries) ∧
        Fits limits source.entries (made source.entries) source.entries ∧
        (∀ entry ∈ source.entries, entry.Taken limits) ∧
        Filled disk dest (made source.entries) source.entries
          ((made source.entries).map place) w') (w, []) := by
  have hkeep : (disk ((h.logged writes) (.inl (.readDir dest [])) (w, [])).2.1).dir dest =
      (disk w).dir dest :=
    hs.keeps hd _ (X := (· = (disk w).dir dest)) rfl fun d hX => by
      rw [FsOp.exec_dir order _ _ (by simp [FsOp.places]), hX]
  refine Safe.bind_onOk (T := fun _ => Filled disk dest [] [] []) ?_ fun _ w' hw' => ?_
  · refine Safe.bind_onOk (T := fun entries x => (disk x.1).dir dest = (disk w).dir dest ∧
        x.2 = [] ∧ (entries = [] → Filled disk dest [] [] [] x))
      (Safe.mapError_onOk ((safe_fs (.readDir dest [])).mpr
        ⟨.inl ⟨rfl, rfl⟩, .inl ⟨hkeep, rfl⟩, fun entries ha => ⟨hkeep, rfl, fun hnil => ?_⟩⟩))
      fun entries x hx => ?_
    · subst hnil
      obtain ⟨hret, -⟩ := hs.of_ok (w := w) ha
      cases ht : (disk w).dir dest with
      | none =>
        simp only [FsOp.exec, hs.mine w dest hd, ht] at hret
        cases hret
      | some t =>
        have hempty := empty_of_readDir ((hs.mine w dest hd).trans ht) hret
        exact ⟨⟨t, hkeep.trans ht, .nil hempty⟩, rfl⟩
    · obtain ⟨hsame, hlog, hempty⟩ := hx
      split
      · exact ⟨.inl ⟨hsame, hlog⟩, fun _ h => (by cases h)⟩
      · next hnil => exact ⟨.inl ⟨hsame, hlog⟩, fun _ _ => hempty (not_not.mp hnil)⟩
  · exact (extractEntries_filled hs hd source.ending source.entries [] rfl (Fits.nil _ _)
      (by simp) hw').mono (fun _ hx => .inr hx) fun _ _ _ hq => hq

/-! ## The files of a stream -/

/-- The regular file that an entry makes. -/
def TarEntry.Makes (entry : TarEntry) (name : RelativePath) (bytes : Bytes) : Prop :=
  entry.name = some name.text ∧ entry.kind = .regular ∧
    ∃ size, entry.size = some size ∧ bytes = entry.available.take size

/-- The tree has a file for each of the names, which an entry made, and no others; and no entry that
is a file was left out. -/
structure Unpacked (done : List TarEntry) (names : List RelativePath) (t : Tree) : Prop where
  made : ∀ x e, t.get x = some e → e = .dir ∨ ∃ name ∈ names, name.components = x ∧
    ∃ entry ∈ done, ∃ bytes, entry.Makes name bytes ∧ e = .file bytes false
  files : ∀ name ∈ names, ∃ bytes, t.get name.components = some (.file bytes false)
  all : ∀ entry ∈ done, entry.kind = .regular → ∃ name ∈ names, entry.name = some name.text

/-- The directory holds what the entries `done` make. -/
def Holds (d : Option Tree) (done : List TarEntry) (names : List RelativePath) : Prop :=
  ∃ t, d = some t ∧ Unpacked done names t

/-- The name of a file is the text that the stream has. -/
theorem text_of_path (hpath : entry.path = some name) (hk : entry.kind ≠ .directory) :
    entry.name = some name.text := by
  unfold TarEntry.path at hpath
  split at hpath
  swap
  · cases hpath
  next hname =>
  cases hpath
  unfold entryName at hname
  split at hname
  · cases hname
  next raw hraw =>
  rw [if_neg hk] at hname
  dsimp only at hname
  split at hname
  · cases hname
  next path hparse =>
  split at hname
  · cases hname
  · cases hname
    rw [hraw, RelativePath.parse_text hparse]

theorem makes_of_file {file : RelativePath × Bytes} (h : entry.file = some file) :
    entry.Makes file.1 file.2 := by
  obtain ⟨hkind, hpath, hsize⟩ := of_file h
  exact ⟨text_of_path hpath (by simp [hkind]), hkind, hsize⟩

/-- What an extraction laid out is what the stream packed. -/
theorem Laid.unpacked {t : Tree} (h : Laid (made entries) entries t)
    (htaken : ∀ entry ∈ entries, entry.Taken limits) :
    Unpacked entries ((made entries).map (·.1)) t where
  made x e hx := by
    cases e with
    | dir => exact .inl rfl
    | special => exact absurd hx (h.plain x)
    | file bytes mode =>
      obtain ⟨rfl, file, hfile, hplace, rfl⟩ := (h.file x bytes mode).mp hx
      obtain ⟨entry, hentry, hmakes⟩ := List.mem_filterMap.mp hfile
      exact .inr ⟨file.1, List.mem_map_of_mem hfile, hplace, entry, hentry, file.2,
        makes_of_file hmakes, rfl⟩
  files name hname := by
    obtain ⟨file, hfile, rfl⟩ := List.mem_map.mp hname
    exact ⟨file.2, (h.file _ _ _).mpr ⟨rfl, file, hfile, rfl, rfl⟩⟩
  all entry hentry hkind := by
    rcases (htaken entry hentry).2 with hdir | ⟨file, hfile, -, -⟩
    · rw [hkind] at hdir
      cases hdir
    · exact ⟨file.1, List.mem_map_of_mem (List.mem_filterMap.mpr ⟨entry, hentry, hfile⟩),
        (makes_of_file hfile).1⟩

/-- A stream that can be unpacked leaves what was laid out of all its entries. -/
theorem extractTree_laid {w : W} (hs : Tries h disk settle order own) (hd : own dest)
    (source : TarStream) (limits : ArchiveLimits) :
    (extractTree source dest limits : Prog (withFs S P F D) ArchiveError ExtractedTree).Safe h
      (fun _ => True) (OnOk fun tree w' => tree = .of (made source.entries) ∧
        (∀ entry ∈ source.entries, entry.Taken limits) ∧
        ∃ t, (disk w').dir dest = some t ∧ Laid (made source.entries) source.entries t) w := by
  refine safe_iff.mpr ⟨fun _ _ => trivial, fun tree htree => ?_⟩
  have hresult := (extractTree_confined hs hd source limits w).result
  rw [run_logged] at hresult
  obtain ⟨rfl, -, htaken, hlaid, -⟩ := hresult tree htree
  exact ⟨rfl, htaken, hlaid⟩

/-- A stream that can be unpacked leaves its files and the directories that lead to them. -/
theorem extractTree_spec {w : W} (hs : Tries h disk settle order own) (hd : own dest)
    (source : TarStream) (limits : ArchiveLimits) :
    (extractTree source dest limits : Prog (withFs S P F D) ArchiveError ExtractedTree).Safe h
      (fun _ => True) (OnOk fun tree w' => Holds ((disk w').dir dest) source.entries tree.names)
      w := by
  refine (extractTree_laid hs hd source limits).mono (fun _ h => h) fun r w' _ hq tree htree => ?_
  obtain ⟨rfl, htaken, t, ht, hlaid⟩ := hq tree htree
  exact ⟨t, ht, hlaid.unpacked htaken⟩

end Specs

end Paperclip.Packages
