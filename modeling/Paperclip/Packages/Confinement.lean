import Paperclip.Packages.Decoder
import Paperclip.Packages.Extraction

/-!
# Extraction is confined

Whatever an archive says, unpacking it touches one directory, writes each file once and stays within
the limits; and if it succeeds, the directory holds exactly the files of the archive.

* `Extracting`: the operations of an extraction. `Spares`: a step changes no file but the one that
  it writes.
* `Bounded`: what the tree is at every point. `Exact`: what it is at the end.
* `extraction_is_confined`: every step, every point and the end of a run, under a filesystem whose
  operations may fault.
-/

namespace Paperclip.Packages

open Crash Files Protocol Prog

/-- The tree is made of files and directories with paths inside the directory, on the way to some of
the first entries, and within the limits. -/
structure Bounded (limits : ArchiveLimits) (entries : List TarEntry) (t : Tree) : Prop where
  inside : ∀ x e, t.get x = some e → Inside x ∧ (e = .dir ∨ ∃ bytes, e = .file bytes false)
  entered : ∀ x e, t.get x = some e → ∃ entry ∈ entries.take limits.entries, ∃ name,
    entry.path = some name ∧ x <+: name.components
  few : t.files.length ≤ limits.entries
  small : ∀ file ∈ t.files, file.2.length ≤ limits.fileBytes
  total : (t.files.map fun file => file.2.length).sum ≤ limits.uncompressedBytes

/-- The tree has the files of the archive and no others. No file is in the archive twice, all of
every file was there, and what is not a file is a directory. -/
structure Exact (limits : ArchiveLimits) (entries : List TarEntry) (t : Tree) : Prop where
  files : ∀ x bytes mode, t.get x = some (.file bytes mode) ↔ mode = false ∧
    ∃ entry ∈ entries, ∃ name, entry.file = some (name, bytes) ∧ name.components = x
  once : ((made entries).map place).Nodup
  taken : ∀ entry ∈ entries, entry.Taken limits
  few : entries.length ≤ limits.entries

section Trees

variable {limits : ArchiveLimits} {entries seen : List TarEntry}
  {files : List (RelativePath × Bytes)} {t : Tree}

/-- The files of the tree are those that were laid out. -/
theorem Laid.perm (h : Laid files seen t) : t.files.Perm (files.map fun f => (place f, f.2)) := by
  have hnodup : (files.map fun f => (place f, f.2)).Nodup := by
    refine List.Nodup.of_map Prod.fst ?_
    rw [List.map_map]
    exact h.nodup
  refine (List.perm_ext_iff_of_nodup t.nodup_files hnodup).mpr ?_
  rintro ⟨x, bytes⟩
  rw [Tree.mem_files, List.mem_map]
  constructor
  · rintro ⟨mode, hget⟩
    obtain ⟨-, f, hf, rfl, rfl⟩ := (h.file x bytes mode).mp hget
    exact ⟨f, hf, rfl⟩
  · rintro ⟨f, hf, heq⟩
    cases heq
    exact ⟨false, (h.file _ _ _).mpr ⟨rfl, f, hf, rfl, rfl⟩⟩

theorem Laid.bounded (h : Laid files seen t) (hfits : Fits limits entries files seen)
    (htotal : (entries.map fun entry => entry.available.length).sum ≤ limits.uncompressedBytes) :
    Bounded limits entries t where
  inside x e hx := by
    refine ⟨h.inside hx, ?_⟩
    cases e with
    | dir => exact .inl rfl
    | special => exact absurd hx (h.plain x)
    | file bytes mode =>
      obtain ⟨rfl, -⟩ := (h.file x bytes mode).mp hx
      exact .inr ⟨bytes, rfl⟩
  entered x e hx := by
    have hin : ∀ entry ∈ seen, entry ∈ entries.take limits.entries := fun entry he =>
      (List.prefix_take_iff.mpr ⟨hfits.begun, hfits.few⟩).subset he
    cases e with
    | dir =>
      obtain ⟨entry, he, hpath⟩ := h.dir x hx
      exact ⟨entry, hin entry he, hpath⟩
    | special => exact absurd hx (h.plain x)
    | file bytes mode =>
      obtain ⟨-, f, hf, rfl, -⟩ := (h.file x bytes mode).mp hx
      obtain ⟨entry, he, hpath⟩ := h.named f hf
      exact ⟨entry, hin entry he, f.1, hpath, List.prefix_rfl⟩
  few := by
    rw [h.perm.length_eq, List.length_map]
    exact hfits.fewer.trans hfits.few
  small file hfile := by
    obtain ⟨f, hf, rfl⟩ := List.mem_map.mp (h.perm.subset hfile)
    exact hfits.small f hf
  total := by
    rw [(h.perm.map _).sum_nat, List.map_map]
    obtain ⟨rest, rfl⟩ := hfits.begun
    rw [List.map_append, List.sum_append] at htotal
    exact (hfits.total.trans (Nat.le_add_right _ _)).trans htotal

theorem Laid.exact (h : Laid (made entries) entries t)
    (htaken : ∀ entry ∈ entries, entry.Taken limits) (hfew : entries.length ≤ limits.entries) :
    Exact limits entries t where
  files x bytes mode := by
    rw [h.file]
    refine and_congr_right fun _ => ⟨?_, ?_⟩
    · rintro ⟨⟨name, bytes⟩, hf, rfl, rfl⟩
      obtain ⟨entry, he, hfile⟩ := List.mem_filterMap.mp hf
      exact ⟨entry, he, name, hfile, rfl⟩
    · rintro ⟨entry, he, name, hfile, rfl⟩
      exact ⟨(name, bytes), List.mem_filterMap.mpr ⟨entry, he, hfile⟩, rfl, rfl⟩
  once := h.nodup
  taken := htaken
  few := hfew

end Trees

section Steps

variable {S : Sig} {P F : Type} {D : F → Type} {W : Type} [DecidableEq P] [DecidableEq F]
  {h : Handler (withFs S P F D) W} {disk settle : W → Disk P F D} {order : Tree.Order}
  {own : P → Prop} {dest : P} {w : W}

/-- What an extraction into `dest` does: it lists the directory once, and creates directories and
files inside it. -/
def Extracting (dest : P) : (withFs S P F D).Op → Prop
  | .inl (.readDir p x) => p = dest ∧ x = []
  | .inl (.createDir p x) => p = dest ∧ Inside x
  | .inl (.createNew p x) => p = dest ∧ Inside x
  | .inl (.write p x _) => p = dest ∧ Inside x
  | _ => False

omit [DecidableEq P] [DecidableEq F] in
theorem extracts_extracting : Extracts (Extracting dest : (withFs S P F D).Op → Prop) dest where
  list := ⟨rfl, rfl⟩
  createDir _ hx := ⟨rfl, hx⟩
  createNew _ hx := ⟨rfl, hx⟩
  write _ _ hx := ⟨rfl, hx⟩

/-- The entry at a path of a directory. -/
def entryAt (d : Disk P F D) (p : P) (x : Path) : Option Entry := (d.dir p).bind (·.get x)

/-- The step leaves every entry as it is, but for a file that it writes. -/
def Spares (disk : W → Disk P F D) (dest : P) (s : Step (withFs S P F D) W) : Prop :=
  ∀ x e, entryAt (disk s.before) dest x = some e → x ∉ writes s →
    entryAt (disk s.after) dest x = some e

/-- An operation of an extraction removes no entry, and changes none but the file that it writes. -/
theorem exec_keeps {o : FsOp P F D} (ho : Extracting dest (S := S) (.inl o)) (d : Disk P F D)
    {x : Path} {e : Entry} (hx : entryAt d dest x = some e) :
    ∃ e', entryAt (o.exec order d).2 dest x = some e' ∧
      ((∀ bytes, o ≠ .write dest x bytes) → e' = e) := by
  obtain ⟨t, ht, hget⟩ := Option.bind_eq_some_iff.mp hx
  have hadd (y : Path) (new : Entry) :
      entryAt (d.modify dest (·.add y new)).2 dest x = some e := by
    cases hy : t.add y new with
    | error e => simp [Disk.modify, entryAt, ht, hy, hget]
    | ok t' =>
      rw [Disk.modify_ok ht hy, entryAt, Disk.setDir_dir_self]
      refine (Tree.get_add hy x).trans ?_
      rw [if_neg, hget]
      rintro rfl
      rw [(Tree.get_of_add hy).2] at hget
      cases hget
  cases o <;> try exact ho.elim
  case readDir p y =>
    refine ⟨e, ?_, fun _ => rfl⟩
    rw [entryAt, FsOp.exec_dir order _ _ (by simp [FsOp.places])]
    exact hx
  case createDir p y =>
    obtain ⟨rfl, -⟩ := ho
    exact ⟨e, hadd y .dir, fun _ => rfl⟩
  case createNew p y =>
    obtain ⟨rfl, -⟩ := ho
    exact ⟨e, hadd y (.file [] false), fun _ => rfl⟩
  case write p y bytes =>
    obtain ⟨rfl, -⟩ := ho
    obtain ⟨t', ht', hor⟩ : ∃ t', ((FsOp.write p y bytes).exec order d).2.dir p = some t' ∧
        (t' = t ∨ ∃ m, t.setFile y bytes m = .ok t') := by
      simp only [FsOp.exec, Disk.modify, ht]
      split
      · next t' hchange =>
        refine ⟨t', Disk.setDir_dir_self _ _, .inr ?_⟩
        split at hchange <;> exact ⟨_, hchange⟩
      · exact ⟨t, ht, .inl rfl⟩
    rw [entryAt, ht']
    rcases hor with rfl | ⟨m, hset⟩
    · exact ⟨e, hget, fun _ => rfl⟩
    · refine ⟨if x = y then .file bytes m else e, ?_, fun hne => if_neg ?_⟩
      · rw [Option.bind_some, Tree.get_setFile hset, hget]
        split <;> rfl
      · exact fun hxy => hne bytes (hxy ▸ rfl)

theorem keeps_of_extracting (hs : Tries h disk settle order own) (hd : own dest) {o : FsOp P F D}
    (ho : Extracting dest (S := S) (.inl o)) {x : Path} {e : Entry}
    (hx : entryAt (disk w) dest x = some e) :
    ∃ e', entryAt (disk (h (.inl o) w).2) dest x = some e' ∧
      ((∀ bytes, o ≠ .write dest x bytes) → e' = e) := by
  refine hs.keeps hd o (X := fun d => ∃ e', d.bind (·.get x) = some e' ∧
    ((∀ bytes, o ≠ .write dest x bytes) → e' = e)) ⟨e, hx, fun _ => rfl⟩ fun d hd' => ?_
  obtain ⟨e', he', hsame⟩ := hd'
  obtain ⟨e'', he'', hsame'⟩ := exec_keeps ho d he'
  exact ⟨e'', he'', fun hne => (hsame' hne).trans (hsame hne)⟩

/-- A step of an extraction spares what it does not write to. -/
theorem spares_of_extracting (hs : Tries h disk settle order own) (hd : own dest)
    {s : Step (withFs S P F D) W} (hop : Extracting dest s.op)
    (hstep : h s.op s.before = (s.ret, s.after)) : Spares disk dest s := by
  intro x e hx hnot
  rw [show s.after = (h s.op s.before).2 by rw [hstep]]
  cases ho : s.op with
  | inr o =>
    rw [ho] at hop
    exact hop.elim
  | inl o =>
    rw [ho] at hop
    obtain ⟨e', he', hsame⟩ := keeps_of_extracting hs hd hop hx
    rw [he', hsame]
    rintro bytes rfl
    refine hnot ?_
    rw [writes, ho]
    exact List.mem_singleton_self x

end Steps

section Directories

variable {S : Sig} {P F : Type} {D : F → Type} {W : Type} [DecidableEq P] [DecidableEq F]
  {h : Handler (withFs S P F D) W} {disk settle : W → Disk P F D} {order : Tree.Order}
  {own : P → Prop} {dest : P} {w : W} {x : Path}

/-- The filesystem says that something exists already only where it does. -/
def Truthful (h : Handler (withFs S P F D) W) (settle : W → Disk P F D)
    (order : Tree.Order) : Prop :=
  ∀ o w, (h (.inl o) w).1 = .error .alreadyExists →
    (o.exec order (settle w)).1 = .error .alreadyExists

/-- There is an entry at the path. -/
def Present (disk : W → Disk P F D) (dest : P) (x : Path) (w : W) : Prop :=
  ∃ e, entryAt (disk w) dest x = some e

/-- An extraction removes nothing. -/
theorem present_of_only {ε α : Type} (hs : Tries h disk settle order own) (hd : own dest)
    {p : Prog (withFs S P F D) ε α} (hp : p.Only (Extracting dest)) (hw : Present disk dest x w) :
    p.Safe h (Present disk dest x) (fun _ => Present disk dest x) w := by
  refine Safe.of_only hp (fun op w hop hw => ?_) hw
  obtain ⟨e, he⟩ := hw
  cases op with
  | inr o => exact hop.elim
  | inl o =>
    obtain ⟨e', he', -⟩ := keeps_of_extracting hs hd hop he
    exact ⟨e', he'⟩

/-- A directory that could be created is there, or something else was there before. -/
theorem createDirectory_present (hs : Tries h disk settle order own) (hd : own dest)
    (htrue : Truthful h settle order) (hx : Inside x) :
    (createDirectory dest x : Prog (withFs S P F D) ArchiveError Unit).Safe h (fun _ => True)
      (OnOk fun _ => Present disk dest x) w := by
  refine Safe.bind_ok (T := fun r w' => r = .ok () ∨ r = .error .alreadyExists →
      Present disk dest x w') (Safe.attempt ((safe_fs (.createDir dest x)).mpr
      ⟨trivial, trivial, _, rfl, fun hr => ?_⟩)) fun r w' hw' => ?_
  · rw [Present, entryAt]
    rcases hr with hr | hr
    · obtain ⟨hret, hnext⟩ := hs.of_ok hr
      obtain ⟨t, t', -, hadd, hafter⟩ := Disk.of_modify_ok (Prod.ext hret rfl)
      rw [hnext, show ((FsOp.createDir dest x).exec order (settle w)).2 = _ from hafter,
        Disk.setDir_dir_self]
      exact ⟨.dir, by rw [Option.bind_some, Tree.get_add hadd, if_pos rfl]⟩
    · have hexists := htrue _ _ hr
      have hsame : ∃ e, ((settle w).dir dest).bind (·.get x) = some e := by
        simp only [FsOp.exec, Disk.modify] at hexists
        split at hexists
        · cases hexists
        next t ht =>
        split at hexists
        · cases hexists
        next e hadd =>
        cases hexists
        rw [ht, Option.bind_some, ← Option.ne_none_iff_exists']
        intro hnone
        unfold Tree.add at hadd
        rw [dif_pos ⟨hx.1, hnone⟩] at hadd
        repeat' split at hadd
        all_goals cases hadd
      obtain ⟨e, he⟩ := hsame
      rw [hs.mine w dest hd] at he
      obtain ⟨e', he', -⟩ := keeps_of_extracting hs hd (o := .createDir dest x) (S := S) ⟨rfl, hx⟩ he
      exact ⟨e', he'⟩
  · split
    · exact ⟨trivial, fun _ _ => hw' (.inl rfl)⟩
    · exact ⟨trivial, fun _ _ => hw' (.inr rfl)⟩
    · exact ⟨trivial, fun _ h => (by cases h)⟩

/-- Every directory of the entries that are left is there in the end. -/
theorem extractEntries_present (hs : Tries h disk settle order own) (hd : own dest)
    (htrue : Truthful h settle order) (limits : ArchiveLimits) (ending : Option IoError)
    (rest : List TarEntry) (seen : Nat) (tree : ExtractedTree) :
    (extractEntries dest limits ending rest seen tree :
      Prog (withFs S P F D) ArchiveError ExtractedTree).Safe h (fun _ => True)
      (OnOk fun _ w' => ∀ entry ∈ rest, entry.kind = .directory → ∀ name,
        entry.path = some name → Present disk dest name.components w') w := by
  induction rest generalizing seen tree w with
  | nil => exact (safe_true _ w).mono (fun _ _ => trivial) fun _ _ _ _ _ _ _ h => by cases h
  | cons entry rest ih =>
    unfold extractEntries
    split
    · exact ⟨trivial, fun _ h => (by cases h)⟩
    cases hname : entryName entry.name entry.kind with
    | error e => exact ⟨trivial, fun _ h => (by cases h)⟩
    | ok name =>
    have hpath := path_of_ok hname
    rw [Prog.bind_eq, Prog.ofExcept_ok, Prog.bind_done]
    split
    · refine (createDirectory_present hs hd htrue (inside_of_path hpath)).bind_onOk
        fun _ w₁ hw₁ => ?_
      refine ((present_of_only hs hd (only_extractEntries extracts_extracting ..) hw₁).and
        (ih _ _)).mono (fun _ _ => trivial) ?_
      rintro r w' - ⟨hthis, hrest⟩ tree htree e he hkind name' hpath'
      rcases List.mem_cons.mp he with rfl | he
      · cases hpath.symm.trans hpath'
        exact hthis
      · exact hrest tree htree e he hkind name' hpath'
    · next hkind =>
      split
      · exact ⟨trivial, fun _ h => (by cases h)⟩
      split
      · exact ⟨trivial, fun _ h => (by cases h)⟩
      refine (safe_onOk_true _ w).bind_onOk fun _ w₁ _ => ?_
      refine (ih _ _).mono (fun _ h => h) ?_
      rintro r w' - hrest tree htree e he hdir name' hpath'
      rcases List.mem_cons.mp he with rfl | he
      · rw [hkind] at hdir
        cases hdir
      · exact hrest tree htree e he hdir name' hpath'
    · exact ⟨trivial, fun _ h => (by cases h)⟩

theorem extractTree_present (hs : Tries h disk settle order own) (hd : own dest)
    (htrue : Truthful h settle order) (source : TarStream) (limits : ArchiveLimits) :
    (extractTree source dest limits : Prog (withFs S P F D) ArchiveError ExtractedTree).Safe h
      (fun _ => True) (OnOk fun _ w' => ∀ entry ∈ source.entries, entry.kind = .directory →
        ∀ name, entry.path = some name → Present disk dest name.components w') w :=
  (safe_onOk_true _ w).bind_onOk fun _ _ _ =>
    extractEntries_present hs hd htrue limits source.ending source.entries 0 _

end Directories

section Runs

variable {S : Sig} {P F : Type} {D : F → Type} {W : Type} [DecidableEq P] [DecidableEq F]
  {h : Handler (withFs S P F D) W} {disk settle : W → Disk P F D} {order : Tree.Order}
  {own : P → Prop} {dest : P}

/-- The run of an extraction of these entries into `dest` is confined: so is each step, no file is
written twice, the directory is bounded at every point unless it is still what it was, and in the end
of a run that succeeds it holds the files of the archive. -/
structure RunConfined (h : Handler (withFs S P F D) W) (disk : W → Disk P F D) (dest : P)
    (limits : ArchiveLimits) (entries : List TarEntry)
    (p : Prog (withFs S P F D) ArchiveError ExtractedTree) (w : W) : Prop where
  step : ∀ s ∈ p.trace h w, Extracting dest s.op ∧ Spares disk dest s
  once : ((p.trace h w).flatMap writes).Nodup
  point : ∀ w' ∈ p.points h w, (disk w').dir dest = (disk w).dir dest ∨
    ∃ t, (disk w').dir dest = some t ∧ Bounded limits entries t
  result : ∀ tree, (p.run h w).1 = .ok tree → tree = .of (made entries) ∧
    ∃ t, (disk (p.run h w).2).dir dest = some t ∧ Bounded limits entries t ∧ Exact limits entries t

/-- Extraction is confined, whatever the archive is made of and however it is read; and every
directory that it names is there in the end. -/
theorem extraction_is_confined {codec : Codec} {limits : ArchiveLimits} {archive : ByteStream}
    {stream : TarStream} (hdecodes : codec.Decodes limits archive stream)
    (hs : Tries h disk settle order own) (hd : own dest) (w : W) :
    RunConfined h disk dest limits stream.entries (extractTree stream dest limits) w ∧
    (Truthful h settle order → ∀ tree,
      ((extractTree stream dest limits : Prog (withFs S P F D) _ _).run h w).1 = .ok tree →
      ∀ entry ∈ stream.entries, entry.kind = .directory → ∀ name, entry.path = some name →
        Present disk dest name.components
          ((extractTree stream dest limits : Prog (withFs S P F D) _ _).run h w).2) := by
  have htotal := hdecodes.fits
  have hsafe := extractTree_confined hs hd stream limits w
  have hlog := hsafe.result_point
  have hresult := hsafe.result
  rw [run_logged] at hlog hresult
  refine ⟨⟨fun s hmem => ?_, ?_, fun w' hw' => ?_, fun tree htree => ?_⟩, fun htrue tree htree => ?_⟩
  · obtain ⟨hop, hstep⟩ := (only_extractTree extracts_extracting stream limits).of_trace hmem
    exact ⟨hop, spares_of_extracting hs hd hop hstep⟩
  · rcases hlog with ⟨-, hlog⟩ | ⟨t, -, files, seen, hlaid, -, hlog⟩
    · rw [List.nil_append] at hlog
      exact List.nodup_nil.sublist (List.sublist_nil.mpr hlog)
    · rw [List.nil_append] at hlog
      exact hlaid.nodup.sublist hlog
  · obtain ⟨log, hpoint⟩ := exists_logged_point h writes [] hw'
    rcases hsafe.points hpoint with ⟨hsame, -⟩ | ⟨t, ht, files, seen, hlaid, hfits, -⟩
    · exact .inl hsame
    · exact .inr ⟨t, ht, hlaid.bounded hfits htotal⟩
  · obtain ⟨rfl, hfits, htaken, ⟨t, ht, hlaid⟩, -⟩ := hresult tree htree
    exact ⟨rfl, t, ht, hlaid.bounded hfits htotal, hlaid.exact htaken hfits.few⟩
  · exact (extractTree_present hs hd htrue stream limits).result tree htree

end Runs

/-! ## A run -/

/-- An archive of one file, `a`, that holds one byte. -/
def oneFileArchive : Bytes :=
  [31, 139, 8, 0, 0, 0, 0, 0, 0, 255, 75, 100, 160, 61, 48, 0, 2, 51, 19, 19, 48, 13, 4, 232, 52, 16,
    24, 34, 177, 193, 226, 102, 6, 198, 230, 12, 6, 116, 112, 27, 67, 105, 113, 73, 98, 145, 130, 2,
    61, 172, 26, 140, 32, 113, 160, 29, 48, 10, 70, 193, 40, 24, 5, 163, 96, 64, 0, 0, 101, 71, 227,
    17, 0, 8, 0, 0]

/-- What the archive expands to: a header, the file, and two empty blocks. -/
def oneFileTar : Bytes :=
  tarHeader "a" "0000644" "00000000001" "0006037" ++ tarField (ascii "a") 512 ++ tarField [] 1024

def oneFile : TarEntry where
  name := some "a"
  kind := .regular
  size := some 1
  available := ascii "a"
  broken := none

/-- A disk with one directory, which is empty. -/
def emptyDisk : Disk Unit Unit fun _ => Unit := ⟨AList.singleton () .empty, ∅⟩

theorem one_file_is_confined :
    RunConfined (alone .byDepth) id () .DEFAULT [oneFile]
      (extractTree ⟨[oneFile], none⟩ () .DEFAULT) emptyDisk := by
  have hfits : ([oneFile].map fun entry => entry.available.length).sum ≤ oneFileTar.length := by
    simp [oneFile, oneFileTar, ascii]
  have hdecodes := Codec.decodes_knowing hfits
    (show oneFileArchive.length ≤ ArchiveLimits.DEFAULT.compressedBytes by decide)
    (show oneFileTar.length ≤ ArchiveLimits.DEFAULT.uncompressedBytes by
      simp [oneFileTar, ArchiveLimits.DEFAULT])
  exact (extraction_is_confined hdecodes (serves_alone .byDepth).tries trivial emptyDisk).1

end Paperclip.Packages
