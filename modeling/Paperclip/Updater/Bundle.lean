import Paperclip.Packages.RoundTrip
import Paperclip.Updater.Acceptance
import Paperclip.Updater.Document

/-!
# Building a platform bundle

A bundle has one release: the manifest, its signature, and the components in the order of their
paths. The builder checks little of what it packs, and the installer checks all of it again.

* `describe`: the manifest of a directory. `build`: the bundle of one.
* `Publication`: a release that was described, signed and built.
* `Installable`: what the installer asks of one. `bundle_accepted_iff`: nothing else.
-/

namespace Paperclip.Updater

open Crash Files Packages Protocol Prog

/-! ## What is published -/

/-- Everything about a release that is not read off the disk. -/
structure Description where
  version : Version
  protocol : ProtocolVersion
  published : ℕ
  stateVersion : ℕ
  rollbackToState : ℕ
  notes : String
  extras : List String

/-- What the types of the fields promise. The time is that of a clock, whose seconds are signed. -/
structure Description.Typed (description : Description) : Prop where
  version : description.version.WellFormed
  protocol : description.protocol.major < 2 ^ 16 ∧ description.protocol.minor < 2 ^ 16
  published : description.published < 2 ^ 63
  stateVersion : description.stateVersion < 2 ^ 32
  rollbackToState : description.rollbackToState < 2 ^ 32

/-- The directory that a release is built from: what is read below it, and what is read where a path
leads out of it. There is nothing below a file, and no file is larger than what memory can hold. -/
structure Source where
  file : Path → Except IoError Bytes
  elsewhere : String → Except IoError Bytes
  leaf : ∀ x y bytes bytes', file x = .ok bytes → file (x ++ y) = .ok bytes' → y = []
  length_lt : ∀ x bytes, file x = .ok bytes → bytes.length < 2 ^ 63

/-- Reads the file at a path. -/
def Source.read (source : Source) (path : String) : Except IoError Bytes :=
  if RawManifest.escapes path then source.elsewhere path
  else
    match resolve path with
    | some x => source.file x
    | none => .error .notADirectory

/-- Reads one component and records its size and digest. -/
def measure (digestOf : Bytes → Digest) (source : Source) (name relative : String) :
    Except UpdateError Component := do
  let bytes ← (source.read relative).mapError fun e => .component name s!"{relative}: {ioText e}"
  return ⟨name, relative, bytes.length, digestOf bytes⟩

/-- Measures the components in `source` and describes them as a manifest. -/
def describe (digestOf : Bytes → Digest) (source : Source) (description : Description) :
    Except UpdateError PlatformManifest := do
  let required ← REQUIRED_COMPONENTS.mapM fun name => measure digestOf source name ("bin/" ++ name)
  let extras ← description.extras.mapM fun extra => measure digestOf source extra extra
  PlatformManifest.new {
    version := description.version
    protocol := description.protocol
    published := description.published
    stateVersion := description.stateVersion
    rollbackToState := description.rollbackToState
    notes := description.notes
    components := required ++ extras }

/-- The parts of a path that lead somewhere. -/
def partsOf (path : String) : Path :=
  (Protocol.components path).filter fun part => part ≠ "" ∧ part ≠ "."

/-- The archive crates: what a builder writes, and the name that it gives to a file. A path is
written as it is, or without the parts that lead nowhere. -/
structure Tar where
  encode : List PackedFile → Except IoError Bytes
  nameOf : String → String
  plain : ∀ path : RelativePath, nameOf path.text = path.text
  parts : ∀ path, partsOf (nameOf path) = partsOf path

/-- What an archive reader makes of a file that was written. -/
def Tar.entry (tar : Tar) (file : PackedFile) : TarEntry :=
  { file.entry with name := some (tar.nameOf file.name) }

/-- Reads one component again. -/
def pack (source : Source) (component : Component) : Except UpdateError PackedFile := do
  let bytes ← (source.read component.path).mapError .io
  return ⟨component.path, startsWith component.path "bin/", bytes⟩

/-- Writes the bundle for `manifest`, reading the components out of `source`. -/
def build (tar : Tar) (source : Source) (manifest : PlatformManifest)
    (document armoured : Bytes) : Except UpdateError Bytes := do
  let components := manifest.components.mergeSort fun left right => left.path ≤ right.path
  let files ← components.mapM (pack source)
  (tar.encode (⟨MANIFEST_FILE_NAME, false, document⟩ :: ⟨SIGNATURE_FILE_NAME, false, armoured⟩ ::
    files)).mapError .io

/-- The document of a manifest, as bytes. -/
def PlatformManifest.document (manifest : PlatformManifest) : Bytes :=
  encodeUtf8 manifest.toDocument

/-- A release that was described, signed with a key that is trusted, and built. -/
structure Publication (u : Upgrade) (tar : Tar) (source : Source) (description : Description) where
  manifest : PlatformManifest
  described : describe u.ext.digestOf source description = .ok manifest
  armoured : Bytes
  signed : u.ext.verify manifest.document armoured = .ok ()
  archive : Bytes
  built : build tar source manifest manifest.document armoured = .ok archive

/-- The decoders read what was written, and where they are stopped on the way, they say so. -/
def Tar.Undoes (tar : Tar) (codec : Codec) (limits : ArchiveLimits) (archive : Bytes) : Prop :=
  ∀ files, tar.encode files = .ok archive →
    codec.untar (codec.gunzip ⟨archive, none⟩) = ⟨files.map tar.entry, none⟩ ∧
    ∀ stream, codec.Decodes limits ⟨archive, none⟩ stream →
      stream = ⟨files.map tar.entry, none⟩ ∨ stream.ending ≠ none

/-- What the crates do with a publication: they read a document, a version and a digest as they were
written, and the archive as it was packed. -/
structure Publication.Served {u : Upgrade} {tar : Tar} {source : Source} {description : Description}
    (p : Publication u tar source description) (toml : Toml.Reader Document Document.ofLines)
    (semver : String → Except String Version) (codec : Codec) (stream : TarStream) : Prop where
  document : u.ext.parse = readDocument toml semver
  version : semver description.version.toString = .ok description.version
  digest : ∀ bytes, (Packages.Digest.parse (u.ext.digestOf bytes).text).isSome = true
  archive : tar.Undoes codec u.limits p.archive
  decoded : codec.Decodes u.limits ⟨p.archive, none⟩ stream

/-! ## What is installed -/

/-- The paths of the components. -/
def Description.paths (description : Description) : List String :=
  (REQUIRED_COMPONENTS.map fun name => "bin/" ++ name) ++ description.extras

/-- A path that the installer takes: one in the grammar of package paths, with none of the names
that are kept, and neither the manifest or its signature nor below them. -/
def Takes (path : String) : Prop :=
  ∃ name : RelativePath, name.text = path ∧ rejectReserved name = .ok () ∧
    ¬ [MANIFEST_FILE_NAME] <+: name.components ∧ ¬ [SIGNATURE_FILE_NAME] <+: name.components

/-- What the installer asks of a release that was built. -/
structure Installable (u : Upgrade) (source : Source) (description : Description)
    (document armoured : Bytes) : Prop where
  notes : description.notes.toList.all Toml.allowed = true
  allowed : ∀ path ∈ description.paths, path.toList.all Toml.allowed = true
  takes : ∀ path ∈ description.paths, Takes path
  nodup : description.paths.Nodup
  short : document.length ≤ MAX_MANIFEST_BYTES
  few : description.paths.length + 2 ≤ u.limits.entries
  small : document.length ≤ u.limits.fileBytes ∧ armoured.length ≤ u.limits.fileBytes ∧
    ∀ path ∈ description.paths, ∀ bytes, source.read path = .ok bytes →
      bytes.length ≤ u.limits.fileBytes
  runs : ∀ path ∈ description.paths, ∀ bytes, source.read path = .ok bytes →
    u.policy.Runs path bytes

/-- A release directory has the manifest, its signature and the components, with these bytes, and
nothing else. The components below `bin/` are executable. -/
structure Stages (source : Source) (manifest : PlatformManifest) (armoured : Bytes) (t : Tree) :
    Prop where
  file : ∀ x bytes, (∃ mode, t.get x = some (.file bytes mode)) ↔
    x = [MANIFEST_FILE_NAME] ∧ bytes = manifest.document ∨
      x = [SIGNATURE_FILE_NAME] ∧ bytes = armoured ∨
        ∃ component ∈ manifest.components, resolve component.path = some x ∧
          source.read component.path = .ok bytes
  executable : ∀ x bytes mode, t.get x = some (.file bytes mode) →
    (mode = true ↔ ∃ component ∈ manifest.components, component.marks x = true)
  plain : ∀ x, t.get x ≠ some .special

/-- The bundle is accepted: `prepare` succeeds with the manifest that was described, and stages what
was described. -/
def Publication.Accepted {u : Upgrade} {tar : Tar} {source : Source} {description : Description}
    (p : Publication u tar source description) (s : Session) (w : World) (staging : Place)
    (stream : TarStream) : Prop :=
  ((prepare u (some stream) staging).run (handle s) w).1 = .ok ⟨p.manifest⟩ ∧
    ∃ t, ((prepare u (some stream) staging).run (handle s) w).2.disk.dir staging = some t ∧
      Stages source p.manifest p.armoured t

/-! ## What was described and what was packed -/

section Building

variable {digestOf : Bytes → Digest} {tar : Tar} {source : Source} {description : Description}
  {manifest : PlatformManifest} {document armoured archive : Bytes}

theorem mapM_eq_ok {α β ε : Type} {f : α → Except ε β} {xs : List α} {ys : List β} :
    xs.mapM f = .ok ys ↔ List.Forall₂ (fun x y => f x = .ok y) xs ys := by
  induction xs generalizing ys with
  | nil =>
    rw [List.mapM_nil, List.forall₂_nil_left_iff]
    exact ⟨fun h => by cases h; rfl, fun h => by rw [h]; rfl⟩
  | cons x rest ih =>
    rw [List.mapM_cons, bind_eq_ok, List.forall₂_cons_left_iff]
    refine exists_congr fun y => ?_
    rw [bind_eq_ok]
    refine ⟨?_, ?_⟩
    · rintro ⟨hx, ys', hrest, h⟩
      cases h
      exact ⟨ys', hx, ih.1 hrest, rfl⟩
    · rintro ⟨ys', hx, hrest, rfl⟩
      exact ⟨hx, ys', ih.2 hrest, rfl⟩

theorem map_of_forall₂ {α β γ : Type} {R : α → β → Prop} {f : β → γ} {g : α → γ} {xs : List α}
    {ys : List β} (h : List.Forall₂ R xs ys) (hR : ∀ x y, R x y → f y = g x) :
    ys.map f = xs.map g := by
  induction h with
  | nil => rfl
  | cons hx _ ih => rw [List.map_cons, List.map_cons, hR _ _ hx, ih]

theorem mem_of_forall₂ {α β : Type} {R : α → β → Prop} {xs : List α} {ys : List β}
    (h : List.Forall₂ R xs ys) {y : β} (hy : y ∈ ys) : ∃ x ∈ xs, R x y := by
  induction h with
  | nil => cases hy
  | cons hx _ ih =>
    rcases List.mem_cons.1 hy with rfl | hy
    · exact ⟨_, List.mem_cons_self, hx⟩
    · obtain ⟨x, hxs, hR⟩ := ih hy
      exact ⟨x, List.mem_cons_of_mem _ hxs, hR⟩

/-- What is read below the directory. -/
theorem Source.read_below {path : String} {bytes : Bytes}
    (hbelow : RawManifest.escapes path = false) (h : source.read path = .ok bytes) :
    ∃ x, resolve path = some x ∧ source.file x = .ok bytes := by
  rw [Source.read, if_neg (by simp [hbelow])] at h
  split at h
  · next x hx => exact ⟨x, hx, h⟩
  · cases h

/-- Where a path leads, if it leads to a file. -/
theorem resolve_parts {path : String} {x : Path} (h : resolve path = some x) :
    partsOf path = x := by
  unfold resolve at h
  extract_lets parts at h
  split at h
  · split at h
    · cases h
    · exact Option.some.inj h
  · cases h

theorem components_parts (name : RelativePath) : partsOf name.text = name.components :=
  resolve_parts (resolve_text name)

theorem measure_ok {name relative : String} {component : Component}
    (h : measure digestOf source name relative = .ok component) :
    component.name = name ∧ component.path = relative ∧ ∃ bytes,
      source.read relative = .ok bytes ∧ component.size = bytes.length ∧
        component.digest = digestOf bytes := by
  obtain ⟨bytes, hread, h⟩ := bind_eq_ok.1 h
  cases h
  exact ⟨rfl, rfl, bytes, mapError_eq_ok.1 hread, rfl, rfl⟩

theorem checkComponents_below {components : List Component} {seen names : List String}
    (h : RawManifest.checkComponents components seen = .ok names) :
    ∀ component ∈ components, RawManifest.escapes component.path = false := by
  induction components generalizing seen with
  | nil => exact fun _ hc => (by cases hc)
  | cons component rest ih =>
    unfold RawManifest.checkComponents at h
    split at h
    · cases h
    split at h
    · cases h
    next hbelow =>
    rintro c (_ | ⟨_, hc⟩)
    · simpa using hbelow
    · exact ih h c hc

/-- No component of a manifest leads out of the release. -/
theorem PlatformManifest.below (manifest : PlatformManifest) {component : Component}
    (hc : component ∈ manifest.components) : RawManifest.escapes component.path = false := by
  have hchecked := manifest.checked
  unfold RawManifest.check at hchecked
  split at hchecked
  · cases hchecked
  · obtain ⟨names, hnames, -⟩ := bind_eq_ok.1 hchecked
    exact checkComponents_below hnames component hc

/-- The manifest is that of the files in the directory. -/
structure Describes (digestOf : Bytes → Digest) (source : Source) (description : Description)
    (manifest : PlatformManifest) : Prop where
  version : manifest.version = description.version
  protocol : manifest.protocol = description.protocol
  published : manifest.published = description.published
  stateVersion : manifest.stateVersion = description.stateVersion
  rollbackToState : manifest.rollbackToState = description.rollbackToState
  notes : manifest.notes = description.notes
  paths : manifest.components.map (·.path) = description.paths
  measured : ∀ component ∈ manifest.components,
    (component.name = component.path ∨ component.name ∈ REQUIRED_COMPONENTS) ∧
    ∃ x bytes, resolve component.path = some x ∧ source.file x = .ok bytes ∧
      source.read component.path = .ok bytes ∧ component.size = bytes.length ∧
        component.digest = digestOf bytes

theorem describes (h : describe digestOf source description = .ok manifest) :
    Describes digestOf source description manifest := by
  obtain ⟨required, hrequired, h⟩ := bind_eq_ok.1 h
  obtain ⟨extras, hextras, h⟩ := bind_eq_ok.1 h
  have hnew := PlatformManifest.new_ok h
  rw [mapM_eq_ok] at hrequired hextras
  have hcomponents : manifest.components = required ++ extras := by rw [hnew]
  refine ⟨by rw [hnew], by rw [hnew], by rw [hnew], by rw [hnew], by rw [hnew], by rw [hnew], ?_,
    fun component hc => ?_⟩
  · have hpath (name relative : String) (component : Component)
        (h : measure digestOf source name relative = .ok component) : component.path = relative :=
      (measure_ok h).2.1
    rw [hcomponents, List.map_append, Description.paths,
      map_of_forall₂ hrequired fun _ _ => hpath _ _ _,
      map_of_forall₂ (g := id) hextras fun _ _ => hpath _ _ _, List.map_id]
  · have hone (name relative : String) (h : measure digestOf source name relative = .ok component) :
        ∃ x bytes, resolve component.path = some x ∧ source.file x = .ok bytes ∧
          source.read component.path = .ok bytes ∧ component.size = bytes.length ∧
            component.digest = digestOf bytes := by
      obtain ⟨-, rfl, bytes, hread, hsize, hdigest⟩ := measure_ok h
      obtain ⟨x, hx, hfile⟩ := source.read_below (manifest.below hc) hread
      exact ⟨x, bytes, hx, hfile, hread, hsize, hdigest⟩
    rw [hcomponents, List.mem_append] at hc
    rcases hc with hc | hc
    · obtain ⟨name, hname, hmeasure⟩ := mem_of_forall₂ hrequired hc
      exact ⟨.inr ((measure_ok hmeasure).1 ▸ hname), hone _ _ hmeasure⟩
    · obtain ⟨extra, -, hmeasure⟩ := mem_of_forall₂ hextras hc
      obtain ⟨hname, hpath, -⟩ := measure_ok hmeasure
      exact ⟨.inl (hname.trans hpath.symm), hone _ _ hmeasure⟩

namespace Describes

variable (h : Describes digestOf source description manifest)

include h

theorem typed (htyped : description.Typed)
    (hdigest : ∀ bytes, (Packages.Digest.parse (digestOf bytes).text).isSome = true) :
    manifest.Typed where
  version := h.version ▸ htyped.version
  protocol := h.protocol ▸ htyped.protocol
  stateVersion := h.stateVersion ▸ htyped.stateVersion
  rollbackToState := h.rollbackToState ▸ htyped.rollbackToState
  digests component hc := by
    obtain ⟨-, _, bytes, -, -, -, -, hd⟩ := h.measured component hc
    rw [hd]
    exact hdigest bytes

theorem small (htyped : description.Typed) : manifest.Small := by
  refine ⟨h.published ▸ htyped.published, fun component hc => ?_⟩
  obtain ⟨-, x, bytes, -, hfile, -, hsize, -⟩ := h.measured component hc
  rw [hsize]
  exact source.length_lt x bytes hfile

theorem mem_paths {path : String} : path ∈ description.paths ↔
    ∃ component ∈ manifest.components, component.path = path := by
  rw [← h.paths, List.mem_map]

/-- The document can be read just if the notes and the paths can. -/
theorem carried_iff : manifest.Carried ↔ description.notes.toList.all Toml.allowed = true ∧
    ∀ path ∈ description.paths, path.toList.all Toml.allowed = true := by
  unfold RawManifest.Carried
  rw [h.notes]
  refine and_congr_right fun _ => ⟨fun hall path hpath => ?_, fun hall component hc => ?_⟩
  · obtain ⟨component, hc, rfl⟩ := h.mem_paths.1 hpath
    exact (hall component hc).2
  · have hpath := hall _ (h.mem_paths.2 ⟨component, hc, rfl⟩)
    refine ⟨?_, hpath⟩
    rcases (h.measured component hc).1 with hname | hname
    · rwa [hname]
    · have hrequired : ∀ name ∈ REQUIRED_COMPONENTS, name.toList.all Toml.allowed = true := by
        decide
      exact hrequired _ hname

/-- Two files of the directory, one of which is at or below the other, are one. -/
theorem leaf {path path' : String} (hpath : path ∈ description.paths)
    (hpath' : path' ∈ description.paths) (hpre : partsOf path <+: partsOf path') :
    partsOf path = partsOf path' := by
  obtain ⟨component, hc, rfl⟩ := h.mem_paths.1 hpath
  obtain ⟨component', hc', rfl⟩ := h.mem_paths.1 hpath'
  obtain ⟨-, x, bytes, hx, hfile, -⟩ := h.measured component hc
  obtain ⟨-, x', bytes', hx', hfile', -⟩ := h.measured component' hc'
  rw [resolve_parts hx, resolve_parts hx'] at hpre ⊢
  obtain ⟨y, rfl⟩ := hpre
  rw [source.leaf x y bytes bytes' hfile hfile', List.append_nil]

end Describes

/-- The files of a bundle. -/
structure Bundles (source : Source) (manifest : PlatformManifest) (document armoured : Bytes)
    (files : List PackedFile) : Prop where
  packed : ∃ rest, files = ⟨MANIFEST_FILE_NAME, false, document⟩ ::
      ⟨SIGNATURE_FILE_NAME, false, armoured⟩ :: rest ∧
    (rest.map (·.name)).Perm (manifest.components.map (·.path)) ∧
    ∀ file ∈ rest, source.read file.name = .ok file.bytes

theorem pack_ok {component : Component} {file : PackedFile} (h : pack source component = .ok file) :
    file.name = component.path ∧ source.read component.path = .ok file.bytes := by
  obtain ⟨bytes, hread, h⟩ := bind_eq_ok.1 h
  cases h
  exact ⟨rfl, mapError_eq_ok.1 hread⟩

theorem build_ok (h : build tar source manifest document armoured = .ok archive) :
    ∃ files, tar.encode files = .ok archive ∧
      Bundles source manifest document armoured files := by
  obtain ⟨rest, hrest, h⟩ := bind_eq_ok.1 h
  refine ⟨_, mapError_eq_ok.1 h, rest, rfl, ?_, fun file hfile => ?_⟩
  · have hname (component : Component) (file : PackedFile) (h : pack source component = .ok file) :
        file.name = component.path := (pack_ok h).1
    rw [map_of_forall₂ (mapM_eq_ok.1 hrest) hname]
    exact (List.mergeSort_perm _ _).map _
  · obtain ⟨component, -, hpack⟩ := mem_of_forall₂ (mapM_eq_ok.1 hrest) hfile
    obtain ⟨hname, hread⟩ := pack_ok hpack
    rwa [hname]

namespace Bundles

variable {files : List PackedFile} (h : Bundles source manifest document armoured files)

include h

theorem length_files : files.length = manifest.components.length + 2 := by
  obtain ⟨rest, rfl, hperm, -⟩ := h.packed
  have hlength := hperm.length_eq
  rw [List.length_map, List.length_map] at hlength
  rw [List.length_cons, List.length_cons, hlength]

/-- What the files of the bundle are. -/
theorem mem_iff {name : String} {bytes : Bytes} :
    (∃ file ∈ files, file.name = name ∧ file.bytes = bytes) ↔
      name = MANIFEST_FILE_NAME ∧ bytes = document ∨ name = SIGNATURE_FILE_NAME ∧ bytes = armoured ∨
        ∃ component ∈ manifest.components, component.path = name ∧
          source.read component.path = .ok bytes := by
  obtain ⟨rest, rfl, hperm, hread⟩ := h.packed
  have hrest : (∃ file ∈ rest, file.name = name ∧ file.bytes = bytes) ↔
      ∃ component ∈ manifest.components, component.path = name ∧
        source.read component.path = .ok bytes := by
    have hnames := hperm.mem_iff (a := name)
    rw [List.mem_map, List.mem_map] at hnames
    constructor
    · rintro ⟨file, hfile, rfl, rfl⟩
      obtain ⟨component, hc, hpath⟩ := hnames.1 ⟨file, hfile, rfl⟩
      exact ⟨component, hc, hpath, by rw [hpath]; exact hread file hfile⟩
    · rintro ⟨component, hc, rfl, hbytes⟩
      obtain ⟨file, hfile, hname⟩ := hnames.2 ⟨component, hc, rfl⟩
      refine ⟨file, hfile, hname, Except.ok.inj ((hread file hfile).symm.trans ?_)⟩
      rwa [hname]
  rw [List.exists_mem_cons_iff, List.exists_mem_cons_iff, hrest, eq_comm (a := name),
    eq_comm (a := bytes), eq_comm (a := name) (b := SIGNATURE_FILE_NAME)]
  dsimp only
  rw [eq_comm (a := bytes) (b := armoured)]

end Bundles

/-! ## What is unpacked -/

/-- The installer takes the name of every file. -/
def Named (tar : Tar) (files : List PackedFile) : Prop :=
  ∀ file ∈ files, ∃ name : RelativePath, name.text = tar.nameOf file.name ∧
    rejectReserved name = .ok ()

section Unpacking

variable {files : List PackedFile} {t : Tree}

theorem path_entry {file : PackedFile} {name : RelativePath}
    (hname : name.text = tar.nameOf file.name) (hreserved : rejectReserved name = .ok ()) :
    (tar.entry file).path = some name := by
  refine path_of_ok ?_
  show entryName (some (tar.nameOf file.name)) .regular = .ok name
  rw [← hname]
  exact entryName_regular hreserved

theorem file_entry {file : PackedFile} {name : RelativePath}
    (hname : name.text = tar.nameOf file.name) (hreserved : rejectReserved name = .ok ()) :
    (tar.entry file).file = some (name, file.bytes) := by
  rw [file_of_regular rfl (path_entry hname hreserved) rfl]
  exact congrArg (fun bytes => some (name, bytes)) List.take_length

/-- The name of an entry that was taken. -/
theorem name_of_path {file : PackedFile} {name : RelativePath}
    (h : (tar.entry file).path = some name) :
    name.text = tar.nameOf file.name ∧ rejectReserved name = .ok () := by
  unfold TarEntry.path at h
  split at h
  swap
  · cases h
  next name' hok =>
  cases h
  unfold entryName Tar.entry PackedFile.entry at hok
  dsimp only at hok
  split at hok
  · cases hok
  next name' hparse =>
  split at hok
  · cases hok
  next hreserved =>
  cases hok
  exact ⟨RelativePath.parse_text hparse, hreserved⟩

theorem named_of_taken {limits : ArchiveLimits}
    (h : ∀ entry ∈ files.map tar.entry, entry.Taken limits) : Named tar files := by
  intro file hfile
  obtain ⟨⟨name, hname⟩, -⟩ := h _ (List.mem_map_of_mem hfile)
  exact ⟨name, name_of_path hname⟩

variable (h : Named tar files)

include h

theorem Named.mem_made {made : RelativePath × Bytes} :
    made ∈ Packages.made (files.map tar.entry) ↔
      ∃ file ∈ files, made.1.text = tar.nameOf file.name ∧ made.2 = file.bytes := by
  rw [Packages.made, List.filterMap_map, List.mem_filterMap]
  refine exists_congr fun file => and_congr_right fun hfile => ?_
  obtain ⟨name, hname, hreserved⟩ := h file hfile
  rw [Function.comp_apply, file_entry hname hreserved, Option.some.injEq, Prod.ext_iff]
  refine ⟨fun hmade => ⟨hmade.1 ▸ hname, hmade.2.symm⟩, fun hmade => ⟨?_, hmade.2.symm⟩⟩
  exact RelativePath.text_injective (hname.trans hmade.1.symm)

theorem Named.places : (made (files.map tar.entry)).map place =
    files.map fun file => partsOf file.name := by
  induction files with
  | nil => rfl
  | cons file rest ih =>
    obtain ⟨name, hname, hreserved⟩ := h file List.mem_cons_self
    rw [List.map_cons, List.map_cons, ← ih fun f hf => h f (List.mem_cons_of_mem _ hf), made,
      List.filterMap_cons_some (file_entry hname hreserved), List.map_cons, ← tar.parts, ← hname,
      components_parts]
    rfl

/-- The files of a tree that the bundle was unpacked into. -/
theorem Named.get_iff {seen : List TarEntry} (hlaid : Laid (made (files.map tar.entry)) seen t)
    {x : Path} {bytes : Bytes} {mode : Bool} : t.get x = some (.file bytes mode) ↔
      mode = false ∧ ∃ file ∈ files, partsOf file.name = x ∧ file.bytes = bytes := by
  have hplace {made : RelativePath × Bytes} {file : PackedFile}
      (hname : made.1.text = tar.nameOf file.name) : place made = partsOf file.name := by
    rw [← tar.parts, ← hname, components_parts, place]
  rw [hlaid.file]
  refine and_congr_right fun _ => ⟨?_, ?_⟩
  · rintro ⟨made, hmade, rfl, rfl⟩
    obtain ⟨file, hfile, hname, hbytes⟩ := h.mem_made.1 hmade
    exact ⟨file, hfile, (hplace hname).symm, hbytes.symm⟩
  · rintro ⟨file, hfile, rfl, rfl⟩
    obtain ⟨name, hname, -⟩ := h file hfile
    exact ⟨(name, file.bytes), h.mem_made.2 ⟨file, hfile, hname, rfl⟩, hplace hname, rfl⟩

end Unpacking

section Contents

variable {files : List PackedFile} {t : Tree} {seen : List TarEntry}
  (hd : Describes digestOf source description manifest)
  (hb : Bundles source manifest document armoured files)

include hd hb

/-- What a bundle leaves in the directory that it is unpacked into. -/
theorem unpacked_iff (hn : Named tar files) (hlaid : Laid (made (files.map tar.entry)) seen t)
    {x : Path} {bytes : Bytes} {mode : Bool} : t.get x = some (.file bytes mode) ↔ mode = false ∧
      (x = [MANIFEST_FILE_NAME] ∧ bytes = document ∨ x = [SIGNATURE_FILE_NAME] ∧ bytes = armoured ∨
        ∃ component ∈ manifest.components, resolve component.path = some x ∧
          source.read component.path = .ok bytes) := by
  have hmanifest : partsOf MANIFEST_FILE_NAME = [MANIFEST_FILE_NAME] := by decide
  have hsignature : partsOf SIGNATURE_FILE_NAME = [SIGNATURE_FILE_NAME] := by decide
  rw [hn.get_iff hlaid]
  refine and_congr_right fun _ => ⟨?_, ?_⟩
  · rintro ⟨file, hfile, rfl, rfl⟩
    rcases hb.mem_iff.1 ⟨file, hfile, rfl, rfl⟩ with ⟨hname, hbytes⟩ | ⟨hname, hbytes⟩ |
      ⟨component, hc, hname, hread⟩
    · exact .inl ⟨by rw [hname, hmanifest], hbytes⟩
    · exact .inr (.inl ⟨by rw [hname, hsignature], hbytes⟩)
    · obtain ⟨-, x, -, hx, -⟩ := hd.measured component hc
      exact .inr (.inr ⟨component, hc, by rw [hx, ← hname, resolve_parts hx], hread⟩)
  · rintro (⟨rfl, rfl⟩ | ⟨rfl, rfl⟩ | ⟨component, hc, hx, hread⟩)
    · obtain ⟨file, hfile, hname, hbytes⟩ := hb.mem_iff.2 (.inl ⟨rfl, rfl⟩)
      exact ⟨file, hfile, by rw [hname, hmanifest], hbytes⟩
    · obtain ⟨file, hfile, hname, hbytes⟩ := hb.mem_iff.2 (.inr (.inl ⟨rfl, rfl⟩))
      exact ⟨file, hfile, by rw [hname, hsignature], hbytes⟩
    · obtain ⟨file, hfile, hname, hbytes⟩ := hb.mem_iff.2 (.inr (.inr ⟨component, hc, rfl, hread⟩))
      exact ⟨file, hfile, by rw [hname, resolve_parts hx], hbytes⟩

/-- What is made executable of an unpacked bundle stages what was described. -/
theorem stages_of_marked {t' : Tree} (hn : Named tar files)
    (hlaid : Laid (made (files.map tar.entry)) seen t) (hmarked : Marked t t' manifest.components)
    (hdocument : document = manifest.document) : Stages source manifest armoured t' := by
  have hget {x : Path} {bytes : Bytes} {mode : Bool} (hx : t'.get x = some (.file bytes mode)) :
      t.get x = some (.file bytes false) ∧
        mode = manifest.components.any fun component => component.marks x := by
    rw [hmarked x, Option.map_eq_some_iff] at hx
    obtain ⟨e, he, hmark⟩ := hx
    cases e with
    | dir => cases hmark
    | special => cases hmark
    | file bytes' mode' =>
      obtain ⟨rfl, -⟩ := (unpacked_iff hd hb hn hlaid).1 he
      cases hmark
      exact ⟨he, Bool.false_or _⟩
  refine ⟨fun x bytes => ?_, fun x bytes mode hx => ?_, fun x hx => ?_⟩
  · rw [← hdocument]
    refine ⟨fun ⟨mode, hx⟩ => ((unpacked_iff hd hb hn hlaid).1 (hget hx).1).2, fun hx => ?_⟩
    exact ⟨_, by rw [hmarked x, (unpacked_iff hd hb hn hlaid).2 ⟨rfl, hx⟩]; rfl⟩
  · rw [(hget hx).2, List.any_eq_true]
  · rw [hmarked x, Option.map_eq_some_iff] at hx
    obtain ⟨e, he, hmark⟩ := hx
    cases e with
    | dir => cases hmark
    | file => cases hmark
    | special => exact hlaid.plain x he

end Contents

end Building

/-! ## What is accepted -/

section Accepting

variable {u : Upgrade} {tar : Tar} {source : Source} {description : Description}
  {manifest : PlatformManifest} {document armoured : Bytes} {files : List PackedFile} {t : Tree}
  {toml : Toml.Reader Document Document.ofLines} {semver : String → Except String Version}

theorem manifest_takes : ∃ name : RelativePath, name.text = MANIFEST_FILE_NAME ∧
    rejectReserved name = .ok () := ⟨⟨MANIFEST_FILE_NAME, by decide⟩, rfl, rfl⟩

theorem signature_takes : ∃ name : RelativePath, name.text = SIGNATURE_FILE_NAME ∧
    rejectReserved name = .ok () := ⟨⟨SIGNATURE_FILE_NAME, by decide⟩, rfl, rfl⟩

/-- What is not below a file of its own is not above it either. -/
theorem apart_of_not_below {name : RelativePath} {own : String}
    (h : ¬ [own] <+: name.components) :
    ¬ [own] <+: name.components ∧ ¬ name.components <+: [own] := by
  refine ⟨h, fun hpre => ?_⟩
  rcases List.prefix_cons_iff.1 hpre with hnil | ⟨rest, heq, hrest⟩
  · exact name.components_ne_nil hnil
  · rw [heq, List.prefix_nil.1 hrest] at h
    exact h List.prefix_rfl

namespace Installable

variable (hi : Installable u source description document armoured)
  (hd : Describes u.ext.digestOf source description manifest)
  (hb : Bundles source manifest document armoured files)

include hi hd hb

/-- The name of a file is one that the installer takes. -/
theorem name {file : PackedFile} (hfile : file ∈ files) :
    ∃ name : RelativePath, name.text = file.name ∧ rejectReserved name = .ok () := by
  rcases hb.mem_iff.1 ⟨file, hfile, rfl, rfl⟩ with ⟨hname, -⟩ | ⟨hname, -⟩ |
    ⟨component, hc, hname, -⟩
  · exact hname ▸ manifest_takes
  · exact hname ▸ signature_takes
  · obtain ⟨name, htext, hreserved, -⟩ := hi.takes _ (hd.mem_paths.2 ⟨component, hc, hname⟩)
    exact ⟨name, htext, hreserved⟩

theorem nameOf {file : PackedFile} (hfile : file ∈ files) : tar.nameOf file.name = file.name := by
  obtain ⟨name, htext, -⟩ := hi.name hd hb hfile
  rw [← htext, tar.plain]

theorem named : Named tar files := by
  intro file hfile
  rw [hi.nameOf hd hb hfile]
  exact hi.name hd hb hfile

theorem whole : ∀ entry ∈ files.map tar.entry, entry.Whole u.limits := by
  intro entry hentry
  obtain ⟨file, hfile, rfl⟩ := List.mem_map.1 hentry
  have hn : Named tar files := hi.named hd hb
  obtain ⟨name, hname, hreserved⟩ := hn file hfile
  refine ⟨name, rfl, path_entry hname hreserved, rfl, ?_⟩
  show file.bytes.length ≤ u.limits.fileBytes
  rcases hb.mem_iff.1 ⟨file, hfile, rfl, rfl⟩ with ⟨-, hbytes⟩ | ⟨-, hbytes⟩ |
    ⟨component, hc, -, hread⟩
  · exact hbytes ▸ hi.small.1
  · exact hbytes ▸ hi.small.2.1
  · exact hi.small.2.2 _ (hd.mem_paths.2 ⟨component, hc, rfl⟩) _ hread

theorem length_entries : (files.map tar.entry).length ≤ u.limits.entries := by
  have hpaths := congrArg List.length hd.paths
  rw [List.length_map] at hpaths
  rw [List.length_map, hb.length_files, hpaths]
  exact hi.few

theorem apart : Unrelated ((made (files.map tar.entry)).map place) := by
  rw [(hi.named hd hb).places]
  obtain ⟨rest, rfl, hperm, -⟩ := hb.packed
  rw [hd.paths] at hperm
  have hmem {file : PackedFile} (hfile : file ∈ rest) : file.name ∈ description.paths :=
    hperm.mem_iff.1 (List.mem_map_of_mem hfile)
  have hmanifest : partsOf MANIFEST_FILE_NAME = [MANIFEST_FILE_NAME] := by decide
  have hsignature : partsOf SIGNATURE_FILE_NAME = [SIGNATURE_FILE_NAME] := by decide
  rw [List.map_cons, List.map_cons, hmanifest, hsignature, Unrelated, List.pairwise_cons,
    List.pairwise_cons]
  have htakes {file : PackedFile} (hfile : file ∈ rest) : ∃ name : RelativePath,
      name.text = file.name ∧ partsOf file.name = name.components ∧
        ¬ [MANIFEST_FILE_NAME] <+: name.components ∧
          ¬ [SIGNATURE_FILE_NAME] <+: name.components := by
    obtain ⟨name, htext, -, hbelow⟩ := hi.takes _ (hmem hfile)
    exact ⟨name, htext, by rw [← htext, components_parts], hbelow⟩
  refine ⟨?_, ?_, ?_⟩
  · rw [List.forall_mem_cons, List.forall_mem_map]
    refine ⟨by decide, fun file hfile => ?_⟩
    obtain ⟨name, -, hparts, hmanifest, -⟩ := htakes hfile
    rw [hparts]
    exact apart_of_not_below hmanifest
  · rw [List.forall_mem_map]
    intro file hfile
    obtain ⟨name, -, hparts, -, hsignature⟩ := htakes hfile
    rw [hparts]
    exact apart_of_not_below hsignature
  · -- what is read of a directory are files, none of which is below another
    have hnodup : (rest.map (·.name)).Pairwise (· ≠ ·) := hperm.nodup_iff.2 hi.nodup
    rw [List.pairwise_map] at hnodup ⊢
    refine hnodup.imp_of_mem fun {file file'} hfile hfile' hne => ?_
    obtain ⟨name, htext, hparts, -⟩ := htakes hfile
    obtain ⟨name', htext', hparts', -⟩ := htakes hfile'
    have hdiff : partsOf file.name ≠ partsOf file'.name := fun heq => hne (by
      rw [hparts, hparts'] at heq
      rw [← htext, ← htext', RelativePath.components_injective heq])
    exact ⟨fun hpre => hdiff (hd.leaf (hmem hfile) (hmem hfile') hpre),
      fun hpre => hdiff (hd.leaf (hmem hfile') (hmem hfile) hpre).symm⟩

/-- A bundle that can be installed is graded well. -/
theorem graded_ok (hparse : u.ext.parse = readDocument toml semver)
    (hverify : u.ext.verify document armoured = .ok ()) (hdocument : document = manifest.document)
    (htyped : manifest.Typed) (hsmall : manifest.Small)
    (hsemver : semver manifest.version.toString = .ok manifest.version)
    (hlaid : Laid (made (files.map tar.entry)) (files.map tar.entry) t) :
    graded u t ((made (files.map tar.entry)).map (·.1)) = .ok ⟨manifest⟩ := by
  have hn : Named tar files := hi.named hd hb
  have hext : { u.ext with parse := readDocument toml semver } = u.ext := by rw [← hparse]
  have hread := parse_carried u.ext toml semver htyped hsmall hsemver
    (hd.carried_iff.2 ⟨hi.notes, hi.allowed⟩)
  rw [hext] at hread
  refine Updater.graded_ok.2 ⟨releaseAt_ok.2 ⟨document, false, armoured, false, ?_, hi.short, ?_,
    hverify, by rw [hdocument]; exact hread⟩, fun component hc => checkComponent_ok.2 ?_,
    fun name hname => ?_⟩
  · exact (unpacked_iff hd hb hn hlaid).2 ⟨rfl, .inl ⟨rfl, rfl⟩⟩
  · exact (unpacked_iff hd hb hn hlaid).2 ⟨rfl, .inr (.inl ⟨rfl, rfl⟩)⟩
  · obtain ⟨-, x, bytes, hx, -, hbytes, hsize, hdigest⟩ := hd.measured component hc
    exact ⟨x, bytes, false, hx,
      (unpacked_iff hd hb hn hlaid).2 ⟨rfl, .inr (.inr ⟨component, hc, hx, hbytes⟩)⟩,
      ⟨hsize.symm, hdigest.symm⟩, hi.runs _ (hd.mem_paths.2 ⟨component, hc, rfl⟩) bytes hbytes⟩
  · obtain ⟨made, hmade, rfl⟩ := List.mem_map.1 hname
    obtain ⟨file, hfile, htext, -⟩ := hn.mem_made.1 hmade
    rw [hi.nameOf hd hb hfile] at htext
    rw [isListed, htext, Bool.or_eq_true, Bool.or_eq_true, beq_iff_eq, beq_iff_eq, List.any_eq_true]
    rcases hb.mem_iff.1 ⟨file, hfile, rfl, rfl⟩ with ⟨hname, -⟩ | ⟨hname, -⟩ |
      ⟨component, hc, hname, -⟩
    · exact .inl (.inl hname)
    · exact .inl (.inr hname)
    · exact .inr ⟨component, hc, beq_iff_eq.2 hname⟩

end Installable

section Necessity

variable (hd : Describes u.ext.digestOf source description manifest)
  (hb : Bundles source manifest document armoured files)
  (htaken : ∀ entry ∈ files.map tar.entry, entry.Taken u.limits)
  (hlaid : Laid (made (files.map tar.entry)) (files.map tar.entry) t)

include htaken in
/-- What is taken is within the bound. -/
theorem length_of_taken {file : PackedFile} (hfile : file ∈ files) :
    file.bytes.length ≤ u.limits.fileBytes := by
  obtain ⟨⟨name, hname⟩, hdir | ⟨made, hmade, -, hsmall⟩⟩ := htaken _ (List.mem_map_of_mem hfile)
  · cases hdir
  · obtain ⟨htext, hreserved⟩ := name_of_path hname
    rw [file_entry htext hreserved] at hmade
    cases hmade
    exact hsmall

include hb htaken hlaid in
/-- Every file of the bundle has a place of its own. -/
theorem nodup_parts :
    ([MANIFEST_FILE_NAME] :: [SIGNATURE_FILE_NAME] ::
      manifest.components.map fun component => partsOf component.path).Nodup := by
  have hnodup := hlaid.nodup
  rw [(named_of_taken htaken).places] at hnodup
  obtain ⟨rest, rfl, hperm, -⟩ := hb.packed
  have hparts := hperm.map partsOf
  rw [List.map_map, List.map_map] at hparts
  have hmanifest : partsOf MANIFEST_FILE_NAME = [MANIFEST_FILE_NAME] := by decide
  have hsignature : partsOf SIGNATURE_FILE_NAME = [SIGNATURE_FILE_NAME] := by decide
  rw [List.map_cons, List.map_cons, hmanifest, hsignature] at hnodup
  exact ((hparts.cons _).cons _).nodup_iff.1 hnodup

include hd hb htaken hlaid in
/-- A path of a bundle that is graded well is one that the installer takes. -/
theorem takes_of_listed (hlisted : ∀ name ∈ (made (files.map tar.entry)).map (·.1),
    isListed manifest name = true) {path : String} (hpath : path ∈ description.paths) :
    Takes path := by
  have hn := named_of_taken htaken
  have hnodup := nodup_parts hb htaken hlaid
  obtain ⟨component, hc, rfl⟩ := hd.mem_paths.1 hpath
  obtain ⟨-, x, bytes, hx, -, hread, -⟩ := hd.measured component hc
  obtain ⟨file, hfile, hname, hbytes⟩ := hb.mem_iff.2 (.inr (.inr ⟨component, hc, rfl, hread⟩))
  obtain ⟨name, htext, hreserved⟩ := hn file hfile
  have hparts : name.components = partsOf component.path := by
    rw [← components_parts, htext, tar.parts, hname]
  have hmem := List.mem_map_of_mem (f := fun component : Component => partsOf component.path) hc
  obtain ⟨hmanifest, hrest⟩ := List.nodup_cons.1 hnodup
  obtain ⟨hsignature, hcomponents⟩ := List.nodup_cons.1 hrest
  rw [List.mem_cons, not_or] at hmanifest
  -- the place of a component is not below a file
  have hbelow (own : String) (own_ne : [own] ≠ partsOf component.path)
      (hown : ∃ bytes, t.get [own] = some (.file bytes false)) : ¬ [own] <+: name.components := by
    rintro ⟨rest, hrest⟩
    obtain ⟨bytes', hown⟩ := hown
    have hget : t.get ([own] ++ rest) = some (.file bytes false) := by
      rw [hrest, hparts, resolve_parts hx]
      exact (unpacked_iff hd hb hn hlaid).2 ⟨rfl, .inr (.inr ⟨component, hc, hx, hread⟩)⟩
    by_cases hnil : rest = []
    · rw [hnil, List.append_nil, hparts] at hrest
      exact own_ne hrest
    · rcases Tree.isDir_of_append hget hnil with h | h
      · cases h
      · rw [hown] at h
        cases h
  have hlist := hlisted name (List.mem_map.2
    ⟨(name, file.bytes), hn.mem_made.2 ⟨file, hfile, htext, rfl⟩, rfl⟩)
  rw [isListed, Bool.or_eq_true, Bool.or_eq_true, beq_iff_eq, beq_iff_eq, List.any_eq_true] at hlist
  refine ⟨name, ?_, hreserved, hbelow _ ?_ ?_, hbelow _ ?_ ?_⟩
  · rcases hlist with (hname' | hname') | ⟨component', hc', hname'⟩
    · rw [← hparts, ← components_parts, hname'] at hmem
      exact absurd hmem hmanifest.2
    · rw [← hparts, ← components_parts, hname'] at hmem
      exact absurd hmem hsignature
    · have hsame : partsOf component'.path = partsOf component.path := by
        rw [beq_iff_eq.1 hname', components_parts, hparts]
      rw [← beq_iff_eq.1 hname', List.inj_on_of_nodup_map hcomponents hc' hc hsame]
  · exact fun h => hmanifest.2 (h ▸ hmem)
  · exact ⟨document, (unpacked_iff hd hb hn hlaid).2 ⟨rfl, .inl ⟨rfl, rfl⟩⟩⟩
  · exact fun h => hsignature (h ▸ hmem)
  · exact ⟨armoured, (unpacked_iff hd hb hn hlaid).2 ⟨rfl, .inr (.inl ⟨rfl, rfl⟩)⟩⟩

include hd hb htaken hlaid in
/-- What is graded well can be installed. -/
theorem installable_of_graded {verified : VerifiedPlatform}
    (hparse : u.ext.parse = readDocument toml semver) (hdocument : document = manifest.document)
    (htyped : manifest.Typed) (hsmall : manifest.Small)
    (hsemver : semver manifest.version.toString = .ok manifest.version)
    (hfew : (files.map tar.entry).length ≤ u.limits.entries)
    (hgraded : graded u t ((made (files.map tar.entry)).map (·.1)) = .ok verified) :
    Installable u source description document armoured := by
  have hn := named_of_taken htaken
  obtain ⟨hrelease, hchecked, hlisted⟩ := Updater.graded_ok.1 hgraded
  obtain ⟨document', mode, armoured', mode', hmanifest, hshort, -, -, hread⟩ :=
    releaseAt_ok.1 hrelease
  have hget : t.get [MANIFEST_FILE_NAME] = some (.file document false) :=
    (unpacked_iff hd hb hn hlaid).2 ⟨rfl, .inl ⟨rfl, rfl⟩⟩
  cases hmanifest.symm.trans hget
  have hext : { u.ext with parse := readDocument toml semver } = u.ext := by rw [← hparse]
  have hcarried : manifest.Carried := by
    by_contra hcarried
    obtain ⟨reason, hbroken⟩ := parse_broken u.ext toml semver htyped hsmall hcarried
    rw [hext] at hbroken
    rw [hdocument] at hread
    cases hread.symm.trans hbroken
  have hcarry := parse_carried u.ext toml semver htyped hsmall hsemver hcarried
  rw [hext] at hcarry
  rw [hdocument] at hread
  cases hread.symm.trans hcarry
  have hfile (name : String) (bytes : Bytes) (h : ∃ file ∈ files, file.name = name ∧
      file.bytes = bytes) : bytes.length ≤ u.limits.fileBytes := by
    obtain ⟨file, hfile, -, rfl⟩ := h
    exact length_of_taken htaken hfile
  have hcomponent (path : String) (hpath : path ∈ description.paths) (bytes : Bytes)
      (hbytes : source.read path = .ok bytes) : ∃ component ∈ manifest.components,
        component.path = path ∧ source.read component.path = .ok bytes := by
    obtain ⟨component, hc, rfl⟩ := hd.mem_paths.1 hpath
    exact ⟨component, hc, rfl, hbytes⟩
  obtain ⟨hnotes, hallowed⟩ := hd.carried_iff.1 hcarried
  refine ⟨hnotes, hallowed, fun path => takes_of_listed hd hb htaken hlaid hlisted, ?_, hshort, ?_,
    ⟨hfile _ _ (hb.mem_iff.2 (.inl ⟨rfl, rfl⟩)), hfile _ _ (hb.mem_iff.2 (.inr (.inl ⟨rfl, rfl⟩))),
      fun path hpath bytes hbytes => hfile path _ (hb.mem_iff.2 (.inr (.inr
        (hcomponent path hpath bytes hbytes))))⟩, fun path hpath bytes hbytes => ?_⟩
  · have hparts := (List.nodup_cons.1 (List.nodup_cons.1 (nodup_parts hb htaken hlaid)).2).2
    rw [← hd.paths]
    refine List.Nodup.of_map partsOf ?_
    rwa [List.map_map]
  · have hpaths := congrArg List.length hd.paths
    rw [List.length_map] at hpaths
    rwa [List.length_map, hb.length_files, hpaths] at hfew
  · obtain ⟨component, hc, rfl, -⟩ := hcomponent path hpath bytes hbytes
    obtain ⟨x, bytes', mode, hx, hat, -, hruns⟩ := checkComponent_ok.1 (hchecked component hc)
    have hthere := (unpacked_iff hd hb hn hlaid).2
      ⟨rfl, .inr (.inr ⟨component, hc, hx, hbytes⟩)⟩
    cases hat.symm.trans hthere
    exact hruns

end Necessity

section

variable {p : Publication u tar source description} {codec : Codec} {stream : TarStream}
  {staging : Place} {s : Session} {w : World}

/-- What is accepted can be installed. -/
theorem installable_of_accepted (htyped : description.Typed)
    (hserved : p.Served toml semver codec stream) (hstaging : staging ≠ .platformState)
    (haccepted : p.Accepted s w staging stream) :
    Installable u source description p.manifest.document p.armoured ∧ stream.ending = none := by
  have hd := describes p.described
  obtain ⟨files, hencode, hb⟩ := build_ok p.built
  have hsemver := hserved.version
  rw [← hd.version] at hsemver
  obtain ⟨hended, hfew, htaken, t, hlaid, hgraded⟩ :=
    (prepare_cases (u := u) (s := s) (w := w) stream hstaging).result _ haccepted.1
  have hwhole : stream = ⟨files.map tar.entry, none⟩ :=
    ((hserved.archive files hencode).2 stream hserved.decoded).resolve_right (not_not.2 hended)
  rw [hwhole] at hfew htaken hlaid hgraded
  exact ⟨installable_of_graded hd hb htaken hlaid hserved.document rfl
    (hd.typed htyped hserved.digest) (hd.small htyped) hsemver hfew hgraded, hended⟩

/-- What can be installed is accepted. -/
theorem accepted_of_installable (htyped : description.Typed)
    (hserved : p.Served toml semver codec stream) (hstaging : staging ≠ .platformState)
    (hempty : w.disk.dir staging = none ∨ w.disk.dir staging = some .empty)
    (hi : Installable u source description p.manifest.document p.armoured)
    (hended : stream.ending = none) : p.Accepted s w staging stream := by
  have hd := describes p.described
  obtain ⟨files, hencode, hb⟩ := build_ok p.built
  have hsemver := hserved.version
  rw [← hd.version] at hsemver
  obtain rfl : stream = ⟨files.map tar.entry, none⟩ :=
    ((hserved.archive files hencode).2 stream hserved.decoded).resolve_right (not_not.2 hended)
  have hwhole : ∀ entry ∈ files.map tar.entry, entry.Whole u.limits := hi.whole hd hb
  obtain ⟨hok, t, t', hlaid, hat, hmarked⟩ := (prepare_ok (s := s) hstaging hwhole
    (hi.length_entries hd hb) (hi.apart hd hb) hempty fun t => hi.graded_ok hd hb hserved.document
      p.signed rfl (hd.typed htyped hserved.digest) (hd.small htyped) hsemver).result
  exact ⟨hok, t', hat, stages_of_marked hd hb (hi.named hd hb) hlaid hmarked rfl⟩

end

end Accepting

/-- A bundle is accepted just if its release can be installed and the bounded decoders read it to
its end. -/
theorem bundle_accepted_iff {u : Upgrade} {tar : Tar} {source : Source} {description : Description}
    {toml : Toml.Reader Document Document.ofLines} {semver : String → Except String Version}
    (p : Publication u tar source description) {codec : Codec} {stream : TarStream}
    {staging : Place} (s : Session) (w : World) (htyped : description.Typed)
    (hserved : p.Served toml semver codec stream) (hstaging : staging ≠ .platformState)
    (hempty : w.disk.dir staging = none ∨ w.disk.dir staging = some .empty) :
    p.Accepted s w staging stream ↔
      Installable u source description p.manifest.document p.armoured ∧ stream.ending = none :=
  ⟨installable_of_accepted htyped hserved hstaging,
    fun h => accepted_of_installable htyped hserved hstaging hempty h.1 h.2⟩

/-! ## A release with a list of changes -/

namespace Published

/-- What every file has. -/
def contents : Bytes := ascii "a"

def digestOf (bytes : Bytes) : Digest :=
  if bytes = contents then
    ⟨"sha256:ca978112ca1bbdcafac231b39a23dc4da786eff8147c4e72b9807785afee48bb"⟩
  else ⟨Noted.DIGEST⟩

/-- Every signature is that of a trusted key. -/
def upgrade : Upgrade :=
  { Sample.upgrade with ext := ⟨fun _ _ => .ok (), readDocument Noted.toml Noted.semver, digestOf⟩ }

/-- The files of the directory. -/
def places : List Path := REQUIRED_COMPONENTS.map (fun name => ["bin", name]) ++ [["CHANGES"]]

def source : Source where
  file x := if x ∈ places then .ok contents else .error .notFound
  elsewhere _ := .error .notFound
  leaf x y _ _ hx hxy := by
    have hleaf : ∀ x ∈ places, ∀ z ∈ places, x <+: z → x = z := by decide
    split at hx
    swap
    · cases hx
    next hmem =>
    split at hxy
    swap
    · cases hxy
    next hmem' => simpa using hleaf x hmem _ hmem' (List.prefix_append x y)
  length_lt x bytes h := by
    split at h
    · cases h
      decide
    · cases h

theorem contents_of_file {x : Path} {bytes : Bytes} (h : source.file x = .ok bytes) :
    bytes = contents := by
  unfold source at h
  dsimp only at h
  split at h
  · exact (Except.ok.inj h).symm
  · cases h

/-- A first release, with one file more than it must have. -/
def description (extra : String) : Description where
  version := .new 1 0 0
  protocol := CURRENT
  published := 1700000000
  stateVersion := 1
  rollbackToState := 1
  notes := ""
  extras := [extra]

def component (name path : String) : Component := ⟨name, path, 1, digestOf contents⟩

def fields (extra : String) : RawManifest where
  version := .new 1 0 0
  protocol := CURRENT
  published := 1700000000
  stateVersion := 1
  rollbackToState := 1
  notes := ""
  components := REQUIRED_COMPONENTS.map (fun name => component name ("bin/" ++ name)) ++
    [component extra extra]

/-- A file that can be described, and the archive of the release that has it. -/
structure Extra where
  path : String
  checked : (fields path).check = .ok ()
  read : source.read path = .ok contents
  archive : Bytes
  small : archive.length ≤ 512

/-- A file under its own name. -/
def plain : Extra where
  path := "CHANGES"
  checked := rfl
  read := by decide
  archive :=
    [31, 139, 8, 0, 0, 0, 0, 0, 0, 255, 237, 153, 79, 79, 131, 48, 24, 198, 61, 243, 41, 150, 221,
      157, 109, 41, 148, 153, 120, 48, 198, 232, 201, 139, 71, 99, 150, 182, 148, 209, 8, 180, 161,
      213, 131, 159, 94, 216, 212, 253, 81, 99, 182, 8, 152, 240, 254, 46, 36, 79, 129, 247, 9, 228,
      121, 91, 138, 45, 184, 207, 76, 93, 206, 188, 41, 139, 147, 110, 64, 13, 49, 165, 171, 99,
      195, 254, 17, 179, 232, 115, 236, 93, 199, 136, 134, 209, 9, 234, 200, 207, 14, 207, 206, 243,
      122, 50, 233, 163, 212, 127, 228, 69, 213, 78, 155, 106, 114, 49, 153, 226, 25, 154, 161, 105,
      96, 107, 227, 141, 52, 197, 90, 194, 141, 240, 44, 10, 237, 114, 149, 54, 10, 102, 31, 111,
      41, 104, 158, 155, 87, 139, 205, 245, 56, 168, 77, 81, 8, 46, 159, 22, 222, 44, 86, 163, 43,
      53, 120, 120, 144, 166, 180, 166, 82, 149, 127, 124, 12, 42, 94, 182, 250, 212, 114, 171, 106,
      89, 104, 123, 154, 27, 231, 155, 42, 220, 231, 173, 46, 116, 117, 182, 63, 230, 244, 235, 250,
      94, 169, 94, 42, 231, 219, 211, 92, 206, 73, 20, 159, 75, 62, 103, 9, 198, 68, 114, 44, 68,
      42, 121, 198, 37, 9, 177, 8, 231, 156, 132, 169, 164, 41, 103, 73, 172, 178, 44, 193, 148, 73,
      170, 24, 17, 243, 4, 49, 150, 68, 60, 83, 138, 38, 66, 76, 127, 183, 183, 26, 117, 218, 155,
      250, 39, 147, 219, 103, 12, 96, 53, 55, 165, 218, 181, 182, 86, 6, 176, 194, 173, 61, 117,
      205, 115, 216, 243, 179, 37, 15, 96, 202, 41, 239, 117, 181, 116, 187, 158, 54, 234, 0, 150,
      174, 110, 47, 239, 110, 174, 239, 55, 142, 62, 133, 46, 205, 124, 151, 127, 187, 221, 255,
      103, 78, 47, 59, 232, 49, 191, 244, 255, 118, 10, 216, 239, 255, 24, 179, 24, 250, 127, 15,
      240, 161, 13, 0, 131, 242, 222, 120, 58, 173, 113, 120, 254, 81, 28, 199, 12, 242, 223, 3,
      144, 255, 113, 179, 179, 60, 235, 168, 70, 27, 106, 22, 69, 135, 204, 255, 40, 68, 20, 242,
      223, 3, 144, 255, 113, 243, 241, 185, 216, 101, 141, 195, 243, 143, 88, 72, 8, 228, 191, 7,
      32, 255, 227, 230, 167, 157, 172, 191, 172, 113, 196, 252, 79, 34, 10, 251, 191, 125, 0, 249,
      31, 55, 95, 183, 219, 255, 190, 198, 17, 249, 199, 33, 129, 245, 127, 31, 64, 254, 199, 205,
      246, 175, 144, 174, 106, 28, 243, 253, 79, 66, 88, 255, 247, 1, 228, 31, 0, 0, 96, 156, 188,
      1, 75, 227, 51, 135, 0, 38, 0, 0]
  small := by decide +kernel

/-- The same file, as one says where it is. -/
def dotted : Extra where
  path := "./CHANGES"
  checked := rfl
  read := by decide
  archive :=
    [31, 139, 8, 0, 0, 0, 0, 0, 0, 255, 237, 153, 65, 111, 155, 48, 24, 134, 123, 230, 87, 68, 185,
      151, 218, 198, 96, 50, 169, 135, 170, 154, 214, 211, 46, 59, 86, 85, 100, 27, 19, 172, 2, 182,
      176, 219, 195, 126, 253, 32, 105, 23, 194, 84, 85, 137, 10, 76, 226, 123, 46, 160, 215, 192,
      247, 10, 244, 126, 6, 99, 75, 238, 115, 211, 84, 161, 55, 85, 121, 53, 14, 168, 37, 161, 116,
      191, 109, 25, 110, 49, 75, 254, 238, 191, 233, 24, 209, 136, 92, 161, 145, 252, 156, 240, 226,
      60, 111, 86, 171, 41, 74, 253, 143, 188, 170, 198, 105, 83, 175, 110, 87, 107, 28, 162, 16,
      173, 3, 219, 24, 111, 164, 41, 15, 18, 110, 133, 23, 81, 106, 87, 168, 172, 85, 48, 123, 127,
      74, 65, 123, 223, 188, 218, 30, 207, 199, 65, 99, 202, 82, 112, 249, 188, 245, 102, 187, 31,
      221, 171, 193, 227, 163, 52, 149, 53, 181, 170, 253, 211, 83, 80, 243, 170, 211, 215, 150, 91,
      213, 200, 82, 219, 235, 194, 56, 223, 86, 225, 190, 232, 116, 161, 235, 155, 225, 152, 211,
      191, 15, 215, 202, 244, 78, 57, 223, 29, 230, 10, 78, 226, 228, 155, 228, 27, 150, 98, 76, 36,
      199, 66, 100, 146, 231, 92, 146, 8, 139, 104, 195, 73, 148, 73, 154, 113, 150, 38, 42, 207,
      83, 76, 153, 164, 138, 17, 177, 73, 17, 99, 105, 204, 115, 165, 104, 42, 196, 250, 115, 123,
      251, 81, 167, 189, 105, 62, 50, 217, 63, 98, 6, 171, 133, 169, 212, 169, 181, 131, 50, 131,
      21, 110, 237, 181, 107, 239, 195, 192, 79, 79, 158, 193, 148, 83, 222, 235, 122, 231, 78, 61,
      29, 213, 25, 44, 133, 55, 247, 15, 119, 63, 127, 124, 255, 117, 244, 212, 147, 198, 52, 52,
      204, 191, 237, 247, 255, 208, 233, 221, 8, 61, 230, 147, 254, 223, 77, 1, 195, 254, 143, 219,
      73, 1, 250, 255, 4, 240, 185, 13, 0, 179, 242, 214, 116, 70, 173, 113, 126, 254, 81, 146, 36,
      12, 242, 63, 1, 144, 255, 101, 115, 242, 122, 54, 82, 141, 46, 212, 44, 142, 207, 153, 255,
      81, 132, 40, 228, 127, 2, 32, 255, 203, 230, 253, 115, 113, 204, 26, 231, 231, 31, 177, 136,
      192, 250, 207, 20, 64, 254, 151, 205, 71, 43, 89, 95, 89, 227, 130, 249, 159, 196, 52, 134,
      252, 79, 0, 228, 127, 217, 252, 187, 220, 254, 245, 53, 46, 200, 63, 142, 8, 188, 255, 79, 1,
      228, 127, 217, 244, 127, 133, 140, 85, 227, 146, 239, 127, 2, 255, 127, 39, 1, 242, 15, 0, 0,
      176, 76, 254, 0, 54, 141, 62, 141, 0, 38, 0, 0]
  small := by decide +kernel

/-- A number in a field of a header, with as many digits. -/
def octal (value digits : ℕ) : String :=
  String.ofList ((List.replicate digits '0' ++ Nat.toDigits 8 value).reverse.take digits).reverse

/-- The header of a file, with its checksum. -/
def headerOf (name : String) (file : PackedFile) : Bytes :=
  let header := tarHeader name (if file.executable then "0000755" else "0000644")
    (octal file.bytes.length 11)
  header (octal ((header "        ").map UInt8.toNat).sum 7)

/-- A file in the archive, in blocks of its own. -/
def tarFile (name : String) (file : PackedFile) : Bytes :=
  headerOf name file ++ tarField file.bytes (512 * ((file.bytes.length + 511) / 512))

/-- What the archive crate makes of a path. -/
def nameOf (path : String) : String := if path = "./CHANGES" then "CHANGES" else path

section

variable (extra : Extra)

def manifest : PlatformManifest := ⟨fields extra.path, extra.checked⟩

/-- The components in the bundle. -/
def packed : List PackedFile :=
  ((manifest extra).components.mergeSort fun left right => left.path ≤ right.path).map
    fun component => ⟨component.path, startsWith component.path "bin/", contents⟩

/-- The files of the bundle. -/
def files : List PackedFile :=
  ⟨MANIFEST_FILE_NAME, false, (manifest extra).document⟩ ::
    ⟨SIGNATURE_FILE_NAME, false, contents⟩ :: packed extra

/-- What the archive expands to. -/
def tarBytes : Bytes :=
  (files extra).flatMap (fun file => tarFile (nameOf file.name) file) ++ tarField [] 1024

/-- The archive crates, as far as the bundle goes. -/
def tar : Tar where
  encode given :=
    if given = files extra then .ok extra.archive else .error (.other "not written here")
  nameOf := nameOf
  plain path := by
    rw [nameOf, if_neg]
    intro htext
    have hvalid := path.valid
    rw [htext] at hvalid
    revert hvalid
    decide
  parts path := by
    unfold nameOf
    split
    · next h =>
      rw [h]
      decide
    · rfl

theorem described :
    describe digestOf source (description extra.path) = .ok (manifest extra) := by
  have hrequired : ∀ name ∈ REQUIRED_COMPONENTS, source.read ("bin/" ++ name) = .ok contents := by
    decide
  have hmeasure {name relative : String} (hread : source.read relative = .ok contents) :
      measure digestOf source name relative = .ok (component name relative) :=
    bind_eq_ok.2 ⟨contents, mapError_eq_ok.2 hread, rfl⟩
  refine bind_eq_ok.2 ⟨REQUIRED_COMPONENTS.map fun name => component name ("bin/" ++ name), ?_,
    bind_eq_ok.2 ⟨[component extra.path extra.path], ?_,
      PlatformManifest.new_self (manifest extra)⟩⟩
  · exact mapM_eq_ok.2 (List.forall₂_map_right_iff.2 (List.forall₂_same.2 fun name hname =>
      hmeasure (hrequired name hname)))
  · exact mapM_eq_ok.2 (.cons (hmeasure extra.read) .nil)

theorem built : build (tar extra) source (manifest extra) (manifest extra).document contents =
    .ok extra.archive := by
  have hread (component : Component) (hc : component ∈ (manifest extra).components) :
      source.read component.path = .ok contents := by
    obtain ⟨-, x, bytes, -, hfile, hread, -⟩ := (describes (described extra)).measured component hc
    rw [hread, contents_of_file hfile]
  refine bind_eq_ok.2 ⟨packed extra, ?_, ?_⟩
  · refine mapM_eq_ok.2 (List.forall₂_map_right_iff.2 (List.forall₂_same.2 fun component hc => ?_))
    exact bind_eq_ok.2 ⟨contents,
      mapError_eq_ok.2 (hread component ((List.mergeSort_perm _ _).mem_iff.1 hc)), rfl⟩
  · have hencode : (tar extra).encode (files extra) = .ok extra.archive := by simp [tar]
    exact mapError_eq_ok.2 hencode

/-- The release, published. -/
def publication : Publication upgrade (tar extra) source (description extra.path) where
  manifest := manifest extra
  described := described extra
  armoured := contents
  signed := rfl
  archive := extra.archive
  built := built extra

theorem length_bytes (hshort : (manifest extra).document.length ≤ MAX_MANIFEST_BYTES)
    {file : PackedFile} (hfile : file ∈ files extra) : file.bytes.length ≤ MAX_MANIFEST_BYTES := by
  rcases List.mem_cons.1 hfile with rfl | hfile
  · exact hshort
  rcases List.mem_cons.1 hfile with rfl | hfile
  · exact show 1 ≤ MAX_MANIFEST_BYTES by decide
  · obtain ⟨component, -, rfl⟩ := List.mem_map.1 hfile
    exact show 1 ≤ MAX_MANIFEST_BYTES by decide

theorem length_tarFile (name : String) (file : PackedFile) :
    file.bytes.length ≤ (tarFile name file).length ∧
      (tarFile name file).length ≤ file.bytes.length + 1024 := by
  unfold tarFile headerOf
  rw [List.length_append, length_tarHeader, length_tarField]
  omega

theorem fits : (((files extra).map (tar extra).entry).map fun entry => entry.available.length).sum ≤
    (tarBytes extra).length := by
  have hall (files : List PackedFile) :
      ((files.map (tar extra).entry).map fun entry => entry.available.length).sum ≤
        (files.flatMap fun file => tarFile (nameOf file.name) file).length := by
    induction files with
    | nil => exact Nat.le_refl 0
    | cons file rest ih =>
      rw [List.map_cons, List.map_cons, List.sum_cons, List.flatMap_cons, List.length_append]
      exact Nat.add_le_add (length_tarFile _ file).1 ih
  rw [tarBytes, List.length_append]
  exact (hall _).trans (Nat.le_add_right _ _)

theorem length_tarBytes (hshort : (manifest extra).document.length ≤ MAX_MANIFEST_BYTES) :
    (tarBytes extra).length ≤ upgrade.limits.uncompressedBytes := by
  have hall (files : List PackedFile)
      (h : ∀ file ∈ files, file.bytes.length ≤ MAX_MANIFEST_BYTES) :
      (files.flatMap fun file => tarFile (nameOf file.name) file).length ≤
        files.length * (MAX_MANIFEST_BYTES + 1024) := by
    induction files with
    | nil => exact Nat.zero_le _
    | cons file rest ih =>
      have hfile := (length_tarFile (nameOf file.name) file).2
      have hone := h file List.mem_cons_self
      have hrest := ih fun f hf => h f (List.mem_cons_of_mem _ hf)
      rw [List.flatMap_cons, List.length_append, List.length_cons, Nat.succ_mul]
      omega
  have hlength : (files extra).length = 8 := by
    simp [files, packed, manifest, fields, REQUIRED_COMPONENTS]
  have hfiles := hall (files extra) fun file => length_bytes extra hshort
  have hlimit : 8 * (MAX_MANIFEST_BYTES + 1024) + 1024 ≤ upgrade.limits.uncompressedBytes := by
    decide
  have hbytes : (tarBytes extra).length =
      ((files extra).flatMap fun file => tarFile (nameOf file.name) file).length + 1024 := by
    rw [tarBytes, List.length_append, length_tarField]
  rw [hlength] at hfiles
  exact (hbytes.trans_le (Nat.add_le_add_right hfiles 1024)).trans hlimit

def codec : Codec :=
  .knowing extra.archive (tarBytes extra) ((files extra).map (tar extra).entry) (fits extra)

/-- What is read of the bundle. -/
def stream : TarStream := ⟨(files extra).map (tar extra).entry, none⟩

theorem decodes (hshort : (manifest extra).document.length ≤ MAX_MANIFEST_BYTES) :
    (codec extra).Decodes upgrade.limits ⟨extra.archive, none⟩ (stream extra) :=
  Codec.decodes_knowing (fits extra) (extra.small.trans (by decide)) (length_tarBytes extra hshort)

theorem undoes (hshort : (manifest extra).document.length ≤ MAX_MANIFEST_BYTES) :
    (tar extra).Undoes (codec extra) upgrade.limits extra.archive := by
  intro given hgiven
  obtain rfl : given = files extra := by
    by_contra hne
    simp [tar, hne] at hgiven
  have hwhole : (codec extra).untar ((codec extra).gunzip ⟨extra.archive, none⟩) = stream extra :=
    Codec.untar_knowing (fits extra)
  refine ⟨hwhole, fun stream hstream => .inl ?_⟩
  have hgunzip : (codec extra).gunzip ⟨extra.archive, none⟩ = ⟨tarBytes extra, none⟩ :=
    Codec.gunzip_knowing _ (fits extra)
  rw [hstream.eq (extra.small.trans (by decide))
    (by rw [hgunzip]; exact length_tarBytes extra hshort)]
  exact hwhole

theorem typed : (description extra.path).Typed where
  version := ⟨show 1 < 2 ^ 64 ∧ 0 < 2 ^ 64 ∧ 0 < 2 ^ 64 by decide, fun _ h => (by cases h),
    fun _ h => by cases h⟩
  protocol := show 1 < 2 ^ 16 ∧ 1 < 2 ^ 16 by decide
  published := show 1700000000 < 2 ^ 63 by decide
  stateVersion := show 1 < 2 ^ 32 by decide
  rollbackToState := show 1 < 2 ^ 32 by decide

theorem digest_parses (bytes : Bytes) :
    (Packages.Digest.parse (digestOf bytes).text).isSome = true := by
  unfold digestOf
  split
  · decide +kernel
  · exact Noted.digest_parses

theorem served (hshort : (manifest extra).document.length ≤ MAX_MANIFEST_BYTES) :
    (publication extra).Served Noted.toml Noted.semver (codec extra) (stream extra) where
  document := rfl
  version := Noted.semver_reads ""
  digest := digest_parses
  archive := undoes extra hshort
  decoded := decodes extra hshort

end

theorem takes {path : String} (hcheck : RelativePath.check path = .ok ())
    (hreserved : (Protocol.components path).all fun part => !startsWith part RESERVED_PREFIX)
    (hhead : (Protocol.components path).head? ≠ some MANIFEST_FILE_NAME ∧
      (Protocol.components path).head? ≠ some SIGNATURE_FILE_NAME) : Takes path := by
  have hbelow (own : String) (h : (Protocol.components path).head? ≠ some own) :
      ¬ [own] <+: Protocol.components path := by
    rintro ⟨rest, hrest⟩
    rw [← hrest] at h
    exact h rfl
  refine ⟨⟨path, hcheck⟩, rfl, ?_, hbelow _ hhead.1, hbelow _ hhead.2⟩
  unfold rejectReserved
  split
  · next part hpart =>
    have hmem := List.mem_of_find?_eq_some hpart
    have hstarts := List.find?_some hpart
    have hkept := List.all_eq_true.1 hreserved part hmem
    rw [hstarts] at hkept
    cases hkept
  · rfl

theorem plain_short : (manifest plain).document.length ≤ MAX_MANIFEST_BYTES := by decide +kernel

theorem dotted_short : (manifest dotted).document.length ≤ MAX_MANIFEST_BYTES := by decide +kernel

theorem plain_installable : Installable upgrade source (description plain.path)
    (manifest plain).document contents where
  notes := rfl
  allowed := by decide
  takes path hpath := by
    have hall : ∀ path ∈ (description plain.path).paths, RelativePath.check path = .ok () ∧
        ((Protocol.components path).all fun part => !startsWith part RESERVED_PREFIX) = true ∧
        (Protocol.components path).head? ≠ some MANIFEST_FILE_NAME ∧
          (Protocol.components path).head? ≠ some SIGNATURE_FILE_NAME := by decide
    obtain ⟨hcheck, hreserved, hhead⟩ := hall path hpath
    exact Published.takes hcheck hreserved hhead
  nodup := by decide
  short := plain_short
  few := by decide
  small := by
    have hread : ∀ path ∈ (description plain.path).paths, source.read path = .ok contents := by
      decide
    refine ⟨plain_short.trans (by decide), by decide, fun path hpath bytes hbytes => ?_⟩
    cases (hread path hpath).symm.trans hbytes
    decide
  runs _ _ _ _ machine hmachine := by cases hmachine

end Published

/-- A list of changes is installed with the release. -/
theorem bundle_accepted_iff_plain : (Published.publication Published.plain).Accepted Sample.willing
    Sample.before (.staging 0) (Published.stream Published.plain) :=
  (bundle_accepted_iff (Published.publication Published.plain) Sample.willing Sample.before
    (Published.typed Published.plain) (Published.served Published.plain Published.plain_short)
    (by simp) (.inl (by decide))).2 ⟨Published.plain_installable, rfl⟩

/-- A file that is asked for as `./CHANGES` is published, and no device can install the release. -/
theorem dotted_is_refused : ¬ ∀ (u : Upgrade) (tar : Tar) (source : Source)
    (description : Description) (toml : Toml.Reader Document Document.ofLines)
    (semver : String → Except String Version) (p : Publication u tar source description)
    (codec : Codec) (stream : TarStream) (staging : Place) (s : Session) (w : World),
    description.Typed → p.Served toml semver codec stream → staging ≠ .platformState →
    (w.disk.dir staging = none ∨ w.disk.dir staging = some .empty) →
    p.Accepted s w staging stream := by
  intro h
  have hserved := Published.served Published.dotted Published.dotted_short
  have htyped := Published.typed Published.dotted
  have haccepted := h _ _ _ _ _ _ _ _ _ (.staging 0) Sample.willing Sample.before htyped hserved
    (by simp) (.inl (by decide))
  have hinstallable := (installable_of_accepted htyped hserved (by simp) haccepted).1
  obtain ⟨name, htext, -⟩ := hinstallable.takes "./CHANGES" (by decide)
  have hvalid := name.valid
  rw [htext] at hvalid
  revert hvalid
  decide

end Paperclip.Updater
