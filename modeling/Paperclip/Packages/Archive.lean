import Mathlib.Algebra.GroupWithZero.Nat
import Paperclip.Packages.Manifest

/-!
# Unpacking archives

A bounded unpacking of a tar stream into a directory. The stream is what the decoder makes of the
attacker's bytes: any entries, with any names, kinds and sizes, a content that may end early, and an
end that may be an error. The two bounds on bytes act in front of the decoder, as such errors.

* `extractTree`: files and directories only, every path below the destination, no file twice.
* `extract`: the same for an app package, whose manifest is then checked against the payload.
-/

namespace Paperclip.Packages

open Crash Files Protocol

/-- The kind of a tar entry. -/
inductive EntryType where
  | regular
  | directory
  | symlink
  | link
  | char
  | block
  | fifo
  | other
  deriving DecidableEq, Repr

/-- One entry of a tar stream. `name` is `none` when it is not text, `size` when the header cannot be
read. `available` is the content that the stream has, and `broken` the error that follows it. -/
structure TarEntry where
  name : Option String
  kind : EntryType
  size : Option Nat
  available : Bytes
  broken : Option IoError

/-- What a decoder reads from an archive: its entries, and the error it may end with. -/
structure TarStream where
  entries : List TarEntry
  ending : Option IoError

/-- Bounds on an archive: on its bytes before and after decompression, on one file, and on the
entries, files and directories together. -/
structure ArchiveLimits where
  compressedBytes : Nat
  uncompressedBytes : Nat
  fileBytes : Nat
  entries : Nat
  deriving DecidableEq, Repr

def ArchiveLimits.DEFAULT : ArchiveLimits where
  compressedBytes := 64 * 1024 * 1024
  uncompressedBytes := 192 * 1024 * 1024
  fileBytes := 128 * 1024 * 1024
  entries := 4096

/-- What came out of an archive. `names` are the files, in the order of the archive. -/
structure ExtractedTree where
  files : Nat
  bytes : Nat
  names : List RelativePath

/-- Whether a file with this name was written. -/
def ExtractedTree.contains (tree : ExtractedTree) (name : String) : Bool :=
  tree.names.any fun written => written.text == name

/-- What came out of a package. -/
structure Extracted where
  manifest : Manifest
  files : Nat
  bytes : Nat

/-- Why an archive could not be unpacked. -/
inductive ArchiveError where
  | destinationNotEmpty
  | malformed (source : IoError)
  | forbiddenEntry (path kind : String)
  | unsafePath (path : String) (source : PathError)
  | reservedName (path component : String)
  | tooManyEntries (max : Nat)
  | fileTooLarge (path : String) (size max : Nat)
  | truncated (path : String) (declared actual : Nat)
  | noManifest
  | manifest (source : ManifestError)
  | payload (source : PayloadError)
  | declaredDirectory (path : String)
  | io (path : Path) (source : IoError)

/-- The prefix of the names that the installer keeps for itself. -/
def RESERVED_PREFIX : String := ".paperclip-"

/-- What a forbidden entry is called in a message. -/
def describe : EntryType → String
  | .symlink => "a symbolic link"
  | .link => "a hard link"
  | .char => "a character device"
  | .block => "a block device"
  | .fifo => "a FIFO"
  | _ => "an entry type packages may not contain"

/-- Refuses any component in the installer's own namespace. -/
def rejectReserved (path : RelativePath) : Except ArchiveError Unit :=
  match path.components.find? fun component => startsWith component RESERVED_PREFIX with
  | some component => .error (.reservedName path.text component)
  | none => .ok ()

/-- The text without a slash at its end. -/
def stripSlash (text : String) : String :=
  if text.toList.getLast? = some '/' then String.ofList text.toList.dropLast else text

/-- Checks and converts the name of an entry. -/
def entryName (raw : Option String) (kind : EntryType) : Except ArchiveError RelativePath :=
  match raw with
  | none => .error (.unsafePath "" .notPosix)
  | some raw =>
    let text := if kind = .directory then stripSlash raw else raw
    match RelativePath.parse text with
    | .error e => .error (.unsafePath raw e)
    | .ok path =>
      match rejectReserved path with
      | .error e => .error e
      | .ok () => .ok path

section Programs

variable {S : Sig} {P F : Type} {D : F → Type}

/-- Creates a directory; one that is already there is one that extraction made. -/
def createDirectory (dest : P) (x : Path) : Prog (withFs S P F D) ArchiveError Unit := do
  match ← (fs (.createDir dest x)).attempt with
  | .ok _ => pure ()
  | .error .alreadyExists => pure ()
  | .error e => .fail (.io x e)

/-- Creates every missing directory on the way down, from `walked` on. -/
def createDirectories (dest : P) : (walked : Path) → Path → Prog (withFs S P F D) ArchiveError Unit
  | _, [] => pure ()
  | walked, component :: rest => do
    createDirectory dest (walked ++ [component])
    createDirectories dest (walked ++ [component]) rest

/-- Writes one file. It must not be there yet. -/
def writeFile (entry : TarEntry) (dest : P) (name : RelativePath) (size : Nat) :
    Prog (withFs S P F D) ArchiveError Unit := do
  let path := name.components
  createDirectories dest [] path.dropLast
  (fs (.createNew dest path)).mapError (.io path)
  let copied := entry.available.take size
  (fs (.write dest path copied)).mapError (.io path)
  if copied.length ≠ size then
    match entry.broken with
    | some e => .fail (.io path e)
    | none => .fail (.truncated name.text size copied.length)

/-- Extraction refuses a directory that already holds something. -/
def ensureEmptyDirectory (dest : P) : Prog (withFs S P F D) ArchiveError Unit := do
  let entries ← (fs (.readDir dest [])).mapError (.io [])
  if entries ≠ [] then .fail .destinationNotEmpty

/-- Unpacks the entries that are left. `seen` counts those that had their turn. -/
def extractEntries (dest : P) (limits : ArchiveLimits) (ending : Option IoError) :
    List TarEntry → (seen : Nat) → ExtractedTree → Prog (withFs S P F D) ArchiveError ExtractedTree
  | [], _, tree =>
    match ending with
    | some e => .fail (.malformed e)
    | none => pure tree
  | entry :: rest, seen, tree => do
    if limits.entries < seen + 1 then .fail (.tooManyEntries limits.entries)
    else
      let name ← Prog.ofExcept (entryName entry.name entry.kind)
      match entry.kind with
      | .directory =>
        createDirectory dest name.components
        extractEntries dest limits ending rest (seen + 1) tree
      | .regular =>
        match entry.size with
        | none => .fail (.malformed (.other "numeric field was not a number"))
        | some size =>
          if limits.fileBytes < size then
            .fail (.fileTooLarge name.text size limits.fileBytes)
          else
            writeFile entry dest name size
            extractEntries dest limits ending rest (seen + 1)
              ⟨tree.files + 1, tree.bytes + size, tree.names ++ [name]⟩
      | kind => .fail (.forbiddenEntry (entry.name.getD "") (describe kind))

/-- Unpacks a stream into `dest`, checking nothing about what it contains. -/
def extractTree (source : TarStream) (dest : P) (limits : ArchiveLimits) :
    Prog (withFs S P F D) ArchiveError ExtractedTree := do
  ensureEmptyDirectory dest
  extractEntries dest limits source.ending source.entries 0 ⟨0, 0, []⟩

/-- Unpacks a package into `dest`, and checks its manifest against the payload. -/
def extract (parse : Bytes → Except ManifestError Manifest) (source : TarStream) (dest : P)
    (limits : ArchiveLimits) : Prog (withFs S P F D) ArchiveError Extracted := do
  let tree ← extractTree source dest limits
  if ¬ tree.contains MANIFEST_FILE_NAME then .fail .noManifest
  else
    let manifest ← (Manifest.readPackage parse dest).mapError .manifest
    (manifest.validatePayload dest).mapError .payload
    (fs (.setExecutable dest manifest.entrypoint.components)).mapError
      (.io manifest.entrypoint.components)
    pure ⟨manifest, tree.files, tree.bytes⟩

end Programs

/-! ## Footprints -/

/-- A path that leads strictly below a directory, past no name that the installer keeps. -/
def Inside (x : Path) : Prop :=
  x ≠ [] ∧ ∀ c ∈ x, c ≠ "" ∧ c ≠ "." ∧ c ≠ ".." ∧ '/' ∉ c.toList ∧ startsWith c RESERVED_PREFIX = false

/-- The path of an entry is inside the directory. -/
theorem inside_of_entryName {raw : Option String} {kind : EntryType} {name : RelativePath}
    (h : entryName raw kind = .ok name) : Inside name.components := by
  unfold entryName at h
  split at h
  · cases h
  dsimp only at h
  split at h
  · cases h
  next path hpath =>
  split at h
  · cases h
  next hreserved =>
  cases h
  unfold rejectReserved at hreserved
  split at hreserved
  · cases hreserved
  next hnone =>
  refine ⟨RelativePath.components_ne_nil _, fun c hc => ?_⟩
  obtain ⟨hempty, hdot, hup⟩ := RelativePath.mem_components _ c hc
  have hkept := List.find?_eq_none.mp hnone c hc
  exact ⟨hempty, hdot, hup, RelativePath.not_mem_of_mem_components _ hc, by simpa using hkept⟩

/-- Everything on the way to a path inside the directory is inside it. -/
theorem Inside.upward {x y : Path} (h : Inside y) (hx : x <+: y) (hne : x ≠ []) : Inside x :=
  ⟨hne, fun c hc => h.2 c (hx.subset hc)⟩

section Footprints

variable {S : Sig} {P F : Type} {D : F → Type} {W : (withFs S P F D).Op → Prop} {dest : P}

/-- `W` allows what an extraction into `dest` does. -/
structure Extracts (W : (withFs S P F D).Op → Prop) (dest : P) : Prop where
  list : W (.inl (.readDir dest []))
  createDir : ∀ x, Inside x → W (.inl (.createDir dest x))
  createNew : ∀ x, Inside x → W (.inl (.createNew dest x))
  write : ∀ x bytes, Inside x → W (.inl (.write dest x bytes))

theorem extracts_of_builds (h : Builds W dest) : Extracts W dest where
  list := h.reads _ rfl rfl rfl
  createDir _ _ := h _ (by simp [FsOp.places]) rfl rfl
  createNew _ _ := h _ (by simp [FsOp.places]) rfl rfl
  write _ _ _ := h _ (by simp [FsOp.places]) rfl rfl

theorem only_createDirectory (h : Extracts W dest) {x : Path} (hx : Inside x) :
    (createDirectory dest x : Prog (withFs S P F D) ArchiveError Unit).Only W := by
  refine Prog.Only.bind (only_fs.mpr (h.createDir x hx)).attempt fun r => ?_
  split <;> trivial

theorem only_createDirectories (h : Extracts W dest) {walked x : Path} (hx : Inside (walked ++ x)) :
    (createDirectories dest walked x : Prog (withFs S P F D) ArchiveError Unit).Only W := by
  induction x generalizing walked with
  | nil => trivial
  | cons component rest ih =>
    rw [List.append_cons] at hx
    exact (only_createDirectory h (hx.upward (List.prefix_append _ _) (by simp))).bind
      fun _ => ih hx

theorem only_writeFile (h : Extracts W dest) (entry : TarEntry) {name : RelativePath} (size : Nat)
    (hx : Inside name.components) :
    (writeFile entry dest name size : Prog (withFs S P F D) ArchiveError Unit).Only W := by
  have hparents : (createDirectories dest [] name.components.dropLast :
      Prog (withFs S P F D) ArchiveError Unit).Only W := by
    by_cases hne : name.components.dropLast = []
    · rw [hne]
      trivial
    · exact only_createDirectories h (hx.upward (List.dropLast_prefix _) hne)
  refine hparents.bind fun _ => ?_
  refine Prog.Only.bind (only_fs.mpr (h.createNew _ hx)).mapError fun _ => ?_
  refine Prog.Only.bind (only_fs.mpr (h.write _ _ hx)).mapError fun _ => ?_
  split
  · split <;> trivial
  · trivial

theorem only_extractEntries (h : Extracts W dest) (limits : ArchiveLimits)
    (ending : Option IoError) (entries : List TarEntry) (seen : Nat) (tree : ExtractedTree) :
    (extractEntries dest limits ending entries seen tree :
      Prog (withFs S P F D) ArchiveError ExtractedTree).Only W := by
  induction entries generalizing seen tree with
  | nil =>
    unfold extractEntries
    split <;> trivial
  | cons entry rest ih =>
    unfold extractEntries
    split
    · trivial
    cases hname : entryName entry.name entry.kind with
    | error e => trivial
    | ok name =>
      have hx := inside_of_entryName hname
      rw [Prog.bind_eq, Prog.ofExcept_ok, Prog.bind_done]
      split
      · exact (only_createDirectory h hx).bind fun _ => ih _ _
      · split
        · trivial
        split
        · trivial
        exact (only_writeFile h entry _ hx).bind fun _ => ih _ _
      · trivial

theorem only_extractTree (h : Extracts W dest) (source : TarStream) (limits : ArchiveLimits) :
    (extractTree source dest limits : Prog (withFs S P F D) ArchiveError ExtractedTree).Only W := by
  refine Prog.Only.bind ?_ fun _ => only_extractEntries h _ _ _ _ _
  refine Prog.Only.bind (only_fs.mpr h.list).mapError fun entries => ?_
  split <;> trivial

end Footprints

end Paperclip.Packages
