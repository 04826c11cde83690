import Paperclip.Packages.Archive
import Paperclip.Packages.Signing

/-!
# The package store

Where releases live, what selects one, and what says that a release is complete.

* `Place`: the directories of the store. `Doc`: its selections, its journal and its locks; a lock is a
  directory with the name of its owner in it, and nothing looks at one but for that name.
* `Marker`: what a completed release directory records about itself, in a file that no package can
  have. `readMarker` is the one answer to whether a release is complete.
* `current`, `previous`, `installedVersions`: the releases that are selected, or there, and complete.
-/

namespace Paperclip.Store

open Crash Files Packages Protocol

/-- The name of a staging directory: what it is for, and which process made it when. -/
structure Ticket where
  app : AppId
  version : Version
  pid : ℕ
  started : ℕ
  deriving DecidableEq

/-- A directory of the store. -/
inductive Place where
  /-- The root, with `apps`, `data`, `staging`, `state` and what is directly below `state`. -/
  | root
  /-- `apps/<id>` -/
  | app (app : AppId)
  /-- `apps/<id>/releases/<version>` -/
  | release (app : AppId) (version : Version)
  /-- `data/<id>` -/
  | data (app : AppId)
  /-- `staging/<transaction>` -/
  | staging (ticket : Ticket)
  /-- `staging/<transaction>/payload` -/
  | payload (ticket : Ticket)
  deriving DecidableEq

/-- How far an install had got when it was written down. -/
inductive Phase where
  | stage
  | activate
  deriving DecidableEq, Repr

def Phase.asStr : Phase → String
  | stage => "stage"
  | activate => "activate"

/-- An intent, written down before it is acted on. -/
structure Journal where
  app : AppId
  version : Version
  previous : Option Version
  staging : Option Ticket
  phase : Phase
  deriving DecidableEq

/-- What a selection file holds. -/
inductive Selection where
  | release (version : Version)
  | corrupt
  deriving DecidableEq

/-- What a journal file holds. -/
inductive JournalFile where
  | intent (journal : Journal)
  | corrupt
  deriving DecidableEq

/-- The documents of the store. -/
inductive Doc where
  /-- `apps/<id>/current` -/
  | current (app : AppId)
  /-- `apps/<id>/previous` -/
  | previous (app : AppId)
  /-- `state/journal/<id>-<version>-<phase>.toml` -/
  | journal (app : AppId) (version : Version) (phase : Phase)
  /-- `state/locks/<id>.lock` -/
  | lock (app : AppId)
  deriving DecidableEq

/-- What a document holds. -/
@[reducible] def Doc.Content : Doc → Type
  | current _ | previous _ => Selection
  | journal _ _ _ => JournalFile
  | lock _ => String

/-- What the store holds. -/
abbrev StoreDisk := Disk Place Doc Doc.Content

/-- What a completed release directory records about itself. -/
structure Marker where
  digest : Digest
  signer : KeyId
  installed : ℕ
  deriving DecidableEq

/-- A marker, as written. -/
structure RawMarker where
  digest : String
  signer : String
  installed : ℕ

/-- The file that marks a release directory complete. -/
def RELEASE_MARKER : String := ".paperclip-release"

/-- The text of a digest. -/
def digestText (digest : Digest) : String :=
  String.ofList ("sha256:".toList ++ encodeHex digest.bytes.1)

/-- The text of a key id. -/
def keyText (key : KeyId) : String := String.ofList (encodeHex key.bytes.1)

/-- The file body for a completed release. -/
def Marker.toDocument (marker : Marker) : String :=
  "# Written by the installer. A release directory without this file is\n" ++
  "# incomplete and will never be launched.\n" ++
  s!"digest = \"{digestText marker.digest}\"\n" ++
  s!"signer = \"{keyText marker.signer}\"\n" ++
  s!"installed = {marker.installed}\n"

/-- What the installer takes from other crates: besides the signatures and the hash, the reader of the
marker's TOML, which reads what `toDocument` writes, the reader of a manifest, and the decoder of an
archive, within the two bounds on bytes. -/
structure Tools (K : Type) extends Crates K where
  markerToml : String → Option RawMarker
  markerToml_document : ∀ marker : Marker, markerToml marker.toDocument =
    some ⟨digestText marker.digest, keyText marker.signer, marker.installed⟩
  manifest : Bytes → Except ManifestError Manifest
  decode : ArchiveLimits → Bytes → TarStream

/-- Why the store could not be read or written. -/
inductive StoreError where
  | io (source : IoError)
  | corruptMarker (release : Place)
  | corruptSelection (file : Doc)
  | locked (app : AppId) (holder : String)

/-- A program on the store. -/
abbrev StoreProg := Prog (withFs noCalls Place Doc Doc.Content) StoreError

variable {K : Type}

/-- The marker that the bytes of a file spell. -/
def parseMarker (tools : Tools K) (bytes : Bytes) : Option Marker := do
  let text ← decodeUtf8 bytes
  let raw ← tools.markerToml text
  let digest ← Digest.parse raw.digest
  let signer ← decodeHex raw.signer.toList 8
  return ⟨digest, ⟨signer⟩, raw.installed⟩

/-- Reads a release directory's marker, if it has one. -/
def readMarker (tools : Tools K) (release : Place) : StoreProg (Option Marker) := do
  match ← (fs (.lookup release [RELEASE_MARKER])).mapError .io with
  | none => pure none
  | some .dir | some .special => .fail (.io .isADirectory)
  | some (.file bytes _) =>
    match parseMarker tools bytes with
    | some marker => pure (some marker)
    | none => .fail (.corruptMarker release)

/-- What a selection file says. -/
def asSelection : Option Selection → Except Unit (Option Version)
  | none => .ok none
  | some (.release version) => .ok (some version)
  | some .corrupt => .error ()

/-- Reads the `current` file of an app. -/
def readCurrent (app : AppId) : StoreProg (Option Version) := do
  let file ← (fs (.get (.current app))).mapError .io
  (Prog.ofExcept (asSelection file)).mapError fun _ => .corruptSelection (.current app)

/-- Reads the `previous` file of an app. -/
def readPrevious (app : AppId) : StoreProg (Option Version) := do
  let file ← (fs (.get (.previous app))).mapError .io
  (Prog.ofExcept (asSelection file)).mapError fun _ => .corruptSelection (.previous app)

/-- The version that a selection names, if its release is complete. -/
def usableSelection (tools : Tools K) (app : AppId) (named : Option Version) :
    StoreProg (Option Version) :=
  match named with
  | none => pure none
  | some version => do
    let marker ← readMarker tools (.release app version)
    pure (if marker.isSome then some version else none)

/-- The selected version, if it is selected and complete. -/
def current (tools : Tools K) (app : AppId) : StoreProg (Option Version) := do
  usableSelection tools app (← readCurrent app)

/-- The fallback version, if it is recorded and complete. -/
def previous (tools : Tools K) (app : AppId) : StoreProg (Option Version) := do
  usableSelection tools app (← readPrevious app)

/-- The versions that are complete. -/
def completeOf (tools : Tools K) (app : AppId) : List Version → StoreProg (List Version)
  | [] => pure []
  | version :: rest => do
    let marker ← readMarker tools (.release app version)
    let versions ← completeOf tools app rest
    pure (if marker.isSome then version :: versions else versions)

/-- The versions of an app with a release directory. -/
def versionsIn (app : AppId) (places : List Place) : List Version :=
  places.filterMap fun
    | .release a version => if a = app then some version else none
    | _ => none

/-- Every complete release of an app, oldest first. -/
def installedVersions (tools : Tools K) (app : AppId) : StoreProg (List Version) := do
  let places ← (fs .dirNames).mapError .io
  let versions ← completeOf tools app (versionsIn app places)
  pure (versions.insertionSort Version.le)

/-- Every app directory, in the order of the ids. -/
def apps : StoreProg (List AppId) := do
  let places ← (fs .dirNames).mapError .io
  pure ((places.filterMap fun
    | .app a => some a
    | _ => none).insertionSort fun a b => a.text ≤ b.text)

/-! ## Locks -/

/-- Claims an app, or reports who holds it. -/
def acquire (owner : String) (app : AppId) : StoreProg Unit := do
  match ← (fs (.get (.lock app))).mapError .io with
  | some holder => .fail (.locked app holder)
  | none => (fs (.put (.lock app) owner)).mapError .io

/-- Removes every lock, and says how many there were. -/
def breakAll : StoreProg ℕ := do
  let names ← (fs .docNames).mapError .io
  let held := names.filterMap fun
    | .lock app => some app
    | _ => none
  Prog.each (fun app => (fs (.delete (.lock app))).mapError .io) held
  pure held.length

end Paperclip.Store
