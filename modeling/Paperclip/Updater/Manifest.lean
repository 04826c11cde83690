import Paperclip.Packages.Binary
import Paperclip.Updater.Layout

/-!
# The signed platform manifest

One document names every file of a release, with its size and digest.

* `Externals`: signatures, the document format and the digest, which come from outside.
* `PlatformManifest`: a manifest that passed its checks; the proof is part of the type.
* `verifyPayload`: the components against the bytes of a release directory.
* `readRelease`: the manifest of a release directory, once its signature is checked.
-/

namespace Paperclip.Updater

open Crash Files Packages Protocol

def MANIFEST_FILE_NAME : String := "platform.toml"

def SIGNATURE_FILE_NAME : String := "platform.toml.sig"

def MAX_MANIFEST_BYTES : Nat := 64 * 1024

/-- The components every platform release must carry. -/
def REQUIRED_COMPONENTS : List String :=
  ["paperclip-host", "paperclip-compositor", "home", "app-store", "settings"]

/-- A digest, as its text. -/
structure Digest where
  text : String
  deriving DecidableEq, Repr

/-- One binary in a platform release. -/
structure Component where
  name : String
  path : String
  size : Nat
  digest : Digest
  deriving DecidableEq, Repr

/-- The ELF machine that a component under `bin/` must be built for, if any is required. -/
structure ComponentPolicy where
  machine : Option Nat
  deriving DecidableEq, Repr

/-- The fields of a platform manifest. -/
structure RawManifest where
  version : Version
  protocol : ProtocolVersion
  published : Nat
  stateVersion : Nat
  rollbackToState : Nat
  notes : String
  components : List Component

namespace RawManifest

/-- Whether a path could lead out of the release directory. -/
def escapes (path : String) : Bool :=
  startsWith path "/" || decide ("..".toList <:+: path.toList)

/-- The checks on the components one by one. `seen` are the names that came before. -/
def checkComponents : List Component → (seen : List String) → Except UpdateError (List String)
  | [], seen => .ok seen
  | component :: rest, seen =>
    if component.name ∈ seen then
      .error (.manifest s!"component `{component.name}` is listed twice")
    else if escapes component.path then
      .error (.manifest (s!"component `{component.name}` has path `{component.path}`, " ++
        "which escapes the release directory"))
    else checkComponents rest (component.name :: seen)

/-- The rules a platform manifest must satisfy. -/
def check (raw : RawManifest) : Except UpdateError Unit := do
  if raw.stateVersion < raw.rollbackToState then
    .error (.manifest (s!"rollback_to_state {raw.rollbackToState} is above state_version " ++
      s!"{raw.stateVersion}; a release must be able to read what it writes"))
  else
    let seen ← checkComponents raw.components []
    match REQUIRED_COMPONENTS.find? fun required => required ∉ seen with
    | some required =>
      .error (.manifest (s!"no `{required}` component; §13 makes the host, the compositor, " ++
        "Home, the App Store and Settings one tested release"))
    | none => .ok ()

end RawManifest

/-- One version of the whole platform. -/
structure PlatformManifest extends RawManifest where
  checked : toRawManifest.check = .ok ()

namespace PlatformManifest

/-- Describes a platform release. -/
def new (raw : RawManifest) : Except UpdateError PlatformManifest :=
  match h : raw.check with
  | .ok () => .ok ⟨raw, h⟩
  | .error e => .error e

theorem new_ok {raw : RawManifest} {manifest : PlatformManifest} (h : new raw = .ok manifest) :
    manifest.toRawManifest = raw := by
  unfold new at h
  split at h <;> cases h
  rfl

/-- Whether a release at an older state version can read what this one writes. -/
def readableByStateVersion (manifest : PlatformManifest) (older : Nat) : Bool :=
  decide (manifest.rollbackToState ≤ older)

end PlatformManifest

/-- What the updater takes from outside: the check of a signature of the platform domain against the
trusted keys, the reading of a document into its fields, and the digest. -/
structure Externals where
  verify : (document armoured : Bytes) → Except UpdateError Unit
  parse : Bytes → Except String RawManifest
  digestOf : Bytes → Digest

/-- A platform manifest whose signature has been checked. -/
structure VerifiedPlatform where
  manifest : PlatformManifest

/-- The words of an I/O failure. -/
def ioText : IoError → String
  | .notFound => "No such file or directory"
  | .alreadyExists => "File exists"
  | .notADirectory => "Not a directory"
  | .isADirectory => "Is a directory"
  | .notEmpty => "Directory not empty"
  | .nameTooLong => "File name too long"
  | .other text => text

/-- Where a component's path leads below the release directory. A path that ends in a slash or in a
dot can only name a directory. -/
def resolve (path : String) : Option Path :=
  let parts := components path
  match parts.getLast? with
  | some last =>
    if last = "" ∨ last = "." then none
    else some (parts.filter fun part => part ≠ "" ∧ part ≠ ".")
  | none => none

section Programs

variable {S : Sig}

/-- The bytes of a regular file. -/
def readFile (p : Place) (x : Path) : Prog (withFs S Place Doc Doc.Content) IoError Bytes := do
  match ← fs (.lookup p x) with
  | some (.file bytes _) => pure bytes
  | some .dir => .fail .isADirectory
  | some .special => .fail (.other "No such device or address")
  | none => .fail .notFound

/-- Checks one component: its size, its digest and, below `bin/`, its ELF header. -/
def verifyComponent (ext : Externals) (policy : ComponentPolicy) (release : Place)
    (component : Component) : UpdaterProg S Unit := do
  let failed (reason : String) : UpdateError := .component component.name reason
  let unreadable (e : IoError) := failed s!"{component.path}: {ioText e}"
  match resolve component.path with
  | none => .fail (unreadable .notADirectory)
  | some path =>
    let metadata ← (readFile release path).mapError unreadable
    if metadata.length ≠ component.size then
      .fail (failed s!"the manifest says {component.size} bytes, the file is {metadata.length}")
    else
      let bytes ← (readFile release path).mapError unreadable
      let digest := ext.digestOf bytes
      if digest ≠ component.digest then
        .fail (failed s!"the manifest says {component.digest.text}, the file is {digest.text}")
      else
        match policy.machine with
        | some machine =>
          if startsWith component.path "bin/" then
            let header ← (readFile release path).mapError unreadable
            match inspectEntrypoint header with
            | .error _ => .fail (failed s!"{component.path} is not a usable entrypoint")
            | .ok target =>
              if target.machine ≠ machine then
                .fail (failed (s!"built for ELF machine {target.machine}, " ++
                  s!"this platform needs {machine}"))
        | none => pure ()

/-- Checks every component against the bytes in a release directory. -/
def verifyPayload (ext : Externals) (manifest : PlatformManifest) (release : Place)
    (policy : ComponentPolicy) : UpdaterProg S Unit :=
  Prog.each (verifyComponent ext policy release) manifest.components

/-- Parses a document that has been verified. -/
def parse (ext : Externals) (document : Bytes) : Except UpdateError VerifiedPlatform :=
  match ext.parse document with
  | .error reason => .error (.manifest reason)
  | .ok raw => (PlatformManifest.new raw).map .mk

/-- Reads and verifies the manifest of a release directory. -/
def readRelease (ext : Externals) (release : Place) : UpdaterProg S VerifiedPlatform := do
  let document ← (readFile release [MANIFEST_FILE_NAME]).mapError .io
  if MAX_MANIFEST_BYTES < document.length then
    .fail (.manifest s!"{document.length} bytes, over the {MAX_MANIFEST_BYTES} limit")
  else
    let armoured ← (readFile release [SIGNATURE_FILE_NAME]).mapError .io
    Prog.ofExcept (ext.verify document armoured)
    Prog.ofExcept (parse ext document)

end Programs

end Paperclip.Updater
