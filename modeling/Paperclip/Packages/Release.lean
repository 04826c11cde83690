import Paperclip.Packages.Signing

/-!
# Release descriptors and the catalog index

The two signed documents. A parser takes a `Verified`, so what it reads has been signed, and as the
kind of document that it reads.

* `CatalogIndex`: an index that passed its checks; the proof is part of the type.
* `parseIndex`, `parseRelease`: from verified bytes. The content does not depend on the signer:
  `readIndex` and `readDescriptor` are the content alone.
-/

namespace Paperclip.Packages

open Files Protocol

/-- Largest release descriptor that will be read, in bytes. -/
def MAX_RELEASE_BYTES : Nat := 16 * 1024

/-- Largest catalog index that will be read, in bytes. -/
def MAX_INDEX_BYTES : Nat := 1024 * 1024

/-- Longest release notes a descriptor may carry, in bytes. -/
def MAX_NOTES_BYTES : Nat := 4096

def RELEASE_FILE_NAME : String := "release.toml"

def INDEX_FILE_NAME : String := "index.toml"

def SIGNATURE_SUFFIX : String := ".sig"

/-- Why a signed document could not be read. -/
inductive ReleaseError where
  | wrongDomain (domain : String)
  | tooLarge (len max : Nat)
  | notUtf8
  | schema (source : String)
  | field (field value : String)
  | notesTooLong (len max : Nat)
  | catalogName (len max : Nat)
  | tooManyEntries (len max : Nat)
  deriving DecidableEq, Repr

/-- Bounds and decodes a document before any parser sees it. -/
def documentText (bytes : Bytes) (max : Nat) : Except ReleaseError String :=
  if max < bytes.length then .error (.tooLarge bytes.length max)
  else match decodeUtf8 bytes with
    | some text => .ok text
    | none => .error .notUtf8

/-- Parses one field into its checked type. -/
def field {α : Type} (name value : String) (parsed : Option α) : Except ReleaseError α :=
  match parsed with
  | some a => .ok a
  | none => .error (.field name value)

/-- A package path of a document. -/
def parsePath (text : String) : Option RelativePath := (RelativePath.parse text).toOption

/-! ## The catalog index -/

/-- One line of a catalog index. -/
structure IndexEntry where
  app : AppId
  name : DisplayName
  version : Version
  descriptor : RelativePath

/-- The fields of a catalog index. -/
structure RawIndex where
  catalog : String
  serial : Nat
  generated : Nat
  entries : List IndexEntry

namespace RawIndex

/-- Longest catalog name, in bytes. -/
def MAX_NAME_LEN : Nat := 64

/-- Most entries an index may list. -/
def MAX_ENTRIES : Nat := 1024

/-- The rules an index must satisfy. -/
def check (index : RawIndex) : Except ReleaseError Unit :=
  if index.catalog = "" ∨ MAX_NAME_LEN < index.catalog.utf8ByteSize then
    .error (.catalogName index.catalog.utf8ByteSize MAX_NAME_LEN)
  else if MAX_ENTRIES < index.entries.length then
    .error (.tooManyEntries index.entries.length MAX_ENTRIES)
  else .ok ()

end RawIndex

/-- What a catalog is offering, and how current it is. -/
structure CatalogIndex extends RawIndex where
  checked : toRawIndex.check = .ok ()

/-- An index with these fields, if they pass the checks. -/
def CatalogIndex.of (raw : RawIndex) : Except ReleaseError CatalogIndex :=
  match h : raw.check with
  | .ok () => .ok ⟨raw, h⟩
  | .error e => .error e

variable {K : Type} {crates : Crates K} {keys : TrustedKeys K}

/-- Parses the fields of one line. -/
def readEntry (crates : Crates K) (raw : RawIndexEntry) : Except ReleaseError IndexEntry := do
  let app ← field "app" raw.app (AppId.parse raw.app)
  let name ← field "name" raw.name (DisplayName.parse raw.name)
  let version ← field "version" raw.version (crates.version raw.version)
  let descriptor ← field "descriptor" raw.descriptor (parsePath raw.descriptor)
  return ⟨app, name, version, descriptor⟩

/-- The index that some bytes spell. -/
def readIndex (crates : Crates K) (bytes : Bytes) : Except ReleaseError CatalogIndex := do
  let text ← documentText bytes MAX_INDEX_BYTES
  let raw ← (crates.indexToml text).mapError .schema
  let entries ← raw.release.mapM (readEntry crates)
  CatalogIndex.of ⟨raw.name, raw.serial, raw.generated, entries⟩

/-- A catalog index whose signature has been checked. -/
structure VerifiedIndex where
  index : CatalogIndex
  signer : KeyId

/-- Parses a catalog index out of bytes a trusted key signed. -/
def parseIndex (verified : Verified crates keys) : Except ReleaseError VerifiedIndex :=
  if verified.domain ≠ .catalog then .error (.wrongDomain verified.domain.label)
  else (readIndex crates verified.bytes).map (⟨·, verified.signer⟩)

/-! ## Release descriptors -/

/-- One published version of one app. -/
structure Release where
  app : AppId
  name : DisplayName
  version : Version
  protocol : ProtocolVersion
  archive : RelativePath
  size : Nat
  digest : Digest
  published : Nat
  notes : String

/-- The release that some bytes describe. -/
def readDescriptor (crates : Crates K) (bytes : Bytes) : Except ReleaseError Release := do
  let text ← documentText bytes MAX_RELEASE_BYTES
  let raw ← (crates.releaseToml text).mapError .schema
  if MAX_NOTES_BYTES < raw.notes.utf8ByteSize then
    .error (.notesTooLong raw.notes.utf8ByteSize MAX_NOTES_BYTES)
  else
    let app ← field "app" raw.app (AppId.parse raw.app)
    let name ← field "name" raw.name (DisplayName.parse raw.name)
    let version ← field "version" raw.version (crates.version raw.version)
    let protocol ← field "protocol" raw.protocol (parseProtocol raw.protocol)
    let archive ← field "archive" raw.archive (parsePath raw.archive)
    let digest ← field "digest" raw.digest (Digest.parse raw.digest)
    return ⟨app, name, version, protocol, archive, raw.size, digest, raw.published, raw.notes⟩

/-- A release descriptor whose signature has been checked. -/
structure VerifiedRelease where
  release : Release
  signer : KeyId

/-- Parses a release descriptor out of bytes a trusted key signed. -/
def parseRelease (verified : Verified crates keys) : Except ReleaseError VerifiedRelease :=
  if verified.domain ≠ .release then .error (.wrongDomain verified.domain.label)
  else (readDescriptor crates verified.bytes).map (⟨·, verified.signer⟩)

/-! ## What the parsers give -/

/-- An index comes from a document of the catalog domain, and its content from the bytes alone. -/
theorem parseIndex_ok {verified : Verified crates keys} {index : VerifiedIndex}
    (h : parseIndex verified = .ok index) :
    verified.domain = .catalog ∧ readIndex crates verified.bytes = .ok index.index ∧
      index.signer = verified.signer := by
  unfold parseIndex at h
  split at h
  · cases h
  next hd =>
  cases hr : readIndex crates verified.bytes with
  | error e => rw [hr] at h; cases h
  | ok i =>
    rw [hr] at h
    cases h
    exact ⟨not_not.mp hd, rfl, rfl⟩

/-- A release comes from a document of the release domain, and its content from the bytes alone. -/
theorem parseRelease_ok {verified : Verified crates keys} {release : VerifiedRelease}
    (h : parseRelease verified = .ok release) :
    verified.domain = .release ∧ readDescriptor crates verified.bytes = .ok release.release ∧
      release.signer = verified.signer := by
  unfold parseRelease at h
  split at h
  · cases h
  next hd =>
  cases hr : readDescriptor crates verified.bytes with
  | error e => rw [hr] at h; cases h
  | ok i =>
    rw [hr] at h
    cases h
    exact ⟨not_not.mp hd, rfl, rfl⟩

end Paperclip.Packages
