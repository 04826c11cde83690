import Paperclip.Packages.Release

/-!
# Reading a catalog

Fetch, verify, and refuse to go backwards. The last index that was accepted is kept in a cache of two
files, which is both the floor for the next one and what is shown while the catalog is out of reach.

* `Catalog.view`: the index, fetched or from the cache.
* `Catalog.accept`: the check against the cached index, and its replacement, file by file.
* `Catalog.release`, `Catalog.openArchive`: one release descriptor, and the archive it names.
-/

namespace Paperclip.Packages

open Crash Files Protocol

/-- Largest detached signature file that will be read. -/
def MAX_SIGNATURE_BYTES : Nat := 512

/-- Why bytes could not be fetched. -/
inductive TransportError where
  | unavailable (path : String)
  | unsafePath (path : String)
  deriving DecidableEq, Repr

/-- What a reader is going to deliver: some bytes, and then the end or an error. -/
structure Reader where
  bytes : Bytes
  broken : Option IoError

/-- Somewhere catalog bytes come from: what it answers to a path and a limit. -/
structure Transport where
  fetch : (path : String) → (limit : Nat) → Except TransportError Bytes
  openFile : (path : String) → (limit : Nat) → Except TransportError Reader

/-- Why a catalog could not be read or believed. -/
inductive CatalogError where
  | transport (source : TransportError)
  | malformedSignatureFile
  | signature (source : SignatureError)
  | document (source : ReleaseError)
  | indexDisagreement (listed signed : String)
  | rollback (catalog : String) (offered accepted : Nat)
  | stalledSerial (catalog : String) (serial : Nat)
  | store (source : IoError)
  deriving DecidableEq

/-- A file of the cache directory: `<stem>.toml`, or `<stem>.toml.sig` beside it. -/
inductive CacheFile where
  | document (stem : String)
  | signature (stem : String)
  deriving DecidableEq, Repr

/-- The stem of the cache files of a catalog. A catalog names itself, and a name is not a path:
anything that is not a plain identifier character becomes `_`. -/
def cacheStem (catalog : String) : String :=
  String.ofList (catalog.toList.map fun c =>
    if isAsciiAlphanumeric c || c == '-' || c == '_' then c else '_')

/-- What the cache directory holds. -/
abbrev Cache := Disk Unit CacheFile fun _ => Bytes

/-- A program on the cache directory. -/
abbrev CacheProg (S : Sig) := Prog (withFs S Unit CacheFile fun _ => Bytes) CatalogError

/-- An order in which the filesystem lists the cache directory. -/
structure Listing where
  order : List CacheFile → List CacheFile
  perm : ∀ names, (order names).Perm names

/-- What a catalog is offering, and how fresh the answer is. `document` is the bytes of the index,
which only the statements about a view use. -/
structure CatalogView where
  index : CatalogIndex
  signer : KeyId
  stale : Bool
  document : Bytes

/-- The last index a device accepted, as it was served. -/
structure CachedIndex where
  document : Bytes
  signature : Bytes

/-- A catalog, read through a transport and checked against trusted keys. -/
structure Catalog (K : Type) where
  transport : Transport
  keys : TrustedKeys K
  /-- Whether it has somewhere to remember the last index it accepted. -/
  cache : Bool

variable {K : Type}

/-- The text of a detached signature file, parsed. -/
def readSignature (bytes : Bytes) : Except CatalogError Signature :=
  match decodeUtf8 bytes with
  | none => .error .malformedSignatureFile
  | some text => (Signature.parse text).mapError .signature

/-- Verifies index bytes, without accepting them. -/
def verifyIndex (crates : Crates K) (keys : TrustedKeys K) (bytes signature : Bytes) :
    Except CatalogError VerifiedIndex := do
  let signature ← readSignature signature
  let verified ← (keys.verify crates .catalog bytes signature).mapError .signature
  (parseIndex verified).mapError .document

/-- Whether an index may follow the cached one. A serial that stands still while the content moves
cannot be ordered against what is already trusted. -/
def checkSerial (crates : Crates K) (keys : TrustedKeys K) (index : CatalogIndex) (bytes : Bytes) :
    Option CachedIndex → Except CatalogError Unit
  | none => .ok ()
  | some previous => do
    let cached ← verifyIndex crates keys previous.document previous.signature
    if index.serial < cached.index.serial then
      .error (.rollback index.catalog index.serial cached.index.serial)
    else if index.serial = cached.index.serial ∧ bytes ≠ previous.document then
      .error (.stalledSerial index.catalog index.serial)
    else .ok ()

/-- A path beside `descriptor`, named by `file`. -/
def sibling (descriptor file : RelativePath) : String :=
  "/".intercalate (descriptor.components.dropLast ++ [file.text])

section Programs

variable {S : Sig}

/-- The two files of a catalog, if both can be read. -/
def readCache (stem : String) : CacheProg S (Option CachedIndex) := do
  let document ← (fs (.get (.document stem))).attempt
  let signature ← (fs (.get (.signature stem))).attempt
  match document, signature with
  | .ok (some document), .ok (some signature) => pure (some ⟨document, signature⟩)
  | _, _ => pure none

namespace Catalog

/-- A catalog with no memory: every read must reach the transport. -/
def new (transport : Transport) (keys : TrustedKeys K) : Catalog K := ⟨transport, keys, false⟩

/-- Gives the catalog somewhere to remember the last index it accepted. -/
def withCache (catalog : Catalog K) : Catalog K := { catalog with cache := true }

/-- The index and its signature, as the transport serves them. -/
def fetched (catalog : Catalog K) : Except TransportError (Bytes × Bytes) := do
  let bytes ← catalog.transport.fetch INDEX_FILE_NAME MAX_INDEX_BYTES
  let signature ← catalog.transport.fetch (INDEX_FILE_NAME ++ SIGNATURE_SUFFIX) MAX_SIGNATURE_BYTES
  return (bytes, signature)

/-- Refuses an index older than the newest one already seen, then caches it. -/
def accept (crates : Crates K) (catalog : Catalog K) (verified : VerifiedIndex)
    (bytes signature : Bytes) : CacheProg S Unit :=
  if catalog.cache then do
    let index := verified.index
    let stem := cacheStem index.catalog
    let previous ← readCache stem
    Prog.ofExcept (checkSerial crates catalog.keys index bytes previous)
    (fs (.createDirAll ())).mapError .store
    (fs (.put (.document stem) bytes)).mapError .store
    (fs (.put (.signature stem) signature)).mapError .store
  else pure ()

/-- The first complete pair of a listing, which must verify. -/
def firstCached (crates : Crates K) (keys : TrustedKeys K) (unavailable : TransportError) :
    List CacheFile → CacheProg S CatalogView
  | [] => .fail (.transport unavailable)
  -- its extension is `sig`
  | .signature _ :: rest => firstCached crates keys unavailable rest
  | .document stem :: rest => do
    match ← readCache stem with
    | some cached =>
      let verified ← Prog.ofExcept (verifyIndex crates keys cached.document cached.signature)
      pure ⟨verified.index, verified.signer, true, cached.document⟩
    | none => firstCached crates keys unavailable rest

/-- The last accepted index, when the catalog itself cannot be reached. -/
def cachedView (crates : Crates K) (catalog : Catalog K) (listing : Listing)
    (unavailable : TransportError) : CacheProg S CatalogView :=
  if catalog.cache then do
    match ← (fs .docNames).attempt with
    | .ok names => firstCached crates catalog.keys unavailable (listing.order names)
    | .error _ => .fail (.transport unavailable)
  else .fail (.transport unavailable)

/-- Fetches, verifies and accepts the index. -/
def view (crates : Crates K) (catalog : Catalog K) (listing : Listing) :
    CacheProg S CatalogView :=
  match catalog.fetched with
  | .error unavailable => catalog.cachedView crates listing unavailable
  | .ok (bytes, signature) => do
    let verified ← Prog.ofExcept (verifyIndex crates catalog.keys bytes signature)
    catalog.accept crates verified bytes signature
    pure ⟨verified.index, verified.signer, false, bytes⟩

/-- Fetches and verifies one release descriptor. -/
def release (crates : Crates K) (catalog : Catalog K) (entry : IndexEntry) :
    Except CatalogError VerifiedRelease := do
  let path := entry.descriptor.text
  let bytes ← (catalog.transport.fetch path MAX_RELEASE_BYTES).mapError .transport
  let signature ← (catalog.transport.fetch (path ++ SIGNATURE_SUFFIX)
    MAX_SIGNATURE_BYTES).mapError .transport
  let signature ← readSignature signature
  let verified ← (catalog.keys.verify crates .release bytes signature).mapError .signature
  let release ← (parseRelease verified).mapError .document
  if release.release.app ≠ entry.app ∨ release.release.version ≠ entry.version then
    .error (.indexDisagreement s!"{entry.app.text} {entry.version}"
      s!"{release.release.app.text} {release.release.version}")
  else .ok release

/-- Opens the archive a release names, as a stream. -/
def openArchive (catalog : Catalog K) (entry : IndexEntry) (release : VerifiedRelease) :
    Except CatalogError Reader :=
  (catalog.transport.openFile (sibling entry.descriptor release.release.archive)
    release.release.size).mapError .transport

end Catalog

end Programs

/-! ## What was verified -/

section Verification

variable {crates : Crates K} {keys : TrustedKeys K}

theorem bind_ok {ε α β : Type} {r : Except ε α} {f : α → Except ε β} {b : β}
    (h : (r >>= f) = .ok b) : ∃ a, r = .ok a ∧ f a = .ok b := by
  cases r with
  | ok a => exact ⟨a, rfl, h⟩
  | error e => cases h

theorem mapError_ok {ε ε' α : Type} {r : Except ε α} {g : ε → ε'} {a : α}
    (h : r.mapError g = .ok a) : r = .ok a := by
  cases r with
  | ok _ => cases h; rfl
  | error e => cases h

/-- A verified index is what its bytes spell, and a trusted key signed them as an index. -/
theorem verifyIndex_ok {bytes signature : Bytes} {verified : VerifiedIndex}
    (h : verifyIndex crates keys bytes signature = .ok verified) :
    readIndex crates bytes = .ok verified.index ∧
      Signed crates keys .catalog bytes verified.signer := by
  obtain ⟨sig, -, h⟩ := bind_ok h
  obtain ⟨v, hv, h⟩ := bind_ok h
  obtain ⟨hb, hd, -⟩ := TrustedKeys.verify_ok (mapError_ok hv)
  obtain ⟨-, hr, hs⟩ := parseIndex_ok (mapError_ok h)
  refine ⟨hb ▸ hr, ?_⟩
  rw [hs, ← hb, ← hd]
  exact v.signed

/-- A release that a catalog gives is what its bytes describe, a trusted key signed them as a release
descriptor, and it is the one that the index listed. -/
theorem Catalog.release_ok {catalog : Catalog K} {entry : IndexEntry} {release : VerifiedRelease}
    (h : catalog.release crates entry = .ok release) :
    ∃ bytes, readDescriptor crates bytes = .ok release.release ∧
      Signed crates catalog.keys .release bytes release.signer ∧
      release.release.app = entry.app ∧ release.release.version = entry.version := by
  obtain ⟨bytes, -, h⟩ := bind_ok h
  obtain ⟨_, -, h⟩ := bind_ok h
  obtain ⟨sig, -, h⟩ := bind_ok h
  obtain ⟨v, hv, h⟩ := bind_ok h
  obtain ⟨r, hr, h⟩ := bind_ok h
  obtain ⟨hb, hd, -⟩ := TrustedKeys.verify_ok (mapError_ok hv)
  obtain ⟨-, hr, hs⟩ := parseRelease_ok (mapError_ok hr)
  split at h
  · cases h
  next hn =>
  cases h
  rw [not_or, not_not, not_not] at hn
  refine ⟨bytes, hb ▸ hr, ?_, hn⟩
  rw [hs, ← hb, ← hd]
  exact v.signed

end Verification

end Paperclip.Packages
