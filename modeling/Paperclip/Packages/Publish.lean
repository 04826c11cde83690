import Paperclip.Packages.Catalog
import Paperclip.Packages.Documents
import Paperclip.Packages.Offers

/-!
# Publishing

A catalog directory has a directory for each release, with the archive, its description and the
signature of that, and an index with a signature. A publish adds a release and writes the index anew
from the descriptions that are there.

* `Publisher.publish`: adds a package. A version that is there is not replaced.
* `Filesystem`: what the files are kept on. Anything may fail, before or after it is done, but for
  the question whether a file exists.
* `Attempt`: a publish, which may be killed between two of its steps. `history`: what they leave.
* `publish_keeps`: a publish leaves a release alone that was there.
* `published_is_final`: so what was once published is there for good.
* `torn_stops`: a release that was described and never signed is there for good too, and no publish
  succeeds beside it.
-/

namespace Paperclip.Packages.Publisher

open Crash Crash.Prog Files Protocol

/-! ## A catalog directory -/

/-- A file of a catalog directory: of the directory of a release, or the index. -/
inductive CatalogFile where
  | archive (directory name : String)
  | descriptor (directory : String)
  | signature (directory : String)
  | index
  | indexSignature
  deriving DecidableEq, Repr

namespace CatalogFile

/-- The directory of the release that the file is of. -/
def directory? : CatalogFile → Option String
  | archive directory _ | descriptor directory | signature directory => some directory
  | index | indexSignature => none

/-- The directory that the file describes. -/
def described? : CatalogFile → Option String
  | descriptor directory => some directory
  | _ => none

end CatalogFile

abbrev CatalogDir := Disk String CatalogFile fun _ => Bytes

abbrev catalogSig : Sig := withFs noCalls String CatalogFile fun _ => Bytes

/-- Why a publish failed. -/
inductive PublishError where
  | immutable (app : AppId) (version : Version) (recorded offered : Digest)
  | archiveName (name : String)
  | tooLarge (len max : ℕ)
  | package (text : String)
  | document (source : ReleaseError)
  | signature (source : SignatureError)
  | io (source : IoError)

/-- A part of a publish. -/
abbrev PublishM := Prog catalogSig PublishError

variable {K : Type}

/-- The key of a publisher, with its public half. -/
structure SecretKey (K : Type) where
  publicKey : PublicKey K
  raw : Bytes → Raw 64

namespace SecretKey

def sign (secret : SecretKey K) (domain : Domain) (document : Bytes) : Signature :=
  ⟨secret.publicKey.id, secret.raw (domain.message document)⟩

/-- A trust set that holds only the public half. -/
def publicKeySet (secret : SecretKey K) : TrustedKeys K :=
  TrustedKeys.trust ∅ secret.publicKey

end SecretKey

/-- A package: its bytes, and the manifest that comes out when it is unpacked. -/
structure Package where
  bytes : Bytes
  manifest : Except PublishError Manifest

/-- What a publish produced. -/
structure Published where
  app : AppId
  version : Version
  digest : Digest
  size : ℕ
  serial : ℕ
  alreadyPublished : Bool
  archive : String

/-! ## Reading what is there -/

def ARCHIVE_EXTENSION : String := "paperpkg"

/-- A description and its signature, checked. -/
def verifyRelease (crates : Crates K) (keys : TrustedKeys K) (bytes : Bytes) (signature : String) :
    Except PublishError VerifiedRelease := do
  let signature ← (Signature.parse signature).mapError .signature
  let verified ← (keys.verify crates .release bytes signature).mapError .signature
  (parseRelease verified).mapError .document

/-- The serial after that of an index. -/
def nextSerial (crates : Crates K) (keys : TrustedKeys K) (bytes : Bytes) (signature : String) :
    Except PublishError ℕ := do
  let signature ← (Signature.parse signature).mapError .signature
  let verified ← (keys.verify crates .catalog bytes signature).mapError .signature
  let index ← (parseIndex verified).mapError .document
  return index.index.serial + 1

/-- A file that must be there, and not longer than `max`. -/
def readBounded (f : CatalogFile) (max : ℕ) : PublishM Bytes := do
  match ← (fs (.get f)).mapError .io with
  | none => .fail (.io .notFound)
  | some bytes => if max < bytes.length then .fail (.tooLarge bytes.length max) else pure bytes

/-- A file that must be there, and a text. -/
def readText (f : CatalogFile) : PublishM String := do
  match ← (fs (.get f)).mapError .io with
  | none => .fail (.io .notFound)
  | some bytes =>
    match decodeUtf8 bytes with
    | none => .fail (.io (.other "stream did not contain valid UTF-8"))
    | some text => pure text

/-- The description of the release in a directory. -/
def readRelease (crates : Crates K) (keys : TrustedKeys K) (directory : String) :
    PublishM VerifiedRelease := do
  let bytes ← readBounded (.descriptor directory) MAX_RELEASE_BYTES
  let signature ← readText (.signature directory)
  Prog.ofExcept (verifyRelease crates keys bytes signature)

/-- The index and its signature. -/
def readIndexBytes : PublishM (Bytes × String) := do
  let bytes ← readBounded .index MAX_INDEX_BYTES
  let signature ← readText .indexSignature
  return (bytes, signature)

/-! ## The index -/

/-- Every directory with a description in it, sorted. None, if they cannot be listed. -/
def releaseDirectories : PublishM (List String) := do
  match ← (fs .docNames).attempt with
  | .error _ => pure []
  | .ok names =>
    pure ((names.filterMap CatalogFile.described?).insertionSort fun a b => ¬b < a)

/-- The line of a release. -/
def entryOf (release : Release) (directory : String) : Except PublishError IndexEntry :=
  match RelativePath.parse s!"{directory}/{RELEASE_FILE_NAME}" with
  | .ok path => .ok ⟨release.app, release.name, release.version, path⟩
  | .error _ => .error (.archiveName directory)

/-- The lines of the releases in some directories. -/
def readEntries (crates : Crates K) (keys : TrustedKeys K) :
    List String → PublishM (List IndexEntry)
  | [] => pure []
  | directory :: rest => do
    let release ← readRelease crates keys directory
    let entry ← Prog.ofExcept (entryOf release.release directory)
    let entries ← readEntries crates keys rest
    return entry :: entries

/-- The order of the lines of an index. -/
def Precedes (a b : IndexEntry) : Prop :=
  a.app.text < b.app.text ∨ (a.app.text = b.app.text ∧ a.version.le b.version)

instance : DecidableRel Precedes := fun a b =>
  inferInstanceAs (Decidable (a.app.text < b.app.text ∨
    (a.app.text = b.app.text ∧ a.version.le b.version)))

/-- The serial of the next index. It is the first one if there is none yet that can be read. -/
def serialAfter (crates : Crates K) (keys : TrustedKeys K) :
    Except PublishError (Bytes × String) → Except PublishError ℕ
  | .ok (bytes, signature) => nextSerial crates keys bytes signature
  | .error _ => .ok 1

/-- Writes and signs the index anew from the descriptions on disk, and gives its serial. -/
def rewriteIndex (crates : Crates K) (name : String) (secret : SecretKey K) (generated : ℕ) :
    PublishM ℕ := do
  let keys := secret.publicKeySet
  let directories ← releaseDirectories
  let entries ← readEntries crates keys directories
  let found ← (readIndexBytes).attempt
  let serial ← Prog.ofExcept (serialAfter crates keys found)
  let index ← Prog.ofExcept
    ((CatalogIndex.new name serial generated (entries.insertionSort Precedes)).mapError .document)
  let document := encodeUtf8 index.toDocument
  (fs (.put .index document)).mapError .io
  (fs (.put .indexSignature (encodeUtf8 (secret.sign .catalog document).toArmoured))).mapError .io
  return serial

/-! ## A publish -/

/-- Where a release is, in the catalog. -/
def directory (release : Release) : String := s!"apps/{release.app.text}/{release.version}"

/-- The bytes of the description of a release. -/
def document (release : Release) : Bytes := encodeUtf8 release.toDocument

/-- What a publish says of a package. -/
def describe (crates : Crates K) (package : Package) (notes : String) (publishedAt : ℕ) :
    Except PublishError Release := do
  let manifest ← package.manifest
  let name := s!"{manifest.id.leaf}-{manifest.version}.{ARCHIVE_EXTENSION}"
  let archive ← (RelativePath.parse name).mapError fun _ => .archiveName name
  (Release.new manifest archive package.bytes.length (.ofBytes crates package.bytes) publishedAt
    notes).mapError .document

/-- Refuses a version that is there with other bytes. -/
def checkUnchanged (crates : Crates K) (secret : SecretKey K) (release : Release) :
    PublishM Unit := do
  let previous ← readRelease crates secret.publicKeySet (directory release)
  if previous.release.digest ≠ release.digest then
    .fail (.immutable release.app release.version previous.release.digest release.digest)
  else pure ()

/-- Writes the files of a release, the signature last. -/
def writeRelease (secret : SecretKey K) (package : Package) (release : Release) :
    PublishM Unit := do
  let target := directory release
  (fs (.createDirAll target)).mapError .io
  (fs (.put (.archive target release.archive.text) package.bytes)).mapError .io
  (fs (.put (.descriptor target) (document release))).mapError .io
  (fs (.put (.signature target)
    (encodeUtf8 (secret.sign .release (document release)).toArmoured))).mapError .io

/-- Puts a release in its place, and says whether it was there. A description that cannot be asked
for counts as one that is not there. -/
def place (crates : Crates K) (secret : SecretKey K) (package : Package) (release : Release) :
    Except IoError Bool → PublishM Bool
  | .ok true => do
    checkUnchanged crates secret release
    return true
  | _ => do
    writeRelease secret package release
    return false

/-- Adds a package to the catalog and writes the index anew. -/
def publish (crates : Crates K) (name : String) (package : Package) (secret : SecretKey K)
    (notes : String) (publishedAt : ℕ) : PublishM Published := do
  let release ← Prog.ofExcept (describe crates package notes publishedAt)
  let existing ← (fs (.has (.descriptor (directory release)))).attempt
  let alreadyPublished ← place crates secret package release existing
  let serial ← rewriteIndex crates name secret publishedAt
  return ⟨release.app, release.version, release.digest, release.size, serial, alreadyPublished,
    s!"{directory release}/{release.archive.text}"⟩

/-! ## Runs -/

/-- What the files are kept on. An operation may fail, and may have been done or not when it says
so. It changes nothing that it does not name, and what it says it did is done. -/
structure Filesystem where
  handle : Handler catalogSig CatalogDir
  frame : ∀ (o : FsOp String CatalogFile fun _ => Bytes) (d : CatalogDir) (f : CatalogFile),
    f ∉ o.names → (handle (.inl o) d).2.doc f = d.doc f
  exists_ : ∀ (f : CatalogFile) (d : CatalogDir),
    (handle (.inl (.has f)) d).1 = .ok (d.doc f).isSome
  read : ∀ (f : CatalogFile) (d : CatalogDir) (x : Option Bytes),
    (handle (.inl (.get f)) d).1 = .ok x → x = d.doc f
  written : ∀ (f : CatalogFile) (x : Bytes) (d : CatalogDir),
    (handle (.inl (.put f x)) d).1 = .ok () → (handle (.inl (.put f x)) d).2.doc f = some x

/-- A filesystem on which nothing fails. -/
def handleCatalog : Handler catalogSig CatalogDir
  | .inl o, d => o.exec .byDepth d
  | .inr o, _ => o.elim

instance : Inhabited Filesystem where
  default := {
    handle := handleCatalog
    frame := fun o d _ hf => FsOp.exec_doc .byDepth o d hf
    exists_ := fun f d => by simp only [handleCatalog, FsOp.exec]; rfl
    read := fun f d x h => by
      simp only [handleCatalog, FsOp.exec] at h
      exact (Except.ok.inj h).symm
    written := fun f x d _ => by simp only [handleCatalog, FsOp.exec, Disk.setDoc_doc_self] }

/-- A publish. One with a `cut` is killed after so many steps, if it takes that many. -/
structure Attempt (K : Type) where
  filesystem : Filesystem
  package : Package
  secret : SecretKey K
  notes : String
  publishedAt : ℕ
  cut : Option ℕ

namespace Attempt

variable (crates : Crates K) (name : String)

def program (attempt : Attempt K) : PublishM Published :=
  publish crates name attempt.package attempt.secret attempt.notes attempt.publishedAt

/-- What comes of a publish that is not killed. -/
def result (attempt : Attempt K) (w : CatalogDir) : Except PublishError Published × CatalogDir :=
  (attempt.program crates name).run attempt.filesystem.handle w

/-- What a publish leaves. -/
def run (w : CatalogDir) (attempt : Attempt K) : CatalogDir :=
  match attempt.cut.bind fun n =>
      ((attempt.program crates name).points attempt.filesystem.handle w)[n]? with
  | some w' => w'
  | none => (attempt.result crates name w).2

end Attempt

/-- What publishes leave, one after another. -/
def history (crates : Crates K) (name : String) (w : CatalogDir) (attempts : List (Attempt K)) :
    CatalogDir := attempts.foldl (Attempt.run crates name) w

/-! ## What a publish leaves alone -/

/-- The files of a directory are as they were. -/
def Kept (target : String) (w w' : CatalogDir) : Prop :=
  ∀ f : CatalogFile, f.directory? = some target → w'.doc f = w.doc f

theorem Kept.refl (target : String) (w : CatalogDir) : Kept target w w := fun _ _ => rfl

theorem Kept.trans {target : String} {w w' w'' : CatalogDir} (h : Kept target w w')
    (h' : Kept target w' w'') : Kept target w w'' := fun f hf => (h' f hf).trans (h f hf)

/-- An operation that changes no file of a directory. -/
def Spares (target : String) : catalogSig.Op → Prop
  | .inl o => ∀ f ∈ o.names, f.directory? ≠ some target
  | .inr _ => True

variable {crates : Crates K} {target : String} {fsys : Filesystem} {w w' : CatalogDir}

theorem Kept.step {op : catalogSig.Op} (hop : Spares target op) (h : Kept target w w') :
    Kept target w (fsys.handle op w').2 := by
  cases op with
  | inl o =>
    refine fun f hf => ?_
    have hnot : f ∉ o.names := fun hmem => hop f hmem hf
    exact (fsys.frame o w' f hnot).trans (h f hf)
  | inr o => exact o.elim

/-- A part that spares a directory leaves it alone. -/
theorem safe_of_spares {ε α : Type} {p : Prog catalogSig ε α} (hp : p.Only (Spares target))
    (h : Kept target w w') :
    p.Safe fsys.handle (Kept target w) (fun _ => Kept target w) w' :=
  Safe.of_only hp (fun _ _ hop hkept => hkept.step hop) h

section Sparing

theorem spares_fs {ε : Type} {o : FsOp String CatalogFile fun _ => Bytes} {g : IoError → ε}
    (h : ∀ f ∈ o.names, f.directory? ≠ some target) :
    ((fs o).mapError g : Prog catalogSig ε _).Only (Spares target) :=
  Prog.Only.mapError ⟨h, fun _ => Prog.only_ofExcept⟩

theorem spares_readBounded (f : CatalogFile) (max : ℕ) :
    (readBounded f max).Only (Spares target) := by
  refine (spares_fs fun _ h => (by cases h)).bind fun found => ?_
  cases found with
  | none => trivial
  | some bytes =>
    dsimp only
    split <;> trivial

theorem spares_readText (f : CatalogFile) : (readText f).Only (Spares target) := by
  refine (spares_fs fun _ h => (by cases h)).bind fun found => ?_
  cases found with
  | none => trivial
  | some bytes =>
    dsimp only
    split <;> trivial

theorem spares_readRelease (keys : TrustedKeys K) (directory : String) :
    (readRelease crates keys directory).Only (Spares target) :=
  (spares_readBounded _ _).bind fun _ => (spares_readText _).bind fun _ => Prog.only_ofExcept

theorem spares_readEntries (keys : TrustedKeys K) (directories : List String) :
    (readEntries crates keys directories).Only (Spares target) := by
  induction directories with
  | nil => trivial
  | cons directory rest ih =>
    refine (spares_readRelease keys directory).bind fun release => ?_
    exact Prog.only_ofExcept.bind fun entry => ih.bind fun _ => trivial

/-- The index is in no directory of a release. -/
theorem spares_rewriteIndex (name : String) (secret : SecretKey K) (generated : ℕ) :
    (rewriteIndex crates name secret generated).Only (Spares target) := by
  have hlist : releaseDirectories.Only (Spares target) := by
    refine Prog.Only.bind (Prog.Only.attempt ⟨fun _ h => (by cases h), fun _ =>
      Prog.only_ofExcept⟩) fun names => ?_
    cases names <;> trivial
  have hput {f : CatalogFile} {x : Bytes} (hf : f.directory? = none) :
      ((fs (.put f x)).mapError PublishError.io : PublishM _).Only (Spares target) := by
    refine spares_fs fun g hg => ?_
    rw [List.mem_singleton.1 hg, hf]
    exact fun h => by cases h
  refine hlist.bind fun directories => (spares_readEntries _ directories).bind fun entries => ?_
  refine Prog.Only.bind (Prog.Only.attempt ((spares_readBounded _ _).bind fun _ =>
    (spares_readText _).bind fun _ => trivial)) fun found => ?_
  refine Prog.Only.bind Prog.only_ofExcept fun serial => Prog.Only.bind Prog.only_ofExcept
    fun index => Prog.Only.bind ?_ fun _ => Prog.Only.bind ?_ fun _ => ?_
  · exact hput rfl
  · exact hput rfl
  · trivial

theorem spares_checkUnchanged (secret : SecretKey K) (release : Release) :
    (checkUnchanged crates secret release).Only (Spares target) := by
  refine (spares_readRelease _ _).bind fun previous => ?_
  split <;> trivial

/-- A release is written to its own directory. -/
theorem spares_writeRelease (secret : SecretKey K) (package : Package) {release : Release}
    (h : directory release ≠ target) :
    (writeRelease secret package release).Only (Spares target) := by
  have hput {f : CatalogFile} {x : Bytes} (hf : f.directory? = some (directory release)) :
      ((fs (.put f x)).mapError PublishError.io : PublishM _).Only (Spares target) := by
    refine spares_fs fun g hg => ?_
    rw [List.mem_singleton.1 hg, hf]
    exact fun heq => h (Option.some.inj heq)
  exact (spares_fs fun _ hf => (by cases hf)).bind fun _ => (hput rfl).bind fun _ =>
    (hput rfl).bind fun _ => hput rfl

theorem spares_place (secret : SecretKey K) (package : Package) {release : Release} {present : Bool}
    (h : directory release = target → present = true) :
    (place crates secret package release (.ok present)).Only (Spares target) := by
  cases present with
  | true => exact (spares_checkUnchanged secret release).bind fun _ => trivial
  | false =>
    have hne : directory release ≠ target := fun heq => by cases h heq
    exact (spares_writeRelease secret package hne).bind fun _ => trivial

end Sparing

/-- The question whether a file exists is answered. -/
theorem safe_has {α : Type} {C : CatalogDir → Prop} {R : Except PublishError α → CatalogDir → Prop}
    {g : CatalogFile} {f : Except IoError Bool → PublishM α} (hC : C w)
    (hf : (f (.ok (w.doc g).isSome)).Safe fsys.handle C R (fsys.handle (.inl (.has g)) w).2) :
    ((fs (.has g)).attempt.bind f).Safe fsys.handle C R w := by
  refine Safe.attempt_bind ⟨hC, ?_⟩
  rw [fsys.exists_ g w]
  exact ⟨hf.here, hf⟩

theorem Kept.has (target : String) (g : CatalogFile) (w : CatalogDir) :
    Kept target w (fsys.handle (.inl (.has g)) w).2 :=
  (Kept.refl target w).step fun _ hf => (by cases hf)

/-- A publish leaves a release alone that is there. -/
theorem publish_keeps (name : String) (package : Package) (secret : SecretKey K) (notes : String)
    (publishedAt : ℕ) (h : w.doc (.descriptor target) ≠ none) :
    (publish crates name package secret notes publishedAt).Safe fsys.handle (Kept target w)
      (fun _ => Kept target w) w := by
  unfold publish
  cases describe crates package notes publishedAt with
  | error e => exact ⟨.refl _ _, .refl _ _⟩
  | ok release =>
    refine safe_has (.refl _ _) (safe_of_spares ?_ (.has _ _ _))
    refine (spares_place secret package ?_).bind fun _ =>
      (spares_rewriteIndex _ _ _).bind fun _ => trivial
    rintro rfl
    exact Option.isSome_iff_ne_none.2 h

/-- Publishes leave a release alone that is there, and what they are killed in as well. -/
theorem history_keeps (crates : Crates K) (name : String) (attempts : List (Attempt K))
    (h : w.doc (.descriptor target) ≠ none) :
    Kept target w (history crates name w attempts) := by
  induction attempts generalizing w with
  | nil => exact .refl _ _
  | cons attempt rest ih =>
    have hsafe : (attempt.program crates name).Safe attempt.filesystem.handle (Kept target w)
        (fun _ => Kept target w) w :=
      publish_keeps name attempt.package attempt.secret attempt.notes attempt.publishedAt h
    have hstep : Kept target w (attempt.run crates name w) := by
      unfold Attempt.run
      split
      · next w' hw' =>
        obtain ⟨n, -, hn⟩ := Option.bind_eq_some_iff.1 hw'
        exact hsafe.points (List.mem_of_getElem? hn)
      · exact hsafe.result_point
    refine hstep.trans (ih ?_)
    rw [hstep _ rfl]
    exact h

/-! ## What a publish leaves -/

section Results

variable {secret : SecretKey K} {package : Package} {release : Release}

/-- A release is in its place: it was there with the same digest, or it is there now. -/
structure Placed (crates : Crates K) (package : Package) (release : Release)
    (alreadyPublished : Bool) (w : CatalogDir) : Prop where
  before : alreadyPublished = true → ∃ bytes previous,
    w.doc (.descriptor (directory release)) = some bytes ∧
      readDescriptor crates bytes = .ok previous ∧ previous.digest = release.digest
  now : alreadyPublished = false →
    w.doc (.descriptor (directory release)) = some (document release) ∧
      w.doc (.archive (directory release) release.archive.text) = some package.bytes

theorem Placed.there {alreadyPublished : Bool}
    (h : Placed crates package release alreadyPublished w) :
    w.doc (.descriptor (directory release)) ≠ none := by
  cases alreadyPublished with
  | true =>
    obtain ⟨bytes, -, hbytes, -⟩ := h.before rfl
    rw [hbytes]
    exact Option.some_ne_none _
  | false =>
    rw [(h.now rfl).1]
    exact Option.some_ne_none _

theorem Placed.kept {alreadyPublished : Bool} (h : Placed crates package release alreadyPublished w)
    (hkept : Kept (directory release) w w') :
    Placed crates package release alreadyPublished w' := by
  refine ⟨fun hb => ?_, fun hb => ?_⟩
  · rw [hkept _ rfl]
    exact h.before hb
  · rw [hkept _ rfl, hkept _ rfl]
    exact h.now hb

end Results

/-- What a publish says that succeeded, and what there is of it. -/
def Leaves (crates : Crates K) (attempt : Attempt K) (p : Published) (w : CatalogDir) : Prop :=
  ∃ release, describe crates attempt.package attempt.notes attempt.publishedAt = .ok release ∧
    p.app = release.app ∧ p.version = release.version ∧
    (p.digest = release.digest ∧ release.digest = .ofBytes crates attempt.package.bytes) ∧
    Placed crates attempt.package release p.alreadyPublished w

/-- A release that is described and not signed, as a publish leaves it that is killed between the
two. -/
structure Torn (target : String) (w : CatalogDir) : Prop where
  described : w.doc (.descriptor target) ≠ none
  unsigned : w.doc (.signature target) = none

theorem Torn.kept (h : Torn target w) (hkept : Kept target w w') : Torn target w' :=
  ⟨by rw [hkept _ rfl]; exact h.described, by rw [hkept _ rfl]; exact h.unsigned⟩

/-- The filesystem lists every file that is there. -/
def Filesystem.Lists (fsys : Filesystem) : Prop :=
  ∀ (f : CatalogFile) (w : CatalogDir), w.doc f ≠ none →
    ∃ names, (fsys.handle (.inl .docNames) w).1 = .ok names ∧ f ∈ names

example : (default : Filesystem).Lists := by
  intro f w h
  refine ⟨w.docs.keys, ?_, AList.mem_keys.1 (AList.lookup_isSome.1 (Option.isSome_iff_ne_none.2 h))⟩
  show (handleCatalog (.inl .docNames) w).1 = _
  simp only [handleCatalog, FsOp.exec]
  rfl

/-- A part that never ends well in the worlds in which a release is torn. -/
abbrev Stops {α : Type} (fsys : Filesystem) (p : PublishM α) (w : CatalogDir) : Prop :=
  p.Safe fsys.handle (fun _ => True) (OnOk fun _ _ => False) w

/-- Parts that leave the release alone leave it torn. -/
theorem Torn.bind {α β : Type} {p : PublishM α} {f : α → PublishM β} (h : Torn target w)
    (hp : p.Only (Spares target)) (hf : ∀ a w', Torn target w' → Stops fsys (f a) w') :
    Stops fsys (p.bind f) w := by
  have hsafe : p.Safe fsys.handle (Kept target w) (fun _ => Kept target w) w :=
    safe_of_spares hp (.refl _ _)
  have htorn : p.Safe fsys.handle (fun _ => True) (OnOk fun _ => Torn target) w :=
    hsafe.mono (fun _ _ => trivial) fun _ _ _ hkept _ _ => h.kept hkept
  exact htorn.bind_onOk hf

theorem Torn.readRelease (h : Torn target w) (keys : TrustedKeys K) :
    Stops fsys (readRelease crates keys target) w := by
  refine h.bind (spares_readBounded _ _) fun bytes w' h => ?_
  have hread : (readText (.signature target)).Safe fsys.handle (fun _ => True)
      (OnOk fun _ _ => False) w' := by
    refine Safe.bind_onOk (T := fun found _ => found = none)
      (Safe.mapError_onOk ⟨trivial, Prog.safe_ofExcept.2 ⟨trivial, fun found hfound => ?_⟩⟩) ?_
    · exact (fsys.read _ w' found hfound).trans h.unsigned
    · rintro found w'' rfl
      exact ⟨trivial, fun _ h => (by cases h)⟩
  exact hread.bind_onOk fun _ _ h => h.elim

/-- The index is not written while the release is among those that are listed. -/
theorem Torn.readEntries (h : Torn target w) (keys : TrustedKeys K) {directories : List String}
    (hmem : target ∈ directories) : Stops fsys (readEntries crates keys directories) w := by
  induction directories generalizing w with
  | nil => cases hmem
  | cons directory rest ih =>
    by_cases heq : directory = target
    · subst heq
      exact (h.readRelease keys).bind_onOk fun _ _ h => h.elim
    · have hrest : target ∈ rest := (List.mem_cons.1 hmem).resolve_left fun h => heq h.symm
      refine h.bind (spares_readRelease keys directory) fun release w₁ h₁ => ?_
      refine h₁.bind Prog.only_ofExcept fun entry w₂ h₂ => ?_
      exact (ih h₂ hrest).bind_onOk fun _ _ h => h.elim

theorem Torn.rewriteIndex (h : Torn target w) (hlists : fsys.Lists) (name : String)
    (secret : SecretKey K) (generated : ℕ) :
    Stops fsys (rewriteIndex crates name secret generated) w := by
  have hdirectories : releaseDirectories.Safe fsys.handle (fun _ => True)
      (OnOk fun directories w' => target ∈ directories ∧ Torn target w') w := by
    obtain ⟨names, hnames, hmem⟩ := hlists (.descriptor target) w h.described
    have hkept : Kept target w (fsys.handle (.inl .docNames) w).2 :=
      (Kept.refl target w).step fun _ hf => (by cases hf)
    refine Safe.attempt_bind ⟨trivial, ?_⟩
    rw [hnames]
    refine ⟨trivial, trivial, ?_⟩
    rintro directories ⟨⟩
    exact ⟨(List.mem_insertionSort _).2 (List.mem_filterMap.2 ⟨_, hmem, rfl⟩), h.kept hkept⟩
  refine hdirectories.bind_onOk fun directories w' hd => ?_
  exact (hd.2.readEntries _ hd.1).bind_onOk fun _ _ h => h.elim

/-- Beside a torn release nothing can be published any more, by whatever key, where files are listed
as they are, and no publish repairs it. -/
theorem torn_stops (h : Torn target w) (name : String) (before : List (Attempt K))
    (attempt : Attempt K) (hlists : attempt.filesystem.Lists) :
    ∃ e, (attempt.result crates name (history crates name w before)).1 = .error e := by
  have htorn : Torn target (history crates name w before) :=
    h.kept (history_keeps crates name before h.described)
  have hstops : Stops attempt.filesystem (attempt.program crates name)
      (history crates name w before) := by
    unfold Attempt.program publish
    cases describe crates attempt.package attempt.notes attempt.publishedAt with
    | error e => exact ⟨trivial, fun _ h => (by cases h)⟩
    | ok release =>
      refine safe_has trivial ?_
      refine (htorn.kept (.has _ _ _)).bind (spares_place _ _ ?_) fun alreadyPublished w' h' => ?_
      · rintro rfl
        exact Option.isSome_iff_ne_none.2 htorn.described
      · exact (h'.rewriteIndex hlists _ _ _).bind_onOk fun _ _ h => h.elim
  cases hresult : (attempt.result crates name (history crates name w before)).1 with
  | error e => exact ⟨e, rfl⟩
  | ok p => exact (hstops.result p hresult).elim

end Paperclip.Packages.Publisher
