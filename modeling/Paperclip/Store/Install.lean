import Paperclip.Store.Layout
import Paperclip.Packages.Catalog

/-!
# The install transaction

Stage, verify, commit, activate, recover.

* `stage`: downloads and unpacks into staging, and verifies as it goes.
* `finish`: the selection change, through a journal entry, and the pruning.
* `install`, `rollback`, `recover`: the operations, each under the app's lock.
-/

namespace Paperclip.Store

open Crash Files Packages Protocol

/-- How an install should behave where there is a choice. -/
structure InstallOptions where
  activate : Bool
  allowDowngrade : Bool
  allowIncompatible : Bool
  prune : Bool
  limits : ArchiveLimits

def InstallOptions.default : InstallOptions := ⟨true, false, false, true, .DEFAULT⟩

/-- What an install did. -/
structure Installed where
  app : AppId
  version : Version
  previous : Option Version
  activated : Bool
  alreadyPresent : Bool
  pruned : List Version

/-- What a rollback did. -/
structure RolledBack where
  app : AppId
  version : Version
  from_ : Version

/-- What recovery found and did. -/
structure Recovered where
  completed : List (AppId × Version)
  reverted : List (AppId × Option Version)
  stagingRemoved : ℕ
  locksBroken : ℕ
  incompleteRemoved : List (AppId × Version)

/-- Whether recovery had nothing to do. -/
def Recovered.isClean (report : Recovered) : Bool :=
  report.completed.isEmpty && report.reverted.isEmpty && report.stagingRemoved == 0 &&
    report.locksBroken == 0 && report.incompleteRemoved.isEmpty

/-- Why an install, rollback or recovery failed. -/
inductive InstallError where
  | size (expected actual : ℕ)
  | digest (expected actual : Digest)
  | disagreement (field signed package : String)
  | versionExists (app : AppId) (version : Version) (recorded offered : Digest)
  | downgrade (app : AppId) (installed offered : Version)
  | running (app : AppId)
  | nothingSelected (app : AppId)
  | noFallback (app : AppId)
  | corruptJournal (file : Doc)
  | archive (source : ArchiveError)
  | manifest (source : ManifestError)
  | store (source : StoreError)
  | io (source : IoError)

/-- A program of the installer. -/
abbrev InstallProg := Prog (withFs noCalls Place Doc Doc.Content) InstallError

/-- What an install is asked for, and what it finds: the signed release and its archive, whether the
app is running when that is asked, and what the process calls itself and the time. -/
structure Request where
  release : VerifiedRelease
  archive : Reader
  options : InstallOptions
  running : Bool
  owner : String
  pid : ℕ
  now : ℕ

/-- The names of an install's staging directories. -/
def Request.ticket (request : Request) : Ticket :=
  ⟨request.release.release.app, request.release.release.version, request.pid, request.now⟩

variable {K : Type} {α : Type}

/-- Creates the directories of the layout. -/
def ensure : InstallProg Unit := (fs (.createDirAll .root)).mapError fun e => .store (.io e)

/-- Runs `body` with the app's lock, which is dropped whatever the outcome. -/
def withLock (owner : String) (app : AppId) (body : InstallProg α) : InstallProg α := do
  (acquire owner app).mapError .store
  let outcome ← body.attempt
  Prog.ignore (fs (.delete (.lock app)))
  Prog.ofExcept outcome

/-! ## The journal -/

/-- The file of an entry. -/
def Journal.doc (journal : Journal) : Doc := .journal journal.app journal.version journal.phase

def Journal.write (journal : Journal) : InstallProg Unit :=
  (fs (.put journal.doc (.intent journal))).mapError fun e => .store (.io e)

/-- Removes a journal file, if it is there. -/
def removeEntry (file : Doc) : InstallProg Unit := (fs (.delete file)).mapError .io

/-! ## Staging -/

/-- Removes a staging directory with what is in it. -/
def removeStaging (ticket : Ticket) : InstallProg Unit := do
  (removeTree (.payload ticket)).mapError fun e => .store (.io e)
  (removeTree (.staging ticket)).mapError fun e => .store (.io e)

/-- The entry that claims a staging directory. -/
def stageEntry (ticket : Ticket) : Journal :=
  ⟨ticket.app, ticket.version, none, some ticket, .stage⟩

/-- Makes a staging directory, and the entry that claims it. -/
def beginTransaction (ticket : Ticket) : InstallProg Unit := do
  removeStaging ticket
  (fs (.createDirAll (.staging ticket))).mapError .io
  (stageEntry ticket).write

/-- Removes the staging directory and the entry that claims it. -/
def finishTransaction (ticket : Ticket) : InstallProg Unit := do
  removeStaging ticket
  removeEntry (stageEntry ticket).doc

def DOWNLOAD : Path := ["download.paperpkg"]

/-- What a reader that may deliver `limit` bytes delivers, and how it ends. -/
def measured (source : Reader) (limit : ℕ) : Bytes × Option IoError :=
  if limit < source.bytes.length then
    (source.bytes.take limit, some (.other s!"input exceeds the {limit} byte limit"))
  else (source.bytes, source.broken)

/-- Downloads an archive into staging, and verifies its size and its digest. -/
def download (tools : Tools K) (ticket : Ticket) (release : Release) (archive : Reader) :
    InstallProg Unit := do
  (fs (.createNew (.staging ticket) DOWNLOAD)).mapError .io
  let copied := measured archive release.size
  (fs (.write (.staging ticket) DOWNLOAD copied.1)).mapError .io
  match copied.2 with
  | some e => .fail (.io e)
  | none =>
    if copied.1.length ≠ release.size then .fail (.size release.size copied.1.length)
    else
      let digest := Digest.ofBytes tools.toCrates copied.1
      if digest ≠ release.digest then .fail (.digest release.digest digest)

/-- Downloads and unpacks into staging, verifying as it goes. -/
def stage (tools : Tools K) (ticket : Ticket) (release : Release) (archive : Reader)
    (limits : ArchiveLimits) : InstallProg Manifest := do
  download tools ticket release archive
  (fs (.createDirAll (.payload ticket))).mapError .io
  match ← (fs (.lookup (.staging ticket) DOWNLOAD)).mapError .io with
  | some (.file bytes _) =>
    let extracted ← (extract tools.manifest (tools.decode limits bytes) (.payload ticket)
      limits).mapError .archive
    pure extracted.manifest
  | _ => .fail (.io .notFound)

/-- Refuses a package whose manifest does not say what the descriptor says. -/
def checkAgreement (release : Release) (manifest : Manifest) : Except InstallError Unit :=
  if manifest.id ≠ release.app then
    .error (.disagreement "app id" release.app.text manifest.id.text)
  else if manifest.version ≠ release.version then
    .error (.disagreement "version" s!"{release.version}" s!"{manifest.version}")
  else if manifest.protocol ≠ release.protocol then
    .error (.disagreement "protocol" s!"{release.protocol.major}.{release.protocol.minor}"
      s!"{manifest.protocol.major}.{manifest.protocol.minor}")
  else .ok ()

/-- Writes the marker into a payload. -/
def writeMarker (ticket : Ticket) (marker : Marker) : InstallProg Unit := do
  (fs (.createNew (.payload ticket) [RELEASE_MARKER])).mapError fun e => .store (.io e)
  (fs (.write (.payload ticket) [RELEASE_MARKER] (encodeUtf8 marker.toDocument))).mapError
    fun e => .store (.io e)

/-- Moves a fully built payload to its release directory. -/
def commitDirectory (ticket : Ticket) : InstallProg Unit := do
  (fs (.createDirAll (.app ticket.app))).mapError fun e => .store (.io e)
  (fs (.rename (.payload ticket) (.release ticket.app ticket.version))).mapError
    fun e => .store (.io e)

/-! ## Selection -/

/-- Writes the fallback, then the selection. -/
def applySelection (app : AppId) (version : Version) (previous : Option Version) :
    InstallProg Unit := do
  (fs (.createDirAll (.app app))).mapError fun e => .store (.io e)
  match previous with
  | some fallback =>
    if fallback ≠ version then
      (fs (.put (.previous app) (.release fallback))).mapError fun e => .store (.io e)
  | none => pure ()
  (fs (.put (.current app) (.release version))).mapError fun e => .store (.io e)

/-- Points the selection back at a usable release, or removes it. -/
def restoreSelection (app : AppId) (fallback : Option Version) : InstallProg Unit := do
  match ← (fs (.isDir (.app app) [])).attempt with
  | .ok true =>
    match fallback with
    | some version =>
      (fs (.put (.current app) (.release version))).mapError fun e => .store (.io e)
    | none => (fs (.delete (.current app))).mapError .io
  | _ => pure ()

/-- Deletes releases that are neither selected, the fallback, nor `keep`. -/
def prune (tools : Tools K) (app : AppId) (keep : Version) : InstallProg (List Version) := do
  let selected ← (current tools app).mapError .store
  let fallback ← (previous tools app).mapError .store
  let kept := [selected, fallback, some keep].reduceOption
  let versions ← (installedVersions tools app).mapError .store
  let pruned := versions.filter fun version => version ∉ kept
  Prog.each (fun version => (removeTree (.release app version)).mapError
    fun e => .store (.io e)) pruned
  pure pruned

/-- The entry of a selection change. -/
def activateEntry (app : AppId) (version : Version) (previous : Option Version) : Journal :=
  ⟨app, version, previous, none, .activate⟩

/-- Changes the selection, under a journal entry. -/
def activate (app : AppId) (version : Version) (previous : Option Version) : InstallProg Unit := do
  let entry := activateEntry app version previous
  entry.write
  applySelection app version previous
  removeEntry entry.doc

/-- The shared tail of a fresh install and an already-present one. -/
def finish (tools : Tools K) (request : Request) (selected : Option Version) (activates : Bool)
    (alreadyPresent : Bool) : InstallProg Installed := do
  let app := request.release.release.app
  let version := request.release.release.version
  if activates && selected != some version then
    if request.running then .fail (.running app)
    else activate app version selected
  let pruned ← if request.options.prune then prune tools app version else pure []
  pure ⟨app, version, selected, activates, alreadyPresent, pruned⟩

/-! ## The operations -/

/-- Everything between "staging exists" and "the new version is selected". -/
def installStaged (tools : Tools K) (request : Request) (selected : Option Version) :
    InstallProg Installed := do
  let signed := request.release.release
  let ticket := request.ticket
  let manifest ← stage tools ticket signed request.archive request.options.limits
  Prog.ofExcept (checkAgreement signed manifest)
  let runnable := manifest.ensureRunnable
  if ¬ request.options.allowIncompatible then
    (Prog.ofExcept runnable).mapError .manifest
  writeMarker ticket ⟨signed.digest, request.release.signer, request.now⟩
  commitDirectory ticket
  finish tools request selected (request.options.activate && runnable.isOk) false

/-- Refuses an older version than the selected one. -/
def checkDowngrade (request : Request) (selected : Option Version) : Except InstallError Unit :=
  let version := request.release.release.version
  match selected with
  | some installed =>
    if ¬ request.options.allowDowngrade ∧ version.lt installed then
      .error (.downgrade request.release.release.app installed version)
    else .ok ()
  | none => .ok ()

/-- The release is there, byte for byte. -/
def installPresent (tools : Tools K) (request : Request) (selected : Option Version)
    (marker : Marker) : InstallProg Installed := do
  let signed := request.release.release
  if marker.digest ≠ signed.digest then
    .fail (.versionExists signed.app signed.version marker.digest signed.digest)
  else
    let _ ← (Manifest.readPackage tools.manifest
      (Place.release signed.app signed.version)).mapError .manifest
    finish tools request selected request.options.activate true

/-- The release is not there. A clean failure tidies up after itself. -/
def installFresh (tools : Tools K) (request : Request) (selected : Option Version) :
    InstallProg Installed := do
  beginTransaction request.ticket
  match ← (installStaged tools request selected).attempt with
  | .ok installed =>
    finishTransaction request.ticket
    pure installed
  | .error e =>
    Prog.ignore (finishTransaction request.ticket)
    .fail e

/-- Installs a release from an archive. -/
def install (tools : Tools K) (request : Request) : InstallProg Installed := do
  ensure
  let signed := request.release.release
  withLock request.owner signed.app do
    let selected ← (current tools signed.app).mapError .store
    Prog.ofExcept (checkDowngrade request selected)
    match ← (readMarker tools (.release signed.app signed.version)).mapError .store with
    | some marker => installPresent tools request selected marker
    | none => installFresh tools request selected

/-- Selects the fallback release. -/
def rollback (tools : Tools K) (owner : String) (app : AppId) (running : Bool) :
    InstallProg RolledBack :=
  withLock owner app do
    match ← (current tools app).mapError .store with
    | none => .fail (.nothingSelected app)
    | some selected =>
      match ← (previous tools app).mapError .store with
      | none => .fail (.noFallback app)
      | some fallback =>
        if running then .fail (.running app)
        else
          activate app fallback (some selected)
          pure ⟨app, fallback, selected⟩

/-- The best complete release to fall back to after a failed activation. -/
def usableFallback (tools : Tools K) (journal : Journal) : InstallProg (Option Version) := do
  let marked ← match journal.previous with
    | some previous =>
      (readMarker tools (.release journal.app previous)).mapError .store
    | none => pure none
  if marked.isSome then pure journal.previous
  else
    match ← (current tools journal.app).mapError .store with
    | some selected => pure (some selected)
    | none => do
      let versions ← (installedVersions tools journal.app).mapError .store
      pure versions.getLast?

/-- Finishes, or undoes, an activation that was interrupted. -/
def replay (tools : Tools K) (journal : Journal) (report : Recovered) : InstallProg Recovered := do
  match ← (readMarker tools (.release journal.app journal.version)).mapError .store with
  | some _ =>
    applySelection journal.app journal.version journal.previous
    pure { report with completed := report.completed ++ [(journal.app, journal.version)] }
  | none =>
    let fallback ← usableFallback tools journal
    restoreSelection journal.app fallback
    pure { report with reverted := report.reverted ++ [(journal.app, fallback)] }

/-- Repairs what one journal file is about. -/
def recoverEntry (tools : Tools K) (owner : String) (file : Doc) (journal : Journal)
    (report : Recovered) : InstallProg Recovered :=
  withLock owner journal.app do
    let report ← match journal.staging with
      | some ticket => do
        removeStaging ticket
        pure { report with stagingRemoved := report.stagingRemoved + 1 }
      | none => pure report
    let report ← if journal.phase = .activate then replay tools journal report else pure report
    removeEntry file
    pure report

/-- What a journal file says. -/
def asIntent (file : Doc) : Option JournalFile → Except InstallError Journal
  | none => .error (.io .notFound)
  | some .corrupt => .error (.corruptJournal file)
  | some (.intent journal) => .ok journal

def readEntry (app : AppId) (version : Version) (phase : Phase) : InstallProg Journal := do
  let file ← (fs (.get (.journal app version phase))).mapError .io
  Prog.ofExcept (asIntent (.journal app version phase) file)

/-- The files of the journal, one after the other. -/
def recoverEntries (tools : Tools K) (owner : String) :
    List (AppId × Version × Phase) → Recovered → InstallProg Recovered
  | [], report => pure report
  | (app, version, phase) :: rest, report => do
    let journal ← readEntry app version phase
    let report ← recoverEntry tools owner (.journal app version phase) journal report
    recoverEntries tools owner rest report

/-- The name of a journal file. -/
def entryName (entry : AppId × Version × Phase) : String :=
  s!"{entry.1.text}-{entry.2.1}-{entry.2.2.asStr}.toml"

/-- The journal files, in the order of their names. -/
def allEntries : InstallProg (List (AppId × Version × Phase)) := do
  let names ← (fs .docNames).mapError .io
  pure ((names.filterMap fun
    | .journal app version phase => some (app, version, phase)
    | _ => none).insertionSort fun a b => entryName a ≤ entryName b)

/-- Deletes every staging directory. -/
def sweepStaging : InstallProg ℕ := do
  let places ← (fs .dirNames).mapError .io
  let tickets := places.filterMap fun
    | .staging ticket => some ticket
    | _ => none
  Prog.each removeStaging tickets
  pure tickets.length

/-- Deletes the releases of an app that have no marker. -/
def sweepReleases (tools : Tools K) (app : AppId) :
    List Version → List (AppId × Version) → InstallProg (List (AppId × Version))
  | [], removed => pure removed
  | version :: rest, removed => do
    match ← (readMarker tools (.release app version)).mapError .store with
    | some _ => sweepReleases tools app rest removed
    | none =>
      (removeTree (.release app version)).mapError fun e => .store (.io e)
      sweepReleases tools app rest (removed ++ [(app, version)])

/-- Deletes release directories with no completion marker. -/
def sweepIncomplete (tools : Tools K) :
    List AppId → List (AppId × Version) → InstallProg (List (AppId × Version))
  | [], removed => pure removed
  | app :: rest, removed => do
    let places ← (fs .dirNames).mapError .io
    let removed ← sweepReleases tools app (versionsIn app places) removed
    sweepIncomplete tools rest removed

/-- Repairs whatever a crash left behind. -/
def recover (tools : Tools K) (owner : String) : InstallProg Recovered := do
  ensure
  let locksBroken ← breakAll.mapError .store
  let entries ← allEntries
  let report ← recoverEntries tools owner entries ⟨[], [], 0, locksBroken, []⟩
  let swept ← sweepStaging
  let names ← apps.mapError .store
  let removed ← sweepIncomplete tools names []
  pure { report with stagingRemoved := report.stagingRemoved + swept, incompleteRemoved := removed }

end Paperclip.Store
