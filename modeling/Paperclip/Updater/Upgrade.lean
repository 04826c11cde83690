import Paperclip.Updater.Health
import Paperclip.Updater.Manifest

/-!
# The upgrade transaction

PREPARE stages and verifies a release, ACTIVATE returns the display to stock and swaps the links,
VERIFY brings the candidate up and grades it, COMMIT happens only if it reached `ready`. A program
of this module is the sequence of filesystem and session steps its function takes; `Upgrade.run` is
cut where the phases are.

* `Upgrade.run`, `Upgrade.rollback`: the two transactions; `Upgrade.rollBack`: the rollback that both
  end with when the candidate is refused.
* `reconcile`: finishes or undoes what an interrupted transaction left. It needs no session.
-/

namespace Paperclip.Updater

open Crash Files Packages Protocol

/-- What a transaction is given. -/
structure Upgrade where
  ext : Externals
  budget : Budget
  limits : ArchiveLimits
  policy : ComponentPolicy

/-- Why the fallback was not brought back. -/
inductive FallbackFailure where
  | error (error : UpdateError)
  | unhealthy (health : HealthReport)

/-- How a transaction ended. -/
inductive Outcome where
  | upgraded (from_ : Option Version) (to_ : Version) (health : HealthReport)
  | rolledBack (candidate restored : Version) (failure : Unhealthy) (health : HealthReport)
  | stranded (candidate : Version) (failure : Unhealthy) (fallback : Option FallbackFailure)

/-- What reconciling an interrupted transaction did. -/
inductive Reconciled where
  | nothing
  | discardedStaging (candidate : Version)
  | reverted (candidate : Version) (restored : Option Version) (stateRestored : Bool)
  deriving DecidableEq

section Disk

variable {S : Sig}

/-- Refuses to start a second transaction over an unreconciled first one. -/
def refuseIfInFlight : UpdaterProg S Unit := do
  match ← Journal.read with
  | some record =>
    if record.isInFlight then .fail (.inFlight record.phase.label record.to_)
  | none => pure ()

/-- Puts `previous` back to what it pointed at before the transaction. -/
def restoreFallbackLink (record : Record) : UpdaterProg S Unit := do
  match record.previousBefore with
  | some version =>
    if ← isDirectory (releaseDir version) then select .previous version
    else deselect .previous
  | none => deselect .previous

/-- Puts a platform-state snapshot back over the live state. -/
def restoreSnapshot (record : Record) : UpdaterProg S Bool := do
  match record.snapshot with
  | none => pure false
  | some snapshot =>
    if ← isDirectory snapshot then
      removeIfExists .restoring
      (copyTree snapshot .restoring (maxDepth + 1) []).mapError .io
      removeIfExists .platformState
      store (fs (.rename .restoring .platformState))
      pure true
    else pure false

/-- Points the links back at what they named before the transaction. -/
def revertLinks (record : Record) : UpdaterProg S Unit := do
  match record.from_ with
  | some version => select .current version
  | none => deselect .current
  restoreFallbackLink record

/-- Removes what was staged, if anything was. -/
def removeStaged : Option Place → UpdaterProg S Unit
  | some staged => (removeTree staged).ignore
  | none => pure ()

/-- Discards a candidate that was interrupted while staging. A release that a link names stays. -/
def discard (record : Record) : UpdaterProg S Reconciled := do
  removeStaged record.staged
  let candidate := record.to_
  let selected ← selected
  let fallback ← fallback
  if selected ≠ some candidate ∧ fallback ≠ some candidate then
    (removeTree (releaseDir candidate)).ignore
  let _ ← Journal.advance { record with staged := none } .failed
  pure (.discardedStaging candidate)

/-- Finishes or undoes whatever an interrupted transaction left behind. -/
def reconcile : UpdaterProg S Reconciled := do
  match ← Journal.read with
  | none => pure .nothing
  | some record =>
    match record.phase with
    | .prepare => discard record
    | .activate | .verify =>
      revertLinks record
      let stateRestored ← restoreSnapshot record
      let _ ← Journal.advance record .rolledBack
      pure (.reverted record.to_ record.from_ stateRestored)
    | .commit | .rolledBack | .failed => pure .nothing

/-- Keeps the selected release and the fallback, and removes the rest. -/
def prune (current : Version) (previous : Option Version) : UpdaterProg S Unit := do
  let versions ← installed
  Prog.each (fun version =>
    if version = current ∨ some version = previous then pure ()
    else store (removeTree (releaseDir version))) versions

/-- Makes the components below `bin/` executable. -/
def setExecutable (staging : Place) (component : Component) : UpdaterProg S Unit :=
  if startsWith component.path "bin/" then
    match resolve component.path with
    | some path => io (.setExecutable staging path)
    | none => .fail (.io .notADirectory)
  else pure ()

/-- Whether a file of the bundle is named by the manifest, or is the manifest or its signature. -/
def isListed (manifest : PlatformManifest) (name : RelativePath) : Bool :=
  name.text == MANIFEST_FILE_NAME || name.text == SIGNATURE_FILE_NAME ||
    manifest.components.any fun component => component.path == name.text

/-- Unpacks and verifies a bundle into `staging`. -/
def prepare (u : Upgrade) (bundle : Option TarStream) (staging : Place) :
    UpdaterProg S VerifiedPlatform := do
  store (fs (.createDirAll staging))
  match bundle with
  | none => .fail (.io .notFound)
  | some file =>
    let tree ← (extractTree file staging u.limits).mapError .archive
    let verified ← readRelease u.ext staging
    verifyPayload u.ext verified.manifest staging u.policy
    match tree.names.find? fun name => !isListed verified.manifest name with
    | some name => .fail (.component name.text "in the bundle, but not in the signed manifest")
    | none =>
      Prog.each (setExecutable staging) verified.manifest.components
      pure verified

/-- Copies the platform state to the snapshot for `from_`. -/
def takeSnapshot (from_ : Version) : UpdaterProg S Unit := do
  let destination := snapshotDir from_
  removeIfExists destination
  let staging := takingDir from_
  removeIfExists staging
  (copyTree .platformState staging (maxDepth + 1) []).mapError .io
  store (fs (.rename staging destination))

/-- The state version that makes a snapshot necessary: that of the outgoing release when it cannot
read what the candidate writes, and 0 when its manifest cannot be read. -/
def snapshotNeeded (u : Upgrade) (from_ : Version) (candidate : PlatformManifest) :
    UpdaterProg S (Option Nat) := do
  match ← (readRelease u.ext (releaseDir from_)).attempt with
  | .ok outgoing =>
    let reads := outgoing.manifest.stateVersion
    pure (if candidate.readableByStateVersion reads then none else some reads)
  | .error (_ : UpdateError) => pure (some 0)

/-- Snapshots the platform's persistent state when a rollback would need it. -/
def snapshotForRollback (u : Upgrade) (from_ : Option Version) (candidate : PlatformManifest) :
    UpdaterProg S (Option Place) := do
  match from_ with
  | none => pure none
  | some version =>
    match ← snapshotNeeded u version candidate with
    | none => pure none
    | some reads =>
      match ← (takeSnapshot version).attempt with
      | .ok () => pure (some (snapshotDir version))
      | .error (_ : UpdateError) =>
        .fail (.stateNotRollbackSafe version candidate.version candidate.rollbackToState reads)

/-- Moves the staged release into place and snapshots the state if a rollback would need it. -/
def commitRelease (u : Upgrade) (candidate : PlatformManifest) (staging : Place)
    (record : Record) : UpdaterProg S Record := do
  let release := releaseDir record.to_
  removeIfExists release
  store (fs (.rename staging release))
  let record := { record with staged := none }
  Journal.record record
  let snapshot ← snapshotForRollback u record.from_ candidate
  let record := { record with snapshot }
  Journal.record record
  pure record

/-- Prepares the bundle, and records which version it carries. -/
def stageCandidate (u : Upgrade) (bundle : Option TarStream) (staging : Place) (record : Record) :
    UpdaterProg S (Record × PlatformManifest) := do
  match ← (prepare u bundle staging).attempt with
  | .error (error : UpdateError) =>
    (removeTree staging).ignore
    (Journal.advance { record with staged := none } .failed).ignore
    .fail error
  | .ok staged =>
    let candidate := staged.manifest.version
    let record := { record with to_ := candidate }
    Journal.record record
    if record.from_ = some candidate then
      (removeTree staging).ignore
      (Journal.advance { record with staged := none } .failed).ignore
      .fail (.alreadySelected candidate)
    else pure (record, staged.manifest)

end Disk

/-- Takes the display back to stock and makes sure it got there. -/
def standDown : SessionProg Unit := do
  match ← session .standDown with
  | .error reason => .fail (.standDown reason)
  | .ok () =>
    if !(← session .stockIsUp) then .fail (.standDown "stock is not running afterwards")
    else if ← session .wakelockHeld then
      session .releaseWakelock
      if ← session .wakelockHeld then .fail .wakelockStuck

/-- Starts whatever `current` points at and grades it. -/
def bringUpAndGrade (u : Upgrade) : SessionProg HealthReport := do
  match ← session .bringUp with
  | .error reason => .fail (.bringUp reason)
  | .ok () => watch u.budget

/-- Grades the restored release, and ends the rollback. -/
def gradeRestored (u : Upgrade) (record : Record) (candidate restored : Version)
    (failure : Unhealthy) : SessionProg Outcome := do
  match ← (bringUpAndGrade u).attempt with
  | .error (error : UpdateError) =>
    let _ ← Journal.advance record .failed
    pure (.stranded candidate failure (some (.error error)))
  | .ok health =>
    let record := { record with reached := some health.reached.label }
    if health.failure.isSome then
      let _ ← session .standDown
      let _ ← Journal.advance record .failed
      pure (.stranded candidate failure (some (.unhealthy health)))
    else
      let _ ← Journal.advance record .rolledBack
      pure (.rolledBack candidate restored failure health)

/-- The one rollback. Called at most once per transaction. -/
def rollBack (u : Upgrade) (record : Record) (candidate : Version) (failure : Unhealthy) :
    SessionProg Outcome := do
  let record ← Journal.advance record .activate
  match ← standDown.attempt with
  | .error (error : UpdateError) =>
    let _ ← Journal.advance record .failed
    pure (.stranded candidate failure (some (.error error)))
  | .ok () =>
    match record.from_ with
    | none =>
      deselect .current
      let _ ← Journal.advance record .failed
      pure (.stranded candidate failure none)
    | some fallback =>
      select .current fallback
      restoreFallbackLink record
      let _ ← restoreSnapshot record
      let record ← Journal.advance { record with attempts := record.attempts + 1 } .verify
      gradeRestored u record candidate fallback failure

/-- Stands the session down and swaps the links. -/
def activate (record : Record) : SessionProg Record := do
  let record ← Journal.advance record .activate
  standDown
  match record.from_ with
  | some version => select .previous version
  | none => deselect .previous
  select .current record.to_
  Journal.advance { record with attempts := record.attempts + 1 } .verify

/-- Grades the candidate, and commits it or rolls back. -/
def verify (u : Upgrade) (record : Record) : SessionProg Outcome := do
  let health ← bringUpAndGrade u
  let record := { record with reached := some health.reached.label }
  Journal.record record
  match health.failure with
  | none =>
    let record ← Journal.advance record .commit
    prune record.to_ record.from_
    pure (.upgraded record.from_ record.to_ health)
  | some failure => rollBack u record record.to_ failure

/-- Runs a complete upgrade from a platform bundle. -/
def run (u : Upgrade) (bundle : Option TarStream) : SessionProg Outcome := do
  ensure
  refuseIfInFlight
  let from_ ← selected
  let previousBefore ← fallback
  let staging := Place.staging (← session .storeNow)
  -- `0.0.0` is a placeholder: the version is inside the bundle
  let record : Record :=
    { Record.opening from_ (.new 0 0 0) with previousBefore, staged := some staging }
  Journal.record record
  let (record, candidate) ← stageCandidate u bundle staging record
  let record ← commitRelease u candidate staging record
  let record ← activate record
  verify u record

/-- The failure that a rollback by hand is recorded under. -/
def rollbackRequested : Unhealthy := ⟨.ready, .ready, "rollback requested by hand", false⟩

/-- Rolls back to `previous` on request. -/
def rollback (u : Upgrade) : SessionProg Outcome := do
  ensure
  refuseIfInFlight
  let current ← selected
  match ← fallback with
  | none =>
    .fail (.manifest "no previous release is recorded, so there is nothing to roll back to")
  | some fallback =>
    let candidate := current.getD fallback
    let record := Record.opening current fallback
    let record := { record with previousBefore := record.from_ }
    let record ← Journal.advance record .activate
    rollBack u record candidate rollbackRequested

/-- A transaction: an upgrade from a bundle, or a rollback by hand. -/
inductive Transaction where
  | run (bundle : Option TarStream)
  | rollback

/-- What a transaction does. -/
def Transaction.program (u : Upgrade) : Transaction → SessionProg Outcome
  | run bundle => Updater.run u bundle
  | rollback => Updater.rollback u

end Paperclip.Updater
