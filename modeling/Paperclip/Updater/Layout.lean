import Paperclip.Packages.Archive

/-!
# The platform root and the update journal

Where releases live, what selects one, and the record that says how far a transaction got.

* `Place`: the directories of the root that the updater writes; `Doc`: the journal and the two
  selection links.
* `Record`: one transaction, as it stands. Its time stamps and its note are left out: nothing reads
  them back.
* `select`, `deselect`, `selected`, `fallback`, `installed`: the operations on the layout.
* `Journal.read`, `Journal.record`, `Journal.advance`: the operations on the journal.
-/

namespace Paperclip.Updater

open Crash Files Packages

/-- The name with what follows its last dot replaced. -/
def withExtension (name extension : String) : String :=
  match (name.toList.reverse.dropWhile (· != '.')).tail.reverse with
  | [] => name ++ "." ++ extension
  | stem => String.ofList stem ++ "." ++ extension

/-- A directory of the platform root. -/
inductive Place where
  /-- `releases/<version>` -/
  | release (version : Version)
  /-- `staging/<transaction>` -/
  | staging (transaction : Nat)
  /-- `state/platform` -/
  | platformState
  /-- `state/platform.restoring` -/
  | restoring
  /-- `state/snapshots/<name>` -/
  | snapshots (name : String)
  deriving DecidableEq

/-- One release directory. -/
abbrev releaseDir (version : Version) : Place := .release version

/-- The snapshot taken for a release. -/
def snapshotDir (version : Version) : Place := .snapshots version.toString

/-- Where the snapshot for a release is put together. -/
def takingDir (version : Version) : Place := .snapshots (withExtension version.toString "taking")

/-- The two selection links. -/
inductive Slot where
  | current
  | previous
  deriving DecidableEq, Repr

/-- The target of a selection link, by its last component. -/
inductive Link where
  | release (version : Version)
  | other (target : String)
  deriving DecidableEq, Repr

/-- How far a transaction got. -/
inductive Phase where
  | prepare
  | activate
  | verify
  | commit
  | rolledBack
  | failed
  deriving DecidableEq, Repr

/-- The name used in messages and in the file. -/
def Phase.label : Phase → String
  | prepare => "prepare"
  | activate => "activate"
  | verify => "verify"
  | commit => "commit"
  | rolledBack => "rolled-back"
  | failed => "failed"

/-- Whether nothing further will happen to the transaction on its own. -/
def Phase.isTerminal : Phase → Bool
  | commit | rolledBack | failed => true
  | prepare | activate | verify => false

/-- One transaction, as it stands. -/
structure Record where
  phase : Phase
  from_ : Option Version
  previousBefore : Option Version
  to_ : Version
  staged : Option Place
  snapshot : Option Place
  attempts : Nat
  reached : Option String
  deriving DecidableEq

/-- How many times a candidate may be brought up and graded, across crashes. -/
def MAX_ATTEMPTS : Nat := 1

/-- A fresh transaction. -/
def Record.opening (from_ : Option Version) (to_ : Version) : Record :=
  ⟨.prepare, from_, none, to_, none, none, 0, none⟩

/-- Whether the transaction is still in flight. -/
def Record.isInFlight (record : Record) : Bool := !record.phase.isTerminal

/-- What the journal file holds. -/
inductive JournalFile where
  | record (record : Record)
  | corrupt (reason : String)
  deriving DecidableEq

/-- The documents of the platform root. -/
inductive Doc where
  | journal
  | link (slot : Slot)
  deriving DecidableEq

/-- What a document holds. -/
@[reducible] def Doc.Content : Doc → Type
  | journal => JournalFile
  | link _ => Link

/-- Why a transaction stopped. -/
inductive UpdateError where
  | io (source : IoError)
  | store (source : IoError)
  | archive (source : ArchiveError)
  | signature
  | manifest (reason : String)
  | component (name reason : String)
  | corruptSelection (link : Slot) (target : String)
  | noSuchRelease (version : Version)
  | alreadySelected (version : Version)
  | inFlight (phase : String) (version : Version)
  | stateNotRollbackSafe (from_ to_ : Version) (writes reads : Nat)
  | standDown (reason : String)
  | wakelockStuck
  | bringUp (reason : String)
  | corruptJournal (reason : String)

/-- A program of the updater, over the filesystem of the platform root and the operations of `S`. -/
abbrev UpdaterProg (S : Sig) (α : Type) := Prog (withFs S Place Doc Doc.Content) UpdateError α

section Programs

variable {S : Sig}

/-- An operation whose failure is reported with the path. -/
def io (o : FsOp Place Doc Doc.Content) : UpdaterProg S o.Ok := (fs o).mapError .io

/-- An operation of the package store's helpers. -/
def store {α : Type} (p : Prog (withFs S Place Doc Doc.Content) IoError α) : UpdaterProg S α :=
  p.mapError .store

/-- A probe that answers `false` when the directory cannot be inspected. -/
def isDirectory (p : Place) : UpdaterProg S Bool := do
  match ← (fs (.isDir p [])).attempt with
  | .ok b => pure b
  | .error _ => pure false

/-- Removes a directory that is found to be there. -/
def removeIfExists (p : Place) : UpdaterProg S Unit := do
  if ← isDirectory p then store (removeTree p)

/-! ## Layout -/

/-- Creates the directories. Of those with contents only the platform state is modelled. -/
def ensure : UpdaterProg S Unit := io (.createDirAll .platformState)

/-- Reads a selection link into a version. -/
def readSelection (slot : Slot) : UpdaterProg S (Option Version) := do
  match ← io (.get (.link slot)) with
  | none => pure none
  | some (.release version) => pure (some version)
  | some (.other target) => .fail (.corruptSelection slot target)

/-- The selected release. -/
def selected : UpdaterProg S (Option Version) := readSelection .current

/-- The fallback release. -/
def fallback : UpdaterProg S (Option Version) := readSelection .previous

/-- Every release on disk, ascending. -/
def installed : UpdaterProg S (List Version) := do
  let places ← io .dirNames
  pure ((places.filterMap fun | .release version => some version | _ => none).insertionSort
    Version.le)

/-- Points a link at a release, which must be there. -/
def select (slot : Slot) (version : Version) : UpdaterProg S Unit := do
  if ← isDirectory (releaseDir version) then io (.put (.link slot) (.release version))
  else .fail (.noSuchRelease version)

/-- Removes a selection link. -/
def deselect (slot : Slot) : UpdaterProg S Unit := io (.delete (.link slot))

/-! ## Journal -/

namespace Journal

/-- The record, if there is one. A file that cannot be read is not taken for no record. -/
def read : UpdaterProg S (Option Record) := do
  match ← io (.get .journal) with
  | none => pure none
  | some (.record record) => pure (some record)
  | some (.corrupt reason) => .fail (.corruptJournal reason)

/-- Writes the record durably. -/
def record (r : Record) : UpdaterProg S Unit := store (fs (.put .journal (.record r)))

/-- Moves the record to a phase and writes it. -/
def advance (r : Record) (phase : Phase) : UpdaterProg S Record := do
  let r := { r with phase }
  record r
  pure r

end Journal

end Programs

end Paperclip.Updater
