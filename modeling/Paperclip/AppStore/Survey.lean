import Mathlib.Data.List.Destutter
import Paperclip.AppStore.Screen
import Paperclip.Packages.Catalog
import Paperclip.Packages.Documents
import Paperclip.Packages.Offers
import Paperclip.Store.Reading

/-!
# Surveying the device

The rows that a person reads: one merge of what is installed, of what a catalog offers, and of what
has managed to start.

* `survey`: reads the store, the records of launches and the view of a catalog that there may be.
* `surveyIn`: what it answers, as a function of the disk; `survey_looks`: it does, and changes
  nothing.
-/

namespace Paperclip.AppStore

open Crash Files Packages Store

/-! ## The rows -/

/-- Whether the selected release is one that never started. -/
def neverStarted (installed : Option Version) (health : Option Health) : Bool :=
  match health, installed with
  | some health, some installed =>
    health.version = installed && !health.started &&
      decide (Ledger.MAX_ATTEMPTS ≤ health.attempts.toNat)
  | _, _ => false

/-- The state a row is in. -/
def stateOf (installed offered : Option Version) (onDisk : List Version) (health : Option Health)
    (haveCatalog : Bool) : AppState :=
  if neverStarted installed health then .failing
  else match installed, offered with
    | none, some _ => .available
    | none, none => if onDisk ≠ [] then .nothingSelected else .available
    | some _, none => if haveCatalog then .installedNotOffered else .installed
    | some installed, some offered =>
      if installed.lt offered then .updateAvailable else .upToDate

/-- Why the device could not be surveyed. -/
inductive SurveyError where
  | store (source : StoreError)
  | ledger (source : LedgerError)

/-- A program that surveys. -/
abbrev SurveyProg := Prog (withFs noCalls Place Doc Doc.Content) SurveyError

/-- What the ledger has of an app, and whether it can be read. -/
structure HealthFile where
  readable : Bool
  bytes : Option Bytes

variable {K : Type} (tools : Tools K) (ledger : Ledger) (files : AppId → HealthFile)
  (view : Option CatalogView)

/-- The newest stable release on offer. -/
def newestOffered (app : AppId) : Option IndexEntry := view.bind (·.index.newestStable app)

/-- The newest release on offer, if it is a prerelease. -/
def prerelease (app : AppId) : Option Version :=
  ((view.bind (·.index.newestAny app)).map (·.version)).filter (·.pre ≠ [])

/-- What is recorded of an app's launches. -/
def healthOf (app : AppId) : Except LedgerError (Option Health) :=
  ledger.health (files app).readable (files app).bytes

/-- The name in the manifest of the selected release. -/
def installedName (app : AppId) : Option Version → SurveyProg (Option String)
  | none => pure none
  | some version => do
    let read : Except ManifestError Manifest ←
      (Manifest.readPackage tools.manifest (Place.release app version)).attempt
    pure (read.toOption.map (·.name))

/-- The name of a row: of the release on offer, else the manifest's, else made of the id. -/
def nameOf (app : AppId) (installed : Option Version) : SurveyProg String :=
  match newestOffered view app with
  | some entry => pure entry.name.text
  | none => do
    let named ← installedName tools app installed
    pure (named.getD (DisplayName.fromLossy app.leaf).text)

/-- The row of an app with a directory in the store. -/
def entryOf (app : AppId) (name : String) (installed : Option Version) (onDisk : List Version)
    (health : Option Health) : AppEntry :=
  let available := (newestOffered view app).map (·.version)
  { app := app
    name := name
    installed := installed
    fallback := none
    onDisk := onDisk
    available := available
    availablePrerelease := prerelease view app
    health := health
    state := stateOf installed available onDisk health view.isSome }

/-- Reads what there is of an app. Where nothing is complete there is no row. -/
def surveyApp (app : AppId) : SurveyProg (Option AppEntry) := do
  let installed ← (current tools app).mapError .store
  let onDisk ← (installedVersions tools app).mapError .store
  if installed = none ∧ onDisk = [] then pure none
  else
    let health ← Prog.ofExcept ((healthOf ledger files app).mapError .ledger)
    let name ← nameOf tools view app installed
    pure (some (entryOf view app name installed onDisk health))

/-- The rows of these apps. -/
def surveyApps : List AppId → SurveyProg (List AppEntry)
  | [] => pure []
  | app :: rest => do
    let entry ← surveyApp tools ledger files view app
    let entries ← surveyApps rest
    pure (entry.toList ++ entries)

/-- The rows with the versions to fall back to. -/
def withFallbacks : List AppEntry → SurveyProg (List AppEntry)
  | [] => pure []
  | entry :: rest => do
    let fallback ← (previous tools entry.app).mapError .store
    let entries ← withFallbacks rest
    pure ({ entry with fallback := fallback } :: entries)

/-- The row of an app that is offered and not installed. -/
def offeredEntry (view : CatalogView) (entry newest : IndexEntry) : AppEntry where
  app := entry.app
  name := entry.name.text
  installed := none
  fallback := none
  onDisk := []
  available := some newest.version
  availablePrerelease := prerelease (some view) entry.app
  health := none
  state := .available

/-- Adds the row of an entry's app, unless it has one or no stable release. -/
def addOffered (view : CatalogView) (entries : List AppEntry) (entry : IndexEntry) :
    List AppEntry :=
  if entries.any (·.app = entry.app) then entries
  else match view.index.newestStable entry.app with
    | none => entries
    | some newest => entries ++ [offeredEntry view entry newest]

/-- Adds the rows of what is only offered. -/
def addAllOffered (entries : List AppEntry) : List AppEntry :=
  match view with
  | none => entries
  | some view => view.index.entries.foldl (addOffered view) entries

/-- In the order of the ids, and the first of each run of rows for one app. -/
def sortRows (entries : List AppEntry) : List AppEntry :=
  (entries.insertionSort fun a b => a.app.text ≤ b.app.text).destutter fun a b => a.app ≠ b.app

/-- Which catalog the rows are built against. -/
def statusOf (view : CatalogView) : CatalogStatus :=
  ⟨view.index.catalog, view.index.serial, view.stale⟩

/-! ## Order -/

section

variable {entries : List AppEntry}

theorem text_injective {a b : AppId} (h : a.text = b.text) : a = b := by
  cases a
  cases b
  exact congrArg AppId.mk h

theorem text_lt {a b : AppId} (hle : a.text ≤ b.text) (hne : a ≠ b) : a.text < b.text :=
  String.not_le.1 fun h => hne (text_injective (String.le_antisymm hle h))

/-- The order of the rows. -/
def AppEntry.Before (a b : AppEntry) : Prop := a.app.text < b.app.text

instance : Trans AppEntry.Before AppEntry.Before AppEntry.Before := ⟨String.lt_trans⟩

/-- The rows stand in the order of their ids, and no two are of one app. -/
theorem sortRows_sorted (entries : List AppEntry) :
    (sortRows entries).Pairwise AppEntry.Before := by
  have : Std.Total fun a b : AppEntry => a.app.text ≤ b.app.text :=
    ⟨fun a b => String.le_total a.app.text b.app.text⟩
  have : IsTrans AppEntry fun a b => a.app.text ≤ b.app.text := ⟨fun _ _ _ => String.le_trans⟩
  have hle : (sortRows entries).Pairwise fun a b => a.app.text ≤ b.app.text :=
    (List.pairwise_insertionSort _ entries).sublist (List.destutter_sublist _ _)
  have hne : (sortRows entries).IsChain fun a b => a.app ≠ b.app := List.isChain_destutter _ _
  refine List.isChain_iff_pairwise.1 (List.isChain_iff_getElem.2 fun i hi => ?_)
  exact text_lt (List.isChain_iff_getElem.1 hle.isChain i hi) (List.isChain_iff_getElem.1 hne i hi)

theorem nodup_sortRows (entries : List AppEntry) : ((sortRows entries).map (·.app)).Nodup :=
  List.pairwise_map.2 <| (sortRows_sorted entries).imp
    fun {a b} (h : a.app.text < b.app.text) heq => by
      rw [heq] at h
      exact String.lt_irrefl _ h

/-- Where no two rows are of one app, none is dropped. -/
theorem mem_sortRows (h : (entries.map (·.app)).Nodup) {row : AppEntry} :
    row ∈ sortRows entries ↔ row ∈ entries := by
  have hne : (entries.insertionSort fun a b => a.app.text ≤ b.app.text).Pairwise
      fun a b => a.app ≠ b.app :=
    ((List.perm_insertionSort _ entries).pairwise_iff fun h => h.symm).2 (List.pairwise_map.1 h)
  rw [sortRows, List.destutter_of_isChain _ _ hne.isChain, List.mem_insertionSort]

end

/-- Merges the rows. -/
def survey : SurveyProg Inventory := do
  let known ← apps.mapError .store
  let entries ← surveyApps tools ledger files view known
  let entries ← withFallbacks tools entries
  let entries := addAllOffered view entries
  pure ⟨sortRows entries, view.map statusOf, nodup_sortRows entries⟩

/-! ## What it reads -/

variable (d : StoreDisk)

/-- The manifest that an entry holds. -/
def manifestOf : Option Entry → Except ManifestError Manifest
  | none => .error (.read [MANIFEST_FILE_NAME] .notFound)
  | some .dir | some .special => .error (.read [MANIFEST_FILE_NAME] .isADirectory)
  | some (.file bytes _) =>
    if MAX_MANIFEST_BYTES < bytes.length then
      .error (.tooLarge [MANIFEST_FILE_NAME] bytes.length MAX_MANIFEST_BYTES)
    else tools.manifest bytes

/-- The manifest of the package at a place. -/
def packageIn (place : Place) : Except ManifestError Manifest :=
  manifestOf tools ((d.dir place).bind (·.get [MANIFEST_FILE_NAME]))

/-- The name of a row. -/
def nameIn (app : AppId) (installed : Option Version) : String :=
  match newestOffered view app with
  | some entry => entry.name.text
  | none =>
    let named := installed.bind fun version =>
      (packageIn tools d (.release app version)).toOption.map (·.name)
    named.getD (DisplayName.fromLossy app.leaf).text

/-- The row of an app. -/
def rowIn (app : AppId) : Except SurveyError (Option AppEntry) :=
  ((currentIn tools d app).mapError .store).bind fun installed =>
    ((installedIn tools d app).mapError .store).bind fun onDisk =>
      if installed = none ∧ onDisk = [] then .ok none
      else ((healthOf ledger files app).mapError .ledger).bind fun health =>
        .ok (some (entryOf view app (nameIn tools view d app installed) installed onDisk health))

/-- The rows of these apps. -/
def rowsIn : List AppId → Except SurveyError (List AppEntry)
  | [] => .ok []
  | app :: rest => (rowIn tools ledger files view d app).bind fun entry =>
    (rowsIn rest).bind fun entries => .ok (entry.toList ++ entries)

/-- The rows with the versions to fall back to. -/
def fallbacksIn : List AppEntry → Except SurveyError (List AppEntry)
  | [] => .ok []
  | entry :: rest => ((previousIn tools d entry.app).mapError .store).bind fun fallback =>
    (fallbacksIn rest).bind fun entries => .ok ({ entry with fallback := fallback } :: entries)

/-- The apps with a directory in the store. -/
def appsIn : List AppId :=
  (d.dirs.keys.filterMap fun
    | .app a => some a
    | _ => none).insertionSort fun a b => a.text ≤ b.text

/-- The rows of a device. -/
def surveyIn : Except SurveyError Inventory :=
  (rowsIn tools ledger files view d (appsIn d)).bind fun entries =>
    (fallbacksIn tools d entries).bind fun entries =>
      let entries := addAllOffered view entries
      .ok ⟨sortRows entries, view.map statusOf, nodup_sortRows entries⟩

variable {order : Tree.Order}

/-- A look whose outcome is handed on is a look. -/
theorem looks_attempt {S : Sig} {W ε ε' α : Type} {h : Handler S W} {p : Prog S ε α}
    {f : W → Except ε α} (hp : Prog.Looks h p f) :
    Prog.Looks h (p.attempt : Prog S ε' (Except ε α)) fun w => .ok (f w) := fun w =>
  Prog.Safe.attempt ((hp w).mono (fun _ h => h) fun r w' _ hq => ⟨hq.1, by rw [hq.2]⟩)

theorem readPackage_looks (place : Place) :
    Prog.Looks (alone order) (Manifest.readPackage tools.manifest place :
      Prog (withFs noCalls Place Doc Doc.Content) ManifestError Manifest) fun d =>
        packageIn tools d place := by
  have hlookup := (fs_looks order (.lookup place [MANIFEST_FILE_NAME])
    (fun d => (d.dir place).bind (·.get [MANIFEST_FILE_NAME])) fun d => rfl).mapError
      (ManifestError.read [MANIFEST_FILE_NAME])
  refine (hlookup.bind (k := fun entry _ => manifestOf tools entry) fun entry => ?_).congr
    fun d => rfl
  rcases entry with _ | ⟨bytes, mode⟩ | _ | _
  · exact Prog.looks_ofExcept (.error _)
  · unfold manifestOf
    dsimp only
    split
    · exact Prog.looks_ofExcept (.error _)
    · exact Prog.looks_ofExcept _
  · exact Prog.looks_ofExcept (.error _)
  · exact Prog.looks_ofExcept (.error _)

theorem nameOf_looks (app : AppId) (installed : Option Version) :
    Prog.Looks (alone order) (nameOf tools view app installed) fun d =>
      .ok (nameIn tools view d app installed) := by
  unfold nameOf nameIn
  cases newestOffered view app with
  | some entry => exact Prog.looks_done _
  | none =>
    cases installed with
    | none => exact Prog.looks_done _
    | some version =>
      exact (((looks_attempt (readPackage_looks tools (.release app version))).bind
        fun read => Prog.looks_done _).bind fun named => Prog.looks_done _).congr fun d => rfl

theorem surveyApp_looks (app : AppId) :
    Prog.Looks (alone order) (surveyApp tools ledger files view app) fun d =>
      rowIn tools ledger files view d app := by
  refine (current_looks.mapError _).bind fun installed => ?_
  refine (installedVersions_looks.mapError _).bind fun onDisk => ?_
  split
  · exact Prog.looks_done none
  · exact ((Prog.looks_ofExcept _).bind fun health => (nameOf_looks tools view app installed).bind
      fun name => Prog.looks_done _).congr fun d => rfl

theorem surveyApps_looks (known : List AppId) :
    Prog.Looks (alone order) (surveyApps tools ledger files view known) fun d =>
      rowsIn tools ledger files view d known := by
  induction known with
  | nil => exact Prog.looks_done []
  | cons app rest ih =>
    exact (surveyApp_looks tools ledger files view app).bind fun entry =>
      ih.bind fun entries => Prog.looks_done _

theorem withFallbacks_looks (entries : List AppEntry) :
    Prog.Looks (alone order) (withFallbacks tools entries) fun d =>
      fallbacksIn tools d entries := by
  induction entries with
  | nil => exact Prog.looks_done []
  | cons entry rest ih =>
    exact (previous_looks.mapError _).bind fun fallback => ih.bind fun entries => Prog.looks_done _

/-- A survey reads the device, and changes nothing of it. -/
theorem survey_looks :
    Prog.Looks (alone order) (survey tools ledger files view) fun d =>
      surveyIn tools ledger files view d := by
  have happs : Prog.Looks (alone order) (apps.mapError SurveyError.store) fun d =>
      .ok (appsIn d) :=
    (((fs_looks order .dirNames (fun d => d.dirs.keys) fun _ => rfl).mapError StoreError.io).bind
      fun places => Prog.looks_done _).mapError _
  exact (happs.bind fun known => (surveyApps_looks tools ledger files view known).bind
    fun entries => (withFallbacks_looks tools entries).bind
      fun entries => Prog.looks_done _).congr fun d => rfl

end Paperclip.AppStore
