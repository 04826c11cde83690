import Paperclip.Crash.Looks
import Paperclip.Store.Install

/-!
# What the store says

A process that nobody interrupts sees the disk as it is, so what it reads is a function of the disk.

* `markerAt`, `currentIn`, `previousIn`: what a release directory says about itself, and what is
  selected; `readMarker_looks` and the others: the programs read just that.
* `Complete`: a release whose marker can be read.
* `mem_installed`: what is listed is complete.
-/

namespace Paperclip.Store

open Crash Files Packages Protocol

variable {K : Type} (tools : Tools K) (d : StoreDisk)

/-- The marker that an entry holds. -/
def markerOf (release : Place) : Option Entry → Except StoreError (Option Marker)
  | none => .ok none
  | some .dir | some .special => .error (.io .isADirectory)
  | some (.file bytes _) =>
    match parseMarker tools bytes with
    | some marker => .ok (some marker)
    | none => .error (.corruptMarker release)

/-- What a release directory records about itself. -/
def markerAt (release : Place) : Except StoreError (Option Marker) :=
  markerOf tools release ((d.dir release).bind (·.get [RELEASE_MARKER]))

/-- The version that a selection names, if its release is complete. -/
def usableIn (app : AppId) : Option Version → Except StoreError (Option Version)
  | none => .ok none
  | some version => (markerAt tools d (.release app version)).map fun marker =>
    if marker.isSome then some version else none

/-- The selected version. -/
def currentIn (app : AppId) : Except StoreError (Option Version) :=
  ((asSelection (d.doc (.current app))).mapError fun _ => .corruptSelection (.current app)).bind
    (usableIn tools d app)

/-- The fallback version. -/
def previousIn (app : AppId) : Except StoreError (Option Version) :=
  ((asSelection (d.doc (.previous app))).mapError fun _ => .corruptSelection (.previous app)).bind
    (usableIn tools d app)

/-- The versions that are complete. -/
def completeIn (app : AppId) : List Version → Except StoreError (List Version)
  | [] => .ok []
  | version :: rest => (markerAt tools d (.release app version)).bind fun marker =>
    (completeIn app rest).map fun versions =>
      if marker.isSome then version :: versions else versions

/-- Every complete release of an app. -/
def installedIn (app : AppId) : Except StoreError (List Version) :=
  (completeIn tools d app (versionsIn app d.dirs.keys)).map (·.insertionSort Version.le)

/-- The release has a marker that can be read. -/
def Complete (app : AppId) (version : Version) : Prop :=
  ∃ marker, markerAt tools d (.release app version) = .ok (some marker)

section

variable {tools : Tools K} {d : StoreDisk} {order : Tree.Order} {app : AppId} {version : Version}

theorem fs_looks (order : Tree.Order) (o : FsOp Place Doc Doc.Content) (f : StoreDisk → o.Ok)
    (ho : ∀ d, o.exec order d = (.ok (f d), d)) :
    Prog.Looks (alone order) (fs o) fun d => .ok (f d) := by
  intro d
  refine (safe_fs o).2 ⟨rfl, ?_⟩
  show (o.exec order d).2 = d ∧ (o.exec order d).2 = d ∧ (o.exec order d).1 = .ok (f d)
  rw [ho]
  exact ⟨rfl, rfl, rfl⟩

theorem readMarker_looks (tools : Tools K) (release : Place) :
    Prog.Looks (alone order) (readMarker tools release) fun d => markerAt tools d release := by
  have hlookup := (fs_looks order (.lookup release [RELEASE_MARKER])
    (fun d => (d.dir release).bind (·.get [RELEASE_MARKER])) fun d => rfl).mapError StoreError.io
  refine (hlookup.bind (k := fun entry _ => markerOf tools release entry) fun entry => ?_).congr
    fun d => rfl
  rcases entry with _ | ⟨bytes, mode⟩ | _ | _
  · exact Prog.looks_done none
  · unfold markerOf
    dsimp only
    cases parseMarker tools bytes with
    | none => exact Prog.looks_ofExcept (.error _)
    | some marker => exact Prog.looks_done (some marker)
  · exact Prog.looks_ofExcept (.error _)
  · exact Prog.looks_ofExcept (.error _)

theorem usableSelection_looks (named : Option Version) :
    Prog.Looks (alone order) (usableSelection tools app named) fun d =>
      usableIn tools d app named := by
  cases named with
  | none => exact Prog.looks_done none
  | some version =>
    refine ((readMarker_looks tools (.release app version)).bind
      fun marker => Prog.looks_done _).congr fun d => ?_
    unfold usableIn
    dsimp only
    cases markerAt tools d (.release app version) <;> rfl

theorem current_looks :
    Prog.Looks (alone order) (current tools app) fun d => currentIn tools d app :=
  (((fs_looks order (.get (.current app)) (fun d => d.doc (.current app))
    fun _ => rfl).mapError StoreError.io).bind fun file => (Prog.looks_ofExcept
      (asSelection file)).mapError _).bind usableSelection_looks

theorem previous_looks :
    Prog.Looks (alone order) (previous tools app) fun d => previousIn tools d app :=
  (((fs_looks order (.get (.previous app)) (fun d => d.doc (.previous app))
    fun _ => rfl).mapError StoreError.io).bind fun file => (Prog.looks_ofExcept
      (asSelection file)).mapError _).bind usableSelection_looks

theorem completeOf_looks (versions : List Version) :
    Prog.Looks (alone order) (completeOf tools app versions) fun d =>
      completeIn tools d app versions := by
  induction versions with
  | nil => exact Prog.looks_done []
  | cons version rest ih =>
    refine ((readMarker_looks tools (.release app version)).bind fun marker =>
      ih.bind fun versions => Prog.looks_done _).congr fun d => ?_
    rw [completeIn]
    cases markerAt tools d (.release app version) with
    | error e => rfl
    | ok marker =>
      show (completeIn tools d app rest).bind _ = (completeIn tools d app rest).map _
      cases completeIn tools d app rest <;> rfl

theorem installedVersions_looks :
    Prog.Looks (alone order) (installedVersions tools app) fun d => installedIn tools d app := by
  refine (((fs_looks order (.dirNames) (fun d => d.dirs.keys)
    fun _ => rfl).mapError StoreError.io).bind fun places =>
      (completeOf_looks (versionsIn app places)).bind fun versions => Prog.looks_done _).congr
        fun d => ?_
  unfold installedIn
  show (completeIn tools d app _).bind _ = _
  cases completeIn tools d app (versionsIn app d.dirs.keys) <;> rfl

/-- What is listed is complete. -/
theorem mem_completeIn {versions listed : List Version}
    (h : completeIn tools d app versions = .ok listed) (hv : version ∈ listed) :
    Complete tools d app version := by
  induction versions generalizing listed with
  | nil =>
    cases h
    cases hv
  | cons first rest ih =>
    unfold completeIn at h
    cases hm : markerAt tools d (.release app first) with
    | error e => rw [hm] at h; cases h
    | ok marker =>
      cases hr : completeIn tools d app rest with
      | error e => rw [hm, hr] at h; cases h
      | ok others =>
        rw [hm, hr] at h
        cases marker with
        | none =>
          cases h
          exact ih hr hv
        | some marker =>
          cases h
          rcases List.mem_cons.1 hv with rfl | hv
          · exact ⟨marker, hm⟩
          · exact ih hr hv

theorem mem_installedIn {listed : List Version} (h : installedIn tools d app = .ok listed)
    (hv : version ∈ listed) : Complete tools d app version := by
  unfold installedIn at h
  cases hc : completeIn tools d app (versionsIn app d.dirs.keys) with
  | error e => rw [hc] at h; cases h
  | ok versions =>
    rw [hc] at h
    cases h
    exact mem_completeIn hc ((List.mem_insertionSort _).1 hv)

/-- A selection that names a complete release. -/
theorem usableIn_complete (hc : Complete tools d app version) :
    usableIn tools d app (some version) = .ok (some version) := by
  obtain ⟨marker, hm⟩ := hc
  simp [usableIn, hm, Except.map]

theorem currentIn_of_doc (hd : d.doc (.current app) = some (.release version))
    (hc : Complete tools d app version) : currentIn tools d app = .ok (some version) := by
  rw [currentIn, hd]
  exact usableIn_complete hc

theorem previousIn_of_doc (hd : d.doc (.previous app) = some (.release version))
    (hc : Complete tools d app version) : previousIn tools d app = .ok (some version) := by
  rw [previousIn, hd]
  exact usableIn_complete hc

theorem usableIn_ok {named : Option Version}
    (h : usableIn tools d app named = .ok (some version)) :
    named = some version ∧ Complete tools d app version := by
  cases named with
  | none => cases h
  | some v =>
    unfold usableIn at h
    dsimp only at h
    cases hm : markerAt tools d (.release app v) with
    | error e => rw [hm] at h; cases h
    | ok marker =>
      rw [hm] at h
      cases marker with
      | none => cases h
      | some marker =>
        cases h
        exact ⟨rfl, marker, hm⟩

/-- What is selected is named by the selection, and complete. -/
theorem currentIn_ok (h : currentIn tools d app = .ok (some version)) :
    d.doc (.current app) = some (.release version) ∧ Complete tools d app version := by
  unfold currentIn at h
  cases hd : d.doc (.current app) with
  | none => rw [hd] at h; cases h
  | some selection =>
    rw [hd] at h
    cases selection with
    | corrupt => cases h
    | release v =>
      obtain ⟨hv, hc⟩ := usableIn_ok (show usableIn tools d app (some v) = _ from h)
      cases hv
      exact ⟨rfl, hc⟩

theorem Complete.congr {d' : StoreDisk} (hc : Complete tools d app version)
    (h : d'.dir (.release app version) = d.dir (.release app version)) :
    Complete tools d' app version := by
  obtain ⟨marker, hm⟩ := hc
  exact ⟨marker, by rw [markerAt, h]; exact hm⟩

end

end Paperclip.Store
