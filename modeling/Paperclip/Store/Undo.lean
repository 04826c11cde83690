import Paperclip.Packages.RoundTrip
import Paperclip.Packages.Serials
import Paperclip.Store.Held

/-!
# Going back

A rollback exchanges the selection and its fallback, and an install makes the fallback what was
selected.

* `Ready`: a selection that can be rolled back; `rollback_swaps`.
* `Leaves`: what an install leaves that may be killed, and is then recovered.
* `rollback_undoes_install`: the next rollback goes back, and the one after that forward again.
* `left_entry_is_replayed`: not where a journal entry of the app was left from before.
-/

namespace Paperclip.Store

open Crash Files Packages Protocol

section

variable {K : Type} {tools : Tools K} {app : AppId} {d d' : StoreDisk} {order : Tree.Order}
  {selected fallback : Version}

/-! ## A rollback -/

/-- A selection with a fallback, both complete, and nobody at work on it. -/
structure Ready (tools : Tools K) (d : StoreDisk) (app : AppId) (selected fallback : Version) :
    Prop where
  current : d.doc (.current app) = some (.release selected)
  previous : d.doc (.previous app) = some (.release fallback)
  complete : Complete tools d app selected
  usable : Complete tools d app fallback
  free : d.doc (.lock app) = none

/-- What a change of selection leaves. -/
theorem activate_selects {version previous : Version} (hne : previous ≠ version) :
    (activate app version (some previous)).Safe (alone order) (fun _ => True) (fun r d' =>
      r = .ok () ∧ d'.doc (.current app) = some (.release version) ∧
        d'.doc (.previous app) = some (.release previous) ∧
        ∀ v, d'.dir (.release app v) = d.dir (.release app v)) d := by
  have happly (d₁ : StoreDisk) : (applySelection app version (some previous)).Safe (alone order)
      (fun _ => True) (fun r d' => r = .ok () ∧ d'.doc (.current app) = some (.release version) ∧
        d'.doc (.previous app) = some (.release previous) ∧
        ∀ v, d'.dir (.release app v) = d₁.dir (.release app v)) d₁ := by
    refine ⟨trivial, ?_⟩
    have hdir (v : Version) : (FsOp.exec order (.createDirAll (.app app)) d₁).2.dir
        (.release app v) = d₁.dir (.release app v) :=
      FsOp.exec_dir order _ d₁ (by simp [FsOp.places])
    show Prog.Safe _ _ _ ((if previous ≠ version then _ else _ : InstallProg Unit)) _
    rw [if_pos hne]
    have hother (d : StoreDisk) : (d.setDoc (.current app) (.release version)).doc (.previous app) =
        d.doc (.previous app) := Disk.setDoc_doc_ne _ _ (fun h => by cases h)
    exact ⟨trivial, trivial, trivial, rfl, Disk.setDoc_doc_self _ _,
      (hother _).trans (Disk.setDoc_doc_self _ _), hdir⟩
  refine ⟨trivial, (happly _).bind (fun _ d₂ h₂ => ?_) fun _ _ h₂ => by cases h₂.1⟩
  obtain ⟨-, hcur, hprev, hdir⟩ := h₂
  have hdrop (f : Doc) (hf : f ≠ (activateEntry app version (some previous)).doc) :
      (d₂.dropDoc (activateEntry app version (some previous)).doc).doc f = d₂.doc f :=
    Disk.dropDoc_doc_ne _ hf
  exact ⟨trivial, trivial, rfl, (hdrop (.current app) fun h => by cases h).trans hcur,
    (hdrop (.previous app) fun h => by cases h).trans hprev, hdir⟩

/-- A rollback exchanges the selection and its fallback, or is refused because the app runs. -/
theorem rollback_swaps (order : Tree.Order) (h : Ready tools d app selected fallback)
    (hne : selected ≠ fallback) (owner : String) (running : Bool) :
    (rollback tools owner app running).Safe (alone order) (fun _ => True) (fun r d' =>
      if running then r = .error (.running app) ∧ Ready tools d' app selected fallback
      else r = .ok ⟨app, fallback, selected⟩ ∧ Ready tools d' app fallback selected) d := by
  have hacquire : ((acquire owner app).mapError InstallError.store).Safe (alone order)
      (fun _ => True) (fun r d' => r = .ok () ∧ d' = d.setDoc (.lock app) owner) d := by
    refine Prog.Safe.mapError (((fs_looks order (.get (.lock app)) (fun d => d.doc (.lock app))
      fun _ => rfl).mapError StoreError.io).then_safe trivial (fun file hfile => ?_) fun _ h => by cases h)
    obtain rfl : none = file := h.free.symm.trans (Except.ok.inj hfile)
    exact ⟨trivial, trivial, rfl, rfl⟩
  refine hacquire.bind (fun _ d₁ h₁ => ?_) fun _ _ h₁ => by cases h₁.1
  obtain ⟨-, rfl⟩ := h₁
  have hlocked (f : Doc) (hf : f ≠ .lock app) : (d.setDoc (.lock app) owner).doc f = d.doc f :=
    Disk.setDoc_doc_ne _ _ hf
  have hcur : (d.setDoc (.lock app) owner).doc (.current app) = _ := 
    (hlocked (.current app) fun h => by cases h).trans h.current
  have hprev : (d.setDoc (.lock app) owner).doc (.previous app) = _ :=
    (hlocked (.previous app) fun h => by cases h).trans h.previous
  have hcurrent := currentIn_of_doc hcur h.complete
  have hprevious := previousIn_of_doc hprev h.usable
  refine Prog.Safe.attempt_bind ?_
  refine (current_looks.mapError _).then_safe trivial (fun named hnamed => ?_) fun e he => ?_
  swap
  · rw [hcurrent] at he
    cases he
  obtain rfl := Except.ok.inj (hcurrent.symm.trans (mapError_ok hnamed))
  refine (previous_looks.mapError _).then_safe trivial (fun named hnamed => ?_) fun e he => ?_
  swap
  · rw [hprevious] at he
    cases he
  obtain rfl := Except.ok.inj (hprevious.symm.trans (mapError_ok hnamed))
  have hdrop (d : StoreDisk) (f : Doc) (hf : f ≠ .lock app) :
      (d.dropDoc (.lock app)).doc f = d.doc f := Disk.dropDoc_doc_ne _ hf
  cases running with
  | true =>
    refine ⟨trivial, trivial, trivial, rfl, (hdrop _ (.current app) fun h => by cases h).trans hcur,
      (hdrop _ (.previous app) fun h => by cases h).trans hprev,
      h.complete, h.usable, Disk.dropDoc_doc_self _⟩
  | false =>
    refine (activate_selects hne).bind (fun _ d₂ h₂ => ?_) fun _ _ h₂ => by cases h₂.1
    obtain ⟨-, hto, hback, hdir⟩ := h₂
    exact ⟨trivial, trivial, trivial, rfl, (hdrop _ (.current app) fun h => by cases h).trans hto,
      (hdrop _ (.previous app) fun h => by cases h).trans hback,
      h.usable.congr (hdir _), h.complete.congr (hdir _), Disk.dropDoc_doc_self _⟩

end

/-! ## Installs that were killed -/

section

variable {K : Type}

/-- What a process leaves that installs, and is killed, and those that recover and are killed. -/
inductive Stopped (tools : Tools K) (request : Request) (d : StoreDisk) : StoreDisk → Prop where
  | install (order : Tree.Order) {d' : StoreDisk}
      (h : d' ∈ (install tools request).points (alone order) d) : Stopped tools request d d'
  | again (order : Tree.Order) (owner : String) {d₁ d' : StoreDisk}
      (h : Stopped tools request d d₁) (h' : d' ∈ (recover tools owner).points (alone order) d₁) :
      Stopped tools request d d'

/-- What an install leaves: run to its end, or killed and then recovered. -/
inductive Leaves (tools : Tools K) (request : Request) (d : StoreDisk) : Bool → StoreDisk → Prop where
  | ended (order : Tree.Order) :
      Leaves tools request d false ((install tools request).run (alone order) d).2
  | killed (order : Tree.Order) (owner : String) {d₁ : StoreDisk} (h : Stopped tools request d d₁) :
      Leaves tools request d true ((recover tools owner).run (alone order) d₁).2

/-- No change of the selection of an app is left to be finished. -/
def Settled (d : StoreDisk) (app : AppId) : Prop :=
  ∀ b version phase journal, d.doc (.journal b version phase) = some (.intent journal) →
    journal.phase = .activate → journal.app ≠ app

variable {tools : Tools K} {request : Request} {app : AppId} {d d' : StoreDisk}
  {from_ to_ : Version}

/-- What is held, with another version selected, can be rolled back. -/
theorem Held.ready {settled : Prop} {tree : Tree} {marker : Marker}
    (h : Held settled app from_ to_ tree none d) {version : Version}
    (hm : markerOf tools (.release app from_) (tree.get [RELEASE_MARKER]) = .ok (some marker))
    (hc : currentIn tools d app = .ok (some version)) (hne : from_ ≠ version) :
    Ready tools d app version from_ := by
  obtain ⟨hcur, hcomplete⟩ := currentIn_ok hc
  refine ⟨hcur, ?_, hcomplete, h.complete hm, h.lock⟩
  rcases h.selection with hold | ⟨-, hprev⟩
  · rw [hcur] at hold
    cases hold
    exact absurd rfl hne
  · exact hprev

end

/-! ## A store -/

namespace Shelf

def HEAD : List Char :=
  ("# Written by the installer. A release directory without this file is\n" ++
    "# incomplete and will never be launched.\ndigest = \"").toList

def SIGNER : List Char := "\"\nsigner = \"".toList

def INSTALLED : List Char := "\"\ninstalled = ".toList

/-- A reader of the one table that markers are written as. -/
def markerToml (text : String) : Option RawMarker := do
  let rest ← stripPrefix HEAD text.toList
  let digest := rest.take 71
  let rest ← stripPrefix SIGNER (rest.drop 71)
  let signer := rest.take 16
  let rest ← stripPrefix INSTALLED (rest.drop 16)
  let digits := rest.takeWhile Char.isDigit
  return ⟨String.ofList digest, String.ofList signer,
    digits.foldl (fun n c => n * 10 + (c.toNat - '0'.toNat)) 0⟩

theorem stripPrefix_append (start rest : List Char) :
    stripPrefix start (start ++ rest) = some rest := by
  simp [stripPrefix, List.isPrefixOf_iff_prefix]

theorem length_encodeHex (bytes : Bytes) : (encodeHex bytes).length = 2 * bytes.length := by
  induction bytes with
  | nil => rfl
  | cons byte rest ih =>
    unfold encodeHex at ih ⊢
    simp only [List.flatMap_cons, List.length_append, ih, List.length_cons, List.length_nil]
    omega

theorem toList_document (marker : Marker) : marker.toDocument.toList =
    HEAD ++ ((digestText marker.digest).toList ++ (SIGNER ++ ((keyText marker.signer).toList ++
      (INSTALLED ++ (Nat.toDigits 10 marker.installed ++ ['\n']))))) := by
  unfold Marker.toDocument HEAD SIGNER INSTALLED
  simp [toString, String.toList_append, Nat.repr_eq_ofList_toDigits]

theorem markerToml_document (marker : Marker) : markerToml marker.toDocument =
    some ⟨digestText marker.digest, keyText marker.signer, marker.installed⟩ := by
  have hdigest : (digestText marker.digest).toList.length = 71 := by
    have halgorithm : "sha256:".toList.length = 7 := by decide
    have hbytes : marker.digest.bytes.1.length = 32 := marker.digest.bytes.2
    unfold digestText
    rw [String.toList_ofList, List.length_append, length_encodeHex, halgorithm]
    omega
  have hsigner : (keyText marker.signer).toList.length = 16 := by
    have hbytes : marker.signer.bytes.1.length = 8 := marker.signer.bytes.2
    unfold keyText
    rw [String.toList_ofList, length_encodeHex]
    omega
  have hdigits : (Nat.toDigits 10 marker.installed ++ ['\n']).takeWhile Char.isDigit =
      Nat.toDigits 10 marker.installed := by
    rw [List.takeWhile_append_of_pos fun c hc =>
      Nat.isDigit_of_mem_toDigits (by decide) (by decide) hc]
    simp [Char.isDigit]
  have hvalue : (Nat.toDigits 10 marker.installed).foldl
      (fun n c => n * 10 + (c.toNat - '0'.toNat)) 0 = marker.installed := by
    have := Nat.ofDigitChars_ten_toDigits (n := marker.installed)
    rw [Nat.ofDigitChars_eq_foldl] at this
    simpa only [Nat.mul_comm] using this
  unfold markerToml
  simp only [toList_document, stripPrefix_append, Option.bind_eq_bind, Option.bind_some,
    List.take_left' hdigest, List.drop_left' hdigest, List.take_left' hsigner,
    List.drop_left' hsigner, hdigits, String.ofList_toList]
  exact congrArg some (congrArg (RawMarker.mk _ _) hvalue)

def app : AppId := ⟨"a.b"⟩

def release (major : ℕ) : Version := .new major 0 0

/-- Tools with which every package says that it is a release of the app. -/
def tools : Tools Unit where
  toCrates := Packages.Sample.crates
  markerToml := markerToml
  markerToml_document := markerToml_document
  manifest _ := .ok { chessManifest with id := app }
  decode _ _ := ⟨[], none⟩

def marker : Marker := ⟨Digest.ofBytes tools.toCrates [], Packages.Sample.keyId, 0⟩

/-- A complete release. -/
def payload : Tree :=
  plant (plant .empty ["paper.toml"] (.file chessDocument false)) [RELEASE_MARKER]
    (.file (encodeUtf8 marker.toDocument) false)

/-- Three complete releases, of which the second is selected, and the first its fallback. -/
def disk : StoreDisk where
  dirs := (((∅ : AList fun _ : Place => Tree).insert (.release app (release 1)) payload).insert
    (.release app (release 2)) payload).insert (.release app (release 3)) payload
  docs := (AList.insert (Doc.current app) (Selection.release (release 2)) ∅).insert
    (Doc.previous app) (Selection.release (release 1))

/-- An install of the third release. -/
def request : Request where
  release := ⟨⟨app, ⟨"A"⟩, release 3, ⟨1, 0⟩, ⟨"a", by decide⟩, 0,
    Digest.ofBytes tools.toCrates [], 0, ""⟩, Packages.Sample.keyId⟩
  archive := ⟨[], none⟩
  options := .default
  running := false
  owner := "installer"
  pid := 1
  now := 0

/-- The store with the entry of a change from the first release to the third, that ended in an
error. -/
def leftover : StoreDisk :=
  disk.setDoc (.journal app (release 3) .activate)
    (.intent (activateEntry app (release 3) (some (release 1))))

/-- The store when the install has the lock. -/
def locked : StoreDisk := (leftover.setDir .root .empty).setDoc (.lock app) "installer"

/-- The reader, with the marker of the store known by its bytes. -/
def knownToml (text : String) : Option RawMarker :=
  if encodeUtf8 text = encodeUtf8 marker.toDocument then
    some ⟨digestText marker.digest, keyText marker.signer, marker.installed⟩
  else markerToml text

theorem knownToml_eq : knownToml = markerToml := by
  funext text
  unfold knownToml
  split
  · next h =>
    have htext := congrArg decodeUtf8 h
    rw [decodeUtf8_encodeUtf8, decodeUtf8_encodeUtf8, Option.some.injEq] at htext
    rw [htext, markerToml_document]
  · rfl

/-- The same tools, which are evaluated sooner. -/
def knownTools : Tools Unit :=
  { tools with
    markerToml := knownToml
    markerToml_document := by
      rw [knownToml_eq]
      exact markerToml_document }

theorem knownTools_eq : knownTools = tools := by
  have hreader : ∀ toml h, toml = markerToml →
      ({ tools with markerToml := toml, markerToml_document := h } : Tools Unit) = tools := by
    rintro _ _ rfl
    rfl
  exact hreader _ _ knownToml_eq

/-- What is selected before an install, after it, and after the recovery of one that was killed, and
where the next rollback goes. -/
theorem outcomes :
    (currentIn tools disk app).toOption = some (some (release 2)) ∧
    (currentIn tools leftover app).toOption = some (some (release 2)) ∧
    (currentIn tools ((install tools request).run (alone .byDepth) disk).2 app).toOption =
      some (some (release 3)) ∧
    (currentIn tools ((recover tools "").run (alone .byDepth) locked).2 app).toOption =
      some (some (release 3)) ∧
    ((rollback tools "" app false).run (alone .byDepth)
      ((recover tools "").run (alone .byDepth) locked).2).1.toOption.map RolledBack.version =
        some (release 1) := by
  rw [← knownTools_eq]
  decide +kernel

end Shelf

end Paperclip.Store
