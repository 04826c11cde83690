import Mathlib.Data.List.Dedup
import Mathlib.Data.String.Basic
import Paperclip.Packages.Archive

/-!
# Building archives

An archive is built from a package directory: its manifest first, and then the files that the
manifest declares, each once and in the order of their names.

* `build`: reads and checks the package, and packs its files. The encoder is a parameter.
* `PackedFrom`: what a build packs. `build_spec`: a build that succeeds packed that.
-/

namespace Paperclip.Packages

open Crash Files Protocol Prog

/-- A file in an archive that is being built: its header and its content. -/
structure PackedFile where
  name : String
  executable : Bool
  bytes : Bytes
  deriving DecidableEq

/-- What went into an archive that was just built. -/
structure BuiltArchive where
  manifest : Manifest
  files : Nat
  bytes : Nat

/-- The paths that a manifest declares, each once and in order. -/
def Manifest.declared (manifest : Manifest) : List RelativePath :=
  (manifest.entrypoint :: manifest.assets).dedup.insertionSort fun path path' =>
    path.text ≤ path'.text

section Programs

variable {S : Sig} {P F : Type} {D : F → Type}

/-- Appends one declared file. -/
def append (source : P) (name : String) (executable : Bool) :
    Prog (withFs S P F D) ArchiveError PackedFile := do
  let onDisk := Protocol.components name
  match ← (fs (.lookup source onDisk)).mapError (.io onDisk) with
  | none => .fail (.io onDisk .notFound)
  | some .dir => .fail (.declaredDirectory name)
  | some .special => .fail (.forbiddenEntry name "something that is not a regular file")
  | some (.file bytes _) => pure ⟨name, executable, bytes⟩

/-- Appends the declared files, of which the entrypoint is executable. -/
def appendDeclared (source : P) (entrypoint : RelativePath) :
    List RelativePath → Prog (withFs S P F D) ArchiveError (List PackedFile)
  | [] => pure []
  | path :: rest => do
    Prog.ofExcept (rejectReserved path)
    let file ← append source path.text (path = entrypoint)
    let files ← appendDeclared source entrypoint rest
    pure (file :: files)

/-- Builds an archive of the package at `source`. -/
def build (parse : Bytes → Except ManifestError Manifest) (encode : List PackedFile → Bytes)
    (source : P) : Prog (withFs S P F D) ArchiveError (BuiltArchive × Bytes) := do
  let manifest ← (Manifest.readPackage parse source).mapError .manifest
  (manifest.validatePayload source).mapError .payload
  let first ← append source MANIFEST_FILE_NAME false
  let rest ← appendDeclared source manifest.entrypoint manifest.declared
  let files := first :: rest
  pure (⟨manifest, files.length, (files.map (·.bytes.length)).sum⟩, encode files)

end Programs

theorem mem_declared {manifest : Manifest} {path : RelativePath} :
    path ∈ manifest.declared ↔ path = manifest.entrypoint ∨ path ∈ manifest.assets := by
  rw [Manifest.declared, List.mem_insertionSort, List.mem_dedup, List.mem_cons]

theorem nodup_declared (manifest : Manifest) : manifest.declared.Nodup :=
  (List.perm_insertionSort _ _).nodup_iff.mpr (List.nodup_dedup _)

/-- The file was packed from the path in the tree. -/
def PackedFrom (t : Tree) (entrypoint path : RelativePath) (file : PackedFile) : Prop :=
  rejectReserved path = .ok () ∧ file.name = path.text ∧
    file.executable = decide (path = entrypoint) ∧
    ∃ mode, t.get path.components = some (.file file.bytes mode)

/-- What the files of an archive are, when it was built from the tree: the manifest's own file, and
those that it declares. -/
structure Packs (parse : Bytes → Except ManifestError Manifest) (t : Tree) (manifest : Manifest)
    (files : List PackedFile) : Prop where
  packed : ∃ document mode rest, t.get [MANIFEST_FILE_NAME] = some (.file document mode) ∧
    document.length ≤ MAX_MANIFEST_BYTES ∧ parse document = .ok manifest ∧
    files = ⟨MANIFEST_FILE_NAME, false, document⟩ :: rest ∧
    List.Forall₂ (PackedFrom t manifest.entrypoint) manifest.declared rest

section Specs

variable {P F : Type} {D : F → Type} [DecidableEq P] [DecidableEq F] {order : Tree.Order}
  {source : P} {d : Disk P F D}

/-- Looking something up changes nothing. -/
theorem lookup_spec {ε : Type} (x : Path) (g : IoError → ε) :
    ((fs (.lookup source x)).mapError g : Prog (withFs noCalls P F D) ε _).Safe (alone order)
      (fun _ => True) (fun r d' => d' = d ∧ r = .ok ((d.dir source).bind fun t =>
        if x = [] then some .dir else t.get x)) d :=
  Safe.mapError ((safe_fs (.lookup source x)).mpr ⟨trivial, trivial, rfl, rfl⟩)

omit [DecidableEq F] in
/-- A file that was looked up. -/
theorem of_lookup {x : Path} {bytes : Bytes} {mode : Bool}
    (h : ((d.dir source).bind fun t => if x = [] then some .dir else t.get x) =
      some (.file bytes mode)) :
    ∃ t, d.dir source = some t ∧ t.get x = some (.file bytes mode) := by
  obtain ⟨t, ht, hget⟩ := Option.bind_eq_some_iff.mp h
  split at hget
  · cases hget
  · exact ⟨t, ht, hget⟩

theorem append_spec (name : String) (executable : Bool) :
    (append source name executable : Prog (withFs noCalls P F D) ArchiveError _).Safe
      (alone order) (fun _ => True) (OnOk fun file d' => d' = d ∧ file.name = name ∧
        file.executable = executable ∧ ∃ t mode, d.dir source = some t ∧
          t.get (Protocol.components name) = some (.file file.bytes mode)) d := by
  refine (lookup_spec (Protocol.components name) _).bind (fun entry d' hq => ?_)
    fun _ _ _ _ h => by cases h
  obtain ⟨rfl, hok⟩ := hq
  replace hok := Except.ok.inj hok
  split
  · exact ⟨trivial, fun _ h => (by cases h)⟩
  · exact ⟨trivial, fun _ h => (by cases h)⟩
  · exact ⟨trivial, fun _ h => (by cases h)⟩
  · next bytes mode =>
    refine ⟨trivial, fun file hfile => ?_⟩
    cases hfile
    obtain ⟨t, ht, hget⟩ := of_lookup hok.symm
    exact ⟨rfl, rfl, rfl, t, mode, ht, hget⟩

theorem appendDeclared_spec {t : Tree} (ht : d.dir source = some t) (entrypoint : RelativePath)
    (paths : List RelativePath) :
    (appendDeclared source entrypoint paths : Prog (withFs noCalls P F D) ArchiveError _).Safe
      (alone order) (fun _ => True) (OnOk fun files d' => d' = d ∧
        List.Forall₂ (PackedFrom t entrypoint) paths files) d := by
  induction paths with
  | nil => exact ⟨trivial, fun _ h => by cases h; exact ⟨rfl, .nil⟩⟩
  | cons path rest ih =>
    unfold appendDeclared
    rw [Prog.bind_eq]
    cases hreserved : rejectReserved path with
    | error e => exact ⟨trivial, fun _ h => (by cases h)⟩
    | ok u =>
    rw [Prog.ofExcept_ok, Prog.bind_done]
    refine (append_spec path.text _).bind_onOk fun file d' hfile => ?_
    obtain ⟨rfl, hname, hexecutable, t', mode, ht', hget⟩ := hfile
    cases ht.symm.trans ht'
    refine ih.bind_onOk fun files d'' hfiles => ?_
    obtain ⟨rfl, hfiles⟩ := hfiles
    refine ⟨trivial, fun packed hpacked => ?_⟩
    cases hpacked
    exact ⟨rfl, .cons ⟨hreserved, hname, hexecutable, mode, hget⟩ hfiles⟩

theorem readPackage_spec {parse : Bytes → Except ManifestError Manifest} :
    (Manifest.readPackage parse source : Prog (withFs noCalls P F D) ManifestError _).Safe
      (alone order) (fun _ => True) (OnOk fun manifest d' => d' = d ∧ ∃ t document mode,
        d.dir source = some t ∧ t.get [MANIFEST_FILE_NAME] = some (.file document mode) ∧
          document.length ≤ MAX_MANIFEST_BYTES ∧ parse document = .ok manifest) d := by
  refine (lookup_spec [MANIFEST_FILE_NAME] _).bind (fun entry d' hq => ?_)
    fun _ _ _ _ h => by cases h
  obtain ⟨rfl, hok⟩ := hq
  replace hok := Except.ok.inj hok
  split
  · exact ⟨trivial, fun _ h => (by cases h)⟩
  · exact ⟨trivial, fun _ h => (by cases h)⟩
  · exact ⟨trivial, fun _ h => (by cases h)⟩
  · next document mode =>
    split
    · exact ⟨trivial, fun _ h => (by cases h)⟩
    next hlen =>
    refine safe_ofExcept.mpr ⟨trivial, fun manifest hparse => ?_⟩
    obtain ⟨t, ht, hget⟩ := of_lookup hok.symm
    exact ⟨rfl, t, document, mode, ht, hget, not_lt.mp hlen, hparse⟩

/-- A check of the payload changes nothing. -/
theorem validatePayload_keeps (manifest : Manifest) :
    (manifest.validatePayload source : Prog (withFs noCalls P F D) PayloadError Unit).Safe
      (alone order) (fun _ => True) (fun _ d' => d' = d) d := by
  refine (Safe.of_only (I := (· = d)) (Manifest.only_validatePayload
    (W := fun op => ∃ x, op = .inl (.lookup source x)) (fun x => ⟨x, rfl⟩) manifest) ?_ rfl).mono
    (fun _ _ => trivial) fun _ _ _ h => h
  rintro op d' ⟨x, rfl⟩ rfl
  rfl

/-- A build that succeeds packed the files of the package, and changed nothing. -/
theorem build_spec {parse : Bytes → Except ManifestError Manifest}
    {encode : List PackedFile → Bytes} :
    (build parse encode source : Prog (withFs noCalls P F D) ArchiveError _).Safe (alone order)
      (fun _ => True) (OnOk fun result d' => d' = d ∧ ∃ t files, d.dir source = some t ∧
        Packs parse t result.1.manifest files ∧ result.2 = encode files) d := by
  refine readPackage_spec.mapError_onOk.bind_onOk fun manifest d' hread => ?_
  obtain ⟨rfl, t, document, mode, ht, hget, hlen, hparse⟩ := hread
  refine Safe.bind (Q := fun _ d'' => d'' = d') (Safe.mapError (validatePayload_keeps manifest))
    (fun _ d'' hd' => ?_) fun _ _ _ _ h => by cases h
  subst hd'
  refine (append_spec MANIFEST_FILE_NAME false).bind_onOk fun first d' hfirst => ?_
  obtain ⟨rfl, hname, hexecutable, t', mode', ht', hget'⟩ := hfirst
  cases ht.symm.trans ht'
  refine (appendDeclared_spec ht manifest.entrypoint manifest.declared).bind_onOk
    fun rest d' hrest => ?_
  obtain ⟨rfl, hrest⟩ := hrest
  refine ⟨trivial, fun result hresult => ?_⟩
  cases hresult
  refine ⟨rfl, t, first :: rest, ht, ⟨document, mode, rest, hget, hlen, hparse, ?_, hrest⟩, rfl⟩
  obtain ⟨name, executable, bytes⟩ := first
  cases hname
  cases hexecutable
  rw [show Protocol.components MANIFEST_FILE_NAME = [MANIFEST_FILE_NAME] by decide] at hget'
  cases hget.symm.trans hget'
  rfl

end Specs

end Paperclip.Packages
