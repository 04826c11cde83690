import Paperclip.Files.Recursive
import Paperclip.Protocol
import Paperclip.Semver

/-!
# App manifests

What a package says about itself, and the checks of the payload against it.

* `Manifest.readPackage`: reads `paper.toml` from a package directory. The parser is a parameter.
* `Manifest.ensureRunnable`: whether this platform can run the app.
* `Manifest.validatePayload`: the entrypoint is a file, the assets are there, and no path goes
  through a link.
-/

namespace Paperclip.Packages

open Crash Files Protocol

/-- An app's id. -/
structure AppId where
  text : String
  deriving DecidableEq, Repr

/-- A package's manifest. -/
structure Manifest where
  id : AppId
  name : String
  version : Version
  protocol : ProtocolVersion
  entrypoint : RelativePath
  assets : List RelativePath

/-- Why a manifest is not usable. `document` is what the parser refused. -/
inductive ManifestError where
  | document (text : String)
  | tooLarge (path : Path) (len max : Nat)
  | unsupportedProtocol (declared current : ProtocolVersion)
  | read (path : Path) (source : IoError)

/-- Why a payload does not match its manifest. -/
inductive PayloadError where
  | missingEntrypoint (path : String)
  | entrypointNotAFile (path : String)
  | symlinkedPath (path component : String)
  | missingAsset (path : String)
  | io (path : Path) (source : IoError)

def MANIFEST_FILE_NAME : String := "paper.toml"

def MAX_MANIFEST_BYTES : Nat := 64 * 1024

namespace Manifest

variable {S : Sig} {P F : Type} {D : F → Type}

/-- Reads the manifest of the package at `root`. -/
def readPackage (parse : Bytes → Except ManifestError Manifest) (root : P) :
    Prog (withFs S P F D) ManifestError Manifest := do
  let path := [MANIFEST_FILE_NAME]
  match ← (fs (.lookup root path)).mapError (.read path) with
  | none => .fail (.read path .notFound)
  | some .dir | some .special => .fail (.read path .isADirectory)
  | some (.file bytes _) =>
    if MAX_MANIFEST_BYTES < bytes.length then
      .fail (.tooLarge path bytes.length MAX_MANIFEST_BYTES)
    else .ofExcept (parse bytes)

/-- Refuses an app that this platform cannot run. -/
def ensureRunnable (manifest : Manifest) : Except ManifestError Unit :=
  if CURRENT.canRun manifest.protocol then .ok ()
  else .error (.unsupportedProtocol manifest.protocol CURRENT)

/-- Refuses a path that goes through a link, from `walked` on. A path that ends early is for the
caller to judge. -/
def refuseLinks (root : P) (path : RelativePath) :
    (walked : Path) → List String → Prog (withFs S P F D) PayloadError Unit
  | _, [] => pure ()
  | walked, component :: rest => do
    match ← (fs (.lookup root (walked ++ [component]))).mapError (.io (walked ++ [component])) with
    | none => pure ()
    | some .special => .fail (.symlinkedPath path.text component)
    | some _ => refuseLinks root path (walked ++ [component]) rest

/-- Checks the payload at `root` against the manifest. -/
def validatePayload (manifest : Manifest) (root : P) :
    Prog (withFs S P F D) PayloadError Unit := do
  let entrypoint := manifest.entrypoint
  refuseLinks root entrypoint [] entrypoint.components
  match ← (fs (.lookup root entrypoint.components)).mapError (.io entrypoint.components) with
  | none => .fail (.missingEntrypoint entrypoint.text)
  | some (.file _ _) => pure ()
  | some _ => .fail (.entrypointNotAFile entrypoint.text)
  Prog.each (fun asset => do
    refuseLinks root asset [] asset.components
    match ← (fs (.lookup root asset.components)).mapError (.io asset.components) with
    | none => .fail (.missingAsset asset.text)
    | some _ => pure ()) manifest.assets

section Footprints

variable {W : (withFs S P F D).Op → Prop} {root : P}

theorem only_refuseLinks (h : ∀ x, W (.inl (.lookup root x))) (path : RelativePath)
    (walked rest : List String) :
    (refuseLinks root path walked rest : Prog (withFs S P F D) PayloadError Unit).Only W := by
  induction rest generalizing walked with
  | nil => trivial
  | cons component rest ih =>
    refine Prog.Only.bind (only_fs.mpr (h _)).mapError fun entry => ?_
    split
    · trivial
    · trivial
    · exact ih _

theorem only_validatePayload (h : ∀ x, W (.inl (.lookup root x))) (manifest : Manifest) :
    (manifest.validatePayload root : Prog (withFs S P F D) PayloadError Unit).Only W := by
  refine (only_refuseLinks h _ _ _).bind fun _ => ?_
  refine Prog.Only.bind (only_fs.mpr (h _)).mapError fun entry => ?_
  dsimp only
  split
  · trivial
  · refine Prog.Only.each fun asset => ?_
    refine (only_refuseLinks h _ _ _).bind fun _ => ?_
    refine Prog.Only.bind (only_fs.mpr (h _)).mapError fun entry => ?_
    split <;> trivial
  · trivial

end Footprints

theorem ensureRunnable_ok {manifest : Manifest} :
    manifest.ensureRunnable = .ok () ↔ CURRENT.canRun manifest.protocol = true := by
  unfold ensureRunnable
  split <;> simp_all

end Manifest

end Paperclip.Packages
