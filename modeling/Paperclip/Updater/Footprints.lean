import Paperclip.Updater.Upgrade

/-!
# Footprints

What each part of a transaction may write: preparing a bundle stays inside its staging directory, a
snapshot inside the snapshots, a restore inside the platform state, and none of them touches the
journal or a link.
-/

namespace Paperclip.Updater

open Crash Files Packages Prog

section Within

variable {S : Sig} {U : Place → Prop} {N : Doc → Prop} {p : Place}
  {W : (withFs S Place Doc Doc.Content).Op → Prop}

theorem only_io_read {o : FsOp Place Doc Doc.Content} (hp : o.places = []) (hn : o.names = []) :
    (io o : UpdaterProg S o.Ok).Only (Within U N) := (only_read hp hn).mapError

theorem only_io_change {o : FsOp Place Doc Doc.Content} (hp : o.places = [p]) (hn : o.names = [])
    (h : U p) : (io o : UpdaterProg S o.Ok).Only (Within U N) := (only_change hp hn h).mapError

theorem only_ensure (h : U .platformState) : (ensure : UpdaterProg S Unit).Only (Within U N) :=
  only_io_change rfl rfl h

theorem only_isDirectory (p : Place) : (isDirectory p : UpdaterProg S Bool).Only (Within U N) := by
  refine Only.bind (only_read rfl rfl).attempt fun r => ?_
  split <;> trivial

theorem only_rename {q : Place} (hp : U p) (hq : U q) :
    (store (fs (.rename p q)) : UpdaterProg S Unit).Only (Within U N) :=
  Only.mapError (only_fs.mpr (by simp [Within, FsOp.places, FsOp.names, hp, hq]))

theorem only_removeIfExists (h : U p) :
    (removeIfExists p : UpdaterProg S Unit).Only (Within U N) := by
  refine (only_isDirectory _).bind fun b => ?_
  split
  · exact (only_removeTree h).mapError
  · trivial

/-! ## Manifests -/

theorem only_readFile (h : Reads W) (p : Place) (x : Path) :
    (readFile p x : Prog (withFs S Place Doc Doc.Content) IoError Bytes).Only W := by
  refine Only.bind (only_fs.mpr (h _ rfl rfl rfl)) fun entry => ?_
  split <;> trivial

theorem only_verifyComponent (h : Reads W) (ext : Externals) (policy : ComponentPolicy) (release : Place)
    (component : Component) :
    (verifyComponent ext policy release component : UpdaterProg S Unit).Only W := by
  unfold verifyComponent
  split
  · trivial
  refine (only_readFile h _ _).mapError.bind fun metadata => ?_
  split
  · trivial
  refine (only_readFile h _ _).mapError.bind fun bytes => ?_
  dsimp only
  split
  · trivial
  split
  · split
    · refine (only_readFile h _ _).mapError.bind fun header => ?_
      split
      · trivial
      · split <;> trivial
    · trivial
  · trivial

theorem only_verifyPayload (h : Reads W) (ext : Externals) (manifest : PlatformManifest) (release : Place)
    (policy : ComponentPolicy) :
    (verifyPayload ext manifest release policy : UpdaterProg S Unit).Only W :=
  Only.each fun _ => only_verifyComponent h _ _ _ _

theorem only_readRelease (h : Reads W) (ext : Externals) (release : Place) :
    (readRelease ext release : UpdaterProg S VerifiedPlatform).Only W := by
  refine (only_readFile h _ _).mapError.bind fun document => ?_
  split
  · trivial
  refine (only_readFile h _ _).mapError.bind fun armoured => ?_
  exact only_ofExcept.bind fun _ => only_ofExcept

/-! ## Parts of the transaction -/

theorem only_setExecutable (h : U p) (component : Component) :
    (setExecutable p component : UpdaterProg S Unit).Only (Within U N) := by
  unfold setExecutable
  split
  · split
    · exact only_io_change rfl rfl h
    · trivial
  · trivial

theorem only_prepare (h : U p) (u : Upgrade) (bundle : Option TarStream) :
    (prepare u bundle p : UpdaterProg S VerifiedPlatform).Only (Within U N) := by
  refine Only.bind (only_change rfl rfl h).mapError fun _ => ?_
  split
  · trivial
  refine (only_extractTree (extracts_of_builds (builds_within h)) _ _).mapError.bind fun tree => ?_
  refine (only_readRelease reads_within _ _).bind fun verified => ?_
  refine (only_verifyPayload reads_within _ _ _ _).bind fun _ => ?_
  split
  · trivial
  · exact (Only.each (only_setExecutable h)).bind fun _ => trivial

theorem only_takeSnapshot {v : Version} (h : U (snapshotDir v)) (h' : U (takingDir v)) :
    (takeSnapshot v : UpdaterProg S Unit).Only (Within U N) := by
  refine (only_removeIfExists h).bind fun _ => (only_removeIfExists h').bind fun _ => ?_
  exact (only_copyTree h' _ _).mapError.bind fun _ => only_rename h' h

theorem only_snapshotNeeded (u : Upgrade) (v : Version) (candidate : PlatformManifest) :
    (snapshotNeeded u v candidate : UpdaterProg S (Option Nat)).Only (Within U N) := by
  refine (only_readRelease reads_within _ _).attempt.bind fun r => ?_
  split <;> trivial

theorem only_snapshotForRollback (h : ∀ name, U (.snapshots name)) (u : Upgrade)
    (from_ : Option Version) (candidate : PlatformManifest) :
    (snapshotForRollback u from_ candidate : UpdaterProg S (Option Place)).Only (Within U N) := by
  unfold snapshotForRollback
  split
  · trivial
  refine (only_snapshotNeeded _ _ _).bind fun reads => ?_
  split
  · trivial
  refine (only_takeSnapshot (h _) (h _)).attempt.bind fun r => ?_
  split <;> trivial

theorem only_restoreSnapshot (h : U .platformState) (h' : U .restoring) (record : Record) :
    (restoreSnapshot record : UpdaterProg S Bool).Only (Within U N) := by
  unfold restoreSnapshot
  split
  · trivial
  refine (only_isDirectory _).bind fun b => ?_
  split
  · refine (only_removeIfExists h').bind fun _ => (only_copyTree h' _ _).mapError.bind fun _ => ?_
    exact (only_removeIfExists h).bind fun _ => (only_rename h' h).bind fun _ => trivial
  · trivial

theorem only_installed : (installed : UpdaterProg S (List Version)).Only (Within U N) :=
  Only.bind (only_io_read rfl rfl) fun _ => trivial

/-- Pruning removes releases other than the two that it is given. -/
theorem only_prune {current : Version} {previous : Option Version}
    (h : ∀ v, v ≠ current → some v ≠ previous → U (releaseDir v)) :
    (prune current previous : UpdaterProg S Unit).Only (Within U N) := by
  refine only_installed.bind fun versions => ?_
  refine Only.each fun v => ?_
  by_cases hv : v = current ∨ some v = previous
  · rw [if_pos hv]
    trivial
  · rw [if_neg hv]
    exact (only_removeTree (h v (fun hc => hv (.inl hc)) fun hp => hv (.inr hp))).mapError

end Within

end Paperclip.Updater
