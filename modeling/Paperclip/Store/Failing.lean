import Paperclip.Files.Faults
import Paperclip.Store.Undo

/-!
# Installs that fail

An install gives up at its first failure, so it is the store at that failure which decides what an
error leaves selected.

* `Fails`: an operation of an install that failed. The removal of the lock is not heard.
* `Leaves`: the operations that leave the selection of an app alone.
* `failed_install_leaves_selection`: an install that fails leaves the selection as it was if and only
  if each operation that failed found it, and left it, as it was.
* `failure_after_switch`: the entry of the change cannot be removed, and the new release is selected.
-/

namespace Paperclip.Store

open Crash Files Packages Prog Protocol

/-! ## Packages -/

section Packages

variable {S : Sig} {P F : Type} {D : F → Type} {Q : (withFs S P F D).Op → Prop}
  {H : (op : (withFs S P F D).Op) → (withFs S P F D).Ret op → Prop}

theorem strict_readPackage (hH : Loud H) (parse : Bytes → Except ManifestError Manifest) (root : P) :
    (Manifest.readPackage parse root : Prog (withFs S P F D) ManifestError Manifest).Strict Q H := by
  refine Strict.bind (strict_fs hH _).mapError fun entry => ?_
  split
  · trivial
  · trivial
  · trivial
  · split
    · trivial
    · exact strict_ofExcept

theorem strict_refuseLinks (hH : Loud H) (root : P) (path : RelativePath)
    (walked rest : List String) :
    (Manifest.refuseLinks root path walked rest :
      Prog (withFs S P F D) PayloadError Unit).Strict Q H := by
  induction rest generalizing walked with
  | nil => trivial
  | cons component rest ih =>
    refine Strict.bind (strict_fs hH _).mapError fun entry => ?_
    split
    · trivial
    · trivial
    · exact ih _

theorem strict_validatePayload (hH : Loud H) (manifest : Manifest) (root : P) :
    (manifest.validatePayload root : Prog (withFs S P F D) PayloadError Unit).Strict Q H := by
  refine (strict_refuseLinks hH _ _ _ _).bind fun _ => ?_
  refine Strict.bind (strict_fs hH _).mapError fun entry => ?_
  dsimp only
  split
  · trivial
  · refine Strict.each fun asset => ?_
    refine (strict_refuseLinks hH _ _ _ _).bind fun _ => ?_
    refine Strict.bind (strict_fs hH _).mapError fun entry => ?_
    split <;> trivial
  · trivial

/-- A directory that is there is one that an extraction made. -/
theorem strict_createDirectory (hH : Loud H) (dest : P) (x : Path) :
    (createDirectory dest x : Prog (withFs S P F D) ArchiveError Unit).Strict Q H := by
  refine fun r => ⟨fun hr => ?_, ?_⟩
  · obtain ⟨e, rfl, he⟩ := hH _ _ hr
    cases e
    case alreadyExists => exact absurd rfl he
    all_goals trivial
  · cases r with
    | error e => cases e <;> trivial
    | ok _ => trivial

theorem strict_createDirectories (hH : Loud H) (dest : P) (walked x : Path) :
    (createDirectories dest walked x : Prog (withFs S P F D) ArchiveError Unit).Strict Q H := by
  induction x generalizing walked with
  | nil => trivial
  | cons component rest ih => exact (strict_createDirectory hH _ _).bind fun _ => ih _

theorem strict_writeFile (hH : Loud H) (entry : TarEntry) (dest : P) (name : RelativePath)
    (size : ℕ) :
    (writeFile entry dest name size : Prog (withFs S P F D) ArchiveError Unit).Strict Q H := by
  refine (strict_createDirectories hH _ _ _).bind fun _ => ?_
  refine Strict.bind (strict_fs hH _).mapError fun _ => ?_
  refine Strict.bind (strict_fs hH _).mapError fun _ => ?_
  split
  · split <;> trivial
  · trivial

theorem strict_extractEntries (hH : Loud H) (dest : P) (limits : ArchiveLimits)
    (ending : Option IoError) (entries : List TarEntry) (seen : ℕ) (tree : ExtractedTree) :
    (extractEntries dest limits ending entries seen tree :
      Prog (withFs S P F D) ArchiveError ExtractedTree).Strict Q H := by
  induction entries generalizing seen tree with
  | nil =>
    unfold extractEntries
    split <;> trivial
  | cons entry rest ih =>
    unfold extractEntries
    split
    · trivial
    refine strict_ofExcept.bind fun name => ?_
    split
    · exact (strict_createDirectory hH _ _).bind fun _ => ih _ _
    · split
      · trivial
      split
      · trivial
      exact (strict_writeFile hH _ _ _ _).bind fun _ => ih _ _
    · trivial

theorem strict_extract (hH : Loud H) (parse : Bytes → Except ManifestError Manifest)
    (source : TarStream) (dest : P) (limits : ArchiveLimits) :
    (extract parse source dest limits :
      Prog (withFs S P F D) ArchiveError Extracted).Strict Q H := by
  refine Strict.bind ?_ fun tree => ?_
  · refine Strict.bind ?_ fun _ => strict_extractEntries hH _ _ _ _ _ _
    refine Strict.bind (strict_fs hH _).mapError fun entries => ?_
    split <;> trivial
  split
  · trivial
  refine (strict_readPackage hH _ _).mapError.bind fun manifest => ?_
  refine (strict_validatePayload hH _ _).mapError.bind fun _ => ?_
  exact (strict_fs hH _).mapError.bind fun _ => strict_done

end Packages

/-! ## The store -/

section Store

variable {K : Type} {tools : Tools K} {app : AppId}
  {Q : (withFs noCalls Place Doc Doc.Content).Op → Prop}
  {H : (op : (withFs noCalls Place Doc Doc.Content).Op) →
    (withFs noCalls Place Doc Doc.Content).Ret op → Prop}

theorem strict_readMarker (hH : Loud H) (release : Place) :
    (readMarker tools release).Strict Q H := by
  refine Strict.bind (strict_fs hH _).mapError fun entry => ?_
  split
  · trivial
  · trivial
  · trivial
  · split <;> trivial

theorem strict_usableSelection (hH : Loud H) (named : Option Version) :
    (usableSelection tools app named).Strict Q H := by
  unfold usableSelection
  split
  · trivial
  · exact (strict_readMarker hH _).bind fun _ => strict_done

theorem strict_current (hH : Loud H) : (current tools app).Strict Q H := by
  refine Strict.bind ?_ fun named => strict_usableSelection hH named
  exact (strict_fs hH _).mapError.bind fun _ => strict_ofExcept.mapError

theorem strict_previous (hH : Loud H) : (previous tools app).Strict Q H := by
  refine Strict.bind ?_ fun named => strict_usableSelection hH named
  exact (strict_fs hH _).mapError.bind fun _ => strict_ofExcept.mapError

theorem strict_installedVersions (hH : Loud H) : (installedVersions tools app).Strict Q H := by
  refine (strict_fs hH _).mapError.bind fun places => ?_
  refine Strict.bind ?_ fun _ => strict_done
  induction versionsIn app places with
  | nil => trivial
  | cons version rest ih =>
    exact (strict_readMarker hH _).bind fun _ => ih.bind fun _ => strict_done

theorem strict_acquire (hH : Loud H) (owner : String) : (acquire owner app).Strict Q H := by
  refine (strict_fs hH _).mapError.bind fun holder => ?_
  split
  · trivial
  · exact (strict_fs hH _).mapError

theorem strict_removeStaging (hH : Loud H) (ticket : Ticket) :
    (removeStaging ticket).Strict Q H :=
  (strict_removeTree hH _).mapError.bind fun _ => (strict_removeTree hH _).mapError

theorem strict_stage (hH : Loud H) (ticket : Ticket) (release : Release) (archive : Reader)
    (limits : ArchiveLimits) : (stage tools ticket release archive limits).Strict Q H := by
  refine Strict.bind ?_ fun _ => ?_
  · refine (strict_fs hH _).mapError.bind fun _ => ?_
    refine (strict_fs hH _).mapError.bind fun _ => ?_
    split
    · trivial
    · split
      · trivial
      · dsimp only
        split <;> trivial
  refine (strict_fs hH _).mapError.bind fun _ => ?_
  refine (strict_fs hH _).mapError.bind fun entry => ?_
  split
  · exact (strict_extract hH _ _ _ _).mapError.bind fun _ => strict_done
  · trivial

theorem strict_applySelection (hH : Loud H) (version : Version) (previous : Option Version) :
    (applySelection app version previous).Strict Q H := by
  refine (strict_fs hH _).mapError.bind fun _ => ?_
  dsimp only
  split
  · split
    · exact (strict_fs hH _).mapError.bind fun _ => (strict_fs hH _).mapError
    · exact (strict_fs hH _).mapError
  · exact (strict_fs hH _).mapError

theorem strict_prune (hH : Loud H) (keep : Version) : (prune tools app keep).Strict Q H := by
  refine (strict_current hH).mapError.bind fun selected => ?_
  refine (strict_previous hH).mapError.bind fun fallback => ?_
  refine (strict_installedVersions hH).mapError.bind fun versions => ?_
  exact (Strict.each fun _ => (strict_removeTree hH _).mapError).bind fun _ => strict_done

theorem strict_finish (hH : Loud H) (request : Request) (selected : Option Version)
    (activates alreadyPresent : Bool) :
    (finish tools request selected activates alreadyPresent).Strict Q H := by
  have hprune (app : AppId) (version : Version) : (do
      let pruned ← if request.options.prune then prune tools app version else pure []
      pure ⟨app, version, selected, activates, alreadyPresent, pruned⟩ :
        InstallProg Installed).Strict Q H := by
    dsimp only
    split
    · exact (strict_prune hH _).bind fun _ => strict_done
    · trivial
  unfold finish
  dsimp only
  split
  · split
    · trivial
    · refine Strict.bind ?_ fun _ => hprune _ _
      refine (strict_fs hH _).mapError.bind fun _ => ?_
      exact (strict_applySelection hH _ _).bind fun _ => (strict_fs hH _).mapError
  · exact hprune _ _

theorem strict_installStaged (hH : Loud H) (request : Request) (selected : Option Version) :
    (installStaged tools request selected).Strict Q H := by
  refine (strict_stage hH _ _ _ _).bind fun manifest => ?_
  refine strict_ofExcept.bind fun _ => ?_
  have htail : (do
      writeMarker request.ticket ⟨request.release.release.digest, request.release.signer, request.now⟩
      commitDirectory request.ticket
      finish tools request selected
        (request.options.activate && manifest.ensureRunnable.isOk) false).Strict Q H := by
    refine ((strict_fs hH _).mapError.bind fun _ => (strict_fs hH _).mapError).bind fun _ => ?_
    refine ((strict_fs hH _).mapError.bind fun _ => (strict_fs hH _).mapError).bind fun _ => ?_
    exact strict_finish hH _ _ _ _
  dsimp only
  split
  · exact strict_ofExcept.mapError.bind fun _ => htail
  · exact htail

end Store

/-! ## An install -/

section Install

variable {K : Type} {tools : Tools K} {app : AppId}

/-- An operation of an install that failed. The removal of the lock is not heard. -/
def Fails (app : AppId) (op : (withFs noCalls Place Doc Doc.Content).Op)
    (r : (withFs noCalls Place Doc Doc.Content).Ret op) : Prop :=
  Failure op r ∧ op ≠ .inl (.delete (.lock app))

/-- The operations that leave the selection of an app alone. -/
abbrev Leave (app : AppId) : (withFs noCalls Place Doc Doc.Content).Op → Prop :=
  Within (fun _ => True) fun f => f ≠ .current app ∧ f ≠ .previous app

/-- The selection of an app is as it was. -/
def Still (app : AppId) (d d' : StoreDisk) : Prop :=
  d'.doc (.current app) = d.doc (.current app) ∧ d'.doc (.previous app) = d.doc (.previous app)

theorem loud_fails : Loud (Fails app) := fun _ _ h => h.1

theorem Still.leave (order : Tree.Order) (faults : Faults) {op : (withFs noCalls Place Doc Doc.Content).Op}
    {d : StoreDisk} {w : StoreDisk × ℕ} (hop : Leave app op) (h : Still app d w.1) :
    Still app d (faulty order faults op w).2.1 := by
  rcases op with o | o
  · have hkept (f : Doc) (hf : f = .current app ∨ f = .previous app) :
        (faulty order faults (.inl o) w).2.1.doc f = w.1.doc f :=
      faulty_doc order faults (fun hm => hf.elim (hop.2 f hm).1 (hop.2 f hm).2) w
    exact ⟨(hkept _ (.inl rfl)).trans h.1, (hkept _ (.inr rfl)).trans h.2⟩
  · exact o.elim

theorem leave_finishTransaction (ticket : Ticket) :
    (finishTransaction ticket).Only (Leave app) := by
  refine Only.bind ?_ fun _ => (only_fs.mpr ⟨fun _ _ => trivial, ?_⟩).mapError
  · exact (only_removeTree trivial).mapError.bind fun _ => (only_removeTree trivial).mapError
  · simp [FsOp.names, Journal.doc]

theorem strict_finishTransaction (ticket : Ticket) :
    (finishTransaction ticket).Strict (Leave app) (Fails app) :=
  (strict_removeStaging loud_fails _).bind fun _ => (strict_fs loud_fails _).mapError

/-- What fails in the staged part is handed on once the staging is gone. -/
theorem strict_installFresh (request : Request) (selected : Option Version) :
    (installFresh tools request selected).Strict (Leave app) (Fails app) := by
  have hbegin : (beginTransaction request.ticket).Strict (Leave app) (Fails app) :=
    (strict_removeStaging loud_fails _).bind fun _ => (strict_fs loud_fails _).mapError.bind
      fun _ => (strict_fs loud_fails _).mapError
  refine hbegin.bind fun _ => ?_
  refine (strict_installStaged loud_fails request selected).attempt_bind (fun installed => ?_)
    fun e => ?_
  · exact (strict_finishTransaction _).bind fun _ => strict_done
  · exact (leave_finishTransaction _).ignore.bind_ends fun _ => ends_fail

theorem strict_withLock {α : Type} {body : InstallProg α} (owner : String)
    (hbody : body.Strict (Leave app) (Fails app)) :
    (withLock owner app body).Strict (Leave app) (Fails app) := by
  have hunlock : (fs (.delete (.lock app)) :
      Prog (withFs noCalls Place Doc Doc.Content) IoError Unit).Only (Leave app) :=
    only_fs.mpr ⟨nofun, by simp [FsOp.names]⟩
  have hdeaf : (fs (.delete (.lock app)) : Prog (withFs noCalls Place Doc Doc.Content) IoError
      Unit).Only fun op => ∀ r, ¬ Fails app op r :=
    only_fs.mpr fun _ h => h.2 rfl
  refine (strict_acquire loud_fails owner).mapError.bind fun _ => ?_
  refine hbody.attempt_bind (fun a => ?_) fun e => ?_
  · exact hdeaf.ignore.strict.bind fun _ => strict_done
  · exact hunlock.ignore.bind_ends fun _ => ends_fail

/-- An install gives up at its first failure. -/
theorem strict_install (tools : Tools K) (request : Request) :
    (install tools request).Strict (Leave request.release.release.app)
      (Fails request.release.release.app) := by
  refine (strict_fs loud_fails _).mapError.bind fun _ => strict_withLock _ ?_
  refine (strict_current loud_fails).mapError.bind fun selected => ?_
  refine strict_ofExcept.bind fun _ => ?_
  refine (strict_readMarker loud_fails _).mapError.bind fun marker => ?_
  split
  · unfold installPresent
    dsimp only
    split
    · trivial
    · exact (strict_readPackage loud_fails _ _).mapError.bind fun _ => strict_finish loud_fails _ _ _ _
  · exact strict_installFresh request selected

/-- An install in which an operation fails leaves the selection as it was if and only if each
operation that failed left a store with the selection as it was. -/
theorem failed_install_leaves_selection (tools : Tools K) (request : Request) (order : Tree.Order)
    (faults : Faults) (d : StoreDisk) :
    ((∃ step ∈ (install tools request).trace (faulty order faults) (d, 0),
        Fails request.release.release.app step.op step.ret) →
      (∃ e, ((install tools request).run (faulty order faults) (d, 0)).1 = .error e) →
      Still request.release.release.app d
        ((install tools request).run (faulty order faults) (d, 0)).2.1) ↔
    ∀ step ∈ (install tools request).trace (faulty order faults) (d, 0),
      Fails request.release.release.app step.op step.ret →
        Still request.release.release.app d step.after.1 := by
  have hstrict := strict_install tools request
  constructor
  · intro h step hstep hfails
    obtain ⟨herror, hkept⟩ := hstrict.run hstep hfails
    have hend := h ⟨step, hstep, hfails⟩ herror
    have hsame := hkept (fun w => Still request.release.release.app step.after.1 w.1)
      (fun op w hop hw => hw.leave order faults hop) ⟨rfl, rfl⟩
    exact ⟨hsame.1.symm.trans hend.1, hsame.2.symm.trans hend.2⟩
  · rintro h ⟨step, hstep, hfails⟩ -
    exact (hstrict.run hstep hfails).2 (fun w => Still request.release.release.app d w.1)
      (fun op w hop hw => hw.leave order faults hop) (h step hstep hfails)

end Install

namespace Shelf

/-- The twelfth operation of the install, the removal of the entry of the change, fails. -/
def entryStays : Faults where
  at_ n := if n = 11 then some (.before (.other "input/output error")) else none
  device n fault h := by
    split at h
    · cases h
      decide
    · cases h

/-- A journal file that could not be removed. -/
def removalFails : (op : (withFs noCalls Place Doc Doc.Content).Op) →
    (withFs noCalls Place Doc Doc.Content).Ret op → Bool
  | .inl (.delete (.journal _ _ _)), .error _ => true
  | _, _ => false

theorem fails_of_removalFails {op : (withFs noCalls Place Doc Doc.Content).Op}
    {r : (withFs noCalls Place Doc Doc.Content).Ret op} (h : removalFails op r = true) :
    Fails app op r := by
  unfold removalFails at h
  split at h
  · exact ⟨⟨_, rfl⟩, by simp⟩
  · cases h

end Shelf

open Paperclip.Store.Shelf in
/-- The third release is installed over the second. The entry of the change cannot be removed: the
install fails, with the third selected, and the second its fallback. -/
theorem failure_after_switch :
    ¬ ((∃ step ∈ (install tools request).trace (faulty .byDepth entryStays) (disk, 0),
          Fails app step.op step.ret) →
        (∃ e, ((install tools request).run (faulty .byDepth entryStays) (disk, 0)).1 = .error e) →
        Still app disk ((install tools request).run (faulty .byDepth entryStays) (disk, 0)).2.1) := by
  intro h
  obtain ⟨hfails, herror, hcurrent⟩ :
      ((install tools request).trace (faulty .byDepth entryStays) (disk, 0)).any
          (fun step => removalFails step.op step.ret) = true ∧
        ((install tools request).run (faulty .byDepth entryStays) (disk, 0)).1.isOk = false ∧
        ((install tools request).run (faulty .byDepth entryStays) (disk, 0)).2.1.doc (.current app) ≠
          disk.doc (.current app) := by
    rw [← knownTools_eq]
    decide +kernel
  obtain ⟨step, hstep, hremoval⟩ := List.any_eq_true.mp hfails
  refine hcurrent (h ⟨step, hstep, fails_of_removalFails hremoval⟩ ?_).1
  generalize ((install tools request).run (faulty .byDepth entryStays) (disk, 0)).1 = r at herror
  cases r with
  | ok _ => cases herror
  | error e => exact ⟨e, rfl⟩

end Paperclip.Store
