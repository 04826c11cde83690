import Paperclip.Files.Tree
import Paperclip.Protocol

/-!
# Private storage

What an app keeps: files under names of its own, in a directory of its own.

* `FileOp`: the steps that a write is made of. `writeOps`: those of a write.
* `Storage.readPrivate`, `Storage.writePrivate`: reading and writing a file.
* `Event`: a write that returns, or one that is killed after some of its steps.
* `Atomic`: a file reads as what was last written to it in full, wherever the writes are killed, and
  as before after a write to another name.
* `Clash`: a name at which the write to another one is seen.
* `atomic_iff`: a file is atomic just if it clashes with no other name that is written.
-/

namespace Paperclip.Sdk

open Files Paperclip.Protocol

/-- Why a storage operation did not happen. -/
inductive StorageError where
  | notGranted
  | unsafeName (name : String) (source : PathError)
  | io (path : Path) (source : IoError)
  deriving DecidableEq

/-! ## Steps on the directory -/

/-- The path is that of something other than a directory. -/
def Blocks (t : Tree) (path : Path) : Prop := t.get path ≠ none ∧ t.get path ≠ some .dir

instance (t : Tree) (path : Path) : Decidable (Blocks t path) :=
  inferInstanceAs (Decidable (_ ∧ _))

/-- Reads a file. -/
def readFile (t : Tree) (path : Path) : Except IoError Bytes :=
  match t.get path with
  | some (.file bytes _) => .ok bytes
  | some .dir => .error .isADirectory
  | some .special => .error (.other "not a regular file")
  | none => if ∃ above ∈ path.inits, Blocks t above then .error .notADirectory else .error .notFound

/-- One step of a write. The directories that are made are those of `parent`, one at a time. -/
inductive FileOp where
  | createDir (parent path : Path)
  | create (path : Path)
  | append (path : Path) (byte : UInt8)
  | rename (source target : Path)

namespace FileOp

/-- A directory is left as it is. -/
def execCreateDir (t : Tree) (parent path : Path) : Except IoError Tree :=
  match t.get path with
  | none => t.add path .dir
  | some .dir => .ok t
  | some _ => .error (if path = parent then .alreadyExists else .notADirectory)

/-- A file that is there is cut off to no bytes. -/
def execCreate (t : Tree) (path : Path) : Except IoError Tree :=
  match t.get path with
  | none => t.add path (.file [] false)
  | some (.file _ executable) => t.setFile path [] executable
  | some .dir => .error .isADirectory
  | some .special => .error (.other "not a regular file")

def execAppend (t : Tree) (path : Path) (byte : UInt8) : Except IoError Tree :=
  match t.get path with
  | some (.file bytes executable) => t.setFile path (bytes ++ [byte]) executable
  | _ => .error .notFound

/-- A file that is there is replaced. -/
def execRename (t : Tree) (source target : Path) : Except IoError Tree :=
  match t.get source with
  | some (.file bytes executable) =>
    if t.get target = some .dir then .error .isADirectory
    else do
      let t ← t.remove source
      let t ← if t.get target = none then .ok t else t.remove target
      t.add target (.file bytes executable)
  | _ => .error .notFound

def exec (t : Tree) : FileOp → Except IoError Tree
  | createDir parent path => execCreateDir t parent path
  | create path => execCreate t path
  | append path byte => execAppend t path byte
  | rename source target => execRename t source target

/-- The path in the error of a step. -/
def blamed : FileOp → Path
  | createDir parent _ => parent
  | create path | append path _ => path
  | rename _ target => target

/-- Takes steps up to the first that fails. -/
def run : List FileOp → Tree → Except StorageError Unit × Tree
  | [], t => (.ok (), t)
  | op :: rest, t =>
    match op.exec t with
    | .ok t => run rest t
    | .error source => (.error (.io op.blamed source), t)

end FileOp

/-! ## The storage of an app -/

/-- Whether an app was granted storage. -/
structure Storage where
  storage : Bool

/-- The file that a write goes to first: its name has `.partial` at the end. -/
def temporary (path : Path) : Path :=
  path.dropLast ++ path.getLast?.toList.map fun name => name ++ ".partial"

/-- The steps of a write: the directories of the file, the bytes of the temporary file, and its new
name. -/
def writeOps (path : Path) (bytes : Bytes) : List FileOp :=
  path.dropLast.inits.tail.map (.createDir path.dropLast) ++
    (.create (temporary path) :: bytes.map (.append (temporary path))) ++
      [.rename (temporary path) path]

/-- The path of a name, refusing one that would leave the directory. -/
def joinSafely (name : String) : Except StorageError Path :=
  match RelativePath.parse name with
  | .ok relative => .ok relative.components
  | .error source => .error (.unsafeName name source)

namespace Storage

variable (self : Storage)

def requireStorage : Except StorageError Unit := if self.storage then .ok () else .error .notGranted

/-- Reads a file from private storage, or `none` if it is not there. -/
def readPrivate (name : String) (t : Tree) : Except StorageError (Option Bytes) := do
  self.requireStorage
  let path ← joinSafely name
  match readFile t path with
  | .ok bytes => return some bytes
  | .error .notFound => return none
  | .error source => throw (.io path source)

/-- The steps of a write to a name. -/
def writeSteps (name : String) (bytes : Bytes) : Except StorageError (List FileOp) := do
  self.requireStorage
  let path ← joinSafely name
  return writeOps path bytes

/-- Writes a file to private storage, to a temporary file first. -/
def writePrivate (name : String) (bytes : Bytes) (t : Tree) : Except StorageError Unit × Tree :=
  match self.writeSteps name bytes with
  | .ok ops => FileOp.run ops t
  | .error e => (.error e, t)

/-- What a write leaves that is killed after some steps. -/
def writeKilled (name : String) (bytes : Bytes) (steps : ℕ) (t : Tree) : Tree :=
  match self.writeSteps name bytes with
  | .ok ops => (FileOp.run (ops.take steps) t).2
  | .error _ => t

end Storage

/-- A write, which returns or is killed. -/
inductive Event where
  | returned (name : RelativePath) (bytes : Bytes)
  | killed (name : RelativePath) (bytes : Bytes) (steps : ℕ)

namespace Event

def name : Event → RelativePath
  | returned name _ | killed name _ _ => name

def step (self : Storage) (t : Tree) : Event → Tree
  | returned name bytes => (self.writePrivate name.text bytes t).2
  | killed name bytes steps => self.writeKilled name.text bytes steps t

/-- What a file may have after an event: what was last written to it, or what was meant to be by a
write that was killed. -/
def values (self : Storage) (name : RelativePath) (t : Tree) (before : List (Option Bytes)) :
    Event → List (Option Bytes)
  | returned written bytes =>
    if written = name ∧ (self.writePrivate written.text bytes t).1.isOk then [some bytes]
    else before
  | killed written bytes _ => if written = name then some bytes :: before else before

end Event

variable (self : Storage) (name : RelativePath)

/-- The directory after some events, and what a file may have. -/
def play (events : List Event) : Tree × List (Option Bytes) :=
  events.foldl (fun now event => (event.step self now.1, event.values self name now.1 now.2))
    (.empty, [none])

/-- However files of some names are written, one reads as what was last written to it or was meant
to be, and as before after a write to another name. -/
def Atomic (written : RelativePath → Prop) : Prop :=
  ∀ events : List Event, (∀ event ∈ events, written event.name) →
    (∃ value ∈ (play self name events).2,
      self.readPrivate name.text (play self name events).1 = .ok value) ∧
    ∀ event : Event, written event.name → event.name ≠ name →
      self.readPrivate name.text (event.step self (play self name events).1) =
        self.readPrivate name.text (play self name events).1

/-- A write to one name is seen at another: it is above or below it, or its temporary file is. -/
def Clash (written name : RelativePath) : Prop :=
  written.components <+: name.components ∨ name.components <+: written.components ∨
    temporary written.components <+: name.components

/-! ## What a step does -/

section

variable {t t' : Tree} {path parent source target : Path} {byte : UInt8}

theorem createDir_cases (h : (FileOp.createDir parent path).exec t = .ok t') :
    (t.get path = some .dir ∧ t' = t) ∨
      ∀ q, t'.get q = if q = path then some .dir else t.get q := by
  simp only [FileOp.exec, FileOp.execCreateDir] at h
  split at h
  · exact .inr (Tree.get_add h)
  · next hdir => exact .inl ⟨hdir, (Except.ok.inj h).symm⟩
  · cases h

theorem create_cases (h : (FileOp.create path).exec t = .ok t') :
    ∃ executable, ∀ q, t'.get q = if q = path then some (.file [] executable) else t.get q := by
  simp only [FileOp.exec, FileOp.execCreate] at h
  split at h
  · exact ⟨false, Tree.get_add h⟩
  · exact ⟨_, Tree.get_setFile h⟩
  · cases h
  · cases h

theorem append_cases (h : (FileOp.append path byte).exec t = .ok t') :
    ∃ bytes executable, t.get path = some (.file bytes executable) ∧
      ∀ q, t'.get q = if q = path then some (.file (bytes ++ [byte]) executable) else t.get q := by
  simp only [FileOp.exec, FileOp.execAppend] at h
  split at h
  · next hfile => exact ⟨_, _, hfile, Tree.get_setFile h⟩
  · cases h

theorem rename_cases (h : (FileOp.rename source target).exec t = .ok t') :
    ∃ bytes executable, t.get source = some (.file bytes executable) ∧
      ∀ q, t'.get q = if q = target then some (.file bytes executable)
        else if q = source then none else t.get q := by
  simp only [FileOp.exec, FileOp.execRename] at h
  split at h
  · next bytes executable hfile =>
    split at h
    · cases h
    refine ⟨bytes, executable, hfile, fun q => ?_⟩
    cases hremove : t.remove source with
    | error e =>
      rw [hremove] at h
      cases h
    | ok t₁ =>
      rw [hremove] at h
      have h : (if t₁.get target = none then t₁.add target (.file bytes executable)
        else t₁.remove target >>= fun t => t.add target (.file bytes executable)) = .ok t' := h
      split at h
      · rw [Tree.get_add h, Tree.get_remove hremove]
      · cases hremove' : t₁.remove target with
        | error e =>
          rw [hremove'] at h
          cases h
        | ok t₂ =>
          rw [hremove'] at h
          have h : t₂.add target (.file bytes executable) = .ok t' := h
          rw [Tree.get_add h, Tree.get_remove hremove', Tree.get_remove hremove]
          split
          · rfl
          · rfl
  · cases h

end

/-! ## What a step leaves -/

/-- A name has a value: its file has the bytes, or is not there and can be. -/
structure Holds (t : Tree) (path : Path) (value : Option Bytes) : Prop where
  above : ∀ q, q <+: path → q ≠ path → t.get q = none ∨ t.get q = some .dir
  file : ∃ executable, t.get path = value.map fun bytes => .file bytes executable

/-- A step that does not touch a file, and none above it but to make a directory. -/
def FileOp.Spares (path : Path) : FileOp → Prop
  | createDir _ made => made ≠ path
  | create changed | append changed _ => ¬ changed <+: path
  | rename source target => ¬ source <+: path ∧ ¬ target <+: path

section

variable {t t' : Tree} {path : Path} {value : Option Bytes} {op : FileOp} {ops : List FileOp}

theorem Holds.congr (h : Holds t path value) (heq : ∀ q, q <+: path → t'.get q = t.get q) :
    Holds t' path value where
  above q hq hne := by
    rw [heq q hq]
    exact h.above q hq hne
  file := by
    rw [heq path (List.prefix_refl _)]
    exact h.file

theorem Holds.exec (h : Holds t path value) (hspares : op.Spares path)
    (hexec : op.exec t = .ok t') : Holds t' path value := by
  cases op with
  | createDir parent made =>
    rcases createDir_cases hexec with ⟨-, rfl⟩ | hget
    · exact h
    · refine ⟨fun q hq hne => ?_, ?_⟩
      · rw [hget]
        split
        · exact .inr rfl
        · exact h.above q hq hne
      · rw [hget, if_neg (Ne.symm hspares)]
        exact h.file
  | create changed =>
    obtain ⟨executable, hget⟩ := create_cases hexec
    refine h.congr fun q hq => ?_
    rw [hget, if_neg]
    rintro rfl
    exact hspares hq
  | append changed byte =>
    obtain ⟨bytes, executable, -, hget⟩ := append_cases hexec
    refine h.congr fun q hq => ?_
    rw [hget, if_neg]
    rintro rfl
    exact hspares hq
  | rename source target =>
    obtain ⟨bytes, executable, -, hget⟩ := rename_cases hexec
    refine h.congr fun q hq => ?_
    rw [hget, if_neg, if_neg]
    · rintro rfl
      exact hspares.1 hq
    · rintro rfl
      exact hspares.2 hq

theorem run_cons_ok {rest : List FileOp} (h : op.exec t = .ok t') :
    FileOp.run (op :: rest) t = FileOp.run rest t' := by
  rw [FileOp.run, h]

theorem run_cons_error {rest : List FileOp} {e : IoError} (h : op.exec t = .error e) :
    FileOp.run (op :: rest) t = (.error (.io op.blamed e), t) := by
  rw [FileOp.run, h]

/-- The steps after others are taken where those did not fail. -/
theorem run_append (first rest : List FileOp) (t : Tree) :
    FileOp.run (first ++ rest) t =
      match FileOp.run first t with
      | (.ok _, t) => FileOp.run rest t
      | (.error e, t) => (.error e, t) := by
  induction first generalizing t with
  | nil => rfl
  | cons op first ih =>
    rw [List.cons_append]
    cases hexec : op.exec t with
    | ok t' =>
      rw [run_cons_ok hexec, run_cons_ok hexec]
      exact ih t'
    | error e => rw [run_cons_error hexec, run_cons_error hexec]

theorem run_append_ok {rest : List FileOp} {done : Unit} (h : FileOp.run ops t = (.ok done, t')) :
    FileOp.run (ops ++ rest) t = FileOp.run rest t' := by
  rw [run_append, h]

theorem run_append_error {rest : List FileOp} {e : StorageError}
    (h : FileOp.run ops t = (.error e, t')) : FileOp.run (ops ++ rest) t = (.error e, t') := by
  rw [run_append, h]

theorem Holds.run (h : Holds t path value) (hspares : ∀ op ∈ ops, op.Spares path) :
    Holds (FileOp.run ops t).2 path value := by
  induction ops generalizing t with
  | nil => exact h
  | cons op rest ih =>
    obtain ⟨hop, hrest⟩ := List.forall_mem_cons.1 hspares
    cases hexec : op.exec t with
    | ok t' =>
      rw [run_cons_ok hexec]
      exact ih (h.exec hop hexec) hrest
    | error e =>
      rw [run_cons_error hexec]
      exact h

end

/-! ## A write -/

section

variable {t : Tree} {path other : Path} {value : Option Bytes} {bytes : Bytes} {op : FileOp}

theorem temporary_eq (h : path ≠ []) :
    temporary path = path.dropLast ++ [path.getLast h ++ ".partial"] := by
  rw [temporary, List.getLast?_eq_getLast_of_ne_nil h]
  rfl

theorem length_temporary (h : path ≠ []) : (temporary path).length = path.length := by
  rw [temporary_eq h, List.length_append, List.length_dropLast, List.length_singleton]
  exact Nat.sub_add_cancel (List.length_pos_iff.2 h)

/-- The temporary file is beside the file, and not above it. -/
theorem not_temporary_below (h : path ≠ []) : ¬ temporary path <+: path := by
  intro hpre
  have heq := hpre.eq_of_length (length_temporary h)
  rw [temporary_eq h] at heq
  have hlast := List.append_inj_right' (heq.trans (List.dropLast_append_getLast h).symm) rfl
  have hlen := congrArg String.length (List.cons.inj hlast).1
  rw [String.length_append] at hlen
  have : (".partial" : String).length = 8 := rfl
  omega

/-- The directories that a write makes are those above its file. -/
theorem mem_parents {q : Path} (h : q ∈ path.dropLast.inits.tail) : q <+: path.dropLast :=
  (List.mem_inits q path.dropLast).1 (List.mem_of_mem_tail h)

/-- The steps of a write but the last. -/
def openOps (path : Path) (bytes : Bytes) : List FileOp :=
  path.dropLast.inits.tail.map (.createDir path.dropLast) ++
    (.create (temporary path) :: bytes.map (.append (temporary path)))

theorem openOps_spares (bytes : Bytes) (hmade : ∀ q, q <+: path.dropLast → q ≠ other)
    (htemporary : ¬ temporary path <+: other) : ∀ op ∈ openOps path bytes, op.Spares other := by
  intro op hop
  rcases List.mem_append.1 hop with hop | hop
  · obtain ⟨q, hq, rfl⟩ := List.mem_map.1 hop
    exact hmade q (mem_parents hq)
  · rcases List.mem_cons.1 hop with rfl | hop
    · exact htemporary
    · obtain ⟨byte, -, rfl⟩ := List.mem_map.1 hop
      exact htemporary

/-- The steps of a write to another name spare a file that it does not clash with. -/
theorem writeOps_spares (bytes : Bytes) (habove : ¬ path <+: other)
    (hbelow : ¬ other <+: path) (htemporary : ¬ temporary path <+: other) :
    ∀ op ∈ writeOps path bytes, op.Spares other := by
  intro op hop
  rcases List.mem_append.1 hop with hop | hop
  · refine openOps_spares bytes ?_ htemporary op hop
    rintro q hq rfl
    exact hbelow (hq.trans (List.dropLast_prefix path))
  · obtain rfl := List.mem_singleton.1 hop
    exact ⟨htemporary, habove⟩

/-- The steps of a write but the last spare its file. -/
theorem openOps_own (bytes : Bytes) (h : path ≠ []) :
    ∀ op ∈ openOps path bytes, op.Spares path := by
  refine openOps_spares bytes ?_ (not_temporary_below h)
  rintro q hq rfl
  have hlen := hq.length_le
  rw [List.length_dropLast] at hlen
  have := List.length_pos_iff.2 h
  omega

theorem run_appends {before : Bytes} {executable : Bool}
    (h : t.get path = some (.file before executable))
    (hok : (FileOp.run (bytes.map (.append path)) t).1 = .ok ()) :
    ∃ executable, (FileOp.run (bytes.map (.append path)) t).2.get path =
      some (.file (before ++ bytes) executable) := by
  induction bytes generalizing t before executable with
  | nil => exact ⟨executable, by rw [List.append_nil]; exact h⟩
  | cons byte rest ih =>
    rw [List.map_cons] at hok ⊢
    cases hexec : (FileOp.append path byte).exec t with
    | error e =>
      rw [run_cons_error hexec] at hok
      cases hok
    | ok t' =>
      rw [run_cons_ok hexec] at hok ⊢
      obtain ⟨bytes', executable', hfile, hget⟩ := append_cases hexec
      rw [h] at hfile
      cases hfile
      have hnext := hget path
      rw [if_pos rfl] at hnext
      have hdone := ih hnext hok
      rwa [List.append_assoc] at hdone

/-- Before its last step a write has its bytes in the temporary file. -/
theorem run_openOps (hok : (FileOp.run (openOps path bytes) t).1 = .ok ()) :
    ∃ executable, (FileOp.run (openOps path bytes) t).2.get (temporary path) =
      some (.file bytes executable) := by
  rw [openOps] at hok ⊢
  rcases hdirs : FileOp.run (path.dropLast.inits.tail.map (.createDir path.dropLast)) t with
    ⟨e | done, t₁⟩
  · rw [run_append_error hdirs] at hok
    cases hok
  rw [run_append_ok hdirs] at hok ⊢
  cases hexec : (FileOp.create (temporary path)).exec t₁ with
  | error e =>
    rw [run_cons_error hexec] at hok
    cases hok
  | ok t₂ =>
    rw [run_cons_ok hexec] at hok ⊢
    obtain ⟨executable, hget⟩ := create_cases hexec
    have hempty := hget (temporary path)
    rw [if_pos rfl] at hempty
    exact run_appends hempty hok

/-- A write that is done gives its file the bytes, and one that fails leaves it. -/
theorem Holds.write (h : Holds t path value) (bytes : Bytes) (hne : path ≠ []) :
    Holds (FileOp.run (writeOps path bytes) t).2 path
      (if (FileOp.run (writeOps path bytes) t).1.isOk then some bytes else value) := by
  have hopen := h.run (openOps_own bytes hne)
  have hwrite : writeOps path bytes = openOps path bytes ++ [.rename (temporary path) path] := rfl
  rw [hwrite]
  rcases hrun : FileOp.run (openOps path bytes) t with ⟨e | done, t₁⟩
  · rw [run_append_error hrun]
    rw [hrun] at hopen
    exact hopen
  obtain ⟨executable, hfile⟩ := run_openOps (congrArg Prod.fst hrun)
  rw [hrun] at hopen hfile
  rw [run_append_ok hrun]
  cases hexec : (FileOp.rename (temporary path) path).exec t₁ with
  | error e =>
    rw [run_cons_error hexec]
    exact hopen
  | ok t₂ =>
    rw [run_cons_ok hexec]
    show Holds t₂ path (some bytes)
    obtain ⟨bytes', executable', hfile', hget⟩ := rename_cases hexec
    rw [hfile] at hfile'
    cases hfile'
    refine ⟨fun q hq hqne => ?_, executable, ?_⟩
    · have hqt : q ≠ temporary path := by
        rintro rfl
        exact not_temporary_below hne hq
      rw [hget, if_neg hqne, if_neg hqt]
      exact hopen.above q hq hqne
    · rw [hget, if_pos rfl]
      rfl

end

/-! ## Histories -/

section

variable {self : Storage} {name : RelativePath} {t : Tree} {value : Option Bytes}

theorem writeSteps_ok (hgranted : self.storage = true) (name : RelativePath) (bytes : Bytes) :
    self.writeSteps name.text bytes = .ok (writeOps name.components bytes) := by
  rw [Storage.writeSteps, Storage.requireStorage, if_pos hgranted, joinSafely,
    RelativePath.parse_of_valid]
  rfl

theorem writePrivate_eq (hgranted : self.storage = true) (name : RelativePath) (bytes : Bytes)
    (t : Tree) :
    self.writePrivate name.text bytes t = FileOp.run (writeOps name.components bytes) t := by
  rw [Storage.writePrivate, writeSteps_ok hgranted]

theorem writeKilled_eq (hgranted : self.storage = true) (name : RelativePath) (bytes : Bytes)
    (steps : ℕ) (t : Tree) :
    self.writeKilled name.text bytes steps t =
      (FileOp.run ((writeOps name.components bytes).take steps) t).2 := by
  rw [Storage.writeKilled, writeSteps_ok hgranted]

theorem readPrivate_eq (hgranted : self.storage = true) (name : RelativePath) (t : Tree) :
    self.readPrivate name.text t =
      match readFile t name.components with
      | .ok bytes => .ok (some bytes)
      | .error .notFound => .ok none
      | .error source => .error (.io name.components source) := by
  rw [Storage.readPrivate, Storage.requireStorage, if_pos hgranted, joinSafely,
    RelativePath.parse_of_valid]
  show (match readFile t name.components with
    | .ok bytes => _ | .error .notFound => _ | .error source => _) = _
  split <;> rfl

/-- A name that has a value reads as it. -/
theorem Holds.read (hgranted : self.storage = true) (h : Holds t name.components value) :
    self.readPrivate name.text t = .ok value := by
  obtain ⟨executable, hfile⟩ := h.file
  rw [readPrivate_eq hgranted, readFile]
  cases value with
  | some bytes => rw [hfile]; rfl
  | none =>
    have hnone : t.get name.components = none := hfile
    have hclear : ¬ ∃ above ∈ name.components.inits, Blocks t above := by
      rintro ⟨above, hmem, hfull, hdir⟩
      by_cases heq : above = name.components
      · exact hfull (heq ▸ hnone)
      · rcases h.above above ((List.mem_inits ..).1 hmem) heq with hnot | hnot
        · exact hfull hnot
        · exact hdir hnot
    rw [hnone]
    dsimp only
    rw [if_neg hclear]

/-- An event of another name that does not clash leaves the value. -/
theorem Holds.step_other (hgranted : self.storage = true) (h : Holds t name.components value)
    {event : Event} (hclash : ¬ Clash event.name name) :
    Holds (event.step self t) name.components value := by
  have hspares (bytes : Bytes) := writeOps_spares bytes (fun h => hclash (.inl h))
    (fun h => hclash (.inr (.inl h))) fun h => hclash (.inr (.inr h))
  cases event with
  | returned other bytes =>
    rw [Event.step, writePrivate_eq hgranted]
    exact h.run (hspares bytes)
  | killed other bytes steps =>
    rw [Event.step, writeKilled_eq hgranted]
    exact h.run fun op hop => hspares bytes op (List.mem_of_mem_take hop)

/-- A write that is killed leaves the value, or has its own. -/
theorem Holds.killed (h : Holds t name.components value) (bytes : Bytes) (steps : ℕ) :
    Holds (FileOp.run ((writeOps name.components bytes).take steps) t).2 name.components value ∨
      Holds (FileOp.run ((writeOps name.components bytes).take steps) t).2 name.components
        (some bytes) := by
  have hne := name.components_ne_nil
  rcases Nat.lt_or_ge (openOps name.components bytes).length steps with hall | hfew
  · rw [List.take_of_length_le]
    · have hwrite := h.write bytes hne
      split at hwrite
      · exact .inr hwrite
      · exact .inl hwrite
    · show (openOps name.components bytes ++ _).length ≤ steps
      rw [List.length_append, List.length_singleton]
      exact hall
  · have htake : (writeOps name.components bytes).take steps =
        (openOps name.components bytes).take steps := List.take_append_of_le_length hfew
    rw [htake]
    exact .inl (h.run fun op hop => openOps_own bytes hne op (List.mem_of_mem_take hop))

theorem Holds.step_own (hgranted : self.storage = true) {before : List (Option Bytes)}
    (h : Holds t name.components value) (hvalue : value ∈ before) {event : Event}
    (hname : event.name = name) :
    ∃ value ∈ event.values self name t before, Holds (event.step self t) name.components value := by
  cases event with
  | returned other bytes =>
    obtain rfl : other = name := hname
    rw [Event.values, Event.step, writePrivate_eq hgranted]
    have hwrite := h.write bytes other.components_ne_nil
    split at hwrite
    · next hok =>
      rw [if_pos ⟨rfl, hok⟩]
      exact ⟨some bytes, List.mem_singleton.2 rfl, hwrite⟩
    · next hok =>
      rw [if_neg fun h => hok h.2]
      exact ⟨value, hvalue, hwrite⟩
  | killed other bytes steps =>
    obtain rfl : other = name := hname
    rw [Event.values, Event.step, writeKilled_eq hgranted, if_pos rfl]
    rcases h.killed bytes steps with hold | hnew
    · exact ⟨value, List.mem_cons_of_mem _ hvalue, hold⟩
    · exact ⟨some bytes, List.mem_cons_self .., hnew⟩

theorem values_other {event : Event} (hname : event.name ≠ name) (before : List (Option Bytes)) :
    event.values self name t before = before := by
  cases event with
  | returned other bytes => exact if_neg fun h => hname h.1
  | killed other bytes steps => exact if_neg hname

theorem play_concat (events : List Event) (event : Event) :
    play self name (events ++ [event]) =
      (event.step self (play self name events).1,
        event.values self name (play self name events).1 (play self name events).2) :=
  List.foldl_concat ..

theorem holds_empty (path : Path) : Holds .empty path none where
  above _ _ _ := .inl (Tree.get_empty _)
  file := ⟨false, Tree.get_empty path⟩

/-- After writes to its name and to others that do not clash, a name has one of its values. -/
theorem holds_play (hgranted : self.storage = true) {written : RelativePath → Prop}
    (hclash : ∀ other, written other → other ≠ name → ¬ Clash other name) {events : List Event}
    (hwritten : ∀ event ∈ events, written event.name) :
    ∃ value ∈ (play self name events).2, Holds (play self name events).1 name.components value := by
  induction events using List.reverseRecOn with
  | nil => exact ⟨none, List.mem_singleton.2 rfl, holds_empty _⟩
  | append_singleton events event ih =>
    obtain ⟨value, hvalue, hholds⟩ := ih fun e he => hwritten e (List.mem_append_left _ he)
    rw [play_concat]
    by_cases hname : event.name = name
    · exact hholds.step_own hgranted hvalue hname
    · refine ⟨value, by rw [values_other hname]; exact hvalue, hholds.step_other hgranted ?_⟩
      exact hclash _ (hwritten event (List.mem_append_right _ (List.mem_singleton.2 rfl))) hname

theorem atomic_of_clear (hgranted : self.storage = true) {written : RelativePath → Prop}
    (hclash : ∀ other, written other → other ≠ name → ¬ Clash other name) :
    Atomic self name written := by
  intro events hwritten
  obtain ⟨value, hvalue, hholds⟩ := holds_play hgranted hclash hwritten
  refine ⟨⟨value, hvalue, hholds.read hgranted⟩, fun event hevent hname => ?_⟩
  rw [hholds.read hgranted, (hholds.step_other hgranted (hclash _ hevent hname)).read hgranted]

end

/-! ## Writes in an empty directory -/

/-- A name is not too deep for a path. -/
theorem length_name_le (name : RelativePath) : name.components.length ≤ maxDepth :=
  name.length_components_le.trans (by decide)

section

variable {path : Path}

/-- The directories of a path are made. -/
theorem run_createDirs (parent : Path) {dir : Path} (hlen : dir.length ≤ maxDepth) :
    ∃ t, FileOp.run (dir.inits.tail.map (.createDir parent)) .empty = (.ok (), t) ∧
      ∀ q, t.get q = if q ≠ [] ∧ q <+: dir then some .dir else none := by
  induction dir using List.reverseRecOn with
  | nil =>
    refine ⟨.empty, rfl, fun q => ?_⟩
    rw [Tree.get_empty, if_neg]
    rintro ⟨hne, hpre⟩
    exact hne (List.prefix_nil.1 hpre)
  | append_singleton dir c ih =>
    have hlen' : dir.length ≤ maxDepth := by
      rw [List.length_append, List.length_singleton] at hlen
      omega
    obtain ⟨t, hrun, hget⟩ := ih hlen'
    have hinits : (dir ++ [c]).inits.tail = dir.inits.tail ++ [dir ++ [c]] := by
      have hnil : [] ∈ dir.inits := (List.mem_inits ..).2 List.nil_prefix
      rw [List.inits_append, List.tail_append_of_ne_nil (List.ne_nil_of_mem hnil)]
      rfl
    have hnew : t.get (dir ++ [c]) = none := by
      rw [hget, if_neg]
      rintro ⟨-, hpre⟩
      have := hpre.length_le
      rw [List.length_append, List.length_singleton] at this
      omega
    have hparent : t.isDir dir := by
      by_cases hnil : dir = []
      · exact .inl hnil
      · refine .inr ?_
        rw [hget, if_pos ⟨hnil, List.prefix_refl _⟩]
    obtain ⟨t', hadd⟩ := Tree.add_ok .dir (by simp) hnew hlen (by simpa using hparent)
    have hexec : (FileOp.createDir parent (dir ++ [c])).exec t = .ok t' := by
      rw [FileOp.exec, FileOp.execCreateDir, hnew]
      exact hadd
    refine ⟨t', ?_, fun q => ?_⟩
    · rw [hinits, List.map_append, run_append_ok hrun, List.map_singleton, run_cons_ok hexec]
      rfl
    · rw [Tree.get_add hadd, hget]
      by_cases hq : q = dir ++ [c]
      · rw [if_pos hq, if_pos]
        subst hq
        exact ⟨by simp, List.prefix_refl _⟩
      · have hiff : q <+: dir ++ [c] ↔ q <+: dir := by
          rw [List.prefix_concat_iff]
          exact ⟨fun h => h.resolve_left hq, .inr⟩
        simp only [if_neg hq, hiff]

/-- A write of no bytes that is killed before its last step. -/
theorem run_openOps_empty (hne : path ≠ []) (hlen : path.length ≤ maxDepth) :
    ∃ t, FileOp.run (openOps path []) .empty = (.ok (), t) ∧
      ∀ q, t.get q = if q = temporary path then some (.file [] false)
        else if q ≠ [] ∧ q <+: path.dropLast then some .dir else none := by
  have hshort : path.dropLast.length ≤ maxDepth := by
    rw [List.length_dropLast]
    omega
  obtain ⟨t, hrun, hget⟩ := run_createDirs path.dropLast hshort
  have hnew : t.get (temporary path) = none := by
    rw [hget, if_neg]
    rintro ⟨-, hpre⟩
    exact not_temporary_below hne (hpre.trans (List.dropLast_prefix path))
  have hparent : t.isDir (temporary path).dropLast := by
    rw [temporary_eq hne, List.dropLast_concat]
    by_cases hnil : path.dropLast = []
    · exact .inl hnil
    · refine .inr ?_
      rw [hget, if_pos ⟨hnil, List.prefix_refl _⟩]
  obtain ⟨t', hadd⟩ := Tree.add_ok (.file [] false) (by rw [temporary_eq hne]; simp) hnew
    (by rwa [length_temporary hne]) hparent
  have hexec : (FileOp.create (temporary path)).exec t = .ok t' := by
    rw [FileOp.exec, FileOp.execCreate, hnew]
    exact hadd
  refine ⟨t', ?_, fun q => ?_⟩
  · rw [openOps, run_append_ok hrun, run_cons_ok hexec]
    rfl
  · rw [Tree.get_add hadd, hget]

/-- A write of no bytes is done, and its file is there. -/
theorem run_writeOps_empty (hne : path ≠ []) (hlen : path.length ≤ maxDepth) :
    (FileOp.run (writeOps path []) .empty).2.get path = some (.file [] false) := by
  obtain ⟨t, hrun, hget⟩ := run_openOps_empty hne hlen
  have hwrite : writeOps path [] = openOps path [] ++ [.rename (temporary path) path] := rfl
  have htemporary : t.get (temporary path) = some (.file [] false) := by rw [hget, if_pos rfl]
  have hself : path ≠ temporary path := fun h => not_temporary_below hne (h ▸ List.prefix_refl _)
  have hnone : t.get path = none := by
    rw [hget, if_neg hself, if_neg]
    rintro ⟨-, hpre⟩
    have := hpre.length_le
    rw [List.length_dropLast] at this
    have := List.length_pos_iff.2 hne
    omega
  obtain ⟨t₁, hremove⟩ := Tree.remove_ok (Tree.mem_paths.2 ⟨_, htemporary⟩) fun q hq hparent => by
    obtain ⟨e, he⟩ := Tree.mem_paths.1 hq
    rcases hparent ▸ Tree.isDir_dropLast he with hnil | hdir
    · rw [temporary_eq hne] at hnil
      simp at hnil
    · rw [htemporary] at hdir
      cases hdir
  have hparent : t₁.isDir path.dropLast := by
    by_cases hnil : path.dropLast = []
    · exact .inl hnil
    · have hdir : path.dropLast ≠ temporary path := fun h =>
        not_temporary_below hne (h ▸ List.dropLast_prefix path)
      refine .inr ?_
      rw [Tree.get_remove hremove, if_neg hdir, hget, if_neg hdir,
        if_pos ⟨hnil, List.prefix_refl _⟩]
  have hnone₁ : t₁.get path = none := by rw [Tree.get_remove hremove, if_neg hself, hnone]
  obtain ⟨t₂, hadd⟩ := Tree.add_ok (.file [] false) hne hnone₁ hlen hparent
  have hexec : (FileOp.rename (temporary path) path).exec t = .ok t₂ := by
    rw [FileOp.exec, FileOp.execRename, htemporary]
    dsimp only
    rw [hnone, if_neg (by decide), hremove]
    show (if t₁.get path = none then t₁.add path (.file [] false)
      else t₁.remove path >>= fun t => t.add path (.file [] false)) = .ok t₂
    rw [if_pos hnone₁]
    exact hadd
  rw [hwrite, run_append_ok hrun, run_cons_ok hexec]
  show t₂.get path = _
  rw [Tree.get_add hadd, if_pos rfl]

end

/-! ## Names that clash -/

section

variable {self : Storage} {name other : RelativePath} {t : Tree}

/-- What is at a file, or below one, does not read as a file that is not there. -/
theorem read_blocked (hgranted : self.storage = true) {path : Path} (hblocks : Blocks t path)
    (hpre : path <+: name.components) : self.readPrivate name.text t ≠ .ok none := by
  intro hread
  rw [readPrivate_eq hgranted, readFile] at hread
  cases hget : t.get name.components with
  | some entry =>
    rw [hget] at hread
    cases entry <;> cases hread
  | none =>
    have hblocked : ∃ above ∈ name.components.inits, Blocks t above :=
      ⟨path, (List.mem_inits ..).2 hpre, hblocks⟩
    rw [hget] at hread
    dsimp only at hread
    rw [if_pos hblocked] at hread
    cases hread

/-- A directory does not either. -/
theorem read_dir (hgranted : self.storage = true) (hdir : t.get name.components = some .dir) :
    self.readPrivate name.text t ≠ .ok none := by
  intro hread
  rw [readPrivate_eq hgranted, readFile, hdir] at hread
  cases hread

/-- A file that was never written is not there, or it is not atomic. -/
theorem not_atomic {written : RelativePath → Prop} (event : Event) (hwritten : written event.name)
    (hname : event.name ≠ name)
    (hread : self.readPrivate name.text (event.step self .empty) ≠ .ok none) :
    ¬ Atomic self name written := by
  intro hatomic
  obtain ⟨⟨value, hvalue, hok⟩, -⟩ := hatomic [event] (List.forall_mem_singleton.2 hwritten)
  have hplay : play self name [event] = (event.step self .empty, [none]) :=
    Prod.ext rfl (values_other hname [none])
  rw [hplay] at hvalue hok
  obtain rfl := List.mem_singleton.1 hvalue
  exact hread hok

/-- A write to a name that clashes is seen. -/
theorem not_atomic_of_clash (hgranted : self.storage = true) {written : RelativePath → Prop}
    (hwritten : written other) (hname : other ≠ name) (hclash : Clash other name) :
    ¬ Atomic self name written := by
  have hne := other.components_ne_nil
  have hlen := length_name_le other
  have hdiffer : other.components ≠ name.components := fun h =>
    hname (RelativePath.components_injective h)
  obtain ⟨t, hrun, hget⟩ := run_openOps_empty hne hlen
  rcases hclash with habove | hbelow | htemporary
  · -- the file of `other` is where `name` has a directory
    refine not_atomic (.returned other []) hwritten hname ?_
    rw [Event.step, writePrivate_eq hgranted]
    have hfile := run_writeOps_empty hne hlen
    refine read_blocked hgranted ⟨?_, ?_⟩ habove <;> rw [hfile] <;> intro h <;> cases h
  · -- the directory of `other` is where `name` has its file
    refine not_atomic (.killed other [] (openOps other.components []).length) hwritten hname ?_
    rw [Event.step, writeKilled_eq hgranted]
    have htake : (writeOps other.components []).take (openOps other.components []).length =
        openOps other.components [] := List.take_left ..
    rw [htake, hrun]
    refine read_dir hgranted ?_
    have hparent : name.components <+: other.components.dropLast := by
      rw [← List.dropLast_append_getLast hne] at hbelow
      rcases List.prefix_concat_iff.1 hbelow with heq | hpre
      · rw [List.dropLast_append_getLast] at heq
        exact absurd heq.symm hdiffer
      · exact hpre
    have hbeside : name.components ≠ temporary other.components := by
      intro heq
      have := hparent.length_le
      rw [heq, length_temporary hne, List.length_dropLast] at this
      have := List.length_pos_iff.2 hne
      omega
    rw [hget, if_neg hbeside, if_pos ⟨name.components_ne_nil, hparent⟩]
  · -- what is left of `other` is where `name` has its file, or a directory
    refine not_atomic (.killed other [] (openOps other.components []).length) hwritten hname ?_
    rw [Event.step, writeKilled_eq hgranted]
    have htake : (writeOps other.components []).take (openOps other.components []).length =
        openOps other.components [] := List.take_left ..
    rw [htake, hrun]
    have hfile := hget (temporary other.components)
    rw [if_pos rfl] at hfile
    refine read_blocked hgranted ⟨?_, ?_⟩ htemporary <;> rw [hfile] <;> intro h <;> cases h

end

/-- A file is atomic, however files of some names are written and wherever the writes are killed,
just if no other one of them clashes with it. -/
theorem atomic_iff (self : Storage) (hgranted : self.storage = true) (name : RelativePath)
    (written : RelativePath → Prop) :
    Atomic self name written ↔ ∀ other, written other → other ≠ name → ¬ Clash other name :=
  ⟨fun hatomic _ hwritten hname hclash =>
    not_atomic_of_clash hgranted hwritten hname hclash hatomic, atomic_of_clear hgranted⟩

namespace Sample

def storage : Storage := ⟨true⟩

def save : RelativePath := ⟨"save", by decide +kernel⟩

/-- The temporary file of a save, as a name of its own. -/
def saved : RelativePath := ⟨"save.partial", by decide +kernel⟩

/-- It is written, and then a write of the save is killed before its first byte. -/
def torn : List Event := [.returned saved [1], .killed save [2] 1]

end Sample

theorem atomic_alone :
    Atomic Sample.storage Sample.save fun other => other = Sample.save :=
  (atomic_iff Sample.storage rfl Sample.save _).2 fun _ hwritten hname => absurd hwritten hname

/-- A write that was done is lost to one of another name that was killed. -/
theorem save_clobbers :
    (play Sample.storage Sample.saved Sample.torn).2 = [some [1]] ∧
      Sample.storage.readPrivate Sample.saved.text
        (play Sample.storage Sample.saved Sample.torn).1 = .ok (some []) := by
  decide +kernel

end Paperclip.Sdk
