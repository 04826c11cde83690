import Mathlib.Data.Nat.Notation
import Mathlib.Data.List.Infix
import Mathlib.Data.List.Pairwise

/-!
# The run log

The run history: a file for each run, of which the last ones are kept.

* `RunRecord`, `Call`: what is kept of a run, and what it is made from.
* `Tools`: the JSON crate, and the order in which a directory is read.
* `record`, `prune`, `list`: writing a record, deleting old ones, reading those that are there.
* `Event`, `run`: calls, some of them killed, and the directory that they leave.
* `Fits`: a record of a name that is free, for which the oldest one goes, and whose call is not killed
  between its file's creation and the deletion.
* `retains_iff`: the records written last are listed after each event, just if each event fits.
-/

namespace Paperclip.Telemetry

abbrev Bytes := List UInt8

/-- How many runs to keep. -/
def RETAIN : ℕ := 20

/-- One retained run. -/
structure RunRecord where
  id : String
  startedAt : ℕ
  subcommand : String
  device : Option String
  exitCode : Int
  path : String
  deriving DecidableEq

/-- The files of the run log directory. -/
abbrev Files := List (String × Bytes)

/-- What is taken from the JSON crate, and the order in which a directory is read, which is any. A
document that is cut off is not one. -/
structure Tools where
  toVecPretty : RunRecord → Bytes
  fromStr : Bytes → Option RunRecord
  fromStr_toVecPretty : ∀ record, fromStr (toVecPretty record) = some record
  fromStr_torn : ∀ record torn, torn <+: toVecPretty record → torn ≠ toVecPretty record →
    fromStr torn = none
  readDir : Files → Files
  readDir_perm : ∀ files, (readDir files).Perm files

/-- Why the run log cannot be read. -/
inductive RunLogError where
  | decode (path : String)
  deriving DecidableEq

/-- What a record is made from: the clock, the process and the run. -/
structure Call where
  startedAt : ℕ
  nanos : ℕ
  pid : ℕ
  subcommand : String
  device : Option String
  exitCode : Int

/-- The start time and the process, so that two runs of one second file uniquely. -/
def Call.id (call : Call) : String :=
  call.startedAt.repr ++ "-" ++ call.pid.repr ++ "-" ++ call.nanos.repr

/-- The file of a record. -/
def recordPath (dir id : String) : String := dir ++ "/" ++ id ++ ".json"

def Call.record (call : Call) (dir : String) : RunRecord where
  id := call.id
  startedAt := call.startedAt
  subcommand := call.subcommand
  device := call.device
  exitCode := call.exitCode
  path := recordPath dir call.id

/-- Whether a file is a record's by its name. -/
def hasJsonExtension (path : String) : Bool := ".json".toList.isSuffixOf path.toList

/-- Writes a file, over one that is there. -/
def write (files : Files) (path : String) (bytes : Bytes) : Files :=
  (path, bytes) :: files.filter fun file => file.1 ≠ path

def remove (files : Files) (path : String) : Files := files.filter fun file => file.1 ≠ path

/-- Newest first. -/
def newer (a b : RunRecord) : Bool :=
  b.startedAt < a.startedAt ∨ (b.startedAt = a.startedAt ∧ b.id ≤ a.id)

variable (tools : Tools)

/-- Reads one record. -/
def readRecord (file : String × Bytes) : Except RunLogError RunRecord :=
  match tools.fromStr file.2 with
  | some record => .ok record
  | none => .error (.decode file.1)

/-- Every retained record, newest first. -/
def list (files : Files) : Except RunLogError (List RunRecord) := do
  let records ← ((tools.readDir files).filter fun file => hasJsonExtension file.1).mapM
    (readRecord tools)
  return records.mergeSort newer

/-- The records past those to keep, oldest first. -/
def stale (records : List RunRecord) : List RunRecord :=
  if records.length ≤ RETAIN then []
  else (records.mergeSort fun a b => a.startedAt ≤ b.startedAt).take (records.length - RETAIN)

/-- Deletes records. -/
def removeAll (files : Files) (records : List RunRecord) : Files :=
  records.foldl (fun files record => remove files record.path) files

/-- Deletes every retained record past those to keep, oldest first. -/
def prune (files : Files) : Except RunLogError Files :=
  (list tools files).map fun records => removeAll files (stale records)

/-- Writes one retained run record, and prunes. -/
def record (dir : String) (call : Call) (files : Files) : Except RunLogError RunRecord × Files :=
  let record := call.record dir
  let files := write files record.path (tools.toVecPretty record)
  match prune tools files with
  | .error e => (.error e, files)
  | .ok files => (.ok record, files)

/-- Where a call is killed: before its file is there, after all but `missing + 1` bytes of it, or
after some of the files to prune are gone. -/
inductive Stop where
  | early
  | writing (missing : ℕ)
  | pruning (removals : ℕ)

/-- What a killed call leaves. -/
def recordKilled (dir : String) (call : Call) (files : Files) : Stop → Files
  | .early => files
  | .writing missing =>
    let record := call.record dir
    let document := tools.toVecPretty record
    write files record.path (document.take (document.length - (missing + 1)))
  | .pruning removals =>
    let record := call.record dir
    let files := write files record.path (tools.toVecPretty record)
    match list tools files with
    | .error _ => files
    | .ok records => removeAll files ((stale records).take removals)

/-- A call, which returns or is killed. -/
inductive Event where
  | returned (call : Call)
  | killed (call : Call) (stop : Stop)

def Event.step (dir : String) (files : Files) : Event → Files
  | .returned call => (record tools dir call files).2
  | .killed call stop => recordKilled tools dir call files stop

/-- The directory after some events. -/
def run (dir : String) (events : List Event) : Files := events.foldl (Event.step tools dir) []

/-- The records after an event, newest first: those whose files were written in full. -/
def Event.recorded (dir : String) (done : List RunRecord) : Event → List RunRecord
  | .returned call | .killed call (.pruning _) => call.record dir :: done
  | .killed _ .early | .killed _ (.writing _) => done

def recorded (dir : String) (events : List Event) : List RunRecord :=
  events.foldl (Event.recorded dir) []

/-- What is listed is the records that were written last, newest first. -/
def Retains (done : List RunRecord) (files : Files) : Prop :=
  ∃ listed, list tools files = .ok listed ∧ listed.Perm (done.take RETAIN) ∧
    listed.Pairwise fun a b => newer a b = true

/-- A record goes before another one where one of them must: its second is earlier, or the same and
its name comes later. -/
def GoesBefore (gone other : RunRecord) : Prop :=
  gone.startedAt < other.startedAt ∨ (gone.startedAt = other.startedAt ∧ other.id < gone.id)

/-- A record that is written does not take the name of one to keep, and where the log is full the
oldest one goes for it. -/
def Follows (done : List RunRecord) (record : RunRecord) : Prop :=
  (∀ old ∈ done.take (RETAIN - 1), old.id ≠ record.id) ∧
    ∀ oldest ∈ done[RETAIN - 1]?, oldest.id = record.id ∨
      ∀ other ∈ record :: done.take (RETAIN - 1), GoesBefore oldest other

/-- An event after which the records written last are listed. -/
def Event.Fits (dir : String) (done : List RunRecord) : Event → Prop
  | .returned call => Follows done (call.record dir)
  | .killed _ .early => True
  | .killed _ (.writing _) => False
  | .killed call (.pruning removals) =>
    Follows done (call.record dir) ∧
      ∀ oldest ∈ done[RETAIN - 1]?, oldest.id = call.id ∨ 1 ≤ removals

/-! ## Names -/

/-- Text before a mark that is not in it is told from what follows. -/
theorem append_cons_inj {α : Type} {mark : α} {a b x y : List α} (ha : mark ∉ a) (hb : mark ∉ b)
    (h : a ++ mark :: x = b ++ mark :: y) : a = b ∧ x = y := by
  induction a generalizing b with
  | nil =>
    cases b with
    | nil => exact ⟨rfl, (List.cons.inj h).2⟩
    | cons c rest => exact absurd ((List.cons.inj h).1 ▸ List.mem_cons_self ..) hb
  | cons c rest ih =>
    cases b with
    | nil => exact absurd ((List.cons.inj h).1 ▸ List.mem_cons_self ..) ha
    | cons c' rest' =>
      obtain ⟨hhead, htail⟩ := List.cons.inj h
      have := ih (fun hm => ha (List.mem_cons_of_mem _ hm))
        (fun hm => hb (List.mem_cons_of_mem _ hm)) htail
      exact ⟨by rw [hhead, this.1], this.2⟩

theorem not_mem_repr (n : ℕ) {mark : Char} (h : mark.isDigit = false) : mark ∉ n.repr.toList := by
  intro hmem
  rw [Nat.toList_repr] at hmem
  have := Nat.isDigit_of_mem_toDigits (by decide) (by decide) hmem
  rw [h] at this
  cases this

theorem repr_injective {m n : ℕ} (h : m.repr.toList = n.repr.toList) : m = n := by
  rw [Nat.toList_repr, Nat.toList_repr] at h
  rw [← Nat.ofDigitChars_ten_toDigits (n := m), h, Nat.ofDigitChars_ten_toDigits]

/-- The name of a record has its second in it. -/
theorem startedAt_eq_of_id {a b : Call} (h : a.id = b.id) : a.startedAt = b.startedAt := by
  have hlist := congrArg String.toList h
  simp only [Call.id, String.toList_append, List.append_assoc] at hlist
  have hdash : ("-" : String).toList = ['-'] := rfl
  rw [hdash, List.singleton_append, List.singleton_append] at hlist
  have hrepr := (append_cons_inj (not_mem_repr _ rfl) (not_mem_repr _ rfl) hlist).1
  exact repr_injective hrepr

theorem id_eq_of_path {dir id id' : String} (h : recordPath dir id = recordPath dir id') :
    id = id' := by
  have hlist := congrArg String.toList h
  simp only [recordPath, String.toList_append] at hlist
  exact String.toList_inj.1 (List.append_cancel_left (List.append_cancel_right hlist))

theorem hasJsonExtension_record (call : Call) (dir : String) :
    hasJsonExtension (call.record dir).path = true := by
  rw [hasJsonExtension, List.isSuffixOf_iff_suffix]
  show _ <:+ (recordPath dir call.id).toList
  rw [recordPath, String.toList_append]
  exact List.suffix_append ..

/-! ## Order -/

theorem newer_total (a b : RunRecord) : (newer a b || newer b a) = true := by
  simp only [newer, Bool.or_eq_true, decide_eq_true_eq]
  rcases Nat.lt_trichotomy a.startedAt b.startedAt with hlt | heq | hlt
  · exact .inr (.inl hlt)
  · exact (String.le_total b.id a.id).imp (fun h => .inr ⟨heq.symm, h⟩) fun h => .inr ⟨heq, h⟩
  · exact .inl (.inl hlt)

theorem newer_trans (a b c : RunRecord) (hab : newer a b = true) (hbc : newer b c = true) :
    newer a c = true := by
  simp only [newer, decide_eq_true_eq] at hab hbc ⊢
  rcases hab with hab | ⟨hab, hab'⟩ <;> rcases hbc with hbc | ⟨hbc, hbc'⟩
  · exact .inl (Nat.lt_trans hbc hab)
  · exact .inl (hbc ▸ hab)
  · exact .inl (hab ▸ hbc)
  · exact .inr ⟨hbc.trans hab, String.le_trans hbc' hab'⟩

theorem GoesBefore.asymm {a b : RunRecord} (h : GoesBefore a b) : ¬ GoesBefore b a := by
  rintro (hba | ⟨heq, hba⟩)
  · rcases h with hab | ⟨hab, -⟩ <;> omega
  · rcases h with hab | ⟨-, hab⟩
    · omega
    · exact String.lt_irrefl _ (String.lt_trans hab hba)

/-! ## The directory -/

section

variable {tools} {dir : String} {files : Files} {records : List RunRecord}

/-- The file of a record. -/
def entry (tools : Tools) (record : RunRecord) : String × Bytes :=
  (record.path, tools.toVecPretty record)

/-- The directory has the files of some records, and no others. -/
def Holds (tools : Tools) (files : Files) (records : List RunRecord) : Prop :=
  files.Perm (records.map (entry tools))

theorem filter_entry (path : String) :
    (records.map (entry tools)).filter (fun file => file.1 ≠ path) =
      (records.filter fun record => record.path ≠ path).map (entry tools) :=
  List.filter_map ..

theorem Holds.write (h : Holds tools files records) (record : RunRecord) :
    Holds tools (write files record.path (tools.toVecPretty record))
      (record :: records.filter fun old => old.path ≠ record.path) := by
  rw [Holds, List.map_cons, ← filter_entry]
  exact (List.Perm.filter _ h).cons _

theorem Holds.remove (h : Holds tools files records) (path : String) :
    Holds tools (remove files path) (records.filter fun old => old.path ≠ path) := by
  rw [Holds, ← filter_entry]
  exact List.Perm.filter _ h

theorem mapM_readRecord {files : Files} (h : ∀ file ∈ files, (tools.fromStr file.2).isSome) :
    files.mapM (readRecord tools) = .ok (files.filterMap fun file => tools.fromStr file.2) := by
  induction files with
  | nil => rfl
  | cons file rest ih =>
    obtain ⟨hfile, hrest⟩ := List.forall_mem_cons.1 h
    obtain ⟨record, hrecord⟩ := Option.isSome_iff_exists.1 hfile
    rw [List.mapM_cons, ih hrest, List.filterMap_cons, hrecord, readRecord, hrecord]
    rfl

theorem mapM_torn {files : Files} {file : String × Bytes} (hmem : file ∈ files)
    (h : tools.fromStr file.2 = none) : ∃ e, files.mapM (readRecord tools) = .error e := by
  induction files with
  | nil => cases hmem
  | cons first rest ih =>
    rw [List.mapM_cons]
    cases hfirst : readRecord tools first with
    | error e => exact ⟨e, rfl⟩
    | ok record =>
      rcases List.mem_cons.1 hmem with rfl | hrest
      · rw [readRecord, h] at hfirst
        cases hfirst
      · obtain ⟨e, he⟩ := ih hrest
        rw [he]
        exact ⟨e, rfl⟩

/-- The records that are there are read, in some order, and listed newest first. -/
theorem list_holds (h : Holds tools files records)
    (hjson : ∀ record ∈ records, hasJsonExtension record.path = true) :
    ∃ read : List RunRecord, read.Perm records ∧ list tools files = .ok (read.mergeSort newer) := by
  have hperm : (tools.readDir files).Perm (records.map (entry tools)) :=
    (tools.readDir_perm files).trans h
  have hentry : ∀ file ∈ tools.readDir files, ∃ record ∈ records, entry tools record = file := by
    intro file hfile
    exact List.mem_map.1 (hperm.mem_iff.1 hfile)
  refine ⟨(tools.readDir files).filterMap fun file => tools.fromStr file.2, ?_, ?_⟩
  · refine (hperm.filterMap _).trans (List.Perm.of_eq ?_)
    rw [List.filterMap_map]
    have hread : (fun file : String × Bytes => tools.fromStr file.2) ∘ entry tools = some := by
      funext record
      exact tools.fromStr_toVecPretty record
    rw [hread, List.filterMap_some]
  · have hfilter : (tools.readDir files).filter (fun file => hasJsonExtension file.1) =
        tools.readDir files := by
      refine List.filter_eq_self.2 fun file hfile => ?_
      obtain ⟨record, hrecord, rfl⟩ := hentry file hfile
      exact hjson record hrecord
    rw [list, hfilter, mapM_readRecord]
    · rfl
    · intro file hfile
      obtain ⟨record, -, rfl⟩ := hentry file hfile
      rw [entry, tools.fromStr_toVecPretty]
      rfl

/-- They are listed in full, newest first. -/
theorem list_listed (h : Holds tools files records)
    (hjson : ∀ record ∈ records, hasJsonExtension record.path = true) :
    ∃ listed, list tools files = .ok listed ∧ listed.Perm records ∧
      listed.Pairwise fun a b => newer a b = true := by
  obtain ⟨read, hperm, hlist⟩ := list_holds h hjson
  exact ⟨_, hlist, (List.mergeSort_perm read newer).trans hperm,
    List.pairwise_mergeSort newer_trans newer_total read⟩

/-- A file that is cut off makes the directory unreadable. -/
theorem list_torn (files : Files) {path : String} {torn : Bytes}
    (hjson : hasJsonExtension path = true)
    (htorn : tools.fromStr torn = none) : ∃ e, list tools (write files path torn) = .error e := by
  have hmem : (path, torn) ∈ (tools.readDir (write files path torn)).filter
      fun file => hasJsonExtension file.1 :=
    List.mem_filter.2 ⟨(tools.readDir_perm _).mem_iff.2 (List.mem_cons_self ..), hjson⟩
  obtain ⟨e, he⟩ := mapM_torn hmem htorn
  refine ⟨e, ?_⟩
  rw [list, he]
  rfl

end

/-! ## Pruning -/

section

variable {records : List RunRecord}

/-- Of one record too many one is deleted: the first that is listed of the oldest second. -/
theorem stale_one (hlen : records.length = RETAIN + 1) (hnodup : records.Nodup) :
    ∃ gone, stale records = [gone] ∧ gone ∈ records ∧
      (∀ record ∈ records, gone.startedAt ≤ record.startedAt) ∧
      ∀ a b, [b, a].Sublist records → b.startedAt = a.startedAt → gone ≠ a := by
  let le : RunRecord → RunRecord → Bool := fun a b => a.startedAt ≤ b.startedAt
  have htrans (a b c : RunRecord) (hab : le a b = true) (hbc : le b c = true) : le a c = true :=
    decide_eq_true ((of_decide_eq_true hab).trans (of_decide_eq_true hbc))
  have htotal (a b : RunRecord) : (le a b || le b a) = true := by
    rw [Bool.or_eq_true]
    exact (Nat.le_total a.startedAt b.startedAt).imp decide_eq_true decide_eq_true
  have hpair := List.pairwise_mergeSort htrans htotal records
  have hperm := List.mergeSort_perm records le
  have hstale : stale records = (records.mergeSort le).take 1 := by
    rw [stale, if_neg (by omega), hlen, Nat.add_sub_cancel_left]
  rcases hsort : records.mergeSort le with - | ⟨gone, rest⟩
  · rw [hsort] at hperm
    rw [← hperm.length_eq] at hlen
    cases hlen
  rw [hsort] at hpair hperm hstale
  refine ⟨gone, hstale, hperm.subset (List.mem_cons_self ..), fun record hrecord => ?_,
    fun a b hsub heq hgone => ?_⟩
  · rcases List.mem_cons.1 (hperm.symm.subset hrecord) with rfl | hrest
    · exact Nat.le_refl _
    · exact of_decide_eq_true (List.rel_of_pairwise_cons hpair hrest)
  · have hsub' := List.pair_sublist_mergeSort htrans htotal (decide_eq_true heq.le) hsub
    rw [hsort, hgone] at hsub'
    have hnot : a ∉ rest := hgone ▸ (List.nodup_cons.1 (hperm.symm.nodup hnodup)).1
    cases hsub' with
    | cons _ h => exact hnot (h.subset (List.mem_cons_of_mem _ (List.mem_cons_self ..)))
    | cons_cons _ h => exact hnot (h.subset (List.mem_cons_self ..))

theorem nodup_of_ids (h : records.Pairwise fun a b => a.id ≠ b.id) : records.Nodup :=
  h.imp fun hne heq => hne (congrArg RunRecord.id heq)

/-- Of records that are listed newest first, the one deleted goes before all the others. -/
theorem stale_goes (hlen : records.length = RETAIN + 1)
    (hids : records.Pairwise fun a b => a.id ≠ b.id)
    (hsorted : records.Pairwise fun a b => newer a b = true) :
    ∃ gone, stale records = [gone] ∧ gone ∈ records ∧
      ∀ other ∈ records, other ≠ gone → GoesBefore gone other := by
  obtain ⟨gone, hstale, hmem, hleast, htie⟩ := stale_one hlen (nodup_of_ids hids)
  refine ⟨gone, hstale, hmem, fun other hother hne => ?_⟩
  -- of two records, the first listed is newer, and one of its second after it stays
  let R (a b : RunRecord) : Prop :=
    (a.startedAt = b.startedAt → gone ≠ b) ∧ newer a b = true ∧ a.id ≠ b.id
  have hpairs : records.Pairwise R := by
    have hfirst : records.Pairwise fun a b => a.startedAt = b.startedAt → gone ≠ b :=
      List.pairwise_of_forall_sublist fun {a b} hsub heq => htie b a hsub heq
    exact hfirst.and (hsorted.and hids)
  have : Std.Symm fun a b => R a b ∨ R b a := ⟨fun _ _ h => h.symm⟩
  have heither : records.Pairwise fun a b => R a b ∨ R b a := hpairs.imp .inl
  have hle := hleast other hother
  rcases heither.forall hother hmem hne with ⟨hsecond, -⟩ | ⟨-, hnewer, hid⟩
  · exact .inl (Nat.lt_of_le_of_ne hle fun heq => hsecond heq.symm rfl)
  · rw [newer, decide_eq_true_eq] at hnewer
    rcases hnewer with hlt | ⟨heq, hle'⟩
    · omega
    · refine .inr ⟨heq.symm, ?_⟩
      by_contra hlt
      exact hid (String.le_antisymm (String.not_lt.1 hlt) hle')

/-- It is a given one just if that one goes before all the others. -/
theorem stale_eq_iff (hlen : records.length = RETAIN + 1)
    (hids : records.Pairwise fun a b => a.id ≠ b.id)
    (hsorted : records.Pairwise fun a b => newer a b = true) {oldest : RunRecord}
    (holdest : oldest ∈ records) :
    ∃ gone, stale records = [gone] ∧ gone ∈ records ∧
      (gone = oldest ↔ ∀ other ∈ records, other ≠ oldest → GoesBefore oldest other) := by
  obtain ⟨gone, hstale, hmem, hgoes⟩ := stale_goes hlen hids hsorted
  refine ⟨gone, hstale, hmem, ?_, fun hall => ?_⟩
  · rintro rfl
    exact hgoes
  · by_contra hne
    exact (hall gone hmem hne).asymm (hgoes oldest holdest fun heq => hne heq.symm)

end

/-! ## One event -/

/-- The directory has the records that were written last, under names of their own. -/
structure Good (tools : Tools) (dir : String) (done : List RunRecord) (files : Files) : Prop where
  holds : Holds tools files (done.take RETAIN)
  ids : (done.take RETAIN).Pairwise fun a b => a.id ≠ b.id
  calls : ∀ record ∈ done, ∃ call : Call, record = call.record dir

/-- The records that are there once the next one is written. -/
def kept (dir : String) (done : List RunRecord) (call : Call) : List RunRecord :=
  call.record dir :: (done.take RETAIN).filter fun old => old.id ≠ call.id

section

variable {tools} {dir : String} {files : Files} {done : List RunRecord} {call : Call}

theorem json_of_calls {records : List RunRecord}
    (h : ∀ record ∈ records, ∃ call : Call, record = call.record dir) :
    ∀ record ∈ records, hasJsonExtension record.path = true := by
  intro record hrecord
  obtain ⟨call, rfl⟩ := h record hrecord
  exact hasJsonExtension_record call dir

theorem path_eq_iff {a b : Call} : (a.record dir).path = (b.record dir).path ↔ a.id = b.id :=
  ⟨id_eq_of_path, congrArg (recordPath dir)⟩

/-- Records with names of their own have files of their own. -/
theorem path_ne_of_id {a b : RunRecord} (ha : ∃ call : Call, a = call.record dir)
    (hb : ∃ call : Call, b = call.record dir) (h : a.id ≠ b.id) : a.path ≠ b.path := by
  obtain ⟨call₁, rfl⟩ := ha
  obtain ⟨call₂, rfl⟩ := hb
  exact fun hpath => h (path_eq_iff.1 hpath)

theorem Good.take_calls (h : Good tools dir done files) :
    ∀ record ∈ done.take RETAIN, ∃ call : Call, record = call.record dir :=
  fun record hrecord => h.calls record (List.mem_of_mem_take hrecord)

/-- They are listed. -/
theorem Good.retains (h : Good tools dir done files) : Retains tools done files :=
  list_listed h.holds (json_of_calls h.take_calls)

theorem Good.kept_calls (h : Good tools dir done files) (call : Call) :
    ∀ record ∈ kept dir done call, ∃ call : Call, record = call.record dir :=
  List.forall_mem_cons.2
    ⟨⟨call, rfl⟩, fun record hrecord => h.take_calls record (List.mem_of_mem_filter hrecord)⟩

theorem Good.kept_ids (h : Good tools dir done files) (call : Call) :
    (kept dir done call).Pairwise fun a b => a.id ≠ b.id := by
  refine List.pairwise_cons.2 ⟨fun old hold => ?_, h.ids.filter _⟩
  exact (of_decide_eq_true (List.mem_filter.1 hold).2).symm

/-- The directory once the next record is written. -/
theorem Good.written (h : Good tools dir done files) (call : Call) :
    Holds tools (write files (call.record dir).path (tools.toVecPretty (call.record dir)))
      (kept dir done call) := by
  have hfilter : (done.take RETAIN).filter (fun old => old.path ≠ (call.record dir).path) =
      (done.take RETAIN).filter fun old => old.id ≠ call.id := by
    refine List.filter_congr fun old hold => ?_
    obtain ⟨call', rfl⟩ := h.take_calls old hold
    exact decide_eq_decide.2 (not_congr path_eq_iff)
  have := h.holds.write (call.record dir)
  rwa [hfilter] at this

/-- The files left by a call whose records are listed as they are. -/
theorem recordKilled_pruning {listed : List RunRecord} (removals : ℕ)
    (hlist : list tools (write files (call.record dir).path
      (tools.toVecPretty (call.record dir))) = .ok listed) :
    recordKilled tools dir call files (.pruning removals) =
      removeAll (write files (call.record dir).path (tools.toVecPretty (call.record dir)))
        ((stale listed).take removals) := by
  rw [recordKilled, hlist]

/-- A call that returns has left what one killed after pruning does. -/
theorem record_eq_killed (tools : Tools) (dir : String) (call : Call) (files : Files) :
    ∃ removals, 1 ≤ removals ∧
      (record tools dir call files).2 = recordKilled tools dir call files (.pruning removals) := by
  rw [record]
  cases hlist : list tools (write files (call.record dir).path
      (tools.toVecPretty (call.record dir))) with
  | error e =>
    refine ⟨1, Nat.le_refl _, ?_⟩
    rw [recordKilled, prune, hlist]
    rfl
  | ok listed =>
    refine ⟨(stale listed).length + 1, Nat.succ_le_succ (Nat.zero_le _), ?_⟩
    rw [recordKilled_pruning _ hlist, prune, hlist,
      List.take_of_length_le (Nat.le_succ (stale listed).length)]
    rfl

/-- The oldest of the records that fill the log. -/
theorem take_oldest (hlen : RETAIN ≤ done.length) : ∃ oldest,
    done[RETAIN - 1]? = some oldest ∧ done.take RETAIN = done.take (RETAIN - 1) ++ [oldest] := by
  have hretain : RETAIN = 20 := rfl
  have hlast : RETAIN - 1 < done.length := by omega
  exact ⟨done[RETAIN - 1], List.getElem?_eq_getElem hlast, (List.take_concat_get' ..).symm⟩

theorem length_of_oldest {oldest : RunRecord} (h : oldest ∈ done[RETAIN - 1]?) :
    RETAIN ≤ done.length := by
  have hretain : RETAIN = 20 := rfl
  obtain ⟨hlast, -⟩ := List.getElem?_eq_some_iff.1 h
  omega

/-- A record that leaves no more files than are to be kept: nothing is pruned. -/
theorem Good.pruning_few (h : Good tools dir done files) (removals : ℕ)
    (hfew : (kept dir done call).length ≤ RETAIN) :
    (Retains tools (call.record dir :: done)
        (recordKilled tools dir call files (.pruning removals)) →
      (Event.killed call (.pruning removals)).Fits dir done) ∧
    ((Event.killed call (.pruning removals)).Fits dir done →
      Good tools dir (call.record dir :: done)
        (recordKilled tools dir call files (.pruning removals))) := by
  obtain ⟨listed, hlist, hperm, -⟩ := list_listed (h.written call)
    (json_of_calls (h.kept_calls call))
  rw [recordKilled_pruning removals hlist, stale, if_pos (hperm.length_eq ▸ hfew), List.take_nil]
  have htake : (call.record dir :: done).take RETAIN = call.record dir :: done.take (RETAIN - 1) :=
    rfl
  -- an oldest record that stays would be one too many
  have hname : ∀ oldest ∈ done[RETAIN - 1]?,
      (∀ old ∈ done.take (RETAIN - 1), old.id ≠ call.id) → oldest.id = call.id := by
    intro oldest holdest hnew
    obtain ⟨oldest', holdest', heq⟩ := take_oldest (length_of_oldest holdest)
    obtain rfl : oldest' = oldest := Option.some.inj (holdest'.symm.trans holdest)
    by_contra hne
    have hall : (done.take RETAIN).filter (fun old => old.id ≠ call.id) = done.take RETAIN := by
      refine List.filter_eq_self.2 fun old hold => ?_
      rw [heq] at hold
      rcases List.mem_append.1 hold with hold | hold
      · exact decide_eq_true (hnew old hold)
      · exact decide_eq_true (List.mem_singleton.1 hold ▸ hne)
    rw [kept, hall, List.length_cons, List.length_take] at hfew
    have := length_of_oldest holdest
    omega
  constructor
  · rintro ⟨listed', hlist', hperm', -⟩
    obtain rfl : listed = listed' := Except.ok.inj (hlist.symm.trans hlist')
    have hsame : ((done.take RETAIN).filter fun old => old.id ≠ call.id).Perm
        (done.take (RETAIN - 1)) := List.Perm.cons_inv (hperm.symm.trans hperm')
    have hnew : ∀ old ∈ done.take (RETAIN - 1), old.id ≠ call.id := fun old hold =>
      of_decide_eq_true (List.mem_filter.1 (hsame.mem_iff.2 hold)).2
    exact ⟨⟨hnew, fun oldest holdest => .inl (hname oldest holdest hnew)⟩,
      fun oldest holdest => .inl (hname oldest holdest hnew)⟩
  · rintro ⟨⟨hnew, -⟩, -⟩
    have hkept : kept dir done call = (call.record dir :: done).take RETAIN := by
      rw [kept, htake]
      refine congrArg (call.record dir :: ·) ?_
      have hself : (done.take (RETAIN - 1)).filter (fun old => old.id ≠ call.id) =
          done.take (RETAIN - 1) :=
        List.filter_eq_self.2 fun old hold => decide_eq_true (hnew old hold)
      rcases Nat.lt_or_ge done.length RETAIN with hlen | hlen
      · rw [List.take_of_length_le (Nat.le_sub_one_of_lt hlen)] at hself ⊢
        rwa [List.take_of_length_le hlen.le]
      · obtain ⟨oldest, holdest, heq⟩ := take_oldest hlen
        rw [heq, List.filter_append, hself, List.filter_singleton]
        simp [hname oldest holdest hnew]
    exact ⟨hkept ▸ h.written call, hkept ▸ h.kept_ids call,
      List.forall_mem_cons.2 ⟨⟨call, rfl⟩, h.calls⟩⟩

/-- A record that leaves one file too many: the oldest one must go. -/
theorem Good.pruning_full (h : Good tools dir done files) (removals : ℕ)
    (hmany : RETAIN < (kept dir done call).length) :
    (Retains tools (call.record dir :: done)
        (recordKilled tools dir call files (.pruning removals)) →
      (Event.killed call (.pruning removals)).Fits dir done) ∧
    ((Event.killed call (.pruning removals)).Fits dir done →
      Good tools dir (call.record dir :: done)
        (recordKilled tools dir call files (.pruning removals))) := by
  have hcalls : ∀ record ∈ call.record dir :: done, ∃ call : Call, record = call.record dir :=
    List.forall_mem_cons.2 ⟨⟨call, rfl⟩, h.calls⟩
  have hall : (done.take RETAIN).filter (fun old => old.id ≠ call.id) = done.take RETAIN := by
    refine List.filter_sublist.eq_of_length_le ?_
    rw [kept, List.length_cons] at hmany
    rw [List.length_take]
    omega
  have hlen : RETAIN ≤ done.length := by
    rw [kept, hall, List.length_cons, List.length_take] at hmany
    omega
  obtain ⟨oldest, holdest, hlast⟩ := take_oldest hlen
  have hnew : ∀ old ∈ done.take RETAIN, old.id ≠ call.id := fun old hold =>
    of_decide_eq_true (List.filter_eq_self.1 hall old hold)
  have hname : oldest.id ≠ call.id :=
    hnew oldest (hlast ▸ List.mem_append_right _ (List.mem_singleton.2 rfl))
  -- the records to keep, and the oldest one after them
  have hkept : kept dir done call = (call.record dir :: done).take RETAIN ++ [oldest] := by
    rw [kept, hall, hlast]
    rfl
  have hids := h.kept_ids call
  have hkcalls := h.kept_calls call
  have hholds := h.written call
  obtain ⟨listed, hlist, hperm, hsorted⟩ := list_listed hholds (json_of_calls hkcalls)
  rw [recordKilled_pruning removals hlist]
  have hlength : (kept dir done call).length = RETAIN + 1 := by
    rw [kept, hall, List.length_cons, List.length_take, Nat.min_eq_left hlen]
  have hmem : oldest ∈ kept dir done call :=
    hkept ▸ List.mem_append_right _ (List.mem_singleton.2 rfl)
  obtain ⟨gone, hstale, hgone, hiff⟩ := stale_eq_iff (hperm.length_eq.trans hlength)
    (hperm.symm.pairwise hids fun h => h.symm) hsorted (hperm.mem_iff.2 hmem)
  rw [hperm.mem_iff] at hgone
  simp only [hperm.mem_iff] at hiff
  rw [hkept] at hids hgone hiff hholds
  obtain ⟨hids', -, hcross⟩ := List.pairwise_append.1 hids
  have hother : ∀ other ∈ (call.record dir :: done).take RETAIN, other.id ≠ oldest.id :=
    fun other hother => hcross other hother oldest (List.mem_singleton.2 rfl)
  rw [hstale]
  rcases removals with - | removals
  · constructor
    · rintro ⟨listed', hlist', hperm', -⟩
      obtain rfl : listed = listed' := Except.ok.inj (hlist.symm.trans hlist')
      have hcount := (hperm.symm.trans hperm').length_eq
      rw [hlength, List.length_take] at hcount
      omega
    · rintro ⟨-, hone⟩
      rcases hone oldest holdest with hid | hid
      · exact absurd hid hname
      · exact absurd hid (by decide)
  rw [List.take_succ_cons, List.take_nil]
  have hleft := hholds.remove gone.path
  constructor
  · rintro ⟨listed', hlist', hperm', -⟩
    obtain ⟨listed'', hlist'', hperm'', -⟩ := list_listed hleft (json_of_calls fun record hrecord =>
      hkcalls record (hkept ▸ List.mem_of_mem_filter hrecord))
    obtain rfl : listed'' = listed' := Except.ok.inj (hlist''.symm.trans hlist')
    have hgone' : gone = oldest := by
      by_contra hne
      have hstays : gone ∈ (call.record dir :: done).take RETAIN :=
        (List.mem_append.1 hgone).resolve_right fun h => hne (List.mem_singleton.1 h)
      have hread := hperm''.mem_iff.1 (hperm'.mem_iff.2 hstays)
      exact of_decide_eq_true (List.mem_filter.1 hread).2 rfl
    refine ⟨⟨fun old hold => hnew old ?_, fun oldest' holdest' => .inr fun other hmem' => ?_⟩,
      fun _ _ => .inr (Nat.succ_le_succ (Nat.zero_le _))⟩
    · rw [hlast]
      exact List.mem_append_left _ hold
    · obtain rfl : oldest = oldest' := Option.some.inj (holdest.symm.trans holdest')
      exact hiff.1 hgone' other (List.mem_append_left _ hmem') fun heq =>
        hother other hmem' (congrArg RunRecord.id heq)
  · rintro ⟨⟨-, hgoes⟩, -⟩
    obtain rfl : gone = oldest := by
      refine hiff.2 fun other hmem' hne => ?_
      rcases hgoes oldest holdest with hid | hgoes
      · exact absurd hid hname
      · exact hgoes other ((List.mem_append.1 hmem').resolve_right fun h =>
          hne (List.mem_singleton.1 h))
    have hfilter : ((call.record dir :: done).take RETAIN ++ [gone]).filter
        (fun old => old.path ≠ gone.path) = (call.record dir :: done).take RETAIN := by
      rw [List.filter_append, List.filter_eq_self.2 fun old hold => ?_]
      · simp
      · exact decide_eq_true (path_ne_of_id (hcalls old (List.mem_of_mem_take hold))
          (h.calls gone (List.mem_of_getElem? holdest)) (hother old hold))
    rw [hfilter] at hleft
    exact ⟨hleft, hids', hcalls⟩

/-- A call whose record is written in full: the records written last are listed just if it fits, and
then the directory has them. -/
theorem Good.pruning (h : Good tools dir done files) (call : Call) (removals : ℕ) :
    (Retains tools (call.record dir :: done)
        (recordKilled tools dir call files (.pruning removals)) →
      (Event.killed call (.pruning removals)).Fits dir done) ∧
    ((Event.killed call (.pruning removals)).Fits dir done →
      Good tools dir (call.record dir :: done)
        (recordKilled tools dir call files (.pruning removals))) := by
  rcases Nat.lt_or_ge RETAIN (kept dir done call).length with hmany | hfew
  · exact h.pruning_full removals hmany
  · exact h.pruning_few removals hfew

/-- A document has some bytes, or else another would be cut off to it. -/
theorem toVecPretty_ne_nil (tools : Tools) (record : RunRecord) :
    tools.toVecPretty record ≠ [] := by
  intro hnil
  let other : RunRecord := { record with exitCode := record.exitCode + 1 }
  have hne : other ≠ record := by
    intro heq
    have := congrArg RunRecord.exitCode heq
    exact absurd this (by show record.exitCode + 1 ≠ record.exitCode; omega)
  have hread := tools.fromStr_toVecPretty record
  rw [hnil] at hread
  have hother : [] ≠ tools.toVecPretty other := by
    intro heq
    rw [heq, tools.fromStr_toVecPretty] at hread
    exact hne (Option.some.inj hread)
  cases (tools.fromStr_torn other [] (List.nil_prefix ..) hother).symm.trans hread

/-- One event: the records written last are listed after it just if it fits. -/
theorem Good.step (h : Good tools dir done files) (event : Event) :
    (Retains tools (event.recorded dir done) (event.step tools dir files) → event.Fits dir done) ∧
    (event.Fits dir done →
      Good tools dir (event.recorded dir done) (event.step tools dir files)) := by
  cases event with
  | returned call =>
    obtain ⟨removals, hone, heq⟩ := record_eq_killed tools dir call files
    obtain ⟨hfits, hgood⟩ := h.pruning call removals
    simp only [Event.step, heq]
    exact ⟨fun hretains => (hfits hretains).1,
      fun hfollows => hgood ⟨hfollows, fun _ _ => .inr hone⟩⟩
  | killed call stop =>
    cases stop with
    | early => exact ⟨fun _ => trivial, fun _ => h⟩
    | writing missing =>
      refine ⟨fun hretains => ?_, fun hfits => hfits.elim⟩
      have hne : (tools.toVecPretty (call.record dir)).take
          ((tools.toVecPretty (call.record dir)).length - (missing + 1)) ≠
            tools.toVecPretty (call.record dir) := by
        intro heq
        have hlen := congrArg List.length heq
        rw [List.length_take] at hlen
        have := List.length_pos_of_ne_nil (toVecPretty_ne_nil tools (call.record dir))
        omega
      obtain ⟨e, he⟩ := list_torn files (hasJsonExtension_record call dir)
        (tools.fromStr_torn _ _ (List.take_prefix ..) hne)
      obtain ⟨listed, hlist, -⟩ := hretains
      cases he.symm.trans hlist
    | pruning removals => exact h.pruning call removals

/-! ## Runs -/

theorem good_nil (tools : Tools) (dir : String) : Good tools dir [] [] where
  holds := List.Perm.nil
  ids := List.Pairwise.nil
  calls _ h := by cases h

theorem run_concat (events : List Event) (event : Event) :
    run tools dir (events ++ [event]) = event.step tools dir (run tools dir events) :=
  List.foldl_concat ..

theorem recorded_concat (events : List Event) (event : Event) :
    recorded dir (events ++ [event]) = event.recorded dir (recorded dir events) :=
  List.foldl_concat ..

/-- Every event of a history fits what was recorded before it. -/
def AllFit (dir : String) (events : List Event) : Prop :=
  ∀ seen event, seen ++ [event] <+: events → event.Fits dir (recorded dir seen)

theorem allFit_concat {events : List Event} {event : Event} : AllFit dir (events ++ [event]) ↔
    AllFit dir events ∧ event.Fits dir (recorded dir events) := by
  constructor
  · intro h
    exact ⟨fun seen e hpre => h seen e (hpre.trans (List.prefix_append ..)),
      h events event (List.prefix_refl _)⟩
  · rintro ⟨h, hlast⟩ seen e hpre
    rcases List.prefix_concat_iff.1 hpre with heq | hpre
    · obtain ⟨rfl, hevent⟩ := List.append_inj' heq rfl
      cases hevent
      exact hlast
    · exact h seen e hpre

theorem good_run {events : List Event} (h : AllFit dir events) :
    Good tools dir (recorded dir events) (run tools dir events) := by
  induction events using List.reverseRecOn with
  | nil => exact good_nil tools dir
  | append_singleton events event ih =>
    obtain ⟨hfit, hlast⟩ := allFit_concat.1 h
    rw [recorded_concat, run_concat]
    exact ((ih hfit).step event).2 hlast

/-- In every history of calls, killed or not: the records written last are listed after each of them,
newest first, just if each one fits. -/
theorem retains_iff (tools : Tools) (dir : String) (events : List Event) :
    (∀ seen, seen <+: events → Retains tools (recorded dir seen) (run tools dir seen)) ↔
      AllFit dir events := by
  constructor
  · intro h
    induction events using List.reverseRecOn with
    | nil =>
      intro seen event hpre
      exact absurd (List.prefix_nil.1 hpre) (by simp)
    | append_singleton events event ih =>
      have hfit := ih fun seen hseen => h seen (hseen.trans (List.prefix_append ..))
      refine allFit_concat.2 ⟨hfit, ?_⟩
      have hlast := h _ (List.prefix_refl _)
      rw [recorded_concat, run_concat] at hlast
      exact ((good_run hfit).step event).1 hlast
  · intro h seen hseen
    exact (good_run fun before event hpre => h before event (hpre.trans hseen)).retains

end

/-! ## A record that is cut off -/

namespace Sample

/-- A character in a JSON string. Those that are written as numbers are not in the samples. -/
def escape (c : Char) : List Char := if c = '"' ∨ c = '\\' then ['\\', c] else [c]

/-- A JSON string. -/
def quoted (text : String) : List Char := '"' :: (text.toList.flatMap escape ++ ['"'])

/-- A member of an object, on a line of its own. -/
def member (name : String) (value : List Char) : List Char :=
  "\n  \"".toList ++ name.toList ++ "\": ".toList ++ value

def device (record : RunRecord) : List Char := record.device.elim "null".toList quoted

/-- The pretty document of a record. -/
def document (record : RunRecord) : List Char :=
  '\x7b' :: member "id" (quoted record.id) ++
    ',' :: member "started_at" record.startedAt.repr.toList ++
    ',' :: member "subcommand" (quoted record.subcommand) ++
    ',' :: member "device" (device record) ++
    ',' :: member "exit_code" record.exitCode.repr.toList ++
    ',' :: member "path" (quoted record.path) ++ ['\n', '\x7d']

theorem escape_inj {s t x y : List Char}
    (h : s.flatMap escape ++ '"' :: x = t.flatMap escape ++ '"' :: y) : s = t ∧ x = y := by
  induction s generalizing t with
  | nil =>
    cases t with
    | nil => exact ⟨rfl, (List.cons.inj h).2⟩
    | cons c rest =>
      rw [List.flatMap_cons, escape] at h
      split at h
      · cases (List.cons.inj h).1
      · next hplain => exact absurd (.inl (List.cons.inj h).1.symm) hplain
  | cons c rest ih =>
    cases t with
    | nil =>
      rw [List.flatMap_cons, escape] at h
      split at h
      · cases (List.cons.inj h).1
      · next hplain => exact absurd (.inl (List.cons.inj h).1) hplain
    | cons c' rest' =>
      rw [List.flatMap_cons, List.flatMap_cons, List.append_assoc, List.append_assoc] at h
      have hc : c = c' ∧ rest.flatMap escape ++ '"' :: x = rest'.flatMap escape ++ '"' :: y := by
        rw [escape, escape] at h
        split at h
        · split at h
          · exact List.cons.inj (List.cons.inj h).2
          · next hplain => exact absurd (.inr (List.cons.inj h).1.symm) hplain
        · next hplain =>
          split at h
          · exact absurd (.inr (List.cons.inj h).1) hplain
          · exact List.cons.inj h
      obtain ⟨hrest, hxy⟩ := ih hc.2
      exact ⟨by rw [hc.1, hrest], hxy⟩

theorem quoted_inj {s t : String} {x y : List Char} (h : quoted s ++ x = quoted t ++ y) :
    s = t ∧ x = y := by
  simp only [quoted, List.cons_append, List.append_assoc, List.nil_append] at h
  obtain ⟨hst, hxy⟩ := escape_inj (List.cons.inj h).2
  exact ⟨String.toList_inj.1 hst, hxy⟩

theorem member_inj {name : String} {value value' x y : List Char}
    (h : member name value ++ x = member name value' ++ y) : value ++ x = value' ++ y := by
  simp only [member, List.append_assoc] at h
  exact List.append_cancel_left (List.append_cancel_left (List.append_cancel_left h))

theorem device_inj {r r' : RunRecord} {x y : List Char} (h : device r ++ x = device r' ++ y) :
    r.device = r'.device ∧ x = y := by
  rw [device, device] at h
  cases hr : r.device with
  | none =>
    cases hr' : r'.device with
    | none =>
      rw [hr, hr'] at h
      exact ⟨rfl, List.append_cancel_left h⟩
    | some name =>
      rw [hr, hr'] at h
      have hhead : some 'n' = some '"' := congrArg List.head? h
      exact absurd hhead (by decide)
  | some name =>
    cases hr' : r'.device with
    | none =>
      rw [hr, hr'] at h
      have hhead : some '"' = some 'n' := congrArg List.head? h
      exact absurd hhead (by decide)
    | some name' =>
      rw [hr, hr'] at h
      obtain ⟨rfl, hxy⟩ := quoted_inj h
      exact ⟨rfl, hxy⟩

theorem exitCode_repr (n : Int) :
    n.repr.toList = if n < 0 then '-' :: n.natAbs.repr.toList else n.natAbs.repr.toList := by
  cases n with
  | ofNat m => rfl
  | negSucc m => 
    rw [if_pos (Int.negSucc_lt_zero m), Int.repr, String.toList_append]
    rfl

theorem exitCode_inj {m n : Int} {x y : List Char}
    (h : m.repr.toList ++ ',' :: x = n.repr.toList ++ ',' :: y) : m = n ∧ x = y := by
  have hmark (k : ℕ) : ',' ∉ k.repr.toList := not_mem_repr k rfl
  have hdash (k : ℕ) : '-' ∉ k.repr.toList := not_mem_repr k rfl
  have hnot (k : Int) : ',' ∉ k.repr.toList := by
    rw [exitCode_repr]
    split
    · exact List.not_mem_cons_of_ne_of_not_mem (by decide) (hmark _)
    · exact hmark _
  obtain ⟨hmn, hxy⟩ := append_cons_inj (hnot m) (hnot n) h
  refine ⟨?_, hxy⟩
  rw [exitCode_repr, exitCode_repr] at hmn
  split at hmn
  · split at hmn
    · have := repr_injective (List.cons.inj hmn).2
      omega
    · exact absurd (hmn ▸ List.mem_cons_self ..) (hdash n.natAbs)
  · split at hmn
    · exact absurd (hmn ▸ List.mem_cons_self ..) (hdash m.natAbs)
    · have := repr_injective hmn
      omega

/-- No document is the start of another. -/
theorem document_inj {r r' : RunRecord} {x y : List Char}
    (h : document r ++ x = document r' ++ y) : r = r' := by
  simp only [document, List.cons_append, List.append_assoc] at h
  obtain ⟨hid, h⟩ := quoted_inj (member_inj (List.cons.inj h).2)
  obtain ⟨hstarted, h⟩ := append_cons_inj (not_mem_repr _ rfl) (not_mem_repr _ rfl)
    (member_inj (List.cons.inj h).2)
  obtain ⟨hsub, h⟩ := quoted_inj (member_inj h)
  obtain ⟨hdevice, h⟩ := device_inj (member_inj (List.cons.inj h).2)
  obtain ⟨hexit, h⟩ := exitCode_inj (member_inj (List.cons.inj h).2)
  obtain ⟨hpath, -⟩ := quoted_inj (member_inj h)
  cases r
  cases r'
  obtain rfl := hid
  obtain rfl := repr_injective hstarted
  obtain rfl := hsub
  obtain rfl := hdevice
  obtain rfl := hexit
  obtain rfl := hpath
  rfl

/-- The bytes of a text tell it from those that are not the start of it. -/
theorem prefix_of_bytes {s t : List Char} {x : Bytes}
    (h : s.flatMap String.utf8EncodeChar ++ x = t.flatMap String.utf8EncodeChar) : s <+: t := by
  induction s generalizing t with
  | nil => exact List.nil_prefix ..
  | cons c rest ih =>
    cases t with
    | nil =>
      rw [List.flatMap_cons, List.append_assoc] at h
      exact absurd (List.append_eq_nil_iff.1 h).1 String.utf8EncodeChar_ne_nil
    | cons c' rest' =>
      rw [List.flatMap_cons, List.flatMap_cons, List.append_assoc] at h
      have hdecode := congrArg (fun bytes => ByteArray.utf8DecodeChar? bytes.toByteArray 0) h
      simp only [List.toByteArray_append,
        ByteArray.utf8DecodeChar?_utf8EncodeChar_append] at hdecode
      obtain rfl := Option.some.inj hdecode
      exact List.cons_prefix_cons.2 ⟨rfl, ih (List.append_cancel_left h)⟩

def toVecPretty (record : RunRecord) : Bytes := (document record).flatMap String.utf8EncodeChar

theorem toVecPretty_inj {r r' : RunRecord} (h : toVecPretty r <+: toVecPretty r') : r = r' := by
  obtain ⟨x, hx⟩ := h
  obtain ⟨y, hy⟩ := prefix_of_bytes hx
  refine document_inj (x := y) (y := []) ?_
  rw [hy, List.append_nil]

open Classical in
/-- Reads the documents that are written, and no others. -/
noncomputable def fromStr (bytes : Bytes) : Option RunRecord :=
  if h : ∃ record, toVecPretty record = bytes then some h.choose else none

theorem fromStr_toVecPretty (record : RunRecord) :
    fromStr (toVecPretty record) = some record := by
  have h : ∃ other, toVecPretty other = toVecPretty record := ⟨record, rfl⟩
  have hchoose : h.choose = record := by
    refine toVecPretty_inj ?_
    rw [h.choose_spec]
  rw [fromStr, dif_pos h, hchoose]

theorem fromStr_torn {record : RunRecord} {torn : Bytes} (hpre : torn <+: toVecPretty record)
    (hne : torn ≠ toVecPretty record) : fromStr torn = none := by
  refine dif_neg ?_
  rintro ⟨other, rfl⟩
  exact hne (congrArg toVecPretty (toVecPretty_inj hpre))

noncomputable def crate : Tools where
  toVecPretty := toVecPretty
  fromStr := fromStr
  fromStr_toVecPretty := fromStr_toVecPretty
  fromStr_torn _ _ := fromStr_torn
  readDir files := files
  readDir_perm := List.Perm.refl

/-- A run that is killed while the last byte of its record is missing. -/
def call : Call where
  startedAt := 1700000000
  nanos := 5
  pid := 7
  subcommand := "push"
  device := none
  exitCode := 0

end Sample

/-- Nothing is listed after a call that was killed while its file was written. -/
theorem torn_record_blocks :
    ¬ Retains Sample.crate (recorded "runs" [.killed Sample.call (.writing 0)])
      (run Sample.crate "runs" [.killed Sample.call (.writing 0)]) := by
  intro hretains
  exact ((good_nil Sample.crate "runs").step (.killed Sample.call (.writing 0))).1 hretains

end Paperclip.Telemetry
