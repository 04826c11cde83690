import Paperclip.Packages.Texts
import Paperclip.Toml.Documents

/-!
# The launch ledger

Whether a release has ever started, as whoever launches it records it. There is one record for an app. It
is a file, which is read before and written after each call.

* `Ledger.shouldLaunch`, `recordAttempt`, `recordStarted`, `recordFailure`: the calls. A call may fail:
  the file is not read, or not written, or it is written and the call fails all the same.
* `Health.kept`: what is read back of a record. Its note has lost what could break the file.
* `Ledger.launches`: how often a version is launched in a run of calls: an attempt is recorded after the
  ledger said yes.
* `launches_bounded`: unless the record says that the version has started, `MAX_ATTEMPTS` launches are
  all, as long as nothing is recorded of another version. A failure unsays that it has started.
-/

namespace Paperclip.Packages

open Files

/-! ## Records -/

/-- What is known about one app's attempts to start. -/
structure Health where
  version : Version
  attempts : UInt32
  started : Bool
  lastFailure : Option String
  deriving DecidableEq

namespace Health

/-- Longest failure note kept, in bytes. -/
def MAX_NOTE_BYTES : ℕ := 512

def fresh (version : Version) : Health := ⟨version, 0, false, none⟩

/-- A character of a note, as it is written. -/
def escapeChar (c : Char) : Char :=
  if c = '"' then '\x27' else if c = '\\' then '/' else if isControl c then ' ' else c

def escape (value : String) : String := String.ofList (value.toList.map escapeChar)

/-- The text of a record. -/
def toDocument (health : Health) : String :=
  "# Written by the host as it launches apps.\n" ++
  "version = \"" ++ health.version.toString ++ "\"\n" ++
  "attempts = " ++ toString health.attempts.toNat ++ "\n" ++
  "started = " ++ (if health.started then "true" else "false") ++ "\n" ++
  (match health.lastFailure with
    | none => ""
    | some note => "last_failure = \"" ++ escape note ++ "\"\n")

/-- What is read back of a record. -/
def kept (health : Health) : Health := { health with lastFailure := health.lastFailure.map escape }

end Health

/-- A record, as it is read. -/
structure RawHealth where
  version : String
  attempts : UInt32
  started : Bool
  lastFailure : Option String
  deriving DecidableEq

/-- A number below `2 ^ 32`. -/
def RawHealth.u32 (value : ℕ) : Option UInt32 :=
  if value < 2 ^ 32 then some (.ofNat value) else none

/-- The note, which may be missing. -/
def RawHealth.noteOf (keys : Toml.Keys) : Option (Option String) :=
  if keys.lookup "last_failure".toList = none then some none else (keys.text "last_failure").map some

/-- The fields of a record from the tables of its file. None may be missing but the note, and no other
may be there. -/
def RawHealth.ofSections (document : Toml.Keys × List Toml.Section) : Option RawHealth :=
  if document.2 = [] ∧ document.1.are ["version", "attempts", "started", "last_failure"] then do
    let version ← document.1.text "version"
    let attempts ← (document.1.number "attempts").bind u32
    let started ← document.1.flag "started"
    let lastFailure ← noteOf document.1
    return { version, attempts, started, lastFailure }
  else none

/-! ## Notes -/

/-- Whether a character starts at a byte, or the text ends there. -/
def isCharBoundary : List Char → ℕ → Bool
  | [], n => n == 0
  | c :: rest, n => n == 0 || decide (c.utf8Size ≤ n) && isCharBoundary rest (n - c.utf8Size)

/-- The characters before a byte. -/
def truncate : List Char → ℕ → List Char
  | [], _ => []
  | c :: rest, n => if c.utf8Size ≤ n then c :: truncate rest (n - c.utf8Size) else []

/-- The note that is kept of a reason. -/
def Health.note (reason : String) : String :=
  let boundary := (List.range (MAX_NOTE_BYTES + 1)).reverse.find? (isCharBoundary reason.toList)
  String.ofList (truncate reason.toList (boundary.getD 0))

/-- The bytes of a text. -/
def sizeOf (text : List Char) : ℕ := (text.map Char.utf8Size).sum

theorem sizeOf_cons (c : Char) (text : List Char) : sizeOf (c :: text) = c.utf8Size + sizeOf text := by
  rw [sizeOf, List.map_cons, List.sum_cons, sizeOf]

/-- The characters before a byte are no more bytes. -/
theorem truncate_spec (text : List Char) (n : ℕ) :
    truncate text n <+: text ∧ sizeOf (truncate text n) ≤ n := by
  induction text generalizing n with
  | nil => exact ⟨List.prefix_refl [], Nat.zero_le n⟩
  | cons c rest ih =>
    rw [truncate]
    split
    · next hc =>
      obtain ⟨hpre, hsize⟩ := ih (n - c.utf8Size)
      refine ⟨List.cons_prefix_cons.2 ⟨rfl, hpre⟩, ?_⟩
      rw [sizeOf_cons]
      omega
    · exact ⟨List.nil_prefix, Nat.zero_le n⟩

/-- And they are all that fit. -/
theorem prefix_truncate {text start : List Char} (h : start <+: text) {n : ℕ} (hn : sizeOf start ≤ n) :
    start <+: truncate text n := by
  induction start generalizing text n with
  | nil => exact List.nil_prefix
  | cons c start ih =>
    obtain ⟨rest, rfl⟩ := h
    rw [sizeOf_cons] at hn
    rw [List.cons_append, truncate, if_pos (by omega), List.cons_prefix_cons]
    exact ⟨rfl, ih ⟨rest, rfl⟩ (by omega)⟩

theorem isCharBoundary_of_start {text start : List Char} (h : start <+: text) :
    isCharBoundary text (sizeOf start) = true := by
  induction start generalizing text with
  | nil => cases text <;> rfl
  | cons c start ih =>
    obtain ⟨rest, rfl⟩ := h
    have hrest : isCharBoundary (start ++ rest) (sizeOf start) = true := ih ⟨rest, rfl⟩
    rw [sizeOf_cons, List.cons_append, isCharBoundary, Nat.add_sub_cancel_left, hrest,
      decide_eq_true (Nat.le_add_right _ _), Bool.and_true, Bool.or_true]

/-- The greatest number of those that a search from the top looks at. -/
theorem le_find_range {p : ℕ → Bool} (n : ℕ) {k : ℕ} (hk : k ≤ n) (hp : p k = true) :
    k ≤ ((List.range (n + 1)).reverse.find? p).getD 0 := by
  induction n with
  | zero => rw [Nat.le_zero.1 hk]; exact Nat.zero_le _
  | succ n ih =>
    rw [List.range_succ, List.reverse_append, List.reverse_singleton, List.singleton_append]
    cases hn : p (n + 1) with
    | true => rwa [List.find?_cons_of_pos hn, Option.getD_some]
    | false =>
      have hne : k ≠ n + 1 := by
        rintro rfl
        rw [hp] at hn
        cases hn
      rw [List.find?_cons_of_neg (by simp [hn])]
      exact ih (by omega)

/-- The note that is kept is as much of the reason as fits into its bytes. -/
theorem Health.note_spec (reason : String) : (Health.note reason).toList <+: reason.toList ∧
    sizeOf (Health.note reason).toList ≤ MAX_NOTE_BYTES ∧
    ∀ start, start <+: reason.toList → sizeOf start ≤ MAX_NOTE_BYTES →
      start <+: (Health.note reason).toList := by
  unfold Health.note
  dsimp only
  rw [String.toList_ofList]
  generalize hfind : (List.range (MAX_NOTE_BYTES + 1)).reverse.find?
    (isCharBoundary reason.toList) = boundary
  obtain ⟨hpre, hsize⟩ := truncate_spec reason.toList (boundary.getD 0)
  have hle : boundary.getD 0 ≤ MAX_NOTE_BYTES := by
    cases boundary with
    | none => exact Nat.zero_le _
    | some n =>
      have := List.mem_of_find?_eq_some hfind
      rw [List.mem_reverse, List.mem_range] at this
      exact Nat.le_of_lt_succ this
  refine ⟨hpre, Nat.le_trans hsize hle, fun start hstart hfits => prefix_truncate hstart ?_⟩
  rw [← hfind]
  exact le_find_range MAX_NOTE_BYTES hfits (isCharBoundary_of_start hstart)

/-- A reason that fits is kept. -/
theorem Health.note_of_short {reason : String} (h : sizeOf reason.toList ≤ MAX_NOTE_BYTES) :
    Health.note reason = reason := by
  obtain ⟨hpre, -, hall⟩ := Health.note_spec reason
  exact String.toList_inj.1 (hpre.eq_of_length_le (hall _ (List.prefix_refl _) h).length_le)

/-! ## The ledger -/

/-- Why a call failed. -/
inductive LedgerError where
  | io
  | corrupt
  deriving DecidableEq, Repr

/-- How a write of the file ends: with the new text, with the old one, or with the new one and an error
all the same. -/
inductive Write where
  | done
  | refused
  | late
  deriving DecidableEq, Repr

/-- How the file system serves a call. -/
structure Access where
  readable : Bool
  write : Write
  deriving DecidableEq, Repr

/-- What the ledger takes from other crates: the readers of a record and of a version. -/
structure Ledger where
  healthToml : String → Except String RawHealth
  version : String → Option Version

namespace Ledger

/-- How many attempts without a reported start before a version is treated as failing. -/
def MAX_ATTEMPTS : ℕ := 3

variable (ledger : Ledger)

/-- What is recorded, if anything. -/
def health (readable : Bool) (file : Option Bytes) : Except LedgerError (Option Health) :=
  if readable = false then .error .io
  else match file with
    | none => .ok none
    | some bytes =>
      match decodeUtf8 bytes with
      | none => .error .io
      | some text =>
        match ledger.healthToml text with
        | .error _ => .error .corrupt
        | .ok raw =>
          match ledger.version raw.version with
          | none => .error .corrupt
          | some version => .ok (some ⟨version, raw.attempts, raw.started, raw.lastFailure⟩)

/-- Whether the host should launch a version. -/
def shouldLaunch (version : Version) (access : Access) (file : Option Bytes) :
    Except LedgerError Bool := do
  match ← ledger.health access.readable file with
  | some health =>
    if health.version = version then return health.started || decide (health.attempts.toNat < MAX_ATTEMPTS)
    else return true
  | none => return true

/-- Writes a record. -/
def write (health : Health) (access : Access) (file : Option Bytes) :
    Except LedgerError Unit × Option Bytes :=
  match access.write with
  | .done => (.ok (), some (encodeUtf8 health.toDocument))
  | .refused => (.error .io, file)
  | .late => (.error .io, some (encodeUtf8 health.toDocument))

/-- The record of a version, or a new one where none or another is there. -/
def recordOf (version : Version) : Option Health → Health
  | some health => if health.version = version then health else .fresh version
  | none => .fresh version

/-- A number of 32 bits and one more, but for the greatest. -/
def saturatingSucc (n : UInt32) : UInt32 := if n.toNat + 1 < 2 ^ 32 then n + 1 else n

/-- Records that the host is about to launch a version. -/
def recordAttempt (version : Version) (access : Access) (file : Option Bytes) :
    Except LedgerError Unit × Option Bytes :=
  match ledger.health access.readable file with
  | .error e => (.error e, file)
  | .ok found =>
    let health := recordOf version found
    write { health with attempts := saturatingSucc health.attempts } access file

/-- Records that a version started. -/
def recordStarted (version : Version) (access : Access) (file : Option Bytes) :
    Except LedgerError Unit × Option Bytes :=
  write ⟨version, 0, true, none⟩ access file

/-- Records that a version failed, and why. -/
def recordFailure (version : Version) (reason : String) (access : Access) (file : Option Bytes) :
    Except LedgerError Unit × Option Bytes :=
  match ledger.health access.readable file with
  | .error e => (.error e, file)
  | .ok found =>
    write { recordOf version found with started := false, lastFailure := some (Health.note reason) }
      access file

end Ledger

/-! ## Runs -/

/-- A call. -/
inductive LedgerCall where
  | shouldLaunch (version : Version)
  | recordAttempt (version : Version)
  | recordStarted (version : Version)
  | recordFailure (version : Version) (reason : String)
  deriving DecidableEq

/-- What a call answered. -/
inductive Answer where
  | launch (answer : Bool)
  | recorded
  | failed (source : LedgerError)
  deriving DecidableEq, Repr

def Answer.ofLaunch : Except LedgerError Bool → Answer
  | .ok answer => launch answer
  | .error e => failed e

def Answer.ofRecord : Except LedgerError Unit → Answer
  | .ok () => recorded
  | .error e => failed e

namespace Ledger

variable (ledger : Ledger)

/-- A call, and the file after it. -/
def call (access : Access) (file : Option Bytes) : LedgerCall → Answer × Option Bytes
  | .shouldLaunch version => (.ofLaunch (ledger.shouldLaunch version access file), file)
  | .recordAttempt version =>
    let (r, file) := ledger.recordAttempt version access file
    (.ofRecord r, file)
  | .recordStarted version =>
    let (r, file) := recordStarted version access file
    (.ofRecord r, file)
  | .recordFailure version reason =>
    let (r, file) := ledger.recordFailure version reason access file
    (.ofRecord r, file)

/-- Whether the version may be launched after a call: it was said so, and it was not attempted since. -/
def asked (version : Version) (before : Bool) : LedgerCall → Answer → Bool
  | .shouldLaunch other, answer =>
    if other = version then decide (answer = .launch true) else before
  | .recordAttempt other, _ => if other = version then false else before
  | _, _ => before

/-- Whether a call launches the version, where it may be launched. -/
def launch (version : Version) (before : Bool) : LedgerCall → Answer → ℕ
  | .recordAttempt other, answer => if before ∧ other = version ∧ answer = .recorded then 1 else 0
  | _, _ => 0

/-- How often a version is launched in a run of calls. -/
def launches (version : Version) : Bool → List (LedgerCall × Access) → Option Bytes → ℕ
  | _, [], _ => 0
  | before, (call, access) :: rest, file =>
    let (answer, after) := ledger.call access file call
    launch version before call answer + launches version (asked version before call answer) rest after

/-- Whether the record says that the version has started. -/
def Started (version : Version) (file : Option Bytes) : Prop :=
  ∃ health, ledger.health true file = .ok (some health) ∧ health.version = version ∧
    health.started = true

end Ledger

/-- Whether a call leaves the record to a version, and does not say that one has started. -/
def LedgerCall.Spares (version : Version) : LedgerCall → Prop
  | shouldLaunch _ => True
  | recordAttempt other => other = version
  | recordStarted _ => False
  | recordFailure other _ => other = version

/-! ## What is written -/

/-- The lines of a record. -/
def Health.rows (health : Health) : List (Toml.Row Toml.Spelled) :=
  [.comment " Written by the host as it launches apps.".toList,
    .pair "version".toList (.text (Toml.plain health.version.toString.toList)),
    .pair "attempts".toList (.number health.attempts.toNat),
    .pair "started".toList (.flag health.started)] ++
  health.lastFailure.toList.map fun note =>
    .pair "last_failure".toList (.text (Toml.plain (escape note).toList))

namespace Health

variable (health : Health)

theorem toList_toDocument : health.toDocument.toList = Toml.renderRows health.rows := by
  unfold toDocument rows Toml.renderRows
  cases health.lastFailure <;>
    simp [Toml.Row.render, Toml.Spelled.render, Toml.plain_render, Nat.repr_eq_ofList_toDigits]

/-- A character of a note needs no escape. -/
theorem escapeChar_spec (c : Char) :
    Toml.allowed (escapeChar c) = true ∧ escapeChar c ≠ '\\' ∧ escapeChar c ≠ '"' := by
  unfold escapeChar
  split
  · decide
  next hq =>
  split
  · decide
  next hb =>
  split
  · decide
  next hcontrol =>
    refine ⟨?_, hb, hq⟩
    simp only [isControl, Bool.or_eq_true, Bool.and_eq_true, decide_eq_true_eq, not_or] at hcontrol
    simp only [Toml.allowed, Bool.or_eq_true, Bool.and_eq_true, decide_eq_true_eq]
    right
    omega

theorem escape_spec (note : String) : ∀ c ∈ (escape note).toList,
    Toml.allowed c = true ∧ c ≠ '\\' ∧ c ≠ '"' := by
  intro c hc
  rw [escape, String.toList_ofList] at hc
  obtain ⟨d, -, rfl⟩ := List.mem_map.1 hc
  exact escapeChar_spec d

theorem rows_fit (hversion : health.version.WellFormed) : ∀ row ∈ health.rows, row.Fits := by
  have hplain := plain_version hversion
  have hattempts : health.attempts.toNat ≤ Toml.MAX :=
    Nat.le_trans (Nat.le_of_lt health.attempts.toNat_lt) (by decide)
  intro row hrow
  rcases List.mem_append.1 hrow with hrow | hrow
  · simp only [List.mem_cons, List.not_mem_nil, or_false] at hrow
    rcases hrow with rfl | rfl | rfl | rfl
    · exact show List.all _ _ = true by decide
    · exact ⟨⟨by decide, by decide⟩, Toml.plain_fits fun c hc =>
        isPlain_spec (List.all_eq_true.1 hplain c hc)⟩
    · exact ⟨⟨by decide, by decide⟩, hattempts⟩
    · exact ⟨⟨by decide, by decide⟩, trivial⟩
  · obtain ⟨note, -, rfl⟩ := List.mem_map.1 hrow
    exact ⟨⟨by decide, by decide⟩, Toml.plain_fits (escape_spec note)⟩

/-- The fields are read from the lines as they are written. -/
theorem ofSections_rows : RawHealth.ofSections (Toml.meaning health.rows) =
    some ⟨health.version.toString, health.attempts, health.started,
      health.lastFailure.map escape⟩ := by
  have hattempts : RawHealth.u32 health.attempts.toNat = some health.attempts := by
    rw [RawHealth.u32, if_pos health.attempts.toNat_lt, UInt32.ofNat_toNat]
  unfold RawHealth.ofSections rows
  cases health.lastFailure <;>
    simp [Toml.meaning, Toml.sections, Toml.Row.map, Toml.Spelled.datum, Toml.plain_char,
      Toml.Keys.are, Toml.Keys.text, Toml.Keys.number, Toml.Keys.flag, List.lookup_cons,
      RawHealth.noteOf, hattempts]

end Health

namespace Ledger

variable {ledger : Ledger} (htoml : Toml.Reads ledger.healthToml RawHealth.ofSections)

include htoml

/-- What was written is read back. -/
theorem health_written {health : Health} (hformed : health.version.WellFormed)
    (hversion : ledger.version health.version.toString = some health.version) :
    ledger.health true (some (encodeUtf8 health.toDocument)) = .ok (some health.kept) := by
  have hread := htoml.reads _ _ (health.rows_fit hformed) health.ofSections_rows
  rw [← health.toList_toDocument, String.ofList_toList] at hread
  unfold Ledger.health
  rw [if_neg (by decide)]
  dsimp only
  rw [decodeUtf8_encodeUtf8]
  dsimp only
  rw [hread]
  dsimp only
  rw [hversion]
  rfl

end Ledger

/-! ## How often a version is launched -/

namespace Ledger

variable {ledger : Ledger} {version : Version} {file : Option Bytes} {access : Access}

/-- How many launches of a version are left, unless it has started. -/
def budget (ledger : Ledger) (version : Version) (file : Option Bytes) : ℕ :=
  match ledger.health true file with
  | .ok found => MAX_ATTEMPTS - (recordOf version found).attempts.toNat
  | .error _ => MAX_ATTEMPTS

theorem health_ok {readable : Bool} {found : Option Health}
    (h : ledger.health readable file = .ok found) : ledger.health true file = .ok found := by
  cases readable with
  | false =>
    unfold Ledger.health at h
    rw [if_pos rfl] at h
    cases h
  | true => exact h

theorem recordOf_version (version : Version) (found : Option Health) :
    (recordOf version found).version = version := by
  unfold recordOf
  split
  · split
    · assumption
    · rfl
  · rfl

theorem budget_of_health {found : Option Health} (h : ledger.health true file = .ok found) :
    ledger.budget version file = MAX_ATTEMPTS - (recordOf version found).attempts.toNat := by
  rw [budget, h]

theorem started_of_health {found : Option Health} (h : ledger.health true file = .ok found) :
    ledger.Started version file ↔ (recordOf version found).started = true := by
  unfold Started recordOf
  rw [h]
  cases found with
  | none => simp [Health.fresh]
  | some health =>
    by_cases hv : health.version = version
    · simp [hv]
    · simp [hv, Health.fresh]

/-- A yes to a version that has not started leaves a launch. -/
theorem budget_pos (hfree : ¬ ledger.Started version file)
    (h : ledger.shouldLaunch version access file = .ok true) : 0 < ledger.budget version file := by
  unfold shouldLaunch at h
  cases hfound : ledger.health access.readable file with
  | error e =>
    rw [hfound] at h
    cases h
  | ok found =>
    rw [hfound] at h
    have htrue := health_ok hfound
    rw [started_of_health htrue] at hfree
    rw [budget_of_health htrue]
    cases found with
    | none => exact show 0 < MAX_ATTEMPTS - 0 by decide
    | some health =>
      by_cases hv : health.version = version
      · simp only [recordOf, if_pos hv] at hfree ⊢
        simp only [bind, Except.bind, if_pos hv, pure, Except.pure, Except.ok.injEq, Bool.or_eq_true,
          decide_eq_true_eq] at h
        have := h.resolve_left hfree
        omega
      · rw [recordOf, if_neg hv]
        exact show 0 < MAX_ATTEMPTS - 0 by decide

/-- A call that writes leaves the file, and fails, or leaves the record in it. -/
theorem write_cases (health : Health) (access : Access) (file : Option Bytes) :
    ((write health access file).2 = file ∧ (write health access file).1 ≠ .ok ()) ∨
      (write health access file).2 = some (encodeUtf8 health.toDocument) := by
  unfold write
  cases access.write with
  | done => exact .inr rfl
  | refused => exact .inl ⟨rfl, fun h => by cases h⟩
  | late => exact .inr rfl

theorem launches_cons (before : Bool) (c : LedgerCall) (rest : List (LedgerCall × Access)) :
    ledger.launches version before ((c, access) :: rest) file =
      launch version before c (ledger.call access file c).1 +
        ledger.launches version (asked version before c (ledger.call access file c).1) rest
          (ledger.call access file c).2 := rfl

theorem saturatingSucc_toNat (n : UInt32) :
    MAX_ATTEMPTS - (saturatingSucc n).toNat = MAX_ATTEMPTS - n.toNat - 1 := by
  unfold saturatingSucc
  split
  · next h =>
    rw [UInt32.toNat_add, UInt32.toNat_one, Nat.mod_eq_of_lt h]
    omega
  · next h =>
    have := n.toNat_lt
    have hmax : MAX_ATTEMPTS = 3 := rfl
    omega

section

variable (htoml : Toml.Reads ledger.healthToml RawHealth.ofSections) (hformed : version.WellFormed)
  (hversion : ledger.version version.toString = some version)

include htoml hformed hversion

/-- What is read of a record of the version that was written. -/
theorem health_record {health : Health} (hv : health.version = version) :
    ledger.health true (some (encodeUtf8 health.toDocument)) = .ok (some health.kept) :=
  health_written htoml (hv ▸ hformed) (hv ▸ hversion)

theorem written_record (health : Health) (hv : health.version = version) :
    ledger.budget version (some (encodeUtf8 health.toDocument)) =
        MAX_ATTEMPTS - health.attempts.toNat ∧
      (ledger.Started version (some (encodeUtf8 health.toDocument)) ↔ health.started = true) := by
  have hread := health_record htoml hformed hversion hv
  have hrecord : recordOf version (some health.kept) = health.kept := if_pos hv
  rw [budget_of_health hread, started_of_health hread, hrecord]
  exact ⟨rfl, Iff.rfl⟩

/-- An attempt that is recorded uses up a launch. -/
theorem recordAttempt_spec (hfree : ¬ ledger.Started version file) (access : Access) :
    ¬ ledger.Started version (ledger.recordAttempt version access file).2 ∧
      ledger.budget version (ledger.recordAttempt version access file).2 ≤
        ledger.budget version file ∧
      ((ledger.recordAttempt version access file).1 = .ok () →
        ledger.budget version (ledger.recordAttempt version access file).2 =
          ledger.budget version file - 1) := by
  unfold recordAttempt
  cases hfound : ledger.health access.readable file with
  | error e => exact ⟨hfree, Nat.le_refl _, fun h => by cases h⟩
  | ok found =>
    have htrue := health_ok hfound
    obtain ⟨hbudget, hstarted⟩ := written_record htoml hformed hversion
      { recordOf version found with
        attempts := saturatingSucc (recordOf version found).attempts } (recordOf_version version found)
    rw [saturatingSucc_toNat, ← budget_of_health htrue] at hbudget
    have hfree' : ¬ (recordOf version found).started = true := by rwa [← started_of_health htrue]
    dsimp only
    rcases write_cases { recordOf version found with
        attempts := saturatingSucc (recordOf version found).attempts } access file with
      ⟨hafter, hfailed⟩ | hafter
    · rw [hafter]
      exact ⟨hfree, Nat.le_refl _, fun h => absurd h hfailed⟩
    · rw [hafter, hbudget]
      exact ⟨fun h => hfree' (hstarted.1 h), Nat.sub_le _ _, fun _ => rfl⟩

/-- A failure leaves the launches that there were. -/
theorem recordFailure_spec (hfree : ¬ ledger.Started version file) (access : Access)
    (reason : String) :
    ¬ ledger.Started version (ledger.recordFailure version reason access file).2 ∧
      ledger.budget version (ledger.recordFailure version reason access file).2 =
        ledger.budget version file := by
  unfold recordFailure
  cases hfound : ledger.health access.readable file with
  | error e => exact ⟨hfree, rfl⟩
  | ok found =>
    have htrue := health_ok hfound
    obtain ⟨hbudget, hstarted⟩ := written_record htoml hformed hversion
      { recordOf version found with
        started := false, lastFailure := some (Health.note reason) } (recordOf_version version found)
    have hfree' := mt hstarted.1 Bool.false_ne_true
    dsimp only
    rcases write_cases { recordOf version found with
        started := false, lastFailure := some (Health.note reason) } access file with
      ⟨hafter, -⟩ | hafter
    · rw [hafter]
      exact ⟨hfree, rfl⟩
    · rw [hafter, hbudget, budget_of_health htrue]
      exact ⟨hfree', rfl⟩

/-- A version that has not started is launched as often as its budget says, at most, or the once that
was said before. -/
theorem launches_le {calls : List (LedgerCall × Access)} (hspares : ∀ c ∈ calls, c.1.Spares version)
    {before : Bool} (hfree : ¬ ledger.Started version file) :
    ledger.launches version before calls file ≤
      max (ledger.budget version file) before.toNat := by
  induction calls generalizing before file with
  | nil => exact Nat.zero_le _
  | cons c rest ih =>
    obtain ⟨call, access⟩ := c
    obtain ⟨hcall, hrest⟩ := List.forall_mem_cons.1 hspares
    cases call with
    | shouldLaunch other =>
      have hsame : ledger.call access file (.shouldLaunch other) =
          (.ofLaunch (ledger.shouldLaunch other access file), file) := rfl
      rw [launches_cons, hsame]
      dsimp only
      change 0 + _ ≤ _
      rw [Nat.zero_add]
      refine Nat.le_trans (ih hrest hfree) ?_
      by_cases hv : other = version
      · subst hv
        have hasked (answer : Answer) : asked other before (.shouldLaunch other) answer =
            decide (answer = .launch true) := if_pos rfl
        rw [hasked]
        by_cases hanswer : ledger.shouldLaunch other access file = .ok true
        · have hpos := budget_pos hfree hanswer
          have hone := Bool.toNat_le
            (decide (Answer.ofLaunch (ledger.shouldLaunch other access file) = .launch true))
          omega
        · have hno : Answer.ofLaunch (ledger.shouldLaunch other access file) ≠ .launch true := by
            intro hyes
            apply hanswer
            cases hr : ledger.shouldLaunch other access file with
            | ok answer =>
              rw [hr] at hyes
              cases hyes
              rfl
            | error e =>
              rw [hr] at hyes
              cases hyes
          have hzero : false.toNat = 0 := rfl
          rw [decide_eq_false hno]
          omega
      · have hasked (answer : Answer) : asked version before (.shouldLaunch other) answer = before :=
          if_neg hv
        rw [hasked]
    | recordAttempt other =>
      cases hcall
      obtain ⟨hfree', hle, hok⟩ := recordAttempt_spec htoml hformed hversion hfree access
      have hlater : ledger.launches version false rest
          (ledger.recordAttempt version access file).2 ≤
            max (ledger.budget version (ledger.recordAttempt version access file).2) 0 :=
        ih hrest hfree'
      have hcall : ledger.call access file (.recordAttempt version) =
          (.ofRecord (ledger.recordAttempt version access file).1,
            (ledger.recordAttempt version access file).2) := rfl
      rw [launches_cons, hcall]
      dsimp only
      rw [asked, if_pos rfl, launch]
      split
      · next h =>
        obtain ⟨rfl, -, hrecorded⟩ := h
        have hdone : (ledger.recordAttempt version access file).1 = .ok () := by
          cases hr : (ledger.recordAttempt version access file).1 with
          | ok _ => rfl
          | error e =>
            rw [hr] at hrecorded
            cases hrecorded
        have := hok hdone
        have htrue : true.toNat = 1 := rfl
        omega
      · omega
    | recordStarted other => exact absurd hcall id
    | recordFailure other reason =>
      cases hcall
      obtain ⟨hfree', hbudget⟩ :=
        recordFailure_spec htoml hformed hversion hfree access reason
      rw [launches_cons]
      change 0 + ledger.launches version before rest
        (ledger.recordFailure version reason access file).2 ≤ _
      rw [Nat.zero_add, ← hbudget]
      exact ih hrest hfree'

end

end Ledger

/-! ## The ledger stops a crash loop -/

theorem Health.escapeChar_size (c : Char) : (escapeChar c).utf8Size ≤ c.utf8Size := by
  have hone := c.utf8Size_pos
  unfold escapeChar
  split
  · exact hone
  split
  · exact hone
  split
  · exact hone
  · exact Nat.le_refl _

theorem Health.escape_size (note : String) : (escape note).utf8ByteSize ≤ sizeOf note.toList := by
  rw [escape, utf8ByteSize_ofList]
  induction note.toList with
  | nil => exact Nat.le_refl _
  | cons c text ih =>
    have hc := escapeChar_size c
    rw [List.map_cons, List.map_cons, List.sum_cons, sizeOf_cons]
    omega

/-- As long as nothing is recorded of another version, and not that a version has started, a version of
which it is not recorded that it has started is launched `MAX_ATTEMPTS` times at most. After a failure
it is not recorded, and what is read back of the failure is what was written, but for the characters of
the note that could break the file. -/
theorem launches_bounded (ledger : Ledger)
    (htoml : Toml.Reads ledger.healthToml RawHealth.ofSections) (version : Version)
    (hformed : version.WellFormed) (hversion : ledger.version version.toString = some version) :
    (∀ file calls before, ¬ ledger.Started version file →
      (∀ c ∈ calls, LedgerCall.Spares version c.1) →
      ledger.launches version before calls file ≤ Ledger.MAX_ATTEMPTS) ∧
    ∀ file access reason after,
      ledger.recordFailure version reason access file = (.ok (), after) →
      ¬ ledger.Started version after ∧
      (∃ found, ledger.health access.readable file = .ok found ∧
        ledger.health true after = .ok (some { Ledger.recordOf version found with
          started := false, lastFailure := some (Health.escape (Health.note reason)) })) ∧
      (Health.note reason).toList <+: reason.toList ∧
      (Health.escape (Health.note reason)).utf8ByteSize ≤ Health.MAX_NOTE_BYTES := by
  refine ⟨fun file calls before hfree hspares => ?_, fun file access reason after hrecord => ?_⟩
  · have hle : ledger.launches version before calls file ≤
        max (ledger.budget version file) before.toNat :=
      Ledger.launches_le htoml hformed hversion hspares hfree
    have hbudget : ledger.budget version file ≤ Ledger.MAX_ATTEMPTS := by
      unfold Ledger.budget
      split
      · exact Nat.sub_le _ _
      · exact Nat.le_refl _
    have hone := before.toNat_le
    have hmax : Ledger.MAX_ATTEMPTS = 3 := rfl
    omega
  · unfold Ledger.recordFailure at hrecord
    cases hfound : ledger.health access.readable file with
    | error e =>
      rw [hfound] at hrecord
      cases hrecord
    | ok found =>
      rw [hfound] at hrecord
      have hrecord' : Ledger.write { Ledger.recordOf version found with
          started := false, lastFailure := some (Health.note reason) } access file =
            (.ok (), after) := hrecord
      have hv := Ledger.recordOf_version version found
      rcases Ledger.write_cases { Ledger.recordOf version found with
          started := false, lastFailure := some (Health.note reason) } access file with
        ⟨-, hfailed⟩ | hafter
      · rw [hrecord'] at hfailed
        exact absurd rfl hfailed
      · rw [hrecord'] at hafter
        subst hafter
        have hstarted := (Ledger.written_record htoml hformed hversion
          { Ledger.recordOf version found with
            started := false, lastFailure := some (Health.note reason) } hv).2
        exact ⟨mt hstarted.1 Bool.false_ne_true, ⟨found, rfl,
          Ledger.health_record htoml hformed hversion hv⟩, (Health.note_spec reason).1,
          Nat.le_trans (Health.escape_size _) (Health.note_spec reason).2.1⟩

/-! ## What goes on in spite of it -/

/-- The file is read and written. -/
def Access.plain : Access := ⟨true, .done⟩

/-- A version is launched again and again, if the ledger says yes. -/
def LedgerCall.loop (version : Version) : ℕ → List (LedgerCall × Access)
  | 0 => []
  | n + 1 => (.shouldLaunch version, .plain) :: (.recordAttempt version, .plain) :: loop version n

/-- A version is launched again and again, each time after a failure of another. -/
def LedgerCall.alternate (version other : Version) : ℕ → List (LedgerCall × Access)
  | 0 => []
  | n + 1 => (.recordFailure other "", .plain) :: (.shouldLaunch version, .plain) ::
      (.recordAttempt version, .plain) :: alternate version other n

theorem loop_spares (version : Version) (n : ℕ) :
    ∀ c ∈ LedgerCall.loop version n, LedgerCall.Spares version c.1 := by
  induction n with
  | zero => exact fun c hc => absurd hc List.not_mem_nil
  | succ n ih =>
    rw [LedgerCall.loop, List.forall_mem_cons, List.forall_mem_cons]
    exact ⟨trivial, rfl, ih⟩

/-- A launch, where the ledger says yes. -/
theorem launches_once {ledger : Ledger} {version : Version} {file : Option Bytes}
    {found : Option Health} (hfound : ledger.health true file = .ok found)
    (hgo : (Ledger.recordOf version found).started = true ∨
      (Ledger.recordOf version found).attempts.toNat < Ledger.MAX_ATTEMPTS) (before : Bool)
    (rest : List (LedgerCall × Access)) :
    ledger.launches version before
        ((.shouldLaunch version, Access.plain) :: (.recordAttempt version, Access.plain) :: rest) file =
      1 + ledger.launches version false rest (some (encodeUtf8 { Ledger.recordOf version found with
        attempts := Ledger.saturatingSucc (Ledger.recordOf version found).attempts }.toDocument)) := by
  have hyes : ledger.shouldLaunch version .plain file = .ok true := by
    unfold Ledger.shouldLaunch Ledger.recordOf at *
    rw [show Access.plain.readable = true from rfl, hfound]
    cases found with
    | none => rfl
    | some health =>
      by_cases hv : health.version = version
      · simp only [if_pos hv] at hgo
        simp only [bind, Except.bind, if_pos hv, pure, Except.pure, Except.ok.injEq, Bool.or_eq_true,
          decide_eq_true_eq]
        exact hgo
      · simp only [bind, Except.bind, if_neg hv, pure, Except.pure]
  have hrecord : ledger.recordAttempt version .plain file =
      (.ok (), some (encodeUtf8 { Ledger.recordOf version found with
        attempts := Ledger.saturatingSucc (Ledger.recordOf version found).attempts }.toDocument)) := by
    unfold Ledger.recordAttempt
    rw [show Access.plain.readable = true from rfl, hfound]
    rfl
  have hasked : ledger.call .plain file (.shouldLaunch version) = (.launch true, file) := by
    rw [Ledger.call, hyes]
    rfl
  have hattempt : ledger.call .plain file (.recordAttempt version) =
      (.recorded, (ledger.recordAttempt version .plain file).2) := by
    rw [Ledger.call, hrecord]
    rfl
  have hbefore : Ledger.asked version before (.shouldLaunch version) (.launch true) = true :=
    if_pos rfl
  have hafter : Ledger.asked version true (.recordAttempt version) .recorded = false := if_pos rfl
  rw [Ledger.launches_cons, hasked, hbefore, Ledger.launches_cons, hattempt, hafter, hrecord]
  exact (Nat.zero_add _).trans (congrArg (· + _) (if_pos ⟨rfl, rfl, rfl⟩))

section

variable {ledger : Ledger} {version : Version}
  (htoml : Toml.Reads ledger.healthToml RawHealth.ofSections) (hformed : version.WellFormed)
  (hversion : ledger.version version.toString = some version)

include htoml hformed hversion

/-- Once a version has started it is launched for ever. -/
theorem launches_loop (n : ℕ) (before : Bool) {health : Health} (hv : health.version = version)
    (hstarted : health.started = true) : ledger.launches version before (LedgerCall.loop version n)
      (some (encodeUtf8 health.toDocument)) = n := by
  induction n generalizing before health with
  | zero => rfl
  | succ n ih =>
    have hfound := Ledger.health_record htoml hformed hversion hv
    have hrecord : Ledger.recordOf version (some health.kept) = health.kept := if_pos hv
    have hnext : ledger.launches version false (LedgerCall.loop version n) (some (encodeUtf8
        { health.kept with
          attempts := Ledger.saturatingSucc health.kept.attempts }.toDocument)) = n :=
      ih false hv hstarted
    rw [LedgerCall.loop, launches_once hfound (.inl (by rw [hrecord]; exact hstarted)), hrecord]
    exact (congrArg (1 + ·) hnext).trans (Nat.add_comm 1 n)

theorem launches_started (n : ℕ) (before : Bool) (file : Option Bytes) :
    ledger.launches version before ((.recordStarted version, .plain) :: LedgerCall.loop version n) file =
      n := by
  have hrecord : ledger.call .plain file (.recordStarted version) =
      (.recorded, some (encodeUtf8 (Health.toDocument ⟨version, 0, true, none⟩))) := rfl
  rw [Ledger.launches_cons, hrecord, launches_loop htoml hformed hversion n _ rfl rfl]
  exact Nat.zero_add n

/-- A record of another version makes the ledger forget the attempts. -/
theorem launches_alternate {other : Version} (hother : other.WellFormed)
    (hread : ledger.version other.toString = some other) (hne : other ≠ version) (n : ℕ)
    (before : Bool) {file : Option Bytes} {found : Option Health}
    (hfound : ledger.health true file = .ok found) :
    ledger.launches version before (LedgerCall.alternate version other n) file = n := by
  induction n generalizing before file found with
  | zero => rfl
  | succ n ih =>
    have hrecord : ledger.call .plain file (.recordFailure other "") =
        (.recorded, some (encodeUtf8 (Health.toDocument { Ledger.recordOf other found with
          started := false, lastFailure := some (Health.note "") }))) := by
      unfold Ledger.call Ledger.recordFailure
      rw [show Access.plain.readable = true from rfl, hfound]
      rfl
    have hv : Health.version { Ledger.recordOf other found with
        started := false, lastFailure := some (Health.note "") } = other :=
      Ledger.recordOf_version _ found
    have hkept := Ledger.health_record htoml hother hread hv
    have hfresh : Ledger.recordOf version (some (Health.kept { Ledger.recordOf other found with
        started := false, lastFailure := some (Health.note "") })) = .fresh version :=
      if_neg fun h => hne (hv.symm.trans h)
    have hattempt : ledger.health true (some (encodeUtf8 { Health.fresh version with
        attempts := Ledger.saturatingSucc (Health.fresh version).attempts }.toDocument)) = _ :=
      Ledger.health_record htoml hformed hversion rfl
    have hlaunch := launches_once hkept (.inr (by rw [hfresh]; exact show 0 < 3 by decide)) before
      (LedgerCall.alternate version other n)
    rw [hfresh, ih false hattempt] at hlaunch
    rw [LedgerCall.alternate, Ledger.launches_cons, hrecord]
    exact (Nat.zero_add _).trans (hlaunch.trans (Nat.add_comm 1 n))

/-- A failure is read back with the note that is written. -/
theorem failure_read (reason : String) :
    ledger.health true (ledger.recordFailure version reason .plain none).2 =
      .ok (some ⟨version, 0, false, some (Health.escape (Health.note reason))⟩) := by
  have hread : ledger.health true (some (encodeUtf8
      (Health.toDocument ⟨version, 0, false, some (Health.note reason)⟩))) = _ :=
    Ledger.health_record htoml hformed hversion rfl
  exact hread

end

/-- A ledger that knows two versions. -/
def Sample.ledger : Ledger where
  healthToml := Toml.fromStr "invalid TOML" RawHealth.ofSections
  version text :=
    if text = "1.0.0" then some (.new 1 0 0)
    else if text = "2.0.0" then some (.new 2 0 0)
    else none

theorem Sample.reads : Toml.Reads ledger.healthToml RawHealth.ofSections := Toml.reads_own _ _

theorem Sample.formed (major : ℕ) (h : major < 2 ^ 64) : (Version.new major 0 0).WellFormed :=
  ⟨⟨h, show 0 < 2 ^ 64 by decide, show 0 < 2 ^ 64 by decide⟩, fun _ hi => (by cases hi),
    fun _ hi => by cases hi⟩

theorem Sample.version_one : ledger.version (Version.new 1 0 0).toString = some (.new 1 0 0) := by
  decide

theorem Sample.version_two : ledger.version (Version.new 2 0 0).toString = some (.new 2 0 0) := by
  decide

/-- A version that failed three times is not launched any more, and its note is read back. -/
theorem launches_bounded_sample :
    Sample.ledger.launches (.new 1 0 0) false (LedgerCall.loop (.new 1 0 0) 5) none ≤ 3 ∧
      ¬ Sample.ledger.Started (.new 1 0 0)
        (Sample.ledger.recordFailure (.new 1 0 0) "exited immediately" Access.plain none).2 := by
  have h := launches_bounded Sample.ledger Sample.reads _ (Sample.formed 1 (by decide))
    Sample.version_one
  refine ⟨h.1 none _ false ?_ ?_,
    (h.2 none Access.plain "exited immediately" _ (Prod.ext rfl rfl)).1⟩
  · rintro ⟨health, hhealth, -⟩
    cases hhealth
  · exact loop_spares _ _

/-- Once a version has started it is launched for ever. A record of another version makes the ledger
forget the attempts. A quote in a note is not read back. -/
theorem launches_unbounded :
    Sample.ledger.launches (.new 1 0 0) false
        ((.recordStarted (.new 1 0 0), .plain) :: LedgerCall.loop (.new 1 0 0) 4) none = 4 ∧
      Sample.ledger.launches (.new 1 0 0) false (LedgerCall.alternate (.new 1 0 0) (.new 2 0 0) 4) none = 4 ∧
      Sample.ledger.health true (Sample.ledger.recordFailure (.new 1 0 0) "\"" .plain none).2 =
        .ok (some ⟨.new 1 0 0, 0, false, some "\x27"⟩) := by
  have hone := Sample.formed 1 (by decide)
  have htwo := Sample.formed 2 (by decide)
  have hnote : Health.escape (Health.note "\"") = "\x27" := by
    rw [Health.note_of_short (by decide)]
    decide
  have hread := failure_read Sample.reads hone Sample.version_one "\""
  rw [hnote] at hread
  exact ⟨launches_started Sample.reads hone Sample.version_one 4 false none,
    launches_alternate Sample.reads hone Sample.version_one htwo Sample.version_two (by decide) 4
      false rfl, hread⟩

end Paperclip.Packages
