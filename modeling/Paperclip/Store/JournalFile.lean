import Paperclip.Packages.Documents
import Paperclip.Store.Layout
import Paperclip.Text.Utf8
import Paperclip.Toml.Quotes

/-!
# The files of the journal

The journal is a file for each intent, written by hand into TOML. Recovery knows the staging
directory of an intent by its ticket; in the file it is a path.

* `Journal`, `document`, `fileName`: an intent, and what is written of it, and where.
* `RawJournal.ofSections`, `read`: reading it back.
* `read_write_iff`: an intent is read back just if the path of its staging directory is text that
  may stand between quotes.
* `fileName_injective`: different intents have different files.
* `journal_kept_iff`: both.
-/

namespace Paperclip.Store.JournalFile

open Files Packages Protocol Text

/-- An intent, with the path of its staging directory and the time it was written. -/
structure Journal where
  app : AppId
  version : Version
  previous : Option Version
  staging : Option Bytes
  phase : Phase
  started : ℕ
  deriving DecidableEq

/-- What the TOML crate reads. -/
structure RawJournal where
  app : String
  version : String
  previous : Option String
  staging : Option String
  phase : String
  started : ℕ
  deriving DecidableEq

/-- Why an intent is not read. -/
inductive JournalError where
  | io (path : String)
  | corrupt (path : String)
  deriving DecidableEq

/-! ## Writing -/

/-- A line whose value is put between quotes. -/
def quoted (key : String) (value : List Char) : List Char :=
  key.toList ++ " = \"".toList ++ value ++ "\"\n".toList

/-- The comments at the top. -/
def comments : List String :=
  [" An install intent, written before it was acted on. If this file is",
    " here, the operation it describes did not finish; `paperctl recover`",
    " is what reads it."]

/-- Their lines. -/
def header : List Char := comments.flatMap fun text => '#' :: (text.toList ++ ['\n'])

namespace Journal

/-- What is written of an intent. -/
def document (journal : Journal) : List Char :=
  header ++
  quoted "app" journal.app.text.toList ++
  quoted "version" journal.version.toString.toList ++
  (journal.previous.elim [] fun previous => quoted "previous" previous.toString.toList) ++
  (journal.staging.elim [] fun staging => quoted "staging" (lossy staging)) ++
  quoted "phase" journal.phase.asStr.toList ++
  ("started = ".toList ++ Nat.toDigits 10 journal.started ++ ['\n'])

/-- The bytes of its file. -/
def write (journal : Journal) : Bytes := encodeUtf8 (String.ofList journal.document)

/-- The name of its file. -/
def fileName (journal : Journal) : String :=
  journal.app.text ++ "-" ++ journal.version.toString ++ "-" ++ journal.phase.asStr ++ ".toml"

end Journal

/-! ## Reading -/

/-- A text that may be missing. -/
def optionalText (keys : Toml.Keys) (key : String) : Option (Option String) :=
  if keys.lookup key.toList = none then some none else (keys.text key).map some

/-- The fields from the keys of a document, which has no others. -/
def RawJournal.ofSections (document : Toml.Keys × List Toml.Section) : Option RawJournal :=
  match document with
  | (keys, []) =>
    if keys.are ["app", "version", "previous", "staging", "phase", "started"] then do
      let app ← keys.text "app"
      let version ← keys.text "version"
      let previous ← optionalText keys "previous"
      let staging ← optionalText keys "staging"
      let phase ← keys.text "phase"
      let started ← keys.number "started"
      return { app, version, previous, staging, phase, started }
    else none
  | _ => none

/-- The phase of a word. -/
def Phase.ofStr (word : String) : Option Phase :=
  if word = "stage" then some .stage
  else if word = "activate" then some .activate
  else none

section

variable (version : String → Option Version) (fromStr : String → Except String RawJournal)

/-- The version that may be missing. -/
def optionalVersion : Option String → Option (Option Version)
  | none => some none
  | some text => (version text).map some

/-- An intent from what the TOML crate read. -/
def Journal.ofRaw (raw : RawJournal) : Option Journal := do
  let app ← AppId.parse raw.app
  let version' ← version raw.version
  let previous ← optionalVersion version raw.previous
  let phase ← Phase.ofStr raw.phase
  return {
    app
    version := version'
    previous
    staging := raw.staging.map encodeUtf8
    phase
    started := raw.started }

/-- Reads a file of the journal, if it is there. -/
def read (path : String) (file : Option Bytes) : Except JournalError Journal :=
  match file.bind decodeUtf8 with
  | none => .error (.io path)
  | some text =>
    match fromStr text with
    | .error _ => .error (.corrupt path)
    | .ok raw => (Journal.ofRaw version raw).elim (.error (.corrupt path)) .ok

end

/-! ## Rows -/

/-- A row whose value is a text, each character as itself. -/
def textRow (key : String) (value : List Char) : Toml.Row Toml.Spelled :=
  .pair key.toList (.text (Toml.plain value))

namespace Journal

/-- The rows before that of the staging directory. -/
def upperRows (journal : Journal) : List (Toml.Row Toml.Spelled) :=
  (comments.map fun text => .comment text.toList) ++
  [textRow "app" journal.app.text.toList, textRow "version" journal.version.toString.toList] ++
  journal.previous.toList.map fun previous => textRow "previous" previous.toString.toList

/-- Those after it. -/
def lowerRows (journal : Journal) : List (Toml.Row Toml.Spelled) :=
  [textRow "phase" journal.phase.asStr.toList, .pair "started".toList (.number journal.started)]

/-- The rows of the document. -/
def rows (journal : Journal) : List (Toml.Row Toml.Spelled) :=
  journal.upperRows ++
    (journal.staging.toList.map fun staging => textRow "staging" (lossy staging)) ++
    journal.lowerRows

end Journal

theorem renderRows_textRow (key : String) (value : List Char) :
    Toml.renderRows [textRow key value] = quoted key value := by
  simp [Toml.renderRows, textRow, Toml.Row.render, Toml.Spelled.render, Toml.plain_render, quoted]

theorem renderRows_append (rows others : List (Toml.Row Toml.Spelled)) :
    Toml.renderRows (rows ++ others) = Toml.renderRows rows ++ Toml.renderRows others :=
  List.flatMap_append

theorem renderRows_option {α : Type} (value : Option α) (row : α → Toml.Row Toml.Spelled) :
    Toml.renderRows (value.toList.map row) = value.elim [] fun a => Toml.renderRows [row a] := by
  cases value <;> rfl

variable {journal : Journal}

theorem renderRows_comments :
    Toml.renderRows (comments.map fun text => .comment text.toList) = header := by
  rw [Toml.renderRows, List.flatMap_map]
  rfl

theorem renderRows_upper : Toml.renderRows journal.upperRows = header ++
    quoted "app" journal.app.text.toList ++ quoted "version" journal.version.toString.toList ++
    (journal.previous.elim [] fun previous => quoted "previous" previous.toString.toList) := by
  rw [Journal.upperRows, renderRows_append, renderRows_append, renderRows_comments,
    renderRows_option, ← List.singleton_append, renderRows_append]
  simp only [renderRows_textRow, List.append_assoc]

theorem renderRows_lower : Toml.renderRows journal.lowerRows =
    quoted "phase" journal.phase.asStr.toList ++
      ("started = ".toList ++ Nat.toDigits 10 journal.started ++ ['\n']) := by
  rw [Journal.lowerRows, ← List.singleton_append, renderRows_append, renderRows_textRow]
  simp [Toml.renderRows, Toml.Row.render, Toml.Spelled.render]

/-- The document is that of its rows. -/
theorem document_eq : journal.document = Toml.renderRows journal.rows := by
  rw [Journal.rows, renderRows_append, renderRows_append, renderRows_upper, renderRows_lower,
    renderRows_option]
  simp only [renderRows_textRow, Journal.document, List.append_assoc]

/-! ## Reading what was written -/

/-- An intent of parts that have been parsed. -/
structure Journal.Made (parse : String → Option Version) (journal : Journal) : Prop where
  app : journal.app.Made
  version : journal.version.WellFormed ∧ parse journal.version.toString = some journal.version
  previous : ∀ previous ∈ journal.previous,
    previous.WellFormed ∧ parse previous.toString = some previous
  started : journal.started ≤ Toml.MAX

theorem carried_of_plain {text : List Char} (h : text.all isPlain = true) : Toml.Carried text :=
  fun c hc => isPlain_spec (List.all_eq_true.1 h c hc)

/-! ### Ids -/

/-- A character of a text is the separator, or in one of the pieces. -/
theorem mem_splitOn (sep : Char) {c : Char} {text : List Char} (h : c ∈ text) :
    c = sep ∨ ∃ segment ∈ text.splitOn sep, c ∈ segment := by
  induction text with
  | nil => cases h
  | cons d text ih =>
    rw [List.splitOn_cons_eq_if_modifyHead]
    by_cases hd : d = sep
    · rw [if_pos (beq_iff_eq.2 hd)]
      rcases List.mem_cons.1 h with rfl | h
      · exact .inl hd
      · exact (ih h).imp id fun ⟨segment, hsegment, hc⟩ => ⟨segment, .tail _ hsegment, hc⟩
    · obtain ⟨first, rest, hsplit⟩ := List.exists_cons_of_ne_nil (List.splitOn_ne_nil sep text)
      rw [hsplit] at ih
      rw [if_neg (by simpa using hd), hsplit, List.modifyHead_cons]
      rcases List.mem_cons.1 h with rfl | h
      · exact .inr ⟨_, List.mem_cons_self, List.mem_cons_self⟩
      · rcases ih h with rfl | ⟨segment, hsegment, hc⟩
        · exact .inl rfl
        · rcases List.mem_cons.1 hsegment with rfl | hsegment
          · exact .inr ⟨_, List.mem_cons_self, .tail _ hc⟩
          · exact .inr ⟨segment, .tail _ hsegment, hc⟩

/-- A segment is made of characters that need no escapes. -/
theorem plain_segment {segment : List Char} (h : AppId.segmentOk segment = true) {c : Char}
    (hc : c ∈ segment) : isPlain c = true := by
  cases segment with
  | nil => cases h
  | cons first rest =>
    simp only [AppId.segmentOk, Bool.and_eq_true, List.all_eq_true, Bool.or_eq_true] at h
    have := h.1.2 c hc
    simp only [isPlain, isAsciiAlphanumeric, Bool.or_eq_true]
    tauto

/-- The characters of an id need no escapes. -/
theorem plain_app {app : AppId} (h : app.Made) : app.text.toList.all isPlain = true := by
  refine List.all_eq_true.2 fun c hc => ?_
  have hparse := h.parse
  unfold AppId.parse at hparse
  dsimp only at hparse
  split at hparse
  · next hok =>
    rcases mem_splitOn '.' hc with rfl | ⟨segment, hsegment, hmem⟩
    · decide
    · exact plain_segment (List.all_eq_true.1 hok.2.2 segment hsegment) hmem
  · cases hparse

/-! ### Rows -/

theorem fits_textRow {key : String} (hname : Toml.IsName key.toList) {value : List Char}
    (h : Toml.Carried value) : (textRow key value).Fits :=
  ⟨hname, Toml.plain_fits h⟩

variable {parse : String → Option Version}

theorem Journal.Made.upper (h : journal.Made parse) :
    ∀ row ∈ journal.upperRows, row.Fits ∧ row.inner = true := by
  intro row hrow
  simp only [Journal.upperRows, List.mem_append, List.mem_cons, List.not_mem_nil, or_false] at hrow
  rcases hrow with (hrow | rfl | rfl) | hrow
  · obtain ⟨text, htext, rfl⟩ := List.mem_map.1 hrow
    have hall : ∀ text ∈ comments, text.toList.all Toml.allowed = true := by decide
    exact ⟨hall text htext, rfl⟩
  · exact ⟨fits_textRow ⟨by decide, by decide⟩ (carried_of_plain (plain_app h.app)), rfl⟩
  · exact ⟨fits_textRow ⟨by decide, by decide⟩ (carried_of_plain (plain_version h.version.1)), rfl⟩
  · obtain ⟨previous, hprevious, rfl⟩ := List.mem_map.1 hrow
    have hmade := h.previous previous (Option.mem_toList.1 hprevious)
    exact ⟨fits_textRow ⟨by decide, by decide⟩ (carried_of_plain (plain_version hmade.1)), rfl⟩

theorem Journal.Made.lower (h : journal.Made parse) : ∀ row ∈ journal.lowerRows, row.Fits := by
  intro row hrow
  simp only [Journal.lowerRows, List.mem_cons, List.not_mem_nil, or_false] at hrow
  rcases hrow with rfl | rfl
  · refine fits_textRow ⟨by decide, by decide⟩ ?_
    cases journal.phase <;> decide
  · exact ⟨⟨by decide, by decide⟩, h.started⟩

/-- Where the path of the staging directory may stand between quotes, every row can be carried. -/
theorem Journal.Made.fits (h : journal.Made parse)
    (hstaging : ∀ dir ∈ journal.staging, Toml.Carried (lossy dir)) :
    ∀ row ∈ journal.rows, row.Fits := by
  intro row hrow
  simp only [Journal.rows, List.mem_append] at hrow
  rcases hrow with (hrow | hrow) | hrow
  · exact (h.upper row hrow).1
  · obtain ⟨dir, hdir, rfl⟩ := List.mem_map.1 hrow
    exact fits_textRow ⟨by decide, by decide⟩ (hstaging dir (Option.mem_toList.1 hdir))
  · exact h.lower row hrow

/-- What the document says. -/
def Journal.raw (journal : Journal) : RawJournal where
  app := journal.app.text
  version := journal.version.toString
  previous := journal.previous.map Version.toString
  staging := journal.staging.map fun dir => String.ofList (lossy dir)
  phase := journal.phase.asStr
  started := journal.started

/-- The keys of the document. -/
def Journal.keys (journal : Journal) : Toml.Keys :=
  [("app".toList, .text journal.app.text.toList),
    ("version".toList, .text journal.version.toString.toList)] ++
  (journal.previous.toList.map fun previous =>
    ("previous".toList, Toml.Datum.text previous.toString.toList)) ++
  (journal.staging.toList.map fun dir => ("staging".toList, Toml.Datum.text (lossy dir))) ++
  [("phase".toList, .text journal.phase.asStr.toList), ("started".toList, .number journal.started)]

theorem meaning_rows : Toml.meaning journal.rows = (journal.keys, []) := by
  obtain ⟨app, version, previous, staging, phase, started⟩ := journal
  cases previous <;> cases staging <;>
    simp [Toml.meaning, Journal.rows, Journal.upperRows, Journal.lowerRows, Journal.keys, comments,
      textRow, Toml.Row.map, Toml.Spelled.datum, Toml.plain_char, Toml.sections]

theorem ofSections_rows : RawJournal.ofSections (Toml.meaning journal.rows) = some journal.raw := by
  obtain ⟨app, version, previous, staging, phase, started⟩ := journal
  rw [meaning_rows]
  cases previous <;> cases staging <;>
    simp [RawJournal.ofSections, Journal.keys, Toml.Keys.are, optionalText, Toml.Keys.text,
      Toml.Keys.number, List.lookup_cons, List.lookup_nil, Journal.raw]

/-! ## Round trip -/

theorem lossy_encodeUtf8 (text : String) : lossy (encodeUtf8 text) = text.toList := by
  have hbytes : encodeUtf8 text = text.toList.flatMap String.utf8EncodeChar := by
    rw [encodeUtf8, String.toUTF8, ← String.utf8Encode_toList, List.utf8Encode,
      List.toList_data_toByteArray]
  rw [hbytes, lossy_encode]

theorem ofRaw_raw (h : journal.Made parse) : Journal.ofRaw parse journal.raw =
    some { journal with
      staging := journal.staging.map fun dir => encodeUtf8 (String.ofList (lossy dir)) } := by
  have hprevious : optionalVersion parse (journal.previous.map Version.toString) =
      some journal.previous := by
    cases hprevious : journal.previous with
    | none => rfl
    | some previous =>
      have := (h.previous previous hprevious).2
      simp [optionalVersion, this]
  have hphase : Phase.ofStr journal.phase.asStr = some journal.phase := by
    cases journal.phase <;> decide
  simp [Journal.ofRaw, Journal.raw, h.app.parse, h.version.2, hprevious, hphase,
    Function.comp_def]

/-- What follows the path of the staging directory. -/
theorem document_staging {dir : Bytes} (h : journal.staging = some dir) :
    journal.document = Toml.renderRows journal.upperRows ++
      (Toml.opening "staging".toList ++
        (lossy dir ++ '"' :: '\n' :: Toml.renderRows journal.lowerRows)) := by
  rw [document_eq, Journal.rows, h, renderRows_append, renderRows_append]
  show _ ++ Toml.renderRows [textRow "staging" (lossy dir)] ++ _ = _
  rw [renderRows_textRow]
  simp [quoted, Toml.opening]

/-- Three quotes in a text are before what has none. -/
theorem triple_append {text rest : List Char} (hrest : '"' ∉ rest)
    (h : Toml.triple <:+: text ++ rest) : Toml.triple <:+: text := by
  obtain ⟨before, after, heq⟩ := h
  rw [List.append_assoc] at heq
  rcases List.append_eq_append_iff.1 heq with ⟨upper, rfl, hupper⟩ | ⟨lower, rfl, hlower⟩
  · rcases List.append_eq_append_iff.1 hupper with ⟨last, rfl, -⟩ | ⟨last, htriple, hlast⟩
    · exact ⟨before, last, by simp⟩
    · cases last with
      | nil =>
        rw [List.append_nil] at htriple
        exact ⟨before, [], by simp [htriple]⟩
      | cons c last =>
        have hc : c ∈ Toml.triple := by simp [htriple]
        obtain rfl : c = '"' := by simpa [Toml.triple] using hc
        exact absurd (by simp [hlast]) hrest
  · exact absurd (by simp [hlower, Toml.triple]) hrest

/-- There are no three quotes after the path. -/
theorem no_triple_lower : ¬ Toml.triple <:+: Toml.renderRows journal.lowerRows := by
  intro h
  have htail : '"' ∉ "started = ".toList ++ Nat.toDigits 10 journal.started ++ ['\n'] := by
    simp only [List.mem_append, not_or]
    refine ⟨⟨by decide, fun hmem => ?_⟩, by decide⟩
    have := mem_toDigits hmem
    simp [Char.isDigit] at this
  rw [renderRows_lower] at h
  have hphase := triple_append htail h
  revert hphase
  cases journal.phase <;> decide

theorem ofRaw_staging {raw : RawJournal} (h : Journal.ofRaw parse raw = some journal) :
    journal.staging = raw.staging.map encodeUtf8 := by
  simp only [Journal.ofRaw, Option.bind_eq_bind, Option.bind_eq_some_iff, Option.pure_def,
    Option.some.injEq] at h
  obtain ⟨_, -, _, -, _, -, _, -, rfl⟩ := h
  rfl

/-- A string with three quotes in front does not end in the document so late that it could be the
path. -/
theorem no_multi {text src more : List Char} (hlen : text.length ≤ src.length)
    (h : '"' :: '"' :: (src ++ (Toml.triple ++ more)) =
      text ++ '"' :: '\n' :: Toml.renderRows journal.lowerRows) : False := by
  have hdrop := congrArg (List.drop (text.length + 2)) h
  have hright : (text ++ '"' :: '\n' :: Toml.renderRows journal.lowerRows).drop (text.length + 2) =
      Toml.renderRows journal.lowerRows := by
    rw [← List.drop_drop, List.drop_left]
    rfl
  rw [hright, List.drop_succ_cons, List.drop_succ_cons, List.drop_append_of_le_length hlen] at hdrop
  exact no_triple_lower ⟨src.drop text.length, more, by rw [← hdrop, List.append_assoc]⟩

section

variable {fromStr : String → Except String RawJournal}

theorem read_write {path : String} : read parse fromStr path (some journal.write) =
    match fromStr (String.ofList journal.document) with
    | .error _ => .error (.corrupt path)
    | .ok raw => (Journal.ofRaw parse raw).elim (.error (.corrupt path)) .ok := by
  rw [read, Option.bind_some, Journal.write, decodeUtf8_encodeUtf8]

/-- An intent is read back just if the path of its staging directory is text that may stand between
quotes as it is. -/
theorem read_write_iff (hreads : Toml.Reads fromStr RawJournal.ofSections)
    (hquotes : Toml.Quotes fromStr "staging".toList RawJournal.staging) (h : journal.Made parse)
    (path : String) : read parse fromStr path (some journal.write) = .ok journal ↔
      ∀ dir ∈ journal.staging, ∃ text, dir = encodeUtf8 text ∧ Toml.Carried text.toList := by
  rw [read_write]
  constructor
  · intro hread dir hdir
    rw [document_staging hdir] at hread
    split at hread
    · cases hread
    · next raw hraw =>
      obtain ⟨value, hstaging, hvalue⟩ : ∃ value, raw.staging = some value ∧
          dir = encodeUtf8 value := by
        cases hfound : Journal.ofRaw parse raw with
        | none => simp [hfound] at hread
        | some found =>
          rw [hfound] at hread
          obtain rfl := Except.ok.inj hread
          have hstaging := ofRaw_staging hfound
          rw [hdir] at hstaging
          obtain ⟨value, hvalue, hencode⟩ := Option.map_eq_some_iff.1 hstaging.symm
          exact ⟨value, hvalue, hencode.symm⟩
      have htext : lossy dir = value.toList := hvalue ▸ lossy_encodeUtf8 value
      refine ⟨value, hvalue, ?_⟩
      rw [htext] at hraw
      have hsame {value' : List Char} (hfield : raw.staging = some (String.ofList value')) :
          value' = value.toList := by
        rw [hstaging] at hfield
        rw [Option.some.inj hfield, String.toList_ofList]
      by_cases hmulti : ['"', '"'] <+:
          value.toList ++ '"' :: '\n' :: Toml.renderRows journal.lowerRows
      · obtain ⟨rest, hrest⟩ := hmulti
        rw [← hrest] at hraw
        obtain ⟨src, value', more, rfl, hlen, hfield⟩ := hquotes.multi _ _ _ h.upper hraw
        obtain rfl := hsame hfield
        exact absurd hrest (no_multi hlen)
      · obtain ⟨src, value', more, hsrc, hspells, hfield⟩ :=
          hquotes.basic _ _ _ h.upper hmulti hraw
        obtain rfl := hsame hfield
        exact hspells.carried hsrc.symm
  · intro hstaging
    have hcarried : ∀ dir ∈ journal.staging, Toml.Carried (lossy dir) := by
      intro dir hdir
      obtain ⟨text, rfl, htext⟩ := hstaging dir hdir
      rwa [lossy_encodeUtf8]
    rw [document_eq, hreads.reads _ _ (h.fits hcarried) ofSections_rows]
    show (Journal.ofRaw parse journal.raw).elim _ _ = _
    rw [ofRaw_raw h]
    have hsame : (journal.staging.map fun dir => encodeUtf8 (String.ofList (lossy dir))) =
        journal.staging := by
      cases hdir : journal.staging with
      | none => rfl
      | some dir =>
        obtain ⟨text, rfl, -⟩ := hstaging dir hdir
        simp [lossy_encodeUtf8]
    rw [hsame]
    rfl

end

/-! ## Names -/

/-- After a dot of an id there is a letter. -/
theorem after_dot {app : AppId} (h : app.Made) {before : List Char} {c : Char} {rest : List Char}
    (heq : app.text.toList = before ++ '.' :: c :: rest) : isAsciiLowercase c = true := by
  have hparse := h.parse
  unfold AppId.parse at hparse
  dsimp only at hparse
  split at hparse
  · next hok =>
    have hall := List.all_eq_true.1 hok.2.2
    rw [heq, List.splitOn_append_cons_self, List.splitOn_cons_eq_if_modifyHead] at hall
    obtain ⟨first, others, hsplit⟩ := List.exists_cons_of_ne_nil (List.splitOn_ne_nil '.' rest)
    rw [hsplit] at hall
    split at hall
    · have := hall [] (by simp)
      cases this
    · have hsegment : AppId.segmentOk (c :: first) = true := hall (c :: first) (by simp)
      simp only [AppId.segmentOk, Bool.and_eq_true] at hsegment
      exact hsegment.1.1
  · cases hparse

/-- The text of a version starts with a number, a dot and a digit. -/
theorem version_text (version : Version) : ∃ number digit rest,
    version.toString.toList = (number ++ ['.', digit]) ++ rest ∧ '-' ∉ number ++ ['.', digit] ∧
      isAsciiLowercase digit = false := by
  obtain ⟨digit, digits, hminor⟩ :
      ∃ digit digits, Nat.toDigits 10 version.minor = digit :: digits :=
    List.exists_cons_of_ne_nil Nat.toDigits_ne_nil
  have hdigit : digit.isDigit = true := mem_toDigits (n := version.minor) (by simp [hminor])
  have hmajor : '-' ∉ Nat.toDigits 10 version.major := fun hmem => by
    have := mem_toDigits hmem
    simp [Char.isDigit] at this
  have hrange : 48 ≤ digit.toNat ∧ digit.toNat ≤ 57 := Char.isDigit_iff_toNat.1 hdigit
  have hlower : isAsciiLowercase digit = false := by
    simp only [isAsciiLowercase, Bool.and_eq_false_iff, decide_eq_false_iff_not]
    left
    intro hle
    have : 97 ≤ digit.toNat := hle
    omega
  have hdash : '-' ≠ digit := by
    rintro rfl
    cases hdigit
  obtain ⟨rest, hrest⟩ : ∃ rest, version.toString.toList =
      Nat.toDigits 10 version.major ++ '.' :: (Nat.toDigits 10 version.minor ++ rest) := by
    refine ⟨'.' :: Nat.toDigits 10 version.patch ++
      (if version.pre = [] then "" else "-" ++ ".".intercalate version.pre).toList ++
      (if version.build = [] then "" else "+" ++ ".".intercalate version.build).toList, ?_⟩
    simp [Version.toString, ToString.toString, Nat.repr_eq_ofList_toDigits]
  refine ⟨Nat.toDigits 10 version.major, digit, digits ++ rest, ?_, ?_, hlower⟩
  · rw [hrest, hminor]
    simp
  · simp [hmajor, hdash]

/-- An id and a version are told apart. -/
theorem app_version_injective {app app' : AppId} (hmade : app.Made) (hmade' : app'.Made)
    {version version' : Version}
    (h : app.text.toList ++ '-' :: version.toString.toList =
      app'.text.toList ++ '-' :: version'.toString.toList) :
    app = app' ∧ version.toString = version'.toString := by
  -- what the longer id has more begins with the version, and has a digit after a dot
  have hlonger {short long : AppId} (hlong : long.Made) {v w : Version} {more : List Char}
      (htext : long.text.toList = short.text.toList ++ more)
      (hmore : '-' :: v.toString.toList = more ++ '-' :: w.toString.toList) : more = [] := by
    cases more with
    | nil => rfl
    | cons c more =>
      obtain ⟨rfl, hrest⟩ := List.cons.inj hmore
      obtain ⟨number, digit, rest, hversion, hdash, hlower⟩ := version_text v
      have hrest' : (number ++ ['.', digit]) ++ rest = more ++ '-' :: w.toString.toList :=
        hversion ▸ hrest
      obtain ⟨tail, rfl⟩ : ∃ tail, more = (number ++ ['.', digit]) ++ tail := by
        rcases List.append_eq_append_iff.1 hrest' with ⟨tail, hmore, -⟩ | ⟨tail, hstart, htail⟩
        · exact ⟨tail, hmore⟩
        · cases tail with
          | nil => exact ⟨[], by simpa using hstart.symm⟩
          | cons d tail =>
            obtain ⟨rfl, -⟩ := List.cons.inj htail
            exact absurd (by rw [hstart]; simp) hdash
      have hdot : long.text.toList =
          (short.text.toList ++ '-' :: number) ++ '.' :: digit :: tail := by
        rw [htext]
        simp
      have hletter := after_dot hlong hdot
      rw [hlower] at hletter
      cases hletter
  have hsame (happ : app.text.toList = app'.text.toList) : app = app' := by
    cases app
    cases app'
    exact congrArg AppId.mk (String.toList_inj.1 happ)
  rcases List.append_eq_append_iff.1 h with ⟨more, htext, hmore⟩ | ⟨more, htext, hmore⟩
  · obtain rfl := hlonger hmade' htext hmore
    exact ⟨hsame (by simpa using htext.symm), String.toList_inj.1 (List.cons.inj hmore).2⟩
  · obtain rfl := hlonger hmade htext hmore
    exact ⟨hsame (by simpa using htext), String.toList_inj.1 (List.cons.inj hmore).2.symm⟩

/-- The words of the phases end differently. -/
theorem phase_injective {text text' : List Char} {phase phase' : Phase}
    (h : text ++ phase.asStr.toList = text' ++ phase'.asStr.toList) :
    phase = phase' ∧ text = text' := by
  have hstage : Phase.stage.asStr.toList = ['s', 't', 'a'] ++ ['g', 'e'] := by decide
  have hactivate : Phase.activate.asStr.toList = ['a', 'c', 't', 'i', 'v', 'a'] ++ ['t', 'e'] := by
    decide
  cases phase <;> cases phase'
  · exact ⟨rfl, List.append_cancel_right h⟩
  · rw [hstage, hactivate, ← List.append_assoc, ← List.append_assoc] at h
    exact absurd (List.append_inj_right' h rfl) (by decide)
  · rw [hstage, hactivate, ← List.append_assoc, ← List.append_assoc] at h
    exact absurd (List.append_inj_right' h rfl) (by decide)
  · exact ⟨rfl, List.append_cancel_right h⟩

/-- Different intents have different files. -/
theorem fileName_injective {other : Journal} (h : journal.Made parse) (h' : other.Made parse)
    (heq : journal.fileName = other.fileName) :
    journal.app = other.app ∧ journal.version = other.version ∧ journal.phase = other.phase := by
  have hlist := congrArg String.toList heq
  simp only [Journal.fileName, String.toList_append] at hlist
  obtain ⟨hphase, htext⟩ := phase_injective (List.append_cancel_right hlist)
  have hdash : ("-" : String).toList = ['-'] := rfl
  rw [hdash] at htext
  have happ := List.append_cancel_right htext
  rw [List.append_assoc, List.append_assoc] at happ
  obtain ⟨happ, hversion⟩ := app_version_injective h.app h'.app happ
  refine ⟨happ, ?_, hphase⟩
  have := h.version.2
  rw [hversion, h'.version.2] at this
  exact (Option.some.inj this).symm

/-! ## The journal -/

/-- Of the intents that the installer can write, one is read back from its file just if the path of
its staging directory is text that may stand between quotes as it is; no two of them have one
file. -/
theorem journal_kept_iff (parse : String → Option Version)
    (fromStr : String → Except String RawJournal)
    (hreads : Toml.Reads fromStr RawJournal.ofSections)
    (hquotes : Toml.Quotes fromStr "staging".toList RawJournal.staging) :
    (∀ (journal : Journal) (path : String), journal.Made parse →
      (read parse fromStr path (some journal.write) = .ok journal ↔
        ∀ dir ∈ journal.staging, ∃ text, dir = encodeUtf8 text ∧ Toml.Carried text.toList)) ∧
    ∀ journal other : Journal, journal.Made parse → other.Made parse →
      journal.fileName = other.fileName →
      journal.app = other.app ∧ journal.version = other.version ∧ journal.phase = other.phase :=
  ⟨fun _ path h => read_write_iff hreads hquotes h path, fun _ _ => fileName_injective⟩

/-! ## Samples -/

/-- A reader of the rows of a journal. -/
def tomlFromStr : String → Except String RawJournal :=
  Toml.fromStr "invalid TOML" RawJournal.ofSections

theorem tomlFromStr_quotes : Toml.Quotes tomlFromStr "staging".toList RawJournal.staging := by
  refine Toml.quotes_own "invalid TOML" (fun document raw h => ?_) ⟨by decide, by decide⟩
  obtain ⟨keys, _ | _⟩ := document
  · simp only [RawJournal.ofSections] at h
    split at h
    · next hare =>
      simp only [Option.bind_eq_bind, Option.bind_eq_some_iff, Option.pure_def,
        Option.some.injEq] at h
      obtain ⟨_, -, _, -, _, -, staging, hstaging, _, -, _, -, rfl⟩ := h
      simp only [Toml.Keys.are, Bool.and_eq_true, decide_eq_true_eq] at hare
      refine ⟨hare.1, ?_⟩
      rw [optionalText] at hstaging
      split at hstaging
      · next hnone =>
        cases hstaging
        rw [Toml.Keys.text, hnone]
      · obtain ⟨text, htext, rfl⟩ := Option.map_eq_some_iff.1 hstaging
        exact htext.symm
    · cases h
  · cases h

/-- The crate of versions, as far as the samples go. -/
def semver (text : String) : Option Version := if text = "1.0.0" then some (.new 1 0 0) else none

def chess : AppId := ⟨"dev.paperclip.chess"⟩

/-- An intent to install, in a store below a root. -/
def staged (root : String) : Journal where
  app := chess
  version := .new 1 0 0
  previous := none
  staging := some (encodeUtf8 (root ++ "/staging/dev.paperclip.chess-1.0.0-7-9"))
  phase := .stage
  started := 9

theorem chess_made : chess.Made := ⟨chess.text, by decide +kernel⟩

theorem first_wellFormed : (Version.new 1 0 0).WellFormed :=
  ⟨by decide, by decide, by decide⟩

theorem first_parsed : semver (Version.new 1 0 0).toString = some (.new 1 0 0) := by decide

theorem staged_made (root : String) : (staged root).Made semver where
  app := chess_made
  version := ⟨first_wellFormed, first_parsed⟩
  previous := by simp [staged]
  started := show 9 ≤ Toml.MAX by decide

/-- In a store whose root is plain an intent to install is read back. -/
theorem journal_kept_plain : read semver tomlFromStr "j" (some (staged "/data").write) =
    .ok (staged "/data") :=
  ((journal_kept_iff semver tomlFromStr (Toml.reads_own _ _) tomlFromStr_quotes).1 _ "j"
    (staged_made "/data")).2 (by
      intro dir hdir
      exact ⟨_, (Option.some.inj hdir).symm, by decide +kernel⟩)

/-- In a store whose root has a quote in it, no intent to install is read back. -/
theorem journal_lost : (staged "/da\"ta").Made semver ∧
    read semver tomlFromStr "j" (some (staged "/da\"ta").write) ≠ .ok (staged "/da\"ta") := by
  refine ⟨staged_made _, fun hread => ?_⟩
  obtain ⟨text, hdir, htext⟩ := (read_write_iff (Toml.reads_own _ _) tomlFromStr_quotes
    (staged_made _) "j").1 hread _ rfl
  have hlossy := congrArg lossy hdir
  rw [lossy_encodeUtf8, lossy_encodeUtf8] at hlossy
  rw [← hlossy] at htext
  revert htext
  decide

end Paperclip.Store.JournalFile
