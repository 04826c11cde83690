import Paperclip.Packages.Fields
import Paperclip.Text.Lines

/-!
# The record of a presenter

What the process that presented a frame leaves in a file for the one that waits for it.

* `PanelRecord`, `write`, `read`: the record, a line for each key and one for each line of the
  report.
* `readText_rows`: what is read of whole lines, each with what its key says.
* `Within`: a record that says no more than another one: the lines are the first of its lines, the
  last of them perhaps cut off, and it holds the frame only if the other one does.
* `kept_iff`: when a record is read back, and any first part of it as one that says no more.
-/

namespace Paperclip.Device

open Files Packages Text

/-- What a presenter learned. -/
structure PanelRecord where
  real_panel : Bool
  digest : List Char
  holds_sent : Option Bool
  lines : List (List Char)
  deriving DecidableEq

/-- Why a record is not read. -/
inductive PanelRecordError where
  | io (action path : String)
  | unexpected (message : String)
  deriving DecidableEq

/-- The text before the first `mark`, and that after it. -/
def splitOnce (mark : Char) : List Char → Option (List Char × List Char)
  | [] => none
  | c :: rest =>
    if c = mark then some ([], rest)
    else (splitOnce mark rest).map fun (first, last) => (c :: first, last)

namespace PanelRecord

/-! ## Writing and reading -/

/-- The word of a truth value. -/
def boolWord (b : Bool) : List Char := (if b then "true" else "false").toList

/-- The word of a verdict. -/
def verdictWord : Option Bool → List Char
  | some b => boolWord b
  | none => "unknown".toList

/-- The line of a line of the report, where a line feed becomes a blank. -/
def reportRow (line : List Char) : List Char :=
  "line=".toList ++ line.map fun c => if c = '\n' then ' ' else c

/-- The lines of the file. -/
def rows (record : PanelRecord) : List (List Char) :=
  ["real_panel=".toList ++ boolWord record.real_panel, "digest=".toList ++ record.digest,
    "holds_sent=".toList ++ verdictWord record.holds_sent] ++ record.lines.map reportRow

/-- What is written of a record. -/
def write (record : PanelRecord) : Bytes := encodeUtf8 (String.ofList (unlines record.rows))

/-- What is known before anything is read. -/
def unread : PanelRecord where
  real_panel := false
  digest := []
  holds_sent := none
  lines := []

/-- What a line adds. -/
def absorb (record : PanelRecord) (line : List Char) : PanelRecord :=
  match splitOnce '=' line with
  | some (key, value) =>
    if key = "real_panel".toList then { record with real_panel := value = "true".toList }
    else if key = "digest".toList then { record with digest := value }
    else if key = "holds_sent".toList then
      { record with holds_sent :=
          if value = "true".toList then some true
          else if value = "false".toList then some false
          else none }
    else if key = "line".toList then { record with lines := record.lines ++ [value] }
    else record
  | none => record

/-- What the lines of a text say. -/
def readText (text : List Char) : PanelRecord := (Text.lines text).foldl absorb unread

/-- Reads what is in a file, if there is one. -/
def read (path : String) (file : Option Bytes) : Except PanelRecordError PanelRecord :=
  match file.bind decodeUtf8 with
  | none => .error (.io "read the panel record at" path)
  | some text =>
    let record := readText text.toList
    if record.digest = [] then
      .error (.unexpected ("the panel record at " ++ path ++
        " names no digest; the presenter did not finish"))
    else .ok record

/-! ## A line at a time -/

section

variable {record : PanelRecord} {value : List Char}

@[simp] theorem absorb_realPanel : absorb record ("real_panel=".toList ++ value) =
    { record with real_panel := value = "true".toList } := rfl

@[simp] theorem absorb_digest :
    absorb record ("digest=".toList ++ value) = { record with digest := value } := rfl

@[simp] theorem absorb_holdsSent : absorb record ("holds_sent=".toList ++ value) =
    { record with holds_sent :=
        if value = "true".toList then some true
        else if value = "false".toList then some false
        else none } := rfl

@[simp] theorem absorb_line : absorb record ("line=".toList ++ value) =
    { record with lines := record.lines ++ [value] } := rfl

end

/-! ## What was written -/

section

variable {record : PanelRecord}

theorem reportRow_eq {line : List Char} (h : '\n' ∉ line) :
    reportRow line = "line=".toList ++ line := by
  have hmap : (line.map fun c => if c = '\n' then ' ' else c) = line.map id :=
    List.map_congr_left fun c hc => if_neg (by rintro rfl; exact h hc)
  rw [reportRow, hmap, List.map_id]

theorem map_reportRow {report : List (List Char)} (h : ∀ line ∈ report, '\n' ∉ line) :
    report.map reportRow = report.map ("line=".toList ++ ·) :=
  List.map_congr_left fun line hline => reportRow_eq (h line hline)

/-- The lines of the report are taken in one after the other. -/
theorem foldl_report (record : PanelRecord) (report : List (List Char)) :
    (report.map ("line=".toList ++ ·)).foldl absorb record =
      { record with lines := record.lines ++ report } := by
  induction report generalizing record with
  | nil => simp
  | cons line report ih =>
    rw [List.map_cons, List.foldl_cons, absorb_line, ih]
    simp

theorem boolWord_true_iff (b : Bool) : boolWord b = "true".toList ↔ b = true := by
  cases b <;> decide

theorem verdict_of_word (verdict : Option Bool) :
    (if verdictWord verdict = "true".toList then some true
      else if verdictWord verdict = "false".toList then some false
      else none) = verdict := by
  rcases verdict with _ | _ | _ <;> rfl

theorem stripReturn_boolWord (b : Bool) : stripReturn (boolWord b) = boolWord b := by
  cases b <;> decide

theorem stripReturn_verdictWord (verdict : Option Bool) :
    stripReturn (verdictWord verdict) = verdictWord verdict := by
  rcases verdict with _ | _ | _ <;> decide

/-- A record whose lines have no line feed in them. -/
structure OneLine (record : PanelRecord) : Prop where
  digest : '\n' ∉ record.digest
  lines : ∀ line ∈ record.lines, '\n' ∉ line

/-- No line of the file has a line feed in it. -/
theorem OneLine.rows (h : record.OneLine) : ∀ row ∈ record.rows, '\n' ∉ row := by
  intro row hrow
  rw [PanelRecord.rows, map_reportRow h.lines, List.mem_append] at hrow
  rcases hrow with hrow | hrow
  · simp only [List.mem_cons, List.not_mem_nil, or_false] at hrow
    rcases hrow with rfl | rfl | rfl
    · cases record.real_panel <;> decide
    · simpa using h.digest
    · rcases record.holds_sent with _ | _ | _ <;> decide
  · obtain ⟨line, hline, rfl⟩ := List.mem_map.1 hrow
    simpa using h.lines line hline

/-- The lines of the file, as they are read. -/
theorem OneLine.stripped (h : record.OneLine) : record.rows.map stripReturn =
    { record with digest := stripReturn record.digest,
                  lines := record.lines.map stripReturn }.rows := by
  have hlines : ∀ line ∈ record.lines.map stripReturn, '\n' ∉ line := by
    intro line hline
    obtain ⟨whole, hwhole, rfl⟩ := List.mem_map.1 hline
    exact fun hmem => h.lines whole hwhole ((stripReturn_isPrefix whole).subset hmem)
  simp only [PanelRecord.rows]
  rw [map_reportRow h.lines, map_reportRow hlines, List.map_append, List.map_cons, List.map_cons,
    List.map_cons, stripReturn_append (by decide), stripReturn_append (by decide),
    stripReturn_append (by decide), stripReturn_boolWord, stripReturn_verdictWord]
  congr 1
  rw [List.map_map, List.map_map]
  exact List.map_congr_left fun line _ => stripReturn_append (by decide) line

/-- What the lines of the file say. -/
theorem foldl_rows (h : ∀ line ∈ record.lines, '\n' ∉ line) :
    record.rows.foldl absorb unread = record := by
  rw [rows, map_reportRow h, List.foldl_append, foldl_report]
  simp only [List.foldl_cons, List.foldl_nil, absorb_realPanel, absorb_digest, absorb_holdsSent,
    verdict_of_word, boolWord_true_iff, unread, List.nil_append, Bool.decide_eq_true]

/-- What is read of the whole file: the record, where a carriage return at the end of a line is
lost. -/
theorem OneLine.readText (h : record.OneLine) : readText (unlines record.rows) =
    { record with digest := stripReturn record.digest, lines := record.lines.map stripReturn } := by
  rw [PanelRecord.readText, lines_unlines h.rows, h.stripped, foldl_rows]
  intro line hline
  obtain ⟨whole, hwhole, rfl⟩ := List.mem_map.1 hline
  exact fun hmem => h.lines whole hwhole ((stripReturn_isPrefix whole).subset hmem)

end

/-! ## Parts -/

theorem splitOnce_eq {mark : Char} {text first last : List Char}
    (h : splitOnce mark text = some (first, last)) : text = first ++ mark :: last := by
  induction text generalizing first with
  | nil => cases h
  | cons c text ih =>
    rw [splitOnce] at h
    split_ifs at h with hc
    · cases h
      rw [hc, List.nil_append]
    · obtain ⟨⟨first', last'⟩, hrest, heq⟩ := Option.map_eq_some_iff.1 h
      cases heq
      rw [ih hrest, List.cons_append]

/-- What comes after a text does not change where it is taken apart. -/
theorem splitOnce_append {mark : Char} {text first last : List Char}
    (h : splitOnce mark text = some (first, last)) (rest : List Char) :
    splitOnce mark (text ++ rest) = some (first, last ++ rest) := by
  induction text generalizing first with
  | nil => cases h
  | cons c text ih =>
    rw [splitOnce] at h
    rw [List.cons_append, splitOnce]
    split_ifs at h ⊢ with hc
    · cases h
      rfl
    · obtain ⟨⟨first', last'⟩, hrest, heq⟩ := Option.map_eq_some_iff.1 h
      cases heq
      rw [ih hrest, Option.map_some]

/-- What a line adds to the report. -/
def reported (line : List Char) : Option (List Char) :=
  match splitOnce '=' line with
  | some (key, value) => if key = "line".toList then some value else none
  | none => none

/-- What is cut off at the end of a line is cut off at the end of what it adds. -/
theorem reported_append {line value : List Char} (h : reported line = some value)
    (rest : List Char) : reported (line ++ rest) = some (value ++ rest) := by
  rw [reported] at h
  split at h
  · next key value' hsplit =>
    split_ifs at h with hkey
    cases h
    rw [reported, splitOnce_append hsplit]
    exact if_pos hkey
  · cases h

section

variable {record : PanelRecord}

theorem absorb_lines (line : List Char) :
    (absorb record line).lines = record.lines ++ (reported line).toList := by
  rw [absorb, reported]
  split
  · next key value _ =>
    split_ifs <;> simp_all
  · simp

/-- The report holds what each line adds to it. -/
theorem foldl_lines (lines : List (List Char)) :
    (lines.foldl absorb record).lines = record.lines ++ lines.filterMap reported := by
  induction lines generalizing record with
  | nil => simp
  | cons line lines ih =>
    rw [List.foldl_cons, ih, absorb_lines, List.append_assoc]
    cases hline : reported line with
    | none => rw [List.filterMap_cons_none hline]; rfl
    | some value => rw [List.filterMap_cons_some hline]; rfl

/-- The one line that makes a record hold the frame. -/
theorem absorb_holds {line : List Char} (h : (absorb record line).holds_sent = some true) :
    record.holds_sent = some true ∨ line = "holds_sent=true".toList := by
  rw [absorb] at h
  split at h
  · next key value hsplit =>
    split_ifs at h with h₁ h₂ h₃ hvalue
    · exact .inl h
    · exact .inl h
    · refine .inr ?_
      rw [splitOnce_eq hsplit, h₃, hvalue]
      rfl
    · simp at h
    · exact .inl h
    · exact .inl h
  · exact .inl h

theorem foldl_holds {lines : List (List Char)}
    (h : (lines.foldl absorb record).holds_sent = some true) :
    record.holds_sent = some true ∨ "holds_sent=true".toList ∈ lines := by
  induction lines generalizing record with
  | nil => exact .inl h
  | cons line lines ih =>
    rcases ih h with h | h
    · rcases absorb_holds h with h | rfl
      · exact .inl h
      · exact .inr List.mem_cons_self
    · exact .inr (List.mem_cons_of_mem _ h)

/-- A line of the file that starts with the one that makes a record hold the frame. -/
theorem holds_of_prefix {row : List Char} (hrow : row ∈ record.rows)
    (h : "holds_sent=true".toList <+: row) : record.holds_sent = some true := by
  rw [rows, List.mem_append] at hrow
  rcases hrow with hrow | hrow
  · simp only [List.mem_cons, List.not_mem_nil, or_false] at hrow
    rcases hrow with rfl | rfl | rfl
    · simp at h
    · simp at h
    · rcases hholds : record.holds_sent with _ | _ | _ <;> rw [hholds] at h <;> revert h <;> decide
  · obtain ⟨line, -, rfl⟩ := List.mem_map.1 hrow
    simp [reportRow] at h

end

/-- A record that says no more than another one. -/
structure Within (record read : PanelRecord) : Prop where
  holds : read.holds_sent = some true → record.holds_sent = some true
  lines : read.lines <+: record.lines ∨ ∃ whole line cut,
    read.lines = whole ++ [cut] ∧ whole ++ [line] <+: record.lines ∧ cut <+: line

/-- No line of a record ends with a carriage return. -/
structure NoReturn (record : PanelRecord) : Prop where
  digest : record.digest.getLast? ≠ some '\r'
  lines : ∀ line ∈ record.lines, line.getLast? ≠ some '\r'

section

variable {record : PanelRecord}

theorem NoReturn.stripped (h : record.NoReturn) :
    { record with digest := stripReturn record.digest,
                  lines := record.lines.map stripReturn } = record := by
  have hlines : record.lines.map stripReturn = record.lines.map id :=
    List.map_congr_left fun line hline => stripReturn_eq_iff.2 (h.lines line hline)
  rw [stripReturn_eq_iff.2 h.digest, hlines, List.map_id]

/-- The lines of the first part of a file are some of its lines, and the first part of the one
after them. -/
theorem lines_of_prefix (hone : record.OneLine) (hret : record.NoReturn) {text : List Char}
    (h : text <+: unlines record.rows) : ∃ whole rest, record.rows = whole ++ rest ∧
      (Text.lines text = whole ∨ ∃ row others part,
        rest = row :: others ∧ part <+: row ∧ Text.lines text = whole ++ [part]) := by
  obtain ⟨whole, rest, part, hrows, rfl, hpart⟩ := prefix_unlines h
  have hmem : ∀ row ∈ whole, row ∈ record.rows := fun row hrow =>
    hrows ▸ List.mem_append_left rest hrow
  have hstrip : whole.map stripReturn = whole := by
    have hall := hone.stripped
    rw [hret.stripped, hrows, List.map_append] at hall
    exact (List.append_inj hall (List.length_map _)).1
  refine ⟨whole, rest, hrows, ?_⟩
  rw [lines_unlines_append fun row hrow => hone.rows row (hmem row hrow), hstrip]
  rcases hpart with rfl | ⟨row, others, rfl, hpart⟩
  · exact .inl (by simp [lines_nil])
  · have hrow : row ∈ record.rows := by rw [hrows]; simp
    rw [lines_of_not_mem fun hmem => hone.rows row hrow (hpart.subset hmem)]
    by_cases hnil : part = []
    · exact .inl (by simp [hnil])
    · exact .inr ⟨row, others, part, rfl, hpart, by simp [hnil]⟩

/-- The first part of a file says no more than the file. -/
theorem within_of_prefix (hone : record.OneLine) (hret : record.NoReturn) {text : List Char}
    (h : text <+: unlines record.rows) : Within record (readText text) := by
  obtain ⟨whole, rest, hrows, hlines⟩ := lines_of_prefix hone hret h
  have hreport : record.rows.filterMap reported = record.lines := by
    have := congrArg PanelRecord.lines (foldl_rows hone.lines)
    rwa [foldl_lines] at this
  have hwhole : whole.filterMap reported <+: record.lines := by
    rw [← hreport, hrows, List.filterMap_append]
    exact List.prefix_append _ _
  refine ⟨fun hholds => ?_, ?_⟩
  · have hmem := (foldl_holds hholds).resolve_left (by decide)
    rcases hlines with heq | ⟨row, others, part, rfl, hpart, heq⟩
    · rw [heq] at hmem
      exact holds_of_prefix (hrows ▸ List.mem_append_left rest hmem) List.prefix_rfl
    · rw [heq, List.mem_append, List.mem_singleton] at hmem
      rcases hmem with hmem | rfl
      · exact holds_of_prefix (hrows ▸ List.mem_append_left _ hmem) List.prefix_rfl
      · have hrow : row ∈ record.rows := by rw [hrows]; simp
        exact holds_of_prefix hrow hpart
  · rw [readText, foldl_lines]
    rcases hlines with heq | ⟨row, others, part, rfl, ⟨tail, rfl⟩, heq⟩
    · exact .inl (by rw [heq]; exact hwhole)
    · rw [heq, List.filterMap_append]
      cases hpart : reported part with
      | none => exact .inl (by simpa [hpart, unread] using hwhole)
      | some cut =>
        refine .inr ⟨whole.filterMap reported, cut ++ tail, cut, by simp [hpart, unread], ?_,
          List.prefix_append cut tail⟩
        have hnext := reported_append hpart tail
        rw [← hreport, hrows, List.filterMap_append, List.filterMap_cons_some hnext,
          List.prefix_append_right_inj]
        exact List.prefix_append [_] _

end

/-! ## Round trip -/

/-- A record is read back, and a first part of its file as a record that says no more, just if
neither the digest nor a line of the report ends with a carriage return. -/
theorem kept_iff (path : String) (record : PanelRecord) (hdigest : record.digest ≠ [])
    (hone : record.OneLine) :
    (read path (some record.write) = .ok record ∧
      ∀ torn, torn <+: record.write → torn ≠ record.write →
        ∀ found, read path (some torn) = .ok found → Within record found) ↔ record.NoReturn := by
  constructor
  · rintro ⟨hread, -⟩
    rw [read, Option.bind_some, write, decodeUtf8_encodeUtf8] at hread
    simp only [String.toList_ofList, hone.readText] at hread
    split_ifs at hread with hnil
    have heq := Except.ok.inj hread
    have hdig := congrArg PanelRecord.digest heq
    have hlines := congrArg PanelRecord.lines heq
    refine ⟨stripReturn_eq_iff.1 hdig, fun line hline => stripReturn_eq_iff.1 ?_⟩
    exact List.map_inj_left.1 (hlines.trans (List.map_id _).symm) line hline
  · intro hret
    refine ⟨?_, fun torn htorn _ found hfound => ?_⟩
    · rw [read, Option.bind_some, write, decodeUtf8_encodeUtf8]
      simp only [String.toList_ofList, hone.readText, hret.stripped]
      exact if_neg hdigest
    · rw [read, Option.bind_some] at hfound
      cases htext : decodeUtf8 torn with
      | none => rw [htext] at hfound; cases hfound
      | some text =>
        have hpre := prefix_of_decodeUtf8 htorn htext
        rw [String.toList_ofList] at hpre
        rw [htext] at hfound
        simp only at hfound
        split_ifs at hfound
        rw [← Except.ok.inj hfound]
        exact within_of_prefix hone hret hpre

/-- A record whose report has a line with an equals sign in it is read back. -/
theorem kept_settled :
    let record : PanelRecord := ⟨true, "sha256:00".toList, some false, ["open=3ms".toList]⟩
    read "panel" (some record.write) = .ok record ∧
      ∀ torn, torn <+: record.write → torn ≠ record.write →
        ∀ found, read "panel" (some torn) = .ok found → Within record found :=
  (kept_iff "panel" _ (by decide) ⟨by decide, by decide⟩).2 ⟨by decide, by decide⟩

/-- A record whose report has a line that ends with a carriage return. -/
def progress : PanelRecord where
  real_panel := true
  digest := "sha256:00".toList
  holds_sent := some true
  lines := ["waveform 100%\r".toList]

/-- It is read back as another one. -/
theorem progress_not_kept : progress.digest ≠ [] ∧ progress.OneLine ∧
    read "panel" (some progress.write) ≠ .ok progress := by
  refine ⟨by decide, ⟨by decide, by decide⟩, ?_⟩
  decide +kernel

end PanelRecord

end Paperclip.Device
