import Paperclip.Toml.Lines

/-!
# TOML documents

The part of TOML that documents written by hand use: comments, blank lines, `[name]` and `[[name]]`, and
`key = value` with a basic string, a decimal integer or a boolean. A character of a string may be
spelled as itself or as an escape.

* `Piece`: a character of a string, and its spelling. `Spelled`: a value as it is written. `Datum`: what
  it says.
* `Row`: a line. `render`, `readRows`: how rows are written and read.
* `sections`: the tables of a document. `Reads`: what is taken of a TOML crate that reads documents into
  a type: what is written of rows that can be carried is read.
* `reads_own`: a reader that does.
-/

namespace Toml

/-! ## Strings -/

/-- How a character of a string is spelled: as itself, with its letter, or with its number. -/
inductive Spelling where
  | plain
  | short
  | code
  deriving DecidableEq, Repr

/-- A character of a string. -/
structure Piece where
  char : Char
  spelling : Spelling
  deriving DecidableEq, Repr

/-- The letter that is written after a backslash. -/
def letter : Char → Option Char
  | '"' => some '"'
  | '\\' => some '\\'
  | '\n' => some 'n'
  | '\t' => some 't'
  | '\r' => some 'r'
  | _ => none

/-- The digit of a value below sixteen. -/
def hexDigit (value : ℕ) : Char :=
  Char.ofNat (if value < 10 then '0'.toNat + value else 'A'.toNat + value - 10)

/-- The value of a hex digit of either case. -/
def hexDigitValue (c : Char) : Option ℕ :=
  if '0' ≤ c ∧ c ≤ '9' then some (c.toNat - '0'.toNat)
  else if 'A' ≤ c ∧ c ≤ 'F' then some (c.toNat - 'A'.toNat + 10)
  else if 'a' ≤ c ∧ c ≤ 'f' then some (c.toNat - 'a'.toNat + 10)
  else none

/-- The four digits of the number of a character. -/
def codeDigits (n : ℕ) : List Char :=
  [hexDigit (n / 4096), hexDigit (n / 256 % 16), hexDigit (n / 16 % 16), hexDigit (n % 16)]

/-- The character whose number four digits spell. -/
def readCode (a b c d : Char) : Option Char :=
  (hexDigitValue a).bind fun a => (hexDigitValue b).bind fun b => (hexDigitValue c).bind fun c =>
    (hexDigitValue d).bind fun d =>
      let n := ((a * 16 + b) * 16 + c) * 16 + d
      if n.isValidChar then some (.ofNat n) else none

def Piece.render (piece : Piece) : List Char :=
  match piece.spelling with
  | .plain => [piece.char]
  | .short => ['\\', (letter piece.char).getD piece.char]
  | .code => '\\' :: 'u' :: codeDigits piece.char.toNat

/-- Whether a character may be spelled so. -/
def Piece.fits (piece : Piece) : Bool :=
  match piece.spelling with
  | .plain => allowed piece.char && piece.char ≠ '"' && piece.char ≠ '\\'
  | .short => (letter piece.char).isSome
  | .code => piece.char.toNat < 16 ^ 4

/-- What is between the quotes, where the line ends with the closing one. -/
def readString : List Char → Option (List Char)
  | [] => none
  | '"' :: rest => if rest = [] then some [] else none
  | '\\' :: 'u' :: a :: b :: c :: d :: rest =>
    (readCode a b c d).bind fun c => (readString rest).map (c :: ·)
  | '\\' :: c :: rest => (unescape c).bind fun c => (readString rest).map (c :: ·)
  | c :: rest => if allowed c then (readString rest).map (c :: ·) else none

theorem hexDigitValue_hexDigit : ∀ n < 16, hexDigitValue (hexDigit n) = some n := by
  decide

theorem readCode_codeDigits (c : Char) (h : c.toNat < 16 ^ 4) :
    readCode (hexDigit (c.toNat / 4096)) (hexDigit (c.toNat / 256 % 16))
      (hexDigit (c.toNat / 16 % 16)) (hexDigit (c.toNat % 16)) = some c := by
  have hn : ((c.toNat / 4096 * 16 + c.toNat / 256 % 16) * 16 + c.toNat / 16 % 16) * 16 +
      c.toNat % 16 = c.toNat := by omega
  rw [readCode, hexDigitValue_hexDigit _ (by omega), Option.bind_some,
    hexDigitValue_hexDigit _ (by omega), Option.bind_some, hexDigitValue_hexDigit _ (by omega),
    Option.bind_some, hexDigitValue_hexDigit _ (by omega), Option.bind_some]
  dsimp only
  rw [hn, if_pos (show c.toNat.isValidChar from c.valid), Char.ofNat_toNat]

/-- The letter of an escape stands for its character. -/
theorem unescape_letter {c e : Char} (h : letter c = some e) : unescape e = some c ∧ e ≠ 'u' := by
  unfold letter at h
  split at h <;> cases h <;> exact ⟨rfl, by decide⟩

/-- A piece is read as its character. -/
theorem readString_piece {piece : Piece} (h : piece.fits = true) (rest : List Char) :
    readString (piece.render ++ rest) = (readString rest).map (piece.char :: ·) := by
  obtain ⟨c, spelling⟩ := piece
  cases spelling with
  | plain =>
    simp only [Piece.fits, Bool.and_eq_true, decide_eq_true_eq] at h
    obtain ⟨⟨hallowed, hq⟩, hb⟩ := h
    change readString (c :: rest) = _
    rw [readString.eq_def]
    split
    · next heq => cases heq
    · next heq => exact absurd (List.cons.inj heq).1 hq
    · next heq => exact absurd (List.cons.inj heq).1 hb
    · next heq => exact absurd (List.cons.inj heq).1 hb
    · next heq =>
      obtain ⟨rfl, rfl⟩ := List.cons.inj heq
      rw [if_pos hallowed]
  | short =>
    obtain ⟨e, he⟩ := Option.isSome_iff_exists.1 h
    obtain ⟨hun, hu⟩ := unescape_letter he
    change readString ('\\' :: (letter c).getD c :: rest) = _
    rw [he, Option.getD_some, readString.eq_def]
    split
    · next heq => cases heq
    · next heq => exact absurd (List.cons.inj heq).1 (by decide)
    · next heq => exact absurd (List.cons.inj (List.cons.inj heq).2).1 hu
    · next heq =>
      obtain ⟨rfl, rfl⟩ := List.cons.inj (List.cons.inj heq).2
      rw [hun, Option.bind_some]
    · next hne heq =>
      obtain ⟨rfl, rfl⟩ := List.cons.inj heq
      exact absurd rfl (hne _ _ rfl)
  | code =>
    have hc : c.toNat < 16 ^ 4 := of_decide_eq_true h
    change readString ('\\' :: 'u' :: _ :: _ :: _ :: _ :: rest) = _
    rw [readString, readCode_codeDigits c hc, Option.bind_some]

/-- A string is read back from between its quotes, however it is spelled. -/
theorem readString_pieces {pieces : List Piece} (h : ∀ piece ∈ pieces, piece.fits = true) :
    readString (pieces.flatMap Piece.render ++ ['"']) = some (pieces.map Piece.char) := by
  induction pieces with
  | nil => rfl
  | cons piece pieces ih =>
    obtain ⟨hpiece, hpieces⟩ := List.forall_mem_cons.1 h
    rw [List.flatMap_cons, List.append_assoc, readString_piece hpiece, ih hpieces]
    rfl

/-- A text, each character as itself. -/
def plain (text : List Char) : List Piece := text.map (⟨·, .plain⟩)

theorem plain_render (text : List Char) : (plain text).flatMap Piece.render = text := by
  rw [plain, List.flatMap_map]
  exact List.flatMap_singleton' text

theorem plain_char (text : List Char) : (plain text).map Piece.char = text := by
  rw [plain, List.map_map]
  exact List.map_id text

theorem plain_fits {text : List Char}
    (h : ∀ c ∈ text, allowed c = true ∧ c ≠ '\\' ∧ c ≠ '"') : ∀ piece ∈ plain text, piece.fits = true := by
  intro piece hpiece
  obtain ⟨c, hc, rfl⟩ := List.mem_map.1 hpiece
  obtain ⟨hallowed, hb, hq⟩ := h c hc
  simp [Piece.fits, hallowed, hb, hq]

/-! ## Rows -/

/-- A value as it is written. -/
inductive Spelled where
  | text (pieces : List Piece)
  | number (value : ℕ)
  | flag (value : Bool)
  deriving DecidableEq

/-- What a value says. -/
inductive Datum where
  | text (value : List Char)
  | number (value : ℕ)
  | flag (value : Bool)
  deriving DecidableEq

def Spelled.datum : Spelled → Datum
  | text pieces => .text (pieces.map Piece.char)
  | number value => .number value
  | flag value => .flag value

/-- A line, whose value is an `α`. -/
inductive Row (α : Type) where
  | blank
  | comment (text : List Char)
  | table (name : List Char)
  | array (name : List Char)
  | pair (key : List Char) (value : α)
  deriving DecidableEq

/-- The same line with another value. -/
def Row.map {α β : Type} (f : α → β) : Row α → Row β
  | blank => .blank
  | comment text => .comment text
  | table name => .table name
  | array name => .array name
  | pair key value => .pair key (f value)

def Spelled.render : Spelled → List Char
  | text pieces => '"' :: (pieces.flatMap Piece.render ++ ['"'])
  | number value => Nat.toDigits 10 value
  | flag value => (if value then "true" else "false").toList

def Datum.read : List Char → Option Datum
  | '"' :: rest => (readString rest).map .text
  | word =>
    if word = "true".toList then some (.flag true)
    else if word = "false".toList then some (.flag false)
    else (readNumber word).map .number

def Row.render : Row Spelled → List Char
  | blank => []
  | comment text => '#' :: text
  | table name => '[' :: (name ++ [']'])
  | array name => '[' :: '[' :: (name ++ [']', ']'])
  | pair key value => key ++ (' ' :: '=' :: ' ' :: value.render)

/-- The name between brackets. -/
def readName (closing rest : List Char) : Option (List Char) :=
  let name := rest.takeWhile isBare
  if name ≠ [] ∧ rest.dropWhile isBare = closing then some name else none

def Row.read : List Char → Option (Row Datum)
  | [] => some .blank
  | '#' :: text => if text.all allowed then some (.comment text) else none
  | '[' :: '[' :: rest => (readName [']', ']'] rest).map .array
  | '[' :: rest => (readName [']'] rest).map .table
  | line =>
    let key := line.takeWhile isBare
    if key = [] then none
    else
      match line.dropWhile isBare with
      | ' ' :: '=' :: ' ' :: value => (Datum.read value).map (.pair key)
      | _ => none

/-- A document: its lines, each with its end. -/
def renderRows (rows : List (Row Spelled)) : List Char := rows.flatMap fun row => row.render ++ ['\n']

/-- The lines of a document. -/
def readRows (document : List Char) : Option (List (Row Datum)) :=
  (document.splitOn '\n').mapM Row.read

/-- A value that can be carried. -/
def Spelled.Fits : Spelled → Prop
  | text pieces => ∀ piece ∈ pieces, piece.fits = true
  | number value => value ≤ MAX
  | flag _ => True

/-- A name that can stand without quotes. -/
def IsName (name : List Char) : Prop := name ≠ [] ∧ name.all isBare = true

/-- A line that can be carried. -/
def Row.Fits : Row Spelled → Prop
  | blank => True
  | comment text => text.all allowed = true
  | table name | array name => IsName name
  | pair key value => IsName key ∧ value.Fits

section

theorem Datum.read_render {value : Spelled} (h : value.Fits) :
    Datum.read value.render = some value.datum := by
  cases value with
  | text pieces =>
    rw [Spelled.render, read, readString_pieces h]
    rfl
  | flag value => cases value <;> rfl
  | number value =>
    have hdigit (c : Char) (hc : c.isDigit = false) (rest : List Char) :
        Nat.toDigits 10 value ≠ c :: rest := fun heq => by
      have := isDigit_of_mem_toDigits (n := value) (c := c) (by rw [heq]; exact List.mem_cons_self)
      simp [hc] at this
    have htrue : "true".toList = ['t', 'r', 'u', 'e'] := by decide
    have hfalse : "false".toList = ['f', 'a', 'l', 's', 'e'] := by decide
    rw [Spelled.render, read.eq_def]
    split
    · next heq => exact absurd heq (hdigit _ (by decide) _)
    · rw [htrue, hfalse, if_neg (hdigit _ (by decide) _), if_neg (hdigit _ (by decide) _),
        readNumber_toDigits h]
      rfl

theorem readName_append {name closing : List Char} (h : IsName name) {c : Char}
    (hc : isBare c = false) :
    readName (c :: closing) (name ++ c :: closing) = some name := by
  obtain ⟨htake, hdrop⟩ := takeWhile_bare h.2 hc closing
  rw [readName, htake, hdrop]
  exact if_pos ⟨h.1, rfl⟩

theorem bare_ne_bracket {c : Char} (h : isBare c = true) : c ≠ '[' := by
  rintro rfl
  exact absurd h (by decide)

theorem Row.read_pair {key : List Char} (h : IsName key) (value : List Char) :
    Row.read (key ++ (' ' :: '=' :: ' ' :: value)) = (Datum.read value).map (.pair key) := by
  obtain ⟨htake, hdrop⟩ := takeWhile_bare h.2 (show isBare ' ' = false by decide)
    ('=' :: ' ' :: value)
  obtain ⟨first, key, rfl⟩ := List.exists_cons_of_ne_nil h.1
  have hfirst : isBare first = true := List.all_eq_true.1 h.2 first List.mem_cons_self
  rw [read.eq_def]
  split
  · next heq => cases heq
  · next heq =>
    obtain ⟨rfl, -⟩ := List.cons.inj heq
    exact absurd hfirst (by decide)
  · next heq => exact absurd (List.cons.inj heq).1 (bare_ne_bracket hfirst)
  · next heq => exact absurd (List.cons.inj heq).1 (bare_ne_bracket hfirst)
  · rw [htake, hdrop, if_neg h.1]
    rfl

theorem Row.read_render {row : Row Spelled} (h : row.Fits) :
    Row.read row.render = some (row.map Spelled.datum) := by
  cases row with
  | blank => rfl
  | comment text => exact if_pos h
  | array name =>
    change (readName [']', ']'] (name ++ [']', ']'])).map Row.array = _
    rw [readName_append h (by decide)]
    rfl
  | table name =>
    have hread : Row.read ('[' :: (name ++ [']'])) =
        (readName [']'] (name ++ [']'])).map Row.table := by
      obtain ⟨first, rest, rfl⟩ := List.exists_cons_of_ne_nil h.1
      rw [read.eq_def]
      split
      · next heq => cases heq
      · next heq => exact absurd (List.cons.inj heq).1 (by decide)
      · next heq =>
        exact absurd (List.cons.inj (List.cons.inj heq).2).1
          (bare_ne_bracket (List.all_eq_true.1 h.2 first List.mem_cons_self))
      · next heq => rw [(List.cons.inj heq).2]
      · next hne => exact absurd rfl (hne _)
    rw [render, hread, readName_append h (by decide)]
    rfl
  | pair key value =>
    rw [render, read_pair h.1, Datum.read_render h.2]
    rfl

theorem Piece.not_mem {piece : Piece} (h : piece.fits = true) : '\n' ∉ piece.render := by
  intro hc
  obtain ⟨c, spelling⟩ := piece
  cases spelling with
  | plain =>
    simp only [fits, Bool.and_eq_true, decide_eq_true_eq] at h
    exact allowed_ne_break h.1.1 (List.mem_singleton.1 hc).symm
  | short =>
    obtain ⟨e, he⟩ := Option.isSome_iff_exists.1 h
    change '\n' ∈ ['\\', (letter c).getD c] at hc
    rw [he, Option.getD_some, List.mem_cons, List.mem_singleton] at hc
    rcases hc with hc | rfl
    · exact absurd hc (by decide)
    · exact absurd (unescape_letter he).1 (by simp [unescape])
  | code =>
    have hc' : c.toNat < 16 ^ 4 := of_decide_eq_true h
    have hdigit (n : ℕ) (hn : n < 16) : hexDigit n ≠ '\n' := fun heq => by
      have := hexDigitValue_hexDigit n hn
      rw [heq] at this
      cases this
    change '\n' ∈ ['\\', 'u', _, _, _, _] at hc
    simp only [List.mem_cons, List.not_mem_nil, or_false] at hc
    rcases hc with hc | hc | hc | hc | hc | hc
    · exact absurd hc (by decide)
    · exact absurd hc (by decide)
    · exact hdigit _ (by omega) hc.symm
    · exact hdigit _ (by omega) hc.symm
    · exact hdigit _ (by omega) hc.symm
    · exact hdigit _ (by omega) hc.symm

theorem Spelled.Fits.not_mem {value : Spelled} (h : value.Fits) : '\n' ∉ value.render := by
  intro hc
  cases value with
  | text pieces =>
    simp only [Spelled.render, List.mem_cons, List.mem_append, List.mem_flatMap, List.not_mem_nil,
      or_false] at hc
    rcases hc with hc | ⟨piece, hpiece, hc⟩ | hc
    · exact absurd hc (by decide)
    · exact Piece.not_mem (h piece hpiece) hc
    · exact absurd hc (by decide)
  | number value =>
    have := isDigit_of_mem_toDigits hc
    simp [Char.isDigit] at this
  | flag value =>
    revert hc
    cases value <;> decide

theorem IsName.not_mem {name : List Char} (h : IsName name) : '\n' ∉ name := fun hc =>
  isBare_ne_break (List.all_eq_true.1 h.2 _ hc) rfl

/-- No line has the end of a line in it. -/
theorem Row.Fits.not_mem {row : Row Spelled} (h : row.Fits) : '\n' ∉ row.render := by
  intro hc
  cases row with
  | blank => cases hc
  | comment text =>
    rcases List.mem_cons.1 hc with hc | hc
    · exact absurd hc (by decide)
    · exact allowed_ne_break (List.all_eq_true.1 h _ hc) rfl
  | table name =>
    simp only [Row.render, List.mem_cons, List.mem_append, List.not_mem_nil, or_false] at hc
    rcases hc with hc | hc | hc
    · exact absurd hc (by decide)
    · exact IsName.not_mem h hc
    · exact absurd hc (by decide)
  | array name =>
    simp only [Row.render, List.mem_cons, List.mem_append, List.not_mem_nil, or_false] at hc
    rcases hc with hc | hc | hc | hc | hc
    · exact absurd hc (by decide)
    · exact absurd hc (by decide)
    · exact IsName.not_mem h hc
    · exact absurd hc (by decide)
    · exact absurd hc (by decide)
  | pair key value =>
    simp only [Row.render, List.mem_cons, List.mem_append] at hc
    rcases hc with hc | hc | hc | hc | hc
    · exact h.1.not_mem hc
    · exact absurd hc (by decide)
    · exact absurd hc (by decide)
    · exact absurd hc (by decide)
    · exact h.2.not_mem hc

/-- What is written is read back, and the blank end. -/
theorem readRows_render {rows : List (Row Spelled)} (h : ∀ row ∈ rows, row.Fits) :
    readRows (renderRows rows) = some (rows.map (Row.map Spelled.datum) ++ [.blank]) := by
  have hsplit := splitOn_lines (fun row hrow => (h row hrow).not_mem) []
  rw [List.append_nil] at hsplit
  rw [readRows, renderRows, hsplit, mapM_lines fun row hrow => Row.read_render (h row hrow)]
  rfl

end

/-! ## Sections -/

/-- The keys of a table, in the order in which they are written. -/
abbrev Keys := List (List Char × Datum)

/-- A table of a document, which may be the next one of an array. -/
structure Section where
  array : Bool
  name : List Char
  keys : Keys
  deriving DecidableEq

/-- The keys at the top of a document, and the tables after them. -/
def sections : List (Row Datum) → Keys × List Section
  | [] => ([], [])
  | .blank :: rest => sections rest
  | .comment _ :: rest => sections rest
  | .pair key value :: rest => ((key, value) :: (sections rest).1, (sections rest).2)
  | .table name :: rest => ([], ⟨false, name, (sections rest).1⟩ :: (sections rest).2)
  | .array name :: rest => ([], ⟨true, name, (sections rest).1⟩ :: (sections rest).2)

namespace Keys

variable (keys : Keys)

/-- The text of a key. -/
def text (key : String) : Option String :=
  match keys.lookup key.toList with
  | some (.text value) => some (String.ofList value)
  | _ => none

/-- The number of a key. -/
def number (key : String) : Option ℕ :=
  match keys.lookup key.toList with
  | some (.number value) => some value
  | _ => none

/-- The boolean of a key. -/
def flag (key : String) : Option Bool :=
  match keys.lookup key.toList with
  | some (.flag value) => some value
  | _ => none

/-- Whether there is no key twice, and no other than these. -/
def are (names : List String) : Bool :=
  decide (keys.map Prod.fst).Nodup && keys.all fun entry => (names.map String.toList).contains entry.1

end Keys

/-- A trailing blank line belongs to no table. -/
theorem sections_append_blank (rows : List (Row Datum)) :
    sections (rows ++ [.blank]) = sections rows := by
  induction rows with
  | nil => rfl
  | cons row rows ih => cases row <;> simp [sections, ih]

/-- What a document of some rows says. -/
def meaning (rows : List (Row Spelled)) : Keys × List Section :=
  sections (rows.map (Row.map Spelled.datum))

/-- What is taken of a TOML crate, which reads a document into an `α` as `ofSections` reads its tables:
what is written of rows that can be carried is read. -/
structure Reads {ε α : Type} (fromStr : String → Except ε α)
    (ofSections : Keys × List Section → Option α) : Prop where
  reads : ∀ rows a, (∀ row ∈ rows, row.Fits) → ofSections (meaning rows) = some a →
    fromStr (String.ofList (renderRows rows)) = .ok a

/-- A reader of rows. -/
def fromStr {ε α : Type} (e : ε) (ofSections : Keys × List Section → Option α) (text : String) :
    Except ε α :=
  ((readRows text.toList).bind fun rows => ofSections (sections rows)).elim (.error e) .ok

theorem reads_own {ε α : Type} (e : ε) (ofSections : Keys × List Section → Option α) :
    Reads (fromStr e ofSections) ofSections where
  reads rows a hrows ha := by
    rw [fromStr, String.toList_ofList, readRows_render hrows, Option.bind_some, sections_append_blank]
    change (ofSections (meaning rows)).elim _ _ = _
    rw [ha]
    rfl

end Toml
