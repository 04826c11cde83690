import Mathlib.Algebra.Group.Nat.Defs

/-!
# TOML, line by line

The part of TOML in which each line stands for itself: blank lines and comments, `key = value` with a
basic string or a decimal integer, and `[[name]]`, which begins the next table of an array.

* `Line`: what a line says. `Line.render`, `Line.read`: how it is written and read.
* `escape`, `readBody`: what stands between the quotes of a basic string. Some characters may not stand
  there at all, and have no escape in `escape`: `allowed`.
* `read_render`: what is written is read back, where every string has allowed characters only.
* `Broken`: a document with a string that has another character in it. It is no TOML.
* `split`: the tables of a document. `Reader`: what is taken from a TOML crate that reads documents
  into a type, for those that are written here.
-/

namespace Toml

/-- Largest number that is carried. -/
def MAX : ℕ := 2 ^ 63 - 1

/-- A value of a key. -/
inductive Value where
  | text (value : List Char)
  | number (value : ℕ)
  deriving DecidableEq

/-- What a line says. -/
inductive Line where
  | blank
  | pair (key : List Char) (value : Value)
  | header (name : List Char)
  deriving DecidableEq

/-- A character that may stand for itself in a string or a comment: no control character but the
tab. -/
def allowed (c : Char) : Bool := c = '\t' || (0x20 ≤ c.toNat && c.toNat ≠ 0x7F)

/-- A character that a key may have without quotes. -/
def isBare (c : Char) : Bool :=
  ('A' ≤ c && c ≤ 'Z') || ('a' ≤ c && c ≤ 'z') || ('0' ≤ c && c ≤ '9') || c = '_' || c = '-'

/-! ## Strings -/

/-- Backslashes and quotes are escaped. -/
def escape (text : List Char) : List Char :=
  text.flatMap fun c => if c = '\\' ∨ c = '"' then ['\\', c] else [c]

/-- The character that an escape stands for. -/
def unescape : Char → Option Char
  | '"' => some '"'
  | '\\' => some '\\'
  | 'n' => some '\n'
  | 't' => some '\t'
  | 'r' => some '\r'
  | _ => none

/-- What is between the quotes, where the line ends with the closing one. -/
def readBody : List Char → Option (List Char)
  | [] => none
  | '"' :: rest => if rest = [] then some [] else none
  | '\\' :: c :: rest => (unescape c).bind fun c => (readBody rest).map (c :: ·)
  | c :: rest => if allowed c then (readBody rest).map (c :: ·) else none

/-! ## Numbers -/

/-- The value of some digits. -/
def digitsValue (digits : List Char) : ℕ :=
  digits.foldl (fun n c => n * 10 + (c.toNat - '0'.toNat)) 0

/-- A decimal integer. -/
def readNumber (digits : List Char) : Option ℕ :=
  if digits ≠ [] ∧ digits.all Char.isDigit ∧ digitsValue digits ≤ MAX then some (digitsValue digits)
  else none

/-! ## Lines -/

def Value.render : Value → List Char
  | text value => '"' :: (escape value ++ ['"'])
  | number value => Nat.toDigits 10 value

def Value.read : List Char → Option Value
  | '"' :: rest => (readBody rest).map .text
  | digits => (readNumber digits).map .number

def Line.render : Line → List Char
  | blank => []
  | pair key value => key ++ (' ' :: '=' :: ' ' :: value.render)
  | header name => '[' :: '[' :: (name ++ [']', ']'])

def Line.read : List Char → Option Line
  | [] => some .blank
  | '#' :: rest => if rest.all allowed then some .blank else none
  | '[' :: '[' :: rest =>
    let name := rest.takeWhile isBare
    if name ≠ [] ∧ rest.dropWhile isBare = [']', ']'] then some (.header name) else none
  | line =>
    let key := line.takeWhile isBare
    if key = [] then none
    else
      match line.dropWhile isBare with
      | ' ' :: '=' :: ' ' :: value => (Value.read value).map (.pair key)
      | _ => none

/-- A document: its lines, each with its end. -/
def render (lines : List Line) : List Char := lines.flatMap fun line => line.render ++ ['\n']

/-- The lines of a document. -/
def read (document : List Char) : Option (List Line) := (document.splitOn '\n').mapM Line.read

/-- A value that can be carried. -/
def Value.Fits : Value → Prop
  | .text value => value.all allowed = true
  | .number value => value ≤ MAX

/-- A line that can be carried. -/
def Line.Fits : Line → Prop
  | blank => True
  | pair key value => key ≠ [] ∧ key.all isBare = true ∧ value.Fits
  | header name => name ≠ [] ∧ name.all isBare = true

/-- A number that can be carried. A text may be any. -/
def Value.Sized : Value → Prop
  | .text _ => True
  | .number value => value ≤ MAX

/-- A line that could be carried, were it not for its text. -/
def Line.Formed : Line → Prop
  | blank => True
  | pair key value => key ≠ [] ∧ key.all isBare = true ∧ value.Sized
  | header name => name ≠ [] ∧ name.all isBare = true

/-- A document in which a line has a string with a character that may not stand there. -/
def Broken (document : List Char) : Prop :=
  ∃ (lines : List Line) (key body rest : List Char) (c : Char),
    (∀ line ∈ lines, line.Fits) ∧ key ≠ [] ∧ key.all isBare = true ∧ body.all allowed = true ∧
      allowed c = false ∧
      document = render lines ++ (key ++ (' ' :: '=' :: ' ' :: '"' :: (escape body ++ c :: rest)))

/-! ## What is written is read -/

section

variable {text : List Char}

theorem escape_append (text text' : List Char) : escape (text ++ text') = escape text ++ escape text' :=
  List.flatMap_append ..

/-- A string of allowed characters is read back from between its quotes. -/
theorem readBody_escape (h : text.all allowed = true) :
    readBody (escape text ++ ['"']) = some text := by
  induction text with
  | nil => rfl
  | cons c rest ih =>
    obtain ⟨hc, hrest⟩ := Bool.and_eq_true_iff.1 (by simpa only [List.all_cons] using h)
    rw [escape, List.flatMap_cons]
    by_cases hb : c = '\\'
    · subst hb
      show readBody ('\\' :: '\\' :: (escape rest ++ ['"'])) = _
      rw [readBody, ih hrest]
      rfl
    · by_cases hq : c = '"'
      · subst hq
        show readBody ('\\' :: '"' :: (escape rest ++ ['"'])) = _
        rw [readBody, ih hrest]
        rfl
      · rw [if_neg (by simp [hb, hq])]
        show readBody (c :: (escape rest ++ ['"'])) = _
        rw [readBody.eq_def]
        split
        · next heq => cases heq
        · next heq => exact absurd (List.cons.inj heq).1 hq
        · next heq => exact absurd (List.cons.inj heq).1 hb
        · next heq =>
          obtain ⟨rfl, rfl⟩ := List.cons.inj heq
          rw [if_pos hc, ih hrest]
          rfl

theorem digitsValue_toDigits (n : ℕ) : digitsValue (Nat.toDigits 10 n) = n := by
  have := Nat.ofDigitChars_ten_toDigits (n := n)
  rw [Nat.ofDigitChars_eq_foldl] at this
  simpa only [digitsValue, Nat.mul_comm] using this

theorem isDigit_of_mem_toDigits {n : ℕ} {c : Char} (h : c ∈ Nat.toDigits 10 n) : c.isDigit = true :=
  Nat.isDigit_of_mem_toDigits (by decide) (by decide) h

theorem readNumber_toDigits {n : ℕ} (h : n ≤ MAX) : readNumber (Nat.toDigits 10 n) = some n := by
  rw [readNumber, digitsValue_toDigits]
  exact if_pos ⟨Nat.toDigits_ne_nil, List.all_eq_true.2 fun c hc => isDigit_of_mem_toDigits hc, h⟩

theorem Value.read_render {value : Value} (h : value.Fits) : Value.read value.render = some value := by
  cases value with
  | text value =>
    rw [render, read, readBody_escape h]
    rfl
  | number value =>
    rw [render]
    unfold read
    split
    · next rest heq =>
      have := isDigit_of_mem_toDigits (n := value) (c := '"') (by rw [heq]; exact List.mem_cons_self)
      simp [Char.isDigit] at this
    · rw [readNumber_toDigits h]
      rfl

theorem takeWhile_bare {key : List Char} (h : key.all isBare = true) {c : Char}
    (hc : isBare c = false) (rest : List Char) :
    (key ++ c :: rest).takeWhile isBare = key ∧ (key ++ c :: rest).dropWhile isBare = c :: rest := by
  rw [List.all_eq_true] at h
  constructor
  · rw [List.takeWhile_append_of_pos h, List.takeWhile_cons_of_neg (by simp [hc]), List.append_nil]
  · rw [List.dropWhile_append_of_pos h, List.dropWhile_cons_of_neg (by simp [hc])]

/-- The value of a key is all that follows the equals sign. -/
theorem Line.read_pair {key : List Char} (hne : key ≠ []) (hbare : key.all isBare = true)
    (value : List Char) : Line.read (key ++ (' ' :: '=' :: ' ' :: value)) =
      (Value.read value).map (.pair key) := by
  obtain ⟨htake, hdrop⟩ := takeWhile_bare hbare (show isBare ' ' = false by decide)
    ('=' :: ' ' :: value)
  obtain ⟨first, key, rfl⟩ := List.exists_cons_of_ne_nil hne
  have hfirst : isBare first = true := List.all_eq_true.1 hbare first List.mem_cons_self
  rw [read.eq_def]
  split
  · next heq => cases heq
  · next heq =>
    obtain ⟨rfl, -⟩ := List.cons.inj heq
    exact absurd hfirst (by decide)
  · next heq =>
    obtain ⟨rfl, -⟩ := List.cons.inj heq
    exact absurd hfirst (by decide)
  · rw [htake, hdrop, if_neg hne]
    rfl

theorem Line.read_render {line : Line} (h : line.Fits) : Line.read line.render = some line := by
  cases line with
  | blank => rfl
  | header name =>
    obtain ⟨hne, hbare⟩ := h
    obtain ⟨htake, hdrop⟩ := takeWhile_bare hbare (show isBare ']' = false by decide) [']']
    rw [render, read, htake, hdrop]
    exact if_pos ⟨hne, rfl⟩
  | pair key value =>
    obtain ⟨hne, hbare, hvalue⟩ := h
    rw [render, read_pair hne hbare, Value.read_render hvalue]
    rfl

theorem isBare_ne_break {c : Char} (h : isBare c = true) : c ≠ '\n' := by
  rintro rfl
  exact absurd h (by decide)

theorem allowed_ne_break {c : Char} (h : allowed c = true) : c ≠ '\n' := by
  rintro rfl
  exact absurd h (by decide)

theorem mem_escape {text : List Char} {c : Char} (h : c ∈ escape text) : c ∈ text ∨ c = '\\' := by
  obtain ⟨d, hd, hc⟩ := List.mem_flatMap.1 h
  split at hc
  · rcases List.mem_cons.1 hc with rfl | hc
    · exact .inr rfl
    · exact .inl (List.mem_singleton.1 hc ▸ hd)
  · exact .inl (List.mem_singleton.1 hc ▸ hd)

/-- No line has the end of a line in it. -/
theorem Line.Fits.not_mem {line : Line} (h : line.Fits) : '\n' ∉ line.render := by
  intro hc
  cases line with
  | blank => cases hc
  | header name =>
    simp only [Line.render, List.mem_cons, List.mem_append, List.not_mem_nil, or_false] at hc
    rcases hc with hc | hc | hc | hc | hc
    · exact absurd hc (by decide)
    · exact absurd hc (by decide)
    · exact isBare_ne_break (List.all_eq_true.1 h.2 _ hc) rfl
    · exact absurd hc (by decide)
    · exact absurd hc (by decide)
  | pair key value =>
    simp only [Line.render, List.mem_cons, List.mem_append] at hc
    rcases hc with hc | hc | hc | hc | hc
    · exact isBare_ne_break (List.all_eq_true.1 h.2.1 _ hc) rfl
    · exact absurd hc (by decide)
    · exact absurd hc (by decide)
    · exact absurd hc (by decide)
    · cases value with
      | text value =>
        simp only [Value.render, List.mem_cons, List.mem_append, List.not_mem_nil, or_false] at hc
        rcases hc with hc | hc | hc
        · exact absurd hc (by decide)
        · rcases mem_escape hc with hc | hc
          · exact allowed_ne_break (List.all_eq_true.1 h.2.2 _ hc) rfl
          · exact absurd hc (by decide)
        · exact absurd hc (by decide)
      | number value =>
        have := isDigit_of_mem_toDigits hc
        simp [Char.isDigit] at this

/-- A text that is written line by line, of anything, is split into these lines. -/
theorem splitOn_lines {α : Type} {render : α → List Char} {xs : List α}
    (h : ∀ x ∈ xs, '\n' ∉ render x) (rest : List Char) :
    (xs.flatMap (fun x => render x ++ ['\n']) ++ rest).splitOn '\n' =
      xs.map render ++ rest.splitOn '\n' := by
  induction xs with
  | nil => rfl
  | cons x xs ih =>
    have hx := h x List.mem_cons_self
    have hcons : (x :: xs).flatMap (fun x => render x ++ ['\n']) ++ rest =
        render x ++ '\n' :: (xs.flatMap (fun x => render x ++ ['\n']) ++ rest) := by
      simp
    rw [hcons, List.splitOn_append_cons_self_of_not_mem hx,
      ih fun y hy => h y (List.mem_cons_of_mem _ hy)]
    rfl

/-- And each is read. -/
theorem mapM_lines {α β : Type} {render : α → List Char} {read : List Char → Option β} {g : α → β}
    {xs : List α} (h : ∀ x ∈ xs, read (render x) = some (g x)) (rest : List (List Char)) :
    (xs.map render ++ rest).mapM read = (rest.mapM read).map (xs.map g ++ ·) := by
  induction xs with
  | nil => cases h' : rest.mapM read <;> simp [h']
  | cons x xs ih =>
    rw [List.map_cons, List.cons_append, List.mapM_cons, ih fun y hy => h y (List.mem_cons_of_mem _ hy),
      h x List.mem_cons_self]
    cases h' : rest.mapM read <;> simp

theorem splitOn_render {lines : List Line} (h : ∀ line ∈ lines, line.Fits) (rest : List Char) :
    (render lines ++ rest).splitOn '\n' = lines.map Line.render ++ rest.splitOn '\n' :=
  splitOn_lines (fun line hline => (h line hline).not_mem) rest

theorem mapM_read {lines : List Line} (h : ∀ line ∈ lines, line.Fits) (rest : List (List Char)) :
    (lines.map Line.render ++ rest).mapM Line.read = (rest.mapM Line.read).map (lines ++ ·) := by
  have hlines := mapM_lines (g := id) (fun line hline => Line.read_render (h line hline)) rest
  rwa [List.map_id] at hlines

/-- What is written is read back, and the blank end. -/
theorem read_render {lines : List Line} (h : ∀ line ∈ lines, line.Fits) :
    read (render lines) = some (lines ++ [.blank]) := by
  have := splitOn_render h []
  rw [List.append_nil] at this
  rw [read, this, mapM_read h]
  rfl

/-! ## What is not read -/

/-- A string ends at a character that may not stand in it. -/
theorem readBody_blocked (h : text.all allowed = true) {rest : List Char}
    (hrest : ∀ c, rest.head? = some c → allowed c = false) :
    readBody (escape text ++ rest) = none := by
  induction text with
  | nil =>
    cases rest with
    | nil => rfl
    | cons c rest =>
      have hc : allowed c = false := hrest c rfl
      show readBody (c :: rest) = none
      rw [readBody.eq_def]
      split
      · rfl
      · next heq =>
        obtain ⟨rfl, -⟩ := List.cons.inj heq
        exact absurd hc (by decide)
      · next heq =>
        obtain ⟨rfl, -⟩ := List.cons.inj heq
        exact absurd hc (by decide)
      · next heq =>
        obtain ⟨rfl, -⟩ := List.cons.inj heq
        rw [hc]
        rfl
  | cons c text ih =>
    obtain ⟨hc, htext⟩ := Bool.and_eq_true_iff.1 (by simpa only [List.all_cons] using h)
    rw [escape, List.flatMap_cons]
    by_cases hb : c = '\\'
    · subst hb
      show readBody ('\\' :: '\\' :: (escape text ++ rest)) = _
      rw [readBody, ih htext]
      rfl
    · by_cases hq : c = '"'
      · subst hq
        show readBody ('\\' :: '"' :: (escape text ++ rest)) = _
        rw [readBody, ih htext]
        rfl
      · rw [if_neg (by simp [hb, hq])]
        show readBody (c :: (escape text ++ rest)) = _
        rw [readBody.eq_def]
        split
        · next heq => cases heq
        · next heq => exact absurd (List.cons.inj heq).1 hq
        · next heq => exact absurd (List.cons.inj heq).1 hb
        · next heq =>
          obtain ⟨rfl, rfl⟩ := List.cons.inj heq
          rw [if_pos hc, ih htext]
          rfl

/-- A document with such a string is not read. -/
theorem read_broken {document : List Char} (h : Broken document) : read document = none := by
  obtain ⟨lines, key, body, rest, c, hlines, hne, hbare, hbody, hc, rfl⟩ := h
  -- the line of the string ends at its character, or goes on with it
  obtain ⟨more, others, hsplit, hmore⟩ : ∃ more others,
      (key ++ (' ' :: '=' :: ' ' :: '"' :: (escape body ++ c :: rest))).splitOn '\n' =
        (key ++ (' ' :: '=' :: ' ' :: '"' :: (escape body ++ more))) :: others ∧
      ∀ d, more.head? = some d → allowed d = false := by
    have hstart (more : List Char) (hm : '\n' ∉ more) :
        '\n' ∉ key ++ (' ' :: '=' :: ' ' :: '"' :: (escape body ++ more)) := by
      simp only [List.mem_append, List.mem_cons, not_or]
      refine ⟨fun hk => isBare_ne_break (List.all_eq_true.1 hbare _ hk) rfl, by decide, by decide,
        by decide, by decide, fun hb => ?_, hm⟩
      rcases mem_escape hb with hb | hb
      · exact allowed_ne_break (List.all_eq_true.1 hbody _ hb) rfl
      · exact absurd hb (by decide)
    have hassoc (more after : List Char) :
        key ++ (' ' :: '=' :: ' ' :: '"' :: (escape body ++ (more ++ after))) =
          key ++ (' ' :: '=' :: ' ' :: '"' :: (escape body ++ more)) ++ after := by
      simp
    by_cases hbreak : c = '\n'
    · subst hbreak
      refine ⟨[], rest.splitOn '\n', ?_, by simp⟩
      rw [← List.splitOn_append_cons_self_of_not_mem (hstart [] (by simp)), ← hassoc]
      rfl
    · by_cases hrest : '\n' ∈ rest
      · obtain ⟨before, after, rfl, hbefore⟩ := List.eq_append_cons_of_mem hrest
        refine ⟨c :: before, after.splitOn '\n', ?_, fun d hd => ?_⟩
        · rw [← List.splitOn_append_cons_self_of_not_mem (hstart _ ?_), ← hassoc]
          · rfl
          · simp [hbefore, Ne.symm hbreak]
        · cases hd
          exact hc
      · refine ⟨c :: rest, [], List.splitOn_eq_singleton (hstart _ ?_), fun d hd => ?_⟩
        · simp [hrest, Ne.symm hbreak]
        · cases hd
          exact hc
  rw [read, splitOn_render hlines, hsplit, mapM_read hlines, List.mapM_cons, Line.read_pair hne hbare]
  have hvalue : Value.read ('"' :: (escape body ++ more)) = none := by
    rw [Value.read, readBody_blocked hbody hmore]
    rfl
  rw [hvalue]
  rfl

theorem Line.Fits.formed {line : Line} (h : line.Fits) : line.Formed := by
  cases line with
  | blank => trivial
  | header name => exact h
  | pair key value =>
    cases value with
    | text value => exact ⟨h.1, h.2.1, trivial⟩
    | number value => exact h

theorem Broken.cons {line : Line} (h : line.Fits) {document : List Char}
    (hbroken : Broken document) : Broken (line.render ++ '\n' :: document) := by
  obtain ⟨lines, key, body, rest, c, hlines, hne, hbare, hbody, hc, rfl⟩ := hbroken
  refine ⟨line :: lines, key, body, rest, c, List.forall_mem_cons.2 ⟨h, hlines⟩, hne, hbare, hbody, hc,
    ?_⟩
  simp [render]

/-- A text with a character that may not stand in a string breaks the document. -/
theorem Line.broken {line : Line} (h : line.Formed) (hfits : ¬ line.Fits) (rest : List Char) :
    Broken (line.render ++ rest) := by
  cases line with
  | blank => exact absurd trivial hfits
  | header name => exact absurd h hfits
  | pair key value =>
    obtain ⟨hne, hbare, hsized⟩ := h
    cases value with
    | number value => exact absurd ⟨hne, hbare, hsized⟩ hfits
    | text value =>
      have hvalue : ¬ value.all allowed = true := fun hall => hfits ⟨hne, hbare, hall⟩
      obtain ⟨c, more, hdrop⟩ : ∃ c more, value.dropWhile allowed = c :: more :=
        List.exists_cons_of_ne_nil fun hnil => hvalue <| by
          rw [← List.takeWhile_append_dropWhile (p := allowed) (l := value), hnil, List.append_nil]
          exact List.all_takeWhile
      have hc : allowed c = false := by
        have := List.head?_dropWhile_not allowed value
        rw [hdrop] at this
        simpa using this
      have hspecial : ¬ (c = '\\' ∨ c = '"') := by
        rintro (rfl | rfl)
        · exact absurd hc (by decide)
        · exact absurd hc (by decide)
      refine ⟨[], key, value.takeWhile allowed, escape more ++ '"' :: rest, c, fun _ h => (by cases h),
        hne, hbare, List.all_takeWhile, hc, ?_⟩
      have hparts : value = value.takeWhile allowed ++ c :: more := by
        rw [← hdrop, List.takeWhile_append_dropWhile]
      have hescape : escape value = escape (value.takeWhile allowed) ++ c :: escape more :=
        calc escape value = escape (value.takeWhile allowed ++ c :: more) := congrArg escape hparts
          _ = escape (value.takeWhile allowed) ++ escape (c :: more) := escape_append _ _
          _ = escape (value.takeWhile allowed) ++ c :: escape more := by
            rw [escape, escape, List.flatMap_cons, if_neg hspecial]
            rfl
      rw [Line.render, Value.render, hescape]
      simp [Toml.render]

/-- What is written is read back or broken, line by line. -/
theorem broken_render {lines : List Line} (h : ∀ line ∈ lines, line.Formed)
    (hfits : ¬ ∀ line ∈ lines, line.Fits) : Broken (render lines) := by
  induction lines with
  | nil => exact absurd (fun _ h => (by cases h)) hfits
  | cons line lines ih =>
    by_cases hline : line.Fits
    · have hrest : ¬ ∀ line ∈ lines, line.Fits := fun hall =>
        hfits (List.forall_mem_cons.2 ⟨hline, hall⟩)
      have := (ih (fun l hl => h l (List.mem_cons_of_mem _ hl)) hrest).cons hline
      simpa [render] using this
    · have := Line.broken (h line List.mem_cons_self) hline ('\n' :: render lines)
      simpa [render] using this

end

/-! ## Tables -/

/-- The keys of a table, in the order in which they are written. -/
abbrev Table := List (List Char × Value)

/-- The table at the top of a document, and the tables after it with the arrays they belong to. -/
def split : List Line → Table × List (List Char × Table)
  | [] => ([], [])
  | .blank :: rest => split rest
  | .pair key value :: rest => ((key, value) :: (split rest).1, (split rest).2)
  | .header name :: rest => ([], (name, (split rest).1) :: (split rest).2)

/-- The text of a key. -/
def Table.text (table : Table) (key : String) : Option String :=
  match table.lookup key.toList with
  | some (.text value) => some (String.ofList value)
  | _ => none

/-- The number of a key. -/
def Table.number (table : Table) (key : String) : Option ℕ :=
  match table.lookup key.toList with
  | some (.number value) => some value
  | _ => none

/-- Whether a table has no key twice, and no other than these. -/
def Table.only (table : Table) (keys : List String) : Bool :=
  let present := table.map Prod.fst
  present.Nodup ∧ ∀ key ∈ present, key ∈ keys.map String.toList

/-- A trailing blank line belongs to no table. -/
theorem split_append_blank (lines : List Line) : split (lines ++ [.blank]) = split lines := by
  induction lines with
  | nil => rfl
  | cons line lines ih => cases line <;> simp [split, ih]

/-- What is taken from a TOML crate, which reads a document into an `α` as `ofLines` reads its lines:
what is written of lines that can be carried is read, and what is broken is refused. -/
structure Reader (α : Type) (ofLines : List Line → Option α) where
  fromStr : String → Except String α
  reads : ∀ lines a, (∀ line ∈ lines, line.Fits) → ofLines lines = some a →
    fromStr (String.ofList (render lines)) = .ok a
  refuses : ∀ text, Broken text.toList → ∃ e, fromStr text = .error e

/-- The reader of lines is one itself. -/
def Reader.own {α : Type} (ofLines : List Line → Option α)
    (h : ∀ lines, ofLines (lines ++ [.blank]) = ofLines lines) : Reader α ofLines where
  fromStr text := ((read text.toList).bind ofLines).elim (.error "invalid TOML") .ok
  reads lines a hlines ha := by
    rw [String.toList_ofList, read_render hlines, Option.bind_some, h, ha]
    rfl
  refuses text htext := ⟨_, by
    rw [read_broken htext]
    rfl⟩

end Toml
