import Mathlib.Data.Nat.Notation

/-!
# The words of a shell

The text of a command line is read a character at a time into words, operators and the numbers of
redirections, after the rules of a POSIX shell.

* `Piece`, `Word`: a character of a word is quoted, and stands for itself, or is not, and may act as
  syntax where it stands. `Word.text`: what a word is when nothing in it does.
* `State`, `step`, `lex`: the reader. Special parameters are the only expansions that it reads: it
  gives nothing for a text with a substitution, a named parameter or a quote that is not closed.
* `Reads`: what some text does to the reader. `Reads.append`: texts are read one after the other.
* `reads_single`, `reads_break`: between single quotes each character but the quote is read as
  itself, and the quote is read out of `'\''`.
-/

namespace Paperclip.Shell

/-! ## Words -/

/-- A piece of a word: a character on its own or a quoted one, or a special parameter. -/
inductive Piece where
  | plain (c : Char)
  | quoted (c : Char)
  | param (c : Char) (quoted : Bool)
  deriving DecidableEq

abbrev Word := List Piece

/-- A word that is not quoted. -/
def Word.plain (text : List Char) : Word := text.map .plain

/-- A word of which every character is quoted. -/
def Word.quoted (text : List Char) : Word := text.map .quoted

/-- The character that a piece stands for, unless a pattern, a home directory or a parameter is. -/
def Piece.text : Piece → Option Char
  | .plain c => if c ∈ ['*', '?', '[', '~'] then none else some c
  | .quoted c => some c
  | .param _ _ => none

/-- What a word is, when its quotes are taken away and there is nothing to expand in it. -/
def Word.text (word : Word) : Option (List Char) := word.mapM Piece.text

/-- The digit that a piece is. -/
def Piece.digit : Piece → Option Char
  | .plain c => if c.isDigit then some c else none
  | _ => none

/-- The number that a word is, before a redirection. -/
def Word.number (word : Word) : Option (List Char) :=
  if word = [] then none else word.mapM Piece.digit

inductive Op where
  | amp
  | andIf
  | pipe
  | orIf
  | semi
  | dsemi
  | less
  | great
  | dless
  | dgreat
  | lessAnd
  | greatAnd
  | lessGreat
  | dlessDash
  | clobber
  | lparen
  | rparen
  | newline
  deriving DecidableEq

/-- The operator that a character is. -/
def Op.of (c : Char) : Option Op :=
  if c = '&' then some .amp
  else if c = '|' then some .pipe
  else if c = ';' then some .semi
  else if c = '<' then some .less
  else if c = '>' then some .great
  else if c = '(' then some .lparen
  else if c = ')' then some .rparen
  else if c = '\n' then some .newline
  else none

/-- The operator that one more character makes of an operator. -/
def Op.more (o : Op) (c : Char) : Option Op :=
  if o = .amp ∧ c = '&' then some .andIf
  else if o = .pipe ∧ c = '|' then some .orIf
  else if o = .semi ∧ c = ';' then some .dsemi
  else if o = .less ∧ c = '<' then some .dless
  else if o = .less ∧ c = '&' then some .lessAnd
  else if o = .less ∧ c = '>' then some .lessGreat
  else if o = .great ∧ c = '>' then some .dgreat
  else if o = .great ∧ c = '&' then some .greatAnd
  else if o = .great ∧ c = '|' then some .clobber
  else if o = .dless ∧ c = '-' then some .dlessDash
  else none

inductive Token where
  | word (word : Word)
  | number (digits : List Char)
  | op (o : Op)
  deriving DecidableEq

/-! ## The reader -/

/-- Where the reader is. -/
inductive Mode where
  | plain
  | escaped
  | single
  | double
  | doubleEscaped
  | dollar
  | doubleDollar
  | comment
  | op (o : Op)
  deriving DecidableEq

/-- Where the reader is, and the word that has been begun, if one has. -/
structure State where
  mode : Mode
  word : Option Word
  deriving DecidableEq

/-- Nothing has been begun. -/
def State.start : State := ⟨.plain, none⟩

/-- The word with one more piece. -/
def State.add (s : State) (mode : Mode) (piece : Piece) : State :=
  ⟨mode, some (s.word.getD [] ++ [piece])⟩

/-- The same word, in another mode. It has been begun. -/
def State.enter (s : State) (mode : Mode) : State := ⟨mode, some (s.word.getD [])⟩

/-- The tokens of a word that ends. -/
def ended (word : Option Word) : List Token := word.toList.map .word

/-- The tokens of a word that ends before an operator. -/
def endedBefore (o : Op) (word : Option Word) : List Token :=
  match word.bind Word.number with
  | some digits => if o = .less ∨ o = .great then [.number digits] else ended word
  | none => ended word

/-- A character that is not quoted. -/
def stepPlain (s : State) (c : Char) : Option (List Token × State) :=
  if c = '\'' then some ([], s.enter .single)
  else if c = '"' then some ([], s.enter .double)
  else if c = '\\' then some ([], ⟨.escaped, s.word⟩)
  else if c = '$' then some ([], s.enter .dollar)
  else if c.toNat = 0x60 then none
  else if c = ' ' ∨ c = '\t' then some (ended s.word, .start)
  else
    match Op.of c with
    | some o => some (endedBefore o s.word, ⟨.op o, none⟩)
    | none =>
      if c = '#' ∧ s.word = none then some ([], ⟨.comment, none⟩)
      else some ([], s.add .plain (.plain c))

/-- A character after an operator. -/
def stepOp (o : Op) (c : Char) : Option (List Token × State) :=
  if c = '\\' then none
  else
    match o.more c with
    | some longer => some ([], ⟨.op longer, none⟩)
    | none => (stepPlain .start c).map fun (tokens, s) => (.op o :: tokens, s)

/-- A character between double quotes. -/
def stepDouble (s : State) (c : Char) : Option (List Token × State) :=
  if c = '"' then some ([], s.enter .plain)
  else if c = '\\' then some ([], s.enter .doubleEscaped)
  else if c = '$' then some ([], s.enter .doubleDollar)
  else if c.toNat = 0x60 then none
  else some ([], s.add .double (.quoted c))

/-- Whether a character after a dollar sign is a special parameter. -/
def isSpecial (c : Char) : Bool := c ∈ ['@', '*', '#', '?', '-', '$', '!'] || c.isDigit

/-- What a character does. -/
def step (s : State) (c : Char) : Option (List Token × State) :=
  match s.mode with
  | .plain => stepPlain s c
  | .escaped =>
    if c = '\n' then some ([], ⟨.plain, s.word⟩) else some ([], s.add .plain (.quoted c))
  | .single =>
    if c = '\'' then some ([], s.enter .plain) else some ([], s.add .single (.quoted c))
  | .double => stepDouble s c
  | .doubleEscaped =>
    if c = '\n' then some ([], s.enter .double)
    else if c = '$' ∨ c = '"' ∨ c = '\\' ∨ c.toNat = 0x60 then some ([], s.add .double (.quoted c))
    else some ([], (s.add .double (.quoted '\\')).add .double (.quoted c))
  | .dollar => if isSpecial c then some ([], s.add .plain (.param c false)) else none
  | .doubleDollar => if isSpecial c then some ([], s.add .double (.param c true)) else none
  | .comment => if c = '\n' then some ([], ⟨.op .newline, none⟩) else some ([], s)
  | .op o => stepOp o c

/-- What some text does. -/
def steps (s : State) : List Char → Option (List Token × State)
  | [] => some ([], s)
  | c :: text => do
    let (tokens, next) ← step s c
    let (more, last) ← steps next text
    return (tokens ++ more, last)

/-- The tokens at the end of the text. -/
def finish (s : State) : Option (List Token) :=
  match s.mode with
  | .plain => some (ended s.word)
  | .comment => some []
  | .op o => some [.op o]
  | _ => none

/-- The tokens of a text. -/
def lex (text : List Char) : Option (List Token) := do
  let (tokens, last) ← steps .start text
  let more ← finish last
  return tokens ++ more

/-! ## Reading -/

/-- Some text makes some tokens, and takes the reader from one state to another. -/
def Reads (s : State) (text : List Char) (tokens : List Token) (last : State) : Prop :=
  steps s text = some (tokens, last)

variable {s middle last : State} {text more : List Char} {first second : List Token} {c : Char}
  {word : Word}

theorem Reads.nil (s : State) : Reads s [] [] s := rfl

/-- A character, and what follows it. -/
theorem Reads.cons (h : step s c = some (first, middle)) (hrest : Reads middle text second last) :
    Reads s (c :: text) (first ++ second) last := by
  rw [Reads] at hrest
  simp [Reads, steps, h, hrest]

/-- One text after another. -/
theorem Reads.append (h : Reads s text first middle) (hmore : Reads middle more second last) :
    Reads s (text ++ more) (first ++ second) last := by
  induction text generalizing s first with
  | nil =>
    cases h
    exact hmore
  | cons c text ih =>
    rw [Reads, steps] at h
    obtain ⟨⟨tokens, next⟩, hstep, h⟩ := Option.bind_eq_some_iff.1 h
    obtain ⟨⟨rest, end_⟩, hrest, h⟩ := Option.bind_eq_some_iff.1 h
    cases h
    rw [List.append_assoc]
    exact (ih hrest).cons hstep

/-- The tokens of a text that has been read to its end. -/
theorem Reads.lex (h : Reads .start text first last) (hend : finish last = some second) :
    lex text = some (first ++ second) := by
  rw [Reads] at h
  simp [Shell.lex, h, hend]

/-- A single quote begins a word, or goes on with one. -/
theorem reads_open (word : Option Word) :
    Reads ⟨.plain, word⟩ ['\''] [] ⟨.single, some (word.getD [])⟩ := rfl

/-- Between single quotes a character stands for itself. -/
theorem reads_single (word : Word) (h : c ≠ '\'') :
    Reads ⟨.single, some word⟩ [c] [] ⟨.single, some (word ++ [.quoted c])⟩ := by
  simp [Reads, steps, step, h, State.add]

/-- A quote that is closed, escaped and opened again is a quote. -/
theorem reads_break (word : Word) :
    Reads ⟨.single, some word⟩ ['\'', '\\', '\'', '\''] []
      ⟨.single, some (word ++ [.quoted '\''])⟩ := rfl

theorem reads_close (word : Word) :
    Reads ⟨.single, some word⟩ ['\''] [] ⟨.plain, some word⟩ := rfl

/-- A blank ends a word. -/
theorem reads_blank (word : Option Word) : Reads ⟨.plain, word⟩ [' '] (ended word) .start := by
  simp [Reads, steps, step, stepPlain]

/-! ## Words that are what they are -/

@[simp] theorem Word.text_quoted (text : List Char) : (Word.quoted text).text = some text := by
  induction text with
  | nil => rfl
  | cons c text ih =>
    rw [Word.text, Word.quoted] at ih
    simp [Word.text, Word.quoted, Piece.text, ih]

end Paperclip.Shell
