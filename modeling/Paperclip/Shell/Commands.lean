import Paperclip.Shell.Words

/-!
# The commands of a shell

A command line is simple commands, each of which words and redirections make up, with `;`, `&` or
the end of the line after it.

* `Command`, `Item`: a simple command, and whether the shell waits for it.
* `parse`, `commands`: the commands of some tokens, and of a text. Nothing is given for a line with
  a pipe, a list, a compound command, an assignment or a here-document.
* `parseFrom_words`: words that stand next to each other are words of one command.
-/

namespace Paperclip.Shell

/-- Where the file descriptor of a command goes. -/
structure Redirect where
  number : Option (List Char)
  op : Op
  target : Word
  deriving DecidableEq

structure Command where
  words : List Word
  redirects : List Redirect
  deriving DecidableEq

/-- A command, and whether it is left to run on its own. -/
structure Item where
  command : Command
  background : Bool
  deriving DecidableEq

def Command.empty : Command := ⟨[], []⟩

def Command.addWord (cmd : Command) (word : Word) : Command :=
  { cmd with words := cmd.words ++ [word] }

def Command.addRedirect (cmd : Command) (redirect : Redirect) : Command :=
  { cmd with redirects := cmd.redirects ++ [redirect] }

/-- The operators of redirections, here-documents apart. -/
def Op.redirects (o : Op) : Bool :=
  o ∈ [.less, .great, .dgreat, .lessAnd, .greatAnd, .lessGreat, .clobber]

/-- The words that are not commands, where no part of them is quoted. -/
def RESERVED : List String :=
  ["!", "\x7b", "\x7d", "case", "do", "done", "elif", "else", "esac", "fi", "for", "if", "in",
    "then", "until", "while"]

def Word.reserved (word : Word) : Bool := RESERVED.any fun r => word = Word.plain r.toList

/-- Whether a piece can be part of the name of a variable. -/
def Piece.names : Piece → Bool
  | .plain c => c.isAlphanum || c = '_'
  | _ => false

/-- Whether a word is one that sets a variable, where it comes before the command. -/
def Word.assigns (word : Word) : Bool :=
  word.takeWhile Piece.names ≠ [] && (word.dropWhile Piece.names).head? = some (.plain '=')

/-- The command that has been read, if it is a simple one. -/
def Command.item (cmd : Command) (background : Bool) : Option Item :=
  if cmd = .empty then none
  else if cmd.words.head?.any fun word => word.reserved || word.assigns then none
  else some ⟨cmd, background⟩

/-- The commands of some tokens, after what has been read of the first. -/
def parseFrom : Command → List Token → Option (List Item)
  | cmd, [] => if cmd = .empty then some [] else do return [← cmd.item false]
  | cmd, .word word :: tokens => parseFrom (cmd.addWord word) tokens
  | cmd, .number digits :: .op o :: .word word :: tokens =>
    if o.redirects then parseFrom (cmd.addRedirect ⟨some digits, o, word⟩) tokens else none
  | _, .number _ :: _ => none
  | cmd, .op .semi :: tokens => do return (← cmd.item false) :: (← parseFrom .empty tokens)
  | cmd, .op .amp :: tokens => do return (← cmd.item true) :: (← parseFrom .empty tokens)
  | cmd, .op .newline :: tokens =>
    if cmd = .empty then parseFrom .empty tokens
    else do return (← cmd.item false) :: (← parseFrom .empty tokens)
  | cmd, .op o :: .word word :: tokens =>
    if o.redirects then parseFrom (cmd.addRedirect ⟨none, o, word⟩) tokens else none
  | _, .op _ :: _ => none

def parse (tokens : List Token) : Option (List Item) := parseFrom .empty tokens

/-- The commands of a line. -/
def commands (text : List Char) : Option (List Item) := (lex text).bind parse

variable {cmd : Command} {item : Item} {o : Op} {word : Word} {tokens : List Token}

/-- The number of a descriptor with nothing to redirect is no command. -/
example (digits : List Char) : parseFrom cmd [.number digits] = none := by
  simp [parseFrom]

/-- A command whose first word is neither reserved nor sets a variable. -/
theorem item_of_name (h : (word.reserved || word.assigns) = false)
    (words : List Word) (redirects : List Redirect) (background : Bool) :
    Command.item ⟨word :: words, redirects⟩ background =
      some ⟨⟨word :: words, redirects⟩, background⟩ := by
  simp [Command.item, Command.empty, h]

/-- A redirection, and one of a file descriptor that is named. -/
theorem parseFrom_redirect (h : o.redirects = true) :
    parseFrom cmd (.op o :: .word word :: tokens) =
      parseFrom (cmd.addRedirect ⟨none, o, word⟩) tokens := by
  cases o with
  | less | great | dgreat | lessAnd | greatAnd | lessGreat | clobber =>
    rw [parseFrom, if_pos h] <;> simp
  | _ => cases h

theorem parseFrom_numbered (h : o.redirects = true) (digits : List Char) :
    parseFrom cmd (.number digits :: .op o :: .word word :: tokens) =
      parseFrom (cmd.addRedirect ⟨some digits, o, word⟩) tokens := by
  rw [parseFrom, if_pos h]

theorem parseFrom_semi (h : cmd.item false = some item) :
    parseFrom cmd (.op .semi :: tokens) = (parseFrom .empty tokens).map (item :: ·) := by
  rw [parseFrom, h]
  cases parseFrom .empty tokens <;> rfl

theorem parseFrom_amp (h : cmd.item true = some item) :
    parseFrom cmd (.op .amp :: tokens) = (parseFrom .empty tokens).map (item :: ·) := by
  rw [parseFrom, h]
  cases parseFrom .empty tokens <;> rfl

/-- The end of the line. -/
theorem parseFrom_end (h : cmd.item false = some item) : parseFrom cmd [] = some [item] := by
  have hne : cmd ≠ .empty := by
    rintro rfl
    cases h
  rw [parseFrom, if_neg hne, h]
  rfl

/-- Words that stand next to each other are words of one command. -/
theorem parseFrom_words (cmd : Command) (words : List Word) (tokens : List Token) :
    parseFrom cmd (words.map .word ++ tokens) =
      parseFrom { cmd with words := cmd.words ++ words } tokens := by
  induction words generalizing cmd with
  | nil => simp
  | cons word words ih =>
    rw [List.map_cons, List.cons_append, parseFrom, ih, Command.addWord]
    simp

/-- A line that is nothing but the words of one command. -/
theorem parse_words (h : (word.reserved || word.assigns) = false) (words : List Word) :
    parse ((word :: words).map .word) = some [⟨⟨word :: words, []⟩, false⟩] := by
  have := parseFrom_words .empty (word :: words) []
  rw [List.append_nil] at this
  rw [parse, this]
  exact parseFrom_end (item_of_name h words [] false)

/-- The words of one command that is left to run on its own. -/
theorem parse_words_amp (h : (word.reserved || word.assigns) = false) (words : List Word) :
    parse ((word :: words).map .word ++ [.op .amp]) = some [⟨⟨word :: words, []⟩, true⟩] := by
  rw [parse, parseFrom_words]
  exact parseFrom_amp (item_of_name h words [] true)

end Paperclip.Shell
