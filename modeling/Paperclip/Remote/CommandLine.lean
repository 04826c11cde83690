import Mathlib.Data.List.Infix
import Paperclip.Remote.Detached
import Paperclip.Shell.Commands

/-!
# The command line of a remote command

`ssh` does not hand over arguments: it joins them with blanks, and a shell on the other side reads
the line. So each argument is quoted, and what a detached command is started with twice.

* `shellQuote`, `shellJoin`: quoting a text, and a list of them.
* `SystemSsh.runBlocking`, `SystemSsh.startDetached`: what `ssh` is run with.
* `reads_shellQuote`: whatever word has been begun, a quoted text adds its own characters to it,
  each of them quoted, and nothing else.
* `lex_shellJoin`: the words of a list of texts are the texts.
* `remote_words`: what the shells make of the two command lines.
-/

namespace Paperclip.Remote

open Shell

/-! ## The lines -/

/-- Where the program is on the tablet. -/
def REMOTE_PAPERCTL : String := "/home/root/paperclip/bin/paperctl"

/-- Each quote is closed, escaped and opened again. -/
def replaceQuotes (value : List Char) : List Char :=
  value.flatMap fun c => if c = '\'' then ['\'', '\\', '\'', '\''] else [c]

/-- Single-quotes a value for a remote shell. -/
def shellQuote (value : List Char) : List Char := '\'' :: (replaceQuotes value ++ ['\''])

/-- Joins arguments into one line, each of them quoted. -/
def shellJoin (argv : List String) : List Char :=
  [' '].intercalate (argv.map fun token => shellQuote token.toList)

/-- Who is logged in as: `root`, unless the host says. -/
def sshTarget (host : String) : String :=
  if '@' ∈ host.toList then host else "root@" ++ host

/-- What every `ssh` is run with. -/
def base (host : String) : List String :=
  ["-o", "BatchMode=yes", "-o", "ConnectTimeout=8", sshTarget host]

/-- The line of a command that is waited for. -/
def blockingLine (remote_argv : List String) : List Char :=
  shellJoin (REMOTE_PAPERCTL :: remote_argv)

/-- What the inner shell of a detached command runs. -/
def innerLine (remote_argv : List String) (log_path : String) : List Char :=
  let invocation := shellJoin (REMOTE_PAPERCTL :: remote_argv)
  let log := shellQuote log_path.toList
  invocation ++ " > ".toList ++ log ++ " 2>&1 < /dev/null; echo EXIT=$? >> ".toList ++ log

/-- The line of a detached command. -/
def detachedLine (remote_argv : List String) (log_path : String) : List Char :=
  "setsid sh -c '".toList ++ replaceQuotes (innerLine remote_argv log_path) ++ "' &".toList

/-- What `ssh` is run with for a command that is waited for. -/
def blockingArgs (host : String) (remote_argv : List String) : List String :=
  base host ++ [String.ofList (blockingLine remote_argv)]

/-- What it is run with for a detached one. -/
def detachedArgs (host : String) (remote_argv : List String) (log_path : String) : List String :=
  base host ++ [String.ofList (detachedLine remote_argv log_path)]

/-- Runs `ssh` with some arguments, and gives its exit code: `none` for one that a signal ended. -/
structure SystemSsh where
  run : List String → Except TransportError (Option ℤ)

/-- Runs a remote command, and gives its exit code. -/
def SystemSsh.runBlocking (ssh : SystemSsh) (host : String) (remote_argv : List String) :
    Except TransportError ℤ := do
  let status ← ssh.run (blockingArgs host remote_argv)
  return status.getD (-1)

/-- Starts a remote command that outlives the connection. -/
def SystemSsh.startDetached (ssh : SystemSsh) (host : String) (remote_argv : List String)
    (log_path : String) : Except TransportError Unit := do
  let status ← ssh.run (detachedArgs host remote_argv log_path)
  if status = some 0 then return ()
  else throw (.remoteFailed host (status.getD (-1)))

/-- The line that `ssh` hands over to the remote shell: what comes after the host. -/
def handedOver (host : String) (args : List String) : List Char :=
  [' '].intercalate ((args.drop (base host).length).map String.toList)

/-! ## Quoting -/

/-- Between single quotes, a text in which the quotes were replaced is the text. -/
theorem reads_replaceQuotes (word : Word) (value : List Char) :
    Reads ⟨.single, some word⟩ (replaceQuotes value) []
      ⟨.single, some (word ++ Word.quoted value)⟩ := by
  induction value generalizing word with
  | nil =>
    rw [Word.quoted, List.map_nil, List.append_nil]
    exact Reads.nil _
  | cons c value ih =>
    have hrest := ih (word ++ [.quoted c])
    rw [List.append_assoc] at hrest
    rw [replaceQuotes, List.flatMap_cons]
    split
    · next hc =>
      subst hc
      exact (reads_break word).append hrest
    · next hc => exact (reads_single word hc).append hrest

/-- Whatever word has been begun, a quoted text adds its own characters to it. -/
theorem reads_shellQuote (word : Option Word) (value : List Char) :
    Reads ⟨.plain, word⟩ (shellQuote value) []
      ⟨.plain, some (word.getD [] ++ Word.quoted value)⟩ :=
  (reads_open word).append ((reads_replaceQuotes _ value).append (reads_close _))

example : shellQuote "a'b".toList = "'a'\\''b'".toList := by decide +kernel

/-- The word of an argument. -/
def argWord (token : String) : Word := Word.quoted token.toList

/-- A line of arguments: the words before the last have been read, and the last has been begun. -/
theorem reads_shellJoin (token : String) (argv : List String) :
    Reads .start (shellJoin (token :: argv)) (((token :: argv).dropLast).map (.word ∘ argWord))
      ⟨.plain, some (argWord ((token :: argv).getLast (List.cons_ne_nil _ _)))⟩ := by
  induction argv generalizing token with
  | nil =>
    have : shellJoin [token] = shellQuote token.toList := by simp [shellJoin]
    rw [this]
    exact reads_shellQuote none _
  | cons other argv ih =>
    have : shellJoin (token :: other :: argv) =
        shellQuote token.toList ++ ([' '] ++ shellJoin (other :: argv)) := by
      simp [shellJoin, List.intercalate]
    rw [this]
    exact (reads_shellQuote none _).append ((reads_blank _).append (ih other))

/-- The words before the last, and the last. -/
theorem map_dropLast_concat (token : String) (argv : List String) :
    ((token :: argv).dropLast).map (Token.word ∘ argWord) ++
      [.word (argWord ((token :: argv).getLast (List.cons_ne_nil _ _)))] =
      ((token :: argv).map argWord).map .word := by
  have := congrArg (List.map (Token.word ∘ argWord))
    (List.dropLast_append_getLast (List.cons_ne_nil token argv))
  simpa using this

/-- The words of a line of arguments. -/
theorem lex_shellJoin (token : String) (argv : List String) :
    lex (shellJoin (token :: argv)) = some (((token :: argv).map argWord).map .word) := by
  rw [(reads_shellJoin token argv).lex rfl]
  exact congrArg some (map_dropLast_concat token argv)

/-! ## The two lines -/

/-- What is read after the arguments of a detached command. -/
theorem reads_redirects (word : Word) (log : List Char) :
    Reads ⟨.plain, some word⟩
      (" > ".toList ++ (shellQuote log ++ (" 2>&1 < /dev/null; echo EXIT=$? >> ".toList ++
        shellQuote log)))
      [.word word, .op .great, .word (Word.quoted log), .number ['2'], .op .greatAnd,
        .word (Word.plain "1".toList), .op .less, .word (Word.plain "/dev/null".toList), .op .semi,
        .word (Word.plain "echo".toList),
        .word (Word.plain "EXIT=".toList ++ [.param '?' false]), .op .dgreat]
      ⟨.plain, some (Word.quoted log)⟩ := by
  have hgreat : Reads ⟨.plain, some word⟩ " > ".toList [.word word, .op .great] .start := by
    rfl
  have hlog := reads_shellQuote none log
  have hrest : Reads ⟨.plain, some (Word.quoted log)⟩
      " 2>&1 < /dev/null; echo EXIT=$? >> ".toList
      [.word (Word.quoted log), .number ['2'], .op .greatAnd,
        .word (Word.plain "1".toList), .op .less, .word (Word.plain "/dev/null".toList), .op .semi,
        .word (Word.plain "echo".toList),
        .word (Word.plain "EXIT=".toList ++ [.param '?' false]), .op .dgreat] .start := by
    rfl
  exact hgreat.append (hlog.append (hrest.append hlog))

/-- The words of a command with some arguments. -/
def argWords (remote_argv : List String) : List Word :=
  (REMOTE_PAPERCTL :: remote_argv).map argWord

/-- The redirections of a detached command. -/
def toLog (log_path : String) : List Redirect :=
  [⟨none, .great, argWord log_path⟩, ⟨some ['2'], .greatAnd, Word.plain "1".toList⟩,
    ⟨none, .less, Word.plain "/dev/null".toList⟩]

/-- The command that appends the exit code. -/
def echoExit (log_path : String) : Command where
  words := [Word.plain "echo".toList, Word.plain "EXIT=".toList ++ [.param '?' false]]
  redirects := [⟨none, .dgreat, argWord log_path⟩]

/-- The names of the three commands are neither reserved words nor set a variable. -/
theorem paperctl_names :
    ((argWord REMOTE_PAPERCTL).reserved || (argWord REMOTE_PAPERCTL).assigns) = false := by
  decide +kernel

theorem setsid_names : ((Word.plain "setsid".toList).reserved ||
    (Word.plain "setsid".toList).assigns) = false := by
  decide +kernel

theorem echo_names : ((Word.plain "echo".toList).reserved ||
    (Word.plain "echo".toList).assigns) = false := by
  decide +kernel

theorem lex_innerLine (remote_argv : List String) (log_path : String) :
    lex (innerLine remote_argv log_path) = some ((argWords remote_argv).map .word ++
      [.op .great, .word (argWord log_path), .number ['2'], .op .greatAnd,
        .word (Word.plain "1".toList), .op .less, .word (Word.plain "/dev/null".toList), .op .semi,
        .word (Word.plain "echo".toList),
        .word (Word.plain "EXIT=".toList ++ [.param '?' false]), .op .dgreat,
        .word (argWord log_path)]) := by
  have hread := (reads_shellJoin REMOTE_PAPERCTL remote_argv).append
    (reads_redirects _ log_path.toList)
  have hline : innerLine remote_argv log_path = shellJoin (REMOTE_PAPERCTL :: remote_argv) ++
      (" > ".toList ++ (shellQuote log_path.toList ++
        (" 2>&1 < /dev/null; echo EXIT=$? >> ".toList ++ shellQuote log_path.toList))) := by
    simp only [innerLine, List.append_assoc]
  rw [hline, hread.lex rfl, argWords, ← map_dropLast_concat]
  simp [argWord, ended]

/-- What the inner shell runs: the command with its arguments, and then the `echo`. -/
theorem commands_innerLine (remote_argv : List String) (log_path : String) :
    commands (innerLine remote_argv log_path) =
      some [⟨⟨argWords remote_argv, toLog log_path⟩, false⟩, ⟨echoExit log_path, false⟩] := by
  rw [commands, lex_innerLine, Option.bind_some, parse, parseFrom_words]
  have hfirst := item_of_name paperctl_names (remote_argv.map argWord) (toLog log_path) false
  have hecho := item_of_name echo_names [Word.plain "EXIT=".toList ++ [.param '?' false]]
    [⟨none, .dgreat, argWord log_path⟩] false
  rw [parseFrom_redirect rfl, parseFrom_numbered rfl, parseFrom_redirect rfl]
  refine (parseFrom_semi hfirst).trans ?_
  rw [parseFrom, parseFrom, parseFrom_redirect rfl]
  exact congrArg (Option.map _) (parseFrom_end hecho)

/-- What the outer shell reads, whatever the inner one is to run. -/
theorem lex_outer (inner : List Char) :
    lex ("setsid sh -c '".toList ++ (replaceQuotes inner ++ "' &".toList)) =
      some [.word (Word.plain "setsid".toList), .word (Word.plain "sh".toList),
        .word (Word.plain "-c".toList), .word (Word.quoted inner), .op .amp] := by
  have hopen : Reads .start "setsid sh -c '".toList [.word (Word.plain "setsid".toList),
      .word (Word.plain "sh".toList), .word (Word.plain "-c".toList)] ⟨.single, some []⟩ := by
    rfl
  have hclose (word : Word) : Reads ⟨.single, some word⟩ "' &".toList [.word word]
      ⟨.op .amp, none⟩ := by
    rfl
  have hread := hopen.append ((reads_replaceQuotes [] inner).append (hclose _))
  exact hread.lex rfl

/-- What the outer shell runs: the inner one, with its line as one word. -/
theorem commands_outer (inner : List Char) :
    commands ("setsid sh -c '".toList ++ (replaceQuotes inner ++ "' &".toList)) =
      some [⟨⟨[Word.plain "setsid".toList, Word.plain "sh".toList, Word.plain "-c".toList,
        Word.quoted inner], []⟩, true⟩] := by
  rw [commands, lex_outer, Option.bind_some]
  exact parse_words_amp setsid_names [_, _, _]

theorem commands_detachedLine (remote_argv : List String) (log_path : String) :
    commands (detachedLine remote_argv log_path) =
      some [⟨⟨[Word.plain "setsid".toList, Word.plain "sh".toList, Word.plain "-c".toList,
        Word.quoted (innerLine remote_argv log_path)], []⟩, true⟩] := by
  have hline : detachedLine remote_argv log_path = "setsid sh -c '".toList ++
      (replaceQuotes (innerLine remote_argv log_path) ++ "' &".toList) :=
    List.append_assoc _ _ _
  exact (congrArg commands hline).trans (commands_outer _)

theorem commands_blockingLine (remote_argv : List String) :
    commands (blockingLine remote_argv) = some [⟨⟨argWords remote_argv, []⟩, false⟩] := by
  rw [commands, blockingLine, lex_shellJoin, Option.bind_some, List.map_cons]
  exact parse_words paperctl_names _

/-- One argument after the host is handed over as it is. -/
theorem handedOver_base (host : String) (line : List Char) :
    handedOver host (base host ++ [String.ofList line]) = line := by
  simp [handedOver]

/-- Words of which every character is quoted are the texts that they were made from. -/
theorem text_argWords (remote_argv : List String) : (argWords remote_argv).mapM Word.text =
    some ((REMOTE_PAPERCTL :: remote_argv).map String.toList) := by
  rw [argWords]
  generalize REMOTE_PAPERCTL :: remote_argv = argv
  induction argv with
  | nil => rfl
  | cons token argv ih => simp [argWord, ih]

/-- The remote shell sees the program and the arguments, each as one word of which every character
is quoted. A detached command is one such word to the outer shell, and in it the inner one sees the
program and the arguments, redirected to the log, and then the `echo`. -/
theorem remote_words (host : String) (remote_argv : List String) (log_path : String) :
    (argWords remote_argv).mapM Word.text =
        some ((REMOTE_PAPERCTL :: remote_argv).map String.toList) ∧
      commands (handedOver host (blockingArgs host remote_argv)) =
        some [⟨⟨argWords remote_argv, []⟩, false⟩] ∧
      ∃ inner, commands (handedOver host (detachedArgs host remote_argv log_path)) =
          some [⟨⟨[Word.plain "setsid".toList, Word.plain "sh".toList, Word.plain "-c".toList,
            Word.quoted inner], []⟩, true⟩] ∧
        (Word.quoted inner).text = some inner ∧
        commands inner =
          some [⟨⟨argWords remote_argv, toLog log_path⟩, false⟩, ⟨echoExit log_path, false⟩] := by
  refine ⟨text_argWords remote_argv, ?_, innerLine remote_argv log_path, ?_, Word.text_quoted _,
    commands_innerLine remote_argv log_path⟩
  · rw [blockingArgs, handedOver_base]
    exact commands_blockingLine remote_argv
  · rw [detachedArgs, handedOver_base]
    exact commands_detachedLine remote_argv log_path

end Paperclip.Remote
