import Paperclip.Host.Supervisor
import Paperclip.Text.Lines
import Paperclip.Text.Utf8

/-!
# A detached command

A command that outlives its connection writes to a log, to which the remote shell appends `EXIT=`
and the exit code when the command is over. The waiting side polls the log.

* `pollDetached`, `runOpenWith`: what a poll reads out of the log, and the loop around it.
* `Run`, `Moment`: what a command writes, and the moments at which its log is read.
* `Marker`: what a line has to begin with, to be read as a status at some moment.
  `forged_of_status`, `exists_forged`: a text of which some first part gives a status is one with
  such a line, and the other way round.
* `Run.Faithful`: what a poll gives is the exit code of the command, and it gives it.
* `faithful_iff`: which commands that is so for.
-/

namespace Paperclip.Remote

open Files Packages Text
open Host.Supervisor (parseI32)

/-! ## The waiting side -/

/-- Why a remote command was not run, or not seen to end. Durations are in milliseconds. -/
inductive TransportError where
  | spawn (command : String)
  | remoteFailed (host : String) (exit_code : ℤ)
  | detachedTimedOut (host log_path : String) (waited : ℕ)
  deriving DecidableEq

/-- What is added to the time for which a session holds. -/
def DETACH_MARGIN : ℕ := 120 * 1000

/-- What the line of a status starts with. -/
def EXIT : List Char := ['E', 'X', 'I', 'T', '=']

/-- The status that a line gives. -/
def status (line : List Char) : Option ℤ :=
  (stripPrefix EXIT line).bind fun code => parseI32 (String.ofList (trim code))

/-- What a poll reads: the text of the log, and the status that the last line with one gives. -/
def pollDetached (log : Bytes) : List Char × Option ℤ :=
  (lossy log, (lines (lossy log)).reverse.findSome? status)

/-- What the waiting side does. -/
inductive Act where
  | print (text : List Char)
  | sleep (duration : ℕ)
  deriving DecidableEq

/-- What a turn of the loop is given: what the poll answered, and the time after it. -/
structure Turn where
  poll : Except TransportError (List Char × Option ℤ)
  now : ℕ

/-- What is waited for. -/
structure Wait where
  host : String
  log_path : String
  waited : ℕ
  deadline : ℕ

/-- The loop: what it does, and what it returns, if the turns get it so far. -/
def Wait.loop (wait : Wait) (backoff : ℕ) : List Turn →
    List Act × Option (Except TransportError Unit)
  | [] => ([], none)
  | turn :: turns =>
    match turn.poll with
    | .error e => ([], some (.error e))
    | .ok (text, some code) =>
      ([.print text], some (if code ≠ 0 then .error (.remoteFailed wait.host code) else .ok ()))
    | .ok (_, none) =>
      let remaining := wait.deadline - turn.now
      if remaining = 0 then
        ([], some (.error (.detachedTimedOut wait.host wait.log_path wait.waited)))
      else
        let rest := wait.loop (min (backoff * 2) (10 * 1000)) turns
        (.sleep (min backoff remaining) :: rest.1, rest.2)

/-- Runs a command detached, and waits for it. `started` is what starting it answered, and `now` the
time after it. -/
def runOpenWith (host : String) (hold pid : ℕ) (started : Except TransportError Unit) (now : ℕ)
    (turns : List Turn) : List Act × Option (Except TransportError Unit) :=
  match started with
  | .error e => ([], some (.error e))
  | .ok () =>
    Wait.loop {
      host := host
      log_path := "/tmp/paperclip-open-" ++ toString pid ++ ".log"
      waited := hold + DETACH_MARGIN
      deadline := now + hold + DETACH_MARGIN } 500 turns

/-! ## The remote side -/

/-- What a detached command does to its log: what was there before the shell emptied it, what the
command writes, and the code that it ends with. -/
structure Run where
  stale : Bytes
  text : Bytes
  code : UInt8

/-- The line that `echo` appends. -/
def Run.line (run : Run) : List Char := EXIT ++ Nat.toDigits 10 run.code.toNat ++ ['\n']

/-- Its bytes. -/
def Run.marker (run : Run) : Bytes := run.line.map fun c => UInt8.ofNat c.toNat

/-- When the log is read: before the shell emptied it, when the command has written something, or
when it is over and something of the marker is there. -/
inductive Moment where
  | before
  | running (written : Bytes)
  | ended (marked : Bytes)

/-- The moments of a command. -/
def Run.Has (run : Run) : Moment → Prop
  | .before => True
  | .running written => written <+: run.text
  | .ended marked => marked <+: run.marker

/-- What is read of the log. -/
def Run.log (run : Run) : Moment → Bytes
  | .before => run.stale
  | .running written => written
  | .ended marked => run.text ++ marked

/-- Whether the command is over. -/
def Moment.Over : Moment → Prop
  | .ended _ => True
  | _ => False

/-- Whether a reader sees none of the marker, or the whole. -/
def Run.Whole (run : Run) : Moment → Prop
  | .ended marked => marked = [] ∨ marked = run.marker
  | _ => True

/-- A status is read of a command that is over, and is its own; and it is read when the marker is
there. -/
structure Run.Right (run : Run) (moment : Moment) : Prop where
  own : ∀ code, (pollDetached (run.log moment)).2 = some code →
    moment.Over ∧ code = run.code.toNat
  seen : moment = .ended run.marker → (pollDetached (run.log moment)).2.isSome

/-- The polls of some turns, as they answer when the log is read at some moments. -/
def Run.Polls (run : Run) (moments : Moment → Prop) (turns : List Turn) : Prop :=
  ∀ turn ∈ turns, ∀ read, turn.poll = .ok read →
    ∃ moment, run.Has moment ∧ moments moment ∧ read = pollDetached (run.log moment)

/-- At all these moments the right status is read, and success is only reported for a command that
exited with 0. -/
structure Run.Faithful (run : Run) (moments : Moment → Prop) : Prop where
  right : ∀ moment, run.Has moment → moments moment → run.Right moment
  success : ∀ host hold pid started now turns, run.Polls moments turns →
    (runOpenWith host hold pid started now turns).2 = some (.ok ()) → run.code = 0

/-- What a line begins with that is read as a status at some moment: the marker, white space, a sign
or none, and a digit. -/
def Marker (first : List Char) : Prop :=
  ∃ blank sign d, first = EXIT ++ (blank ++ (sign ++ [d])) ∧
    (∀ c ∈ blank, isWhitespace c = true) ∧ (sign = [] ∨ sign = ['+'] ∨ sign = ['-']) ∧
    isAsciiDigit d = true

/-- A text with a line that begins so. -/
def Forged (text : List Char) : Prop :=
  ∃ line ∈ lines text, ∃ first, Marker first ∧ first <+: line

/-- A command that writes whole lines, none of which begins like a status, to a log that had no
status in it. -/
structure Run.Plain (run : Run) : Prop where
  stale : ∀ line ∈ lines (lossy run.stale), status line = none
  ended : lossy run.text = [] ∨ (lossy run.text).getLast? = some '\n'
  unforged : ¬ Forged (lossy run.text)

/-! ## Statuses -/

theorem isAsciiDigit_iff {c : Char} : isAsciiDigit c = true ↔ 48 ≤ c.toNat ∧ c.toNat ≤ 57 := by
  refine Iff.trans ?_ Char.isDigit_iff_toNat
  simp only [isAsciiDigit, Char.isDigit, Bool.and_eq_true, decide_eq_true_eq, Char.le_def]

/-- What a number starts with. -/
theorem parseU64_some {text : List Char} {n : ℕ} (h : parseU64 text = some n) :
    ∃ sign d digits, text = sign ++ d :: digits ∧ (sign = [] ∨ sign = ['+']) ∧
      isAsciiDigit d = true := by
  simp only [parseU64] at h
  split at h
  · next hok =>
    obtain ⟨hne, hall, -⟩ := hok
    obtain ⟨d, digits, hdigits⟩ := List.exists_cons_of_ne_nil hne
    rw [hdigits, List.all_cons, Bool.and_eq_true] at hall
    rw [stripPrefix] at hdigits
    split at hdigits
    · next hsign =>
      obtain ⟨rest, rfl⟩ := List.isPrefixOf_iff_prefix.1 hsign
      refine ⟨['+'], d, digits, ?_, .inr rfl, hall.1⟩
      simpa using hdigits
    · exact ⟨[], d, digits, hdigits, .inl rfl, hall.1⟩
  · cases h

/-- A digit is a number. -/
theorem parseU64_digit {d : Char} (h : isAsciiDigit d = true) :
    parseU64 [d] = some (d.toNat - 48) := by
  have hrange := isAsciiDigit_iff.1 h
  have hsign : stripPrefix ['+'] [d] = none := by
    rw [stripPrefix, if_neg]
    intro hp
    have : '+' = d := by simpa using List.isPrefixOf_iff_prefix.1 hp
    subst this
    simp at hrange
  simp only [parseU64, hsign, Option.getD_none]
  rw [if_pos ⟨by simp, by simpa using h, by simp; omega⟩]
  simp

/-- What a number with a sign starts with. -/
theorem parseI32_some {text : List Char} {n : ℤ} (h : parseI32 (String.ofList text) = some n) :
    ∃ sign d digits, text = sign ++ d :: digits ∧ (sign = [] ∨ sign = ['+'] ∨ sign = ['-']) ∧
      isAsciiDigit d = true := by
  unfold Host.Supervisor.parseI32 at h
  rw [String.toList_ofList] at h
  split at h
  · next digits =>
    split at h
    · cases h
    · next hplus =>
      obtain ⟨m, hm, -⟩ := Option.bind_eq_some_iff.1 h
      obtain ⟨sign, d, rest, rfl, hsign, hd⟩ := parseU64_some hm
      rcases hsign with rfl | rfl
      · exact ⟨['-'], d, rest, rfl, .inr (.inr rfl), hd⟩
      · exact absurd rfl hplus
  · obtain ⟨m, hm, -⟩ := Option.bind_eq_some_iff.1 h
    obtain ⟨sign, d, rest, rfl, hsign, hd⟩ := parseU64_some hm
    exact ⟨sign, d, rest, rfl, hsign.imp_right .inl, hd⟩

/-- A number without a minus. -/
theorem parseI32_of_head {text : List Char} (h : text.head? ≠ some '-') :
    parseI32 (String.ofList text) =
      (parseU64 text).bind fun n => if n ≤ 2147483647 then some (n : ℤ) else none := by
  unfold Host.Supervisor.parseI32
  rw [String.toList_ofList]
  split
  · exact absurd rfl h
  · rfl

/-- A digit is a number, and so it is after a sign. -/
theorem parseI32_digit {d : Char} (h : isAsciiDigit d = true) :
    parseI32 (String.ofList [d]) = some ((d.toNat - 48 : ℕ) : ℤ) := by
  have hrange := isAsciiDigit_iff.1 h
  have hhead : [d].head? ≠ some '-' := by
    rintro ⟨⟩
    simp at hrange
  rw [parseI32_of_head hhead, parseU64_digit h, Option.bind_some, if_pos (by omega)]

theorem parseI32_sign {sign : List Char} {d : Char} (h : isAsciiDigit d = true)
    (hsign : sign = [] ∨ sign = ['+'] ∨ sign = ['-']) :
    (parseI32 (String.ofList (sign ++ [d]))).isSome := by
  have hrange := isAsciiDigit_iff.1 h
  rcases hsign with rfl | rfl | rfl
  · rw [List.nil_append, parseI32_digit h]
    rfl
  · have hplus : parseU64 ['+', d] = parseU64 [d] := by
      have hstrip : stripPrefix ['+'] ['+', d] = some [d] := rfl
      rw [parseU64_digit h]
      simp only [parseU64, hstrip, Option.getD_some]
      rw [if_pos ⟨by simp, by simpa using h, by simp; omega⟩]
      simp
    rw [List.singleton_append, parseI32_of_head (by simp), hplus, parseU64_digit h,
      Option.bind_some, if_pos (by omega)]
    rfl
  · unfold Host.Supervisor.parseI32
    rw [String.toList_ofList, List.singleton_append]
    have hne : [d].head? ≠ some '+' := by
      rintro ⟨⟩
      simp at hrange
    simp only [hne, parseU64_digit h, Option.bind_some]
    rw [if_neg (by simp), if_pos (by omega)]
    rfl

/-- The digits of a number are the number. -/
theorem parseI32_toDigits {n : ℕ} (h : n ≤ 2147483647) :
    parseI32 (String.ofList (Nat.toDigits 10 n)) = some (n : ℤ) := by
  have hhead : (Nat.toDigits 10 n).head? ≠ some '-' := by
    intro hd
    have := mem_toDigits (List.mem_of_head? hd)
    simp [Char.isDigit] at this
  rw [parseI32_of_head hhead, parseU64_toDigits (by omega), Option.bind_some, if_pos h]

theorem status_append (code : List Char) :
    status (EXIT ++ code) = parseI32 (String.ofList (trim code)) := by
  rw [status, stripPrefix, if_pos (List.isPrefixOf_iff_prefix.2 (List.prefix_append _ _)),
    List.drop_left]
  rfl

/-- A line that gives a status begins like one. -/
theorem marker_of_status {line : List Char} {code : ℤ} (h : status line = some code) :
    ∃ first, Marker first ∧ first <+: line := by
  rw [status, stripPrefix] at h
  split at h
  · next hp =>
    obtain ⟨text, rfl⟩ := List.isPrefixOf_iff_prefix.1 hp
    rw [List.drop_left, Option.bind_some] at h
    obtain ⟨sign, d, digits, htrim, hsign, hd⟩ := parseI32_some h
    refine ⟨_, ⟨text.takeWhile isWhitespace, sign, d, rfl,
      List.all_eq_true.1 List.all_takeWhile, hsign, hd⟩, ?_⟩
    obtain ⟨rest, hrest⟩ := trim_isPrefix text
    have htext := List.takeWhile_append_dropWhile (p := isWhitespace) (l := text)
    rw [← hrest, htrim] at htext
    refine ⟨digits ++ rest, Eq.trans ?_ (congrArg (EXIT ++ ·) htext)⟩
    simp
  · cases h

/-- And what begins like one is one, if that is all there is. -/
theorem status_marker {first : List Char} (h : Marker first) : (status first).isSome := by
  obtain ⟨blank, sign, d, rfl, hblank, hsign, hd⟩ := h
  have hspace {c : Char} (h : isAsciiDigit c = true) : isWhitespace c = false :=
    isWhitespace_of_isDigit (Char.isDigit_iff_toNat.2 (isAsciiDigit_iff.1 h))
  have htrim : trim (blank ++ (sign ++ [d])) = trim (sign ++ [d]) := by
    rw [trim, List.dropWhile_append_of_pos hblank]
    rfl
  rw [status_append, htrim, trim_eq]
  · exact parseI32_sign hd hsign
  · rcases hsign with rfl | rfl | rfl
    · simpa using hspace hd
    · simp [isWhitespace]
    · simp [isWhitespace]
  · simpa using hspace hd

/-! ## Forged statuses -/

theorem Marker.ne_nil {first : List Char} (h : Marker first) : first ≠ [] := by
  obtain ⟨blank, sign, d, rfl, -⟩ := h
  simp

/-- What a marker ends with is a digit. -/
theorem Marker.exists_digit {first : List Char} (h : Marker first) :
    ∃ start d, first = start ++ [d] ∧ isAsciiDigit d = true := by
  obtain ⟨blank, sign, d, rfl, -, -, hd⟩ := h
  exact ⟨EXIT ++ (blank ++ sign), d, by simp, hd⟩

theorem digit_ne {c d : Char} (hd : isAsciiDigit d = true) (hc : isAsciiDigit c = false) :
    d ≠ c := by
  rintro rfl
  rw [hd] at hc
  cases hc

/-- A text is forged where one of its lines begins like a status. -/
theorem forged_iff (text : List Char) :
    Forged text ↔ ∃ first, Marker first ∧ '\n' ∉ first ∧ LineAt first text := by
  have hline {first : List Char} (h : Marker first) (hfeed : '\n' ∉ first) :
      (∃ line ∈ lines text, first <+: line) ↔ LineAt first text := by
    obtain ⟨start, d, rfl, hd⟩ := h.exists_digit
    exact exists_line_iff h.ne_nil hfeed (by simpa using digit_ne hd (by decide)) text
  constructor
  · rintro ⟨line, hmem, first, hmark, hpre⟩
    have hfeed : '\n' ∉ first := fun h => not_mem_of_mem_lines hmem (hpre.subset h)
    exact ⟨first, hmark, hfeed, (hline hmark hfeed).1 ⟨line, hmem, hpre⟩⟩
  · rintro ⟨first, hmark, hfeed, h⟩
    obtain ⟨line, hmem, hpre⟩ := (hline hmark hfeed).2 h
    exact ⟨line, hmem, first, hmark, hpre⟩

theorem Forged.append {text : List Char} (h : Forged text) (more : List Char) :
    Forged (text ++ more) := by
  obtain ⟨first, hmark, hfeed, start, rest, rfl, hstart⟩ := (forged_iff _).1 h
  exact (forged_iff _).2 ⟨first, hmark, hfeed, start, rest ++ more, by simp, hstart⟩

/-- A replacement character at the end forges nothing. -/
theorem forged_of_replacement {text : List Char} (h : Forged (text ++ [REPLACEMENT])) :
    Forged text := by
  obtain ⟨first, hmark, hfeed, start, rest, heq, hstart⟩ := (forged_iff _).1 h
  refine (forged_iff _).2 ⟨first, hmark, hfeed, start, ?_⟩
  rcases List.eq_nil_or_concat rest with rfl | ⟨rest, c, rfl⟩
  · obtain ⟨before, d, rfl, hd⟩ := hmark.exists_digit
    rw [List.append_nil, ← List.append_assoc] at heq
    have := (List.append_inj' heq rfl).2
    exact absurd (List.cons.inj this).1.symm (digit_ne hd (by decide))
  · rw [List.concat_eq_append, ← List.append_assoc, ← List.append_assoc] at heq
    exact ⟨rest, by rw [(List.append_inj' heq rfl).1, List.append_assoc], hstart⟩

/-- A poll gives no status, just if no line is one. -/
theorem poll_eq_none_iff (log : Bytes) :
    (pollDetached log).2 = none ↔ ∀ line ∈ lines (lossy log), status line = none := by
  simp [pollDetached]

/-- Where a first part of some bytes gives a status, their text is forged. -/
theorem forged_of_poll {torn bytes : Bytes} (h : torn <+: bytes)
    (hpoll : (pollDetached torn).2.isSome) : Forged (lossy bytes) := by
  have hne : (pollDetached torn).2 ≠ none := fun h => by simp [h] at hpoll
  rw [Ne, poll_eq_none_iff] at hne
  push Not at hne
  obtain ⟨line, hline, hstatus⟩ := hne
  obtain ⟨code, hcode⟩ := Option.ne_none_iff_exists'.1 hstatus
  obtain ⟨first, hmark, hpre⟩ := marker_of_status hcode
  have htorn : Forged (lossy torn) := ⟨line, hline, first, hmark, hpre⟩
  obtain ⟨part, ⟨rest, hrest⟩, hpart | hpart⟩ := lossy_prefix h
  · exact hrest ▸ (hpart ▸ htorn).append rest
  · exact hrest ▸ (forged_of_replacement (hpart ▸ htorn)).append rest

/-- And where the text is forged, some first part gives a status. -/
theorem exists_forged {bytes : Bytes} (h : Forged (lossy bytes)) :
    ∃ torn, torn <+: bytes ∧ (pollDetached torn).2.isSome := by
  obtain ⟨first, hmark, hfeed, start, rest, htext, hstart⟩ := (forged_iff _).1 h
  obtain ⟨before, d, hfirst, hd⟩ := hmark.exists_digit
  have hsplit : lossy bytes = (start ++ before) ++ d :: rest := by
    rw [htext, hfirst]
    simp
  obtain ⟨torn, htorn, hlossy⟩ := exists_lossy (digit_ne hd (by decide)) hsplit
  obtain ⟨rows, rfl, hrows⟩ := exists_unlines_of_ends hstart
  have hlines : lines (lossy torn) = rows.map stripReturn ++ [first] := by
    rw [hlossy, List.append_assoc, ← hfirst, lines_unlines_append hrows, lines_of_not_mem hfeed,
      if_neg hmark.ne_nil]
  obtain ⟨code, hcode⟩ := Option.isSome_iff_exists.1 (status_marker hmark)
  refine ⟨torn, htorn, ?_⟩
  rw [pollDetached, hlines, List.reverse_append, List.reverse_singleton, List.singleton_append,
    List.findSome?_cons, hcode]
  rfl

/-! ## Runs -/

variable {run : Run}

theorem Run.line_ascii (run : Run) : ∀ c ∈ run.line, c.toNat < 0x80 := by
  have hexit : ∀ c ∈ EXIT, c.toNat < 0x80 := by simp [EXIT]
  intro c hc
  rcases List.mem_append.1 hc with hc | hc
  · rcases List.mem_append.1 hc with hc | hc
    · exact hexit c hc
    · have := Char.isDigit_iff_toNat.1 (mem_toDigits hc)
      exact this.2.trans_lt (by decide)
  · rw [List.mem_singleton.1 hc]
    decide

/-- Some bytes of the marker are those of some characters of it. -/
theorem Run.exists_part {marked : Bytes} (h : marked <+: run.marker) :
    ∃ part, part <+: run.line ∧ marked = part.map (fun c => UInt8.ofNat c.toNat) ∧
      lossy (run.text ++ marked) = lossy run.text ++ part := by
  obtain ⟨part, hpart, rfl⟩ := List.prefix_map_iff.1 h
  exact ⟨part, hpart, rfl,
    lossy_append_ascii _ fun c hc => run.line_ascii c (hpart.subset hc)⟩

/-- What is read of the line that is appended: less than the marker, the marker and some digits, or
all of it. -/
theorem Run.part_cases {part : List Char} (h : part <+: run.line) :
    part <+: EXIT ∨ (∃ digits, part = EXIT ++ digits ∧ digits <+: Nat.toDigits 10 run.code.toNat) ∨
      part = run.line := by
  rcases prefix_append_cases h with hline | ⟨rest, rfl, hrest⟩
  · rcases prefix_append_cases hline with hexit | ⟨digits, rfl, hdigits⟩
    · exact .inl hexit
    · exact .inr (.inl ⟨digits, rfl, hdigits⟩)
  · rcases List.prefix_cons_iff.1 hrest with rfl | ⟨other, rfl, hother⟩
    · exact .inr (.inl ⟨_, List.append_nil _, List.prefix_rfl⟩)
    · rw [List.prefix_nil.1 hother]
      exact .inr (.inr rfl)

theorem not_mem_exit_digits {digits : List Char} {n : ℕ} (h : digits <+: Nat.toDigits 10 n) :
    '\n' ∉ EXIT ++ digits := by
  intro hmem
  rcases List.mem_append.1 hmem with hmem | hmem
  · exact absurd hmem (by decide)
  · have := mem_toDigits (h.subset hmem)
    exact absurd this (by decide)

/-- Less than the marker gives no status. -/
theorem status_of_part {line : List Char} (h : line <+: EXIT) : status line = none := by
  by_contra hne
  obtain ⟨code, hcode⟩ := Option.ne_none_iff_exists'.1 hne
  obtain ⟨first, ⟨blank, sign, d, rfl, -⟩, hpre⟩ := marker_of_status hcode
  have := (hpre.trans h).length_le
  simp only [List.length_append, List.length_singleton] at this
  omega

/-- The digits of a code, as a status. -/
theorem status_toDigits (code : UInt8) :
    status (EXIT ++ Nat.toDigits 10 code.toNat) = some (code.toNat : ℤ) := by
  have := code.toNat_lt
  rw [status_append, trim_toDigits, parseI32_toDigits (by omega)]

theorem lines_exit_digits {digits : List Char} {n : ℕ} (h : digits <+: Nat.toDigits 10 n) :
    lines (EXIT ++ digits) = [EXIT ++ digits] := by
  rw [lines_of_not_mem (not_mem_exit_digits h), if_neg (by simp [EXIT])]

theorem Run.lines_line (run : Run) :
    lines run.line = [EXIT ++ Nat.toDigits 10 run.code.toNat] := by
  have hreturn : (EXIT ++ Nat.toDigits 10 run.code.toNat).getLast? ≠ some '\r' := by
    rw [List.getLast?_append_of_ne_nil _ Nat.toDigits_ne_nil]
    intro h
    have := mem_toDigits (List.mem_of_getLast? h)
    exact absurd this (by decide)
  rw [Run.line, lines_append_cons (not_mem_exit_digits List.prefix_rfl),
    stripReturn_eq_iff.2 hreturn, lines_nil]

/-- What is appended to whole lines that give no status is read on its own. -/
theorem Run.Plain.poll (h : run.Plain) {marked : Bytes} {part : List Char}
    (hread : lossy (run.text ++ marked) = lossy run.text ++ part) :
    (pollDetached (run.text ++ marked)).2 = (lines part).reverse.findSome? status := by
  obtain ⟨rows, htext, hrows⟩ := exists_unlines_of_ends h.ended
  have hnone : ∀ line ∈ rows.map stripReturn, status line = none := by
    intro line hline
    by_contra hne
    obtain ⟨code, hcode⟩ := Option.ne_none_iff_exists'.1 hne
    obtain ⟨first, hmark, hpre⟩ := marker_of_status hcode
    exact h.unforged ⟨line, by rwa [htext, lines_unlines hrows], first, hmark, hpre⟩
  have hearlier : (rows.map stripReturn).reverse.findSome? status = none :=
    List.findSome?_eq_none_iff.2 fun line hline => hnone line (List.mem_reverse.1 hline)
  rw [pollDetached, hread, htext, lines_unlines_append hrows, List.reverse_append,
    List.findSome?_append, hearlier, Option.or_none]

/-- What is read while the marker is being appended. -/
theorem Run.Plain.poll_part (h : run.Plain) {marked : Bytes} {part : List Char} {code : ℤ}
    (hpart : part <+: run.line) (hread : lossy (run.text ++ marked) = lossy run.text ++ part)
    (hpoll : (pollDetached (run.text ++ marked)).2 = some code) :
    (∃ digits, digits <+: Nat.toDigits 10 run.code.toNat ∧ part = EXIT ++ digits ∧
      status (EXIT ++ digits) = some code) ∨ code = run.code.toNat := by
  rw [h.poll hread] at hpoll
  rcases Run.part_cases hpart with hexit | ⟨digits, rfl, hdigits⟩ | rfl
  · have hfeed : '\n' ∉ part := fun hmem => absurd (hexit.subset hmem) (by decide)
    rw [lines_of_not_mem hfeed] at hpoll
    split at hpoll
    · cases hpoll
    · simp [status_of_part hexit] at hpoll
  · refine .inl ⟨digits, hdigits, rfl, ?_⟩
    rw [lines_exit_digits hdigits] at hpoll
    simpa using hpoll
  · rw [Run.lines_line] at hpoll
    right
    simpa [status_toDigits, eq_comm] using hpoll

/-- A code of one digit is read as itself, or not at all. -/
theorem status_small {code : UInt8} (hcode : code.toNat < 10) {digits : List Char} {read : ℤ}
    (h : digits <+: Nat.toDigits 10 code.toNat) (hread : status (EXIT ++ digits) = some read) :
    read = code.toNat := by
  rw [Nat.toDigits_of_lt_base hcode] at h
  rcases List.prefix_cons_iff.1 h with rfl | ⟨rest, rfl, hrest⟩
  · rw [status_of_part (by rw [List.append_nil])] at hread
    cases hread
  · rw [List.prefix_nil.1 hrest, ← Nat.toDigits_of_lt_base hcode, status_toDigits] at hread
    exact (Option.some.inj hread).symm

/-- The bytes of the whole marker are those of the whole line. -/
theorem Run.part_of_marker {part : List Char} (h : part <+: run.line)
    (hmark : run.marker = part.map fun c => UInt8.ofNat c.toNat) : part = run.line := by
  have hlen := congrArg List.length hmark
  rw [Run.marker, List.length_map, List.length_map] at hlen
  exact h.eq_of_length hlen.symm

/-- A plain command gives the right status at every moment at which the marker is not cut, and at
every moment if its code has one digit. -/
theorem Run.Plain.right (h : run.Plain) {moment : Moment} (hhas : run.Has moment)
    (hsmall : run.code.toNat < 10 ∨ run.Whole moment) : run.Right moment := by
  cases moment with
  | before =>
    have hnone : (pollDetached run.stale).2 = none := (poll_eq_none_iff _).2 h.stale
    refine ⟨fun code hcode => ?_, fun heq => by cases heq⟩
    rw [Run.log, hnone] at hcode
    cases hcode
  | running written =>
    refine ⟨fun code hcode => ?_, fun heq => by cases heq⟩
    exact absurd (forged_of_poll hhas (Option.isSome_iff_exists.2 ⟨code, hcode⟩)) h.unforged
  | ended marked =>
    obtain ⟨part, hpart, hmarked, hread⟩ := Run.exists_part hhas
    refine ⟨fun code hcode => ⟨trivial, ?_⟩, fun heq => ?_⟩
    · rcases h.poll_part hpart hread hcode with ⟨digits, hdigits, rfl, hstatus⟩ | hcode
      · rcases hsmall with hsmall | hnil | hmark
        · exact status_small hsmall hdigits hstatus
        · rw [hnil] at hmarked
          simp [EXIT] at hmarked
        · have hline := Run.part_of_marker hpart (hmark ▸ hmarked)
          refine absurd ?_ (not_mem_exit_digits hdigits)
          rw [hline, Run.line]
          simp
      · exact hcode
    · obtain rfl : marked = run.marker := by
        cases heq
        rfl
      rw [Run.log, h.poll hread, Run.part_of_marker hpart hmarked, Run.lines_line]
      simp [status_toDigits]

/-! ## What is needed -/

/-- Nothing after its first character begins another marker. -/
theorem Marker.not_mem_tail {first : List Char} (h : Marker first) : 'E' ∉ first.tail := by
  obtain ⟨blank, sign, d, rfl, hblank, hsign, hd⟩ := h
  have hE : 'E' ∉ blank := fun hmem => absurd (hblank _ hmem) (by decide)
  have hsignE : 'E' ∉ sign := by rcases hsign with rfl | rfl | rfl <;> decide
  have hdE : d ≠ 'E' := digit_ne hd (by decide)
  simp [EXIT, hE, hsignE, hdE.symm]

/-- The marker is lost on a line that the command did not end. -/
theorem Run.poll_glued (hended : ¬ (lossy run.text = [] ∨ (lossy run.text).getLast? = some '\n'))
    (h : ¬ Forged (lossy run.text)) : (pollDetached (run.text ++ run.marker)).2 = none := by
  have hwhole : run.marker <+: run.marker := List.prefix_rfl
  obtain ⟨part, hpart, hmarked, hread⟩ := Run.exists_part hwhole
  rw [Run.part_of_marker hpart hmarked] at hread
  obtain ⟨rows, last, htext, hrows, hlast⟩ := exists_unlines (lossy run.text)
  have hne : last ≠ [] := by
    rintro rfl
    rw [List.append_nil] at htext
    exact hended (htext ▸ unlines_ends rows)
  have hold : lines (lossy run.text) = rows.map stripReturn ++ [last] := by
    rw [htext, lines_unlines_append hrows, lines_of_not_mem hlast, if_neg hne]
  have hglued : '\n' ∉ last ++ (EXIT ++ Nat.toDigits 10 run.code.toNat) := fun hmem =>
    (List.mem_append.1 hmem).elim hlast (not_mem_exit_digits List.prefix_rfl)
  have hnew : lines (lossy (run.text ++ run.marker)) = rows.map stripReturn ++
      [stripReturn (last ++ (EXIT ++ Nat.toDigits 10 run.code.toNat))] := by
    rw [hread, htext, List.append_assoc, lines_unlines_append hrows, Run.line, ← List.append_assoc,
      lines_append_cons hglued, lines_nil]
  rw [poll_eq_none_iff, hnew]
  intro line hline
  by_contra hstatus
  obtain ⟨code, hcode⟩ := Option.ne_none_iff_exists'.1 hstatus
  obtain ⟨first, hmark, hpre⟩ := marker_of_status hcode
  refine h ?_
  rcases List.mem_append.1 hline with hline | hline
  · exact ⟨line, hold ▸ List.mem_append_left _ hline, first, hmark, hpre⟩
  · have hlast_mem : last ∈ lines (lossy run.text) := by simp [hold]
    rw [List.mem_singleton.1 hline] at hpre
    rcases prefix_append_cases (hpre.trans (stripReturn_isPrefix _)) with hin | ⟨rest, rfl, hrest⟩
    · exact ⟨last, hlast_mem, first, hmark, hin⟩
    · -- A marker that goes on after the line would have another one begin in it.
      rcases List.prefix_cons_iff.1 hrest with rfl | ⟨others, rfl, -⟩
      · exact ⟨last, hlast_mem, _, hmark, by rw [List.append_nil]⟩
      · have := hmark.not_mem_tail
        rw [List.tail_append_of_ne_nil hne] at this
        exact absurd (List.mem_append_right _ List.mem_cons_self) this

/-- A command whose status is right whenever the marker is not cut is a plain one. -/
theorem Run.plain_of_right (h : ∀ moment, run.Has moment → run.Whole moment → run.Right moment) :
    run.Plain := by
  have hunforged : ¬ Forged (lossy run.text) := by
    intro hforged
    obtain ⟨torn, htorn, hpoll⟩ := exists_forged hforged
    obtain ⟨code, hcode⟩ := Option.isSome_iff_exists.1 hpoll
    exact ((h (.running torn) htorn trivial).own code hcode).1
  refine ⟨(poll_eq_none_iff _).1 ?_, ?_, hunforged⟩
  · by_contra hpoll
    obtain ⟨code, hcode⟩ := Option.ne_none_iff_exists'.1 hpoll
    exact ((h .before trivial trivial).own code hcode).1
  · by_contra hended
    have hseen := (h (.ended run.marker) List.prefix_rfl (.inr rfl)).seen rfl
    rw [Run.log, Run.poll_glued hended hunforged] at hseen
    cases hseen

/-- Where its first digit is read right, a code has one digit. -/
theorem Run.small_of_right (hplain : run.Plain) (h : ∀ moment, run.Has moment → run.Right moment) :
    run.code.toNat < 10 := by
  obtain ⟨d, digits, hdigits⟩ := List.exists_cons_of_ne_nil
    (Nat.toDigits_ne_nil (n := run.code.toNat) (b := 10))
  have hd : d.isDigit = true := mem_toDigits (hdigits ▸ List.mem_cons_self)
  have hone : [d] <+: Nat.toDigits 10 run.code.toNat := ⟨digits, hdigits.symm⟩
  have hpart : EXIT ++ [d] <+: run.line :=
    ((List.prefix_append_right_inj _).2 hone).trans (List.prefix_append _ _)
  have hhas : run.Has (.ended ((EXIT ++ [d]).map fun c => UInt8.ofNat c.toNat)) := hpart.map _
  have hread := lossy_append_ascii run.text fun c hc => run.line_ascii c (hpart.subset hc)
  have hrange := Char.isDigit_iff_toNat.1 hd
  have htrim : trim [d] = [d] :=
    trim_eq (by simpa using isWhitespace_of_isDigit hd) (by simpa using isWhitespace_of_isDigit hd)
  have hpoll : (pollDetached (run.text ++
      (EXIT ++ [d]).map fun c => UInt8.ofNat c.toNat)).2 = some ((d.toNat - 48 : ℕ) : ℤ) := by
    rw [hplain.poll hread, lines_exit_digits hone, List.reverse_singleton,
      List.findSome?_singleton, status_append, htrim, parseI32_digit (isAsciiDigit_of_isDigit hd)]
  obtain ⟨-, hcode⟩ := (h _ hhas).own _ hpoll
  have : '9'.toNat = 57 := rfl
  omega

/-- Success is reported for a poll that read 0. -/
theorem Wait.loop_ok {wait : Wait} {backoff : ℕ} {turns : List Turn}
    (h : (wait.loop backoff turns).2 = some (.ok ())) :
    ∃ turn ∈ turns, ∃ text, turn.poll = .ok (text, some 0) := by
  induction turns generalizing backoff with
  | nil => cases h
  | cons turn turns ih =>
    rw [Wait.loop] at h
    split at h
    · cases h
    · next text code hpoll =>
      by_cases hcode : code = 0
      · exact ⟨turn, List.mem_cons_self, text, hcode ▸ hpoll⟩
      · simp [hcode] at h
    · dsimp only at h
      split at h
      · cases h
      · obtain ⟨other, hmem, hother⟩ := ih h
        exact ⟨other, List.mem_cons_of_mem _ hmem, hother⟩

theorem runOpenWith_ok {host : String} {hold pid : ℕ} {started : Except TransportError Unit}
    {now : ℕ} {turns : List Turn}
    (h : (runOpenWith host hold pid started now turns).2 = some (.ok ())) :
    ∃ turn ∈ turns, ∃ text, turn.poll = .ok (text, some 0) := by
  cases started with
  | error e => cases h
  | ok u => exact Wait.loop_ok h

/-- Where the right status is read, success is what it says. -/
theorem Run.faithful_of_right {moments : Moment → Prop}
    (h : ∀ moment, run.Has moment → moments moment → run.Right moment) : run.Faithful moments := by
  refine ⟨h, fun host hold pid started now turns hturns hok => ?_⟩
  obtain ⟨turn, hmem, text, hpoll⟩ := runOpenWith_ok hok
  obtain ⟨moment, hhas, hmoment, hread⟩ := hturns turn hmem _ hpoll
  have hcode := ((h moment hhas hmoment).own 0 (by rw [← hread])).2
  have hzero : run.code.toNat = 0 := by omega
  exact UInt8.toNat_inj.1 hzero

/-- The status is that of the command, at whatever moment the log is read, just if the command
writes whole lines of which none begins like a status, to a log that had none in it, and its code
has one digit. Where the marker is never read in part, any code will do. -/
theorem detached_faithful_iff (run : Run) :
    (run.Faithful (fun _ => True) ↔ run.Plain ∧ run.code.toNat < 10) ∧
      (run.Faithful run.Whole ↔ run.Plain) := by
  constructor
  · constructor
    · intro h
      have hplain := Run.plain_of_right fun moment hhas _ => h.right moment hhas trivial
      exact ⟨hplain, Run.small_of_right hplain fun moment hhas => h.right moment hhas trivial⟩
    · rintro ⟨hplain, hsmall⟩
      exact Run.faithful_of_right fun moment hhas _ => hplain.right hhas (.inl hsmall)
  · constructor
    · exact fun h => Run.plain_of_right h.right
    · exact fun h => Run.faithful_of_right fun moment hhas hwhole => h.right hhas (.inr hwhole)

/-- A command that prints what looks like a marker, and fails. -/
def forged : Run where
  stale := []
  text := [69, 88, 73, 84, 61, 48, 10]
  code := 1

/-- A command that does not end its last line, and succeeds. -/
def unended : Run where
  stale := []
  text := [111, 107]
  code := 0

/-- The first is reported to have succeeded while it is still running, and the second is never seen
to end. -/
theorem forged_reported : forged.Has (.running forged.text) ∧
    (pollDetached (forged.log (.running forged.text))).2 = some 0 ∧
    (runOpenWith "10.11.99.1" 5000 7 (.ok ()) 0
      [⟨.ok (pollDetached (forged.log (.running forged.text))), 500⟩]).2 = some (.ok ()) ∧
    forged.code ≠ 0 ∧
    unended.Has (.ended unended.marker) ∧
    (pollDetached (unended.log (.ended unended.marker))).2 = none := by
  have hpoll : (pollDetached forged.text).2 = some 0 := by decide +kernel
  refine ⟨List.prefix_rfl, hpoll, ?_, by decide, List.prefix_rfl, by decide +kernel⟩
  show (Wait.loop _ 500 [⟨.ok ((pollDetached forged.text).1, (pollDetached forged.text).2), 500⟩]).2
    = _
  rw [hpoll]
  rfl

end Paperclip.Remote
