import Mathlib.Data.Nat.Notation
import Mathlib.Data.List.Infix

/-!
# Lines of a text

A text is whole lines, each ended by a line feed, and a last line that is not ended.

* `lines`: the lines of a text, as a reader that takes `\n` and `\r\n` for the end of a line has
  them.
* `unlines`: the text of whole lines. `exists_unlines`: every text is one, and a last line.
* `lines_unlines_append`: its lines, each without a carriage return at its end.
* `exists_line_iff`: when a line begins with something.
* `prefix_unlines`: what the first part of a text of whole lines is.
-/

namespace Paperclip.Text

/-- A line without a carriage return at its end. -/
def stripReturn (line : List Char) : List Char :=
  if line.getLast? = some '\r' then line.dropLast else line

/-- The lines of a text. The last one need not be ended, and counts if there is something in it. -/
def lines (text : List Char) : List (List Char) :=
  (text.splitOn '\n').dropLast.map stripReturn ++
    (text.splitOn '\n').getLast?.toList.filter (· ≠ [])

/-- The text of whole lines. -/
def unlines (rows : List (List Char)) : List Char := rows.flatMap (· ++ ['\n'])

@[simp] theorem unlines_nil : unlines [] = [] := rfl

@[simp] theorem unlines_cons (row : List Char) (rows : List (List Char)) :
    unlines (row :: rows) = row ++ '\n' :: unlines rows := by
  simp [unlines]

theorem unlines_append (rows others : List (List Char)) :
    unlines (rows ++ others) = unlines rows ++ unlines others := List.flatMap_append

theorem unlines_concat (rows : List (List Char)) (row : List Char) :
    unlines (rows ++ [row]) = unlines rows ++ row ++ ['\n'] := by
  simp [unlines_append]

/-- The text of whole lines has nothing in it, or ends with a line feed. -/
theorem unlines_ends (rows : List (List Char)) :
    unlines rows = [] ∨ (unlines rows).getLast? = some '\n' := by
  rcases List.eq_nil_or_concat rows with rfl | ⟨others, row, rfl⟩
  · exact .inl rfl
  · exact .inr (by rw [List.concat_eq_append, unlines_concat, List.getLast?_append]; rfl)

/-! ## Reading -/

theorem stripReturn_eq_iff {line : List Char} :
    stripReturn line = line ↔ line.getLast? ≠ some '\r' := by
  rw [stripReturn]
  split
  · next h =>
    refine iff_of_false (fun heq => ?_) (fun hne => hne h)
    have hlen := congrArg List.length heq
    have hpos : line ≠ [] := by rintro rfl; cases h
    have := List.length_pos_of_ne_nil hpos
    simp only [List.length_dropLast] at hlen
    omega
  · next h => exact iff_of_true rfl h

theorem stripReturn_concat (line : List Char) : stripReturn (line ++ ['\r']) = line := by
  simp [stripReturn]

/-- The carriage return at the end of two texts is that of the second, where the first has none. -/
theorem stripReturn_append {first : List Char} (h : first.getLast? ≠ some '\r')
    (last : List Char) : stripReturn (first ++ last) = first ++ stripReturn last := by
  by_cases hnil : last = []
  · rw [hnil, List.append_nil, stripReturn_eq_iff.2 h]
    simp [stripReturn]
  · rw [stripReturn, stripReturn, List.getLast?_append_of_ne_nil _ hnil,
      List.dropLast_append_of_ne_nil hnil]
    split <;> rfl

/-- What a line is without its carriage return is a first part of it. -/
theorem stripReturn_isPrefix (line : List Char) : stripReturn line <+: line := by
  rw [stripReturn]
  split
  · exact List.dropLast_prefix line
  · exact List.prefix_rfl

/-- The line that is not ended. -/
theorem lines_of_not_mem {line : List Char} (h : '\n' ∉ line) :
    lines line = if line = [] then [] else [line] := by
  rw [lines, List.splitOn_eq_singleton h]
  by_cases hnil : line = [] <;> simp [hnil]

theorem lines_nil : lines [] = [] := rfl

/-- A whole line, and those after it. -/
theorem lines_append_cons {row : List Char} (h : '\n' ∉ row) (rest : List Char) :
    lines (row ++ '\n' :: rest) = stripReturn row :: lines rest := by
  have hne : rest.splitOn '\n' ≠ [] := List.splitOn_ne_nil _ _
  rw [lines, List.splitOn_append_cons_self_of_not_mem h, List.dropLast_cons_of_ne_nil hne,
    List.map_cons, List.cons_append, List.getLast?_cons_of_ne_nil hne, lines]

/-- The lines of whole lines and a last one. -/
theorem lines_unlines_append {rows : List (List Char)} (hrows : ∀ row ∈ rows, '\n' ∉ row)
    (rest : List Char) : lines (unlines rows ++ rest) = rows.map stripReturn ++ lines rest := by
  induction rows with
  | nil => rfl
  | cons row rows ih =>
    rw [unlines_cons, List.append_assoc, List.cons_append,
      lines_append_cons (hrows row List.mem_cons_self),
      ih fun other h => hrows other (List.mem_cons_of_mem _ h)]
    rfl

theorem lines_unlines {rows : List (List Char)} (hrows : ∀ row ∈ rows, '\n' ∉ row) :
    lines (unlines rows) = rows.map stripReturn := by
  simpa [lines_nil] using lines_unlines_append hrows []

/-! ## Taking apart -/

/-- Every text is whole lines, and a last one that is not ended. -/
theorem exists_unlines (text : List Char) : ∃ rows last, text = unlines rows ++ last ∧
    (∀ row ∈ rows, '\n' ∉ row) ∧ '\n' ∉ last := by
  induction text with
  | nil => exact ⟨[], [], rfl, by simp, by simp⟩
  | cons c text ih =>
    obtain ⟨rows, last, rfl, hrows, hlast⟩ := ih
    by_cases hc : c = '\n'
    · exact ⟨[] :: rows, last, by simp [hc], by simpa using hrows, hlast⟩
    · cases rows with
      | nil => exact ⟨[], c :: last, rfl, by simp, by simp [Ne.symm hc, hlast]⟩
      | cons row rows =>
        refine ⟨(c :: row) :: rows, last, by simp, ?_, hlast⟩
        simpa [Ne.symm hc] using hrows

/-- No line of a text has a line feed in it. -/
theorem not_mem_of_mem_lines {text line : List Char} (h : line ∈ lines text) : '\n' ∉ line := by
  obtain ⟨rows, last, rfl, hrows, hlast⟩ := exists_unlines text
  rw [lines_unlines_append hrows, lines_of_not_mem hlast] at h
  rcases List.mem_append.1 h with h | h
  · obtain ⟨row, hrow, rfl⟩ := List.mem_map.1 h
    exact fun hmem => hrows row hrow ((stripReturn_isPrefix row).subset hmem)
  · split at h
    · cases h
    · exact List.mem_singleton.1 h ▸ hlast

/-- A text with nothing in it, or that ends with a line feed, is whole lines. -/
theorem exists_unlines_of_ends {text : List Char} (h : text = [] ∨ text.getLast? = some '\n') :
    ∃ rows, text = unlines rows ∧ ∀ row ∈ rows, '\n' ∉ row := by
  obtain ⟨rows, last, rfl, hrows, hlast⟩ := exists_unlines text
  rcases List.eq_nil_or_concat last with rfl | ⟨first, c, rfl⟩
  · exact ⟨rows, List.append_nil _, hrows⟩
  · rw [List.concat_eq_append] at h hlast
    rcases h with h | h
    · simp at h
    · simp only [← List.append_assoc, List.getLast?_concat, Option.some.injEq] at h
      exact absurd (h ▸ List.mem_append_right _ (List.mem_singleton_self c)) hlast

/-- A text has `start` where one of its lines begins. -/
def LineAt (start text : List Char) : Prop :=
  ∃ before after, text = before ++ (start ++ after) ∧ (before = [] ∨ before.getLast? = some '\n')

/-- Some line of a text begins with `start`, just if `start` is where a line begins. -/
theorem exists_line_iff {start : List Char} (hne : start ≠ []) (hfeed : '\n' ∉ start)
    (hreturn : start.getLast? ≠ some '\r') (text : List Char) :
    (∃ line ∈ lines text, start <+: line) ↔ LineAt start text := by
  constructor
  · rintro ⟨line, hline, hstart⟩
    obtain ⟨rows, last, rfl, hrows, hlast⟩ := exists_unlines text
    rw [lines_unlines_append hrows, lines_of_not_mem hlast] at hline
    rcases List.mem_append.1 hline with hline | hline
    · obtain ⟨row, hrow, rfl⟩ := List.mem_map.1 hline
      obtain ⟨rest, rfl⟩ := hstart.trans (stripReturn_isPrefix row)
      obtain ⟨first, others, rfl⟩ := List.append_of_mem hrow
      refine ⟨unlines first, rest ++ '\n' :: unlines others ++ last, ?_, unlines_ends first⟩
      simp [unlines_append]
    · split at hline
      · cases hline
      · rw [List.mem_singleton.1 hline] at hstart
        obtain ⟨rest, rfl⟩ := hstart
        exact ⟨unlines rows, rest, rfl, unlines_ends rows⟩
  · rintro ⟨before, after, rfl, hbefore⟩
    obtain ⟨rows, rfl, hrows⟩ := exists_unlines_of_ends hbefore
    rw [lines_unlines_append hrows]
    suffices ∃ line ∈ lines (start ++ after), start <+: line by
      obtain ⟨line, hline, hstart⟩ := this
      exact ⟨line, List.mem_append_right _ hline, hstart⟩
    by_cases hmem : '\n' ∈ after
    · obtain ⟨first, rest, rfl, hfirst⟩ := List.eq_append_cons_of_mem hmem
      have hrow : '\n' ∉ start ++ first := fun h => (List.mem_append.1 h).elim hfeed hfirst
      refine ⟨start ++ stripReturn first, ?_, List.prefix_append _ _⟩
      rw [← List.append_assoc, lines_append_cons hrow, stripReturn_append hreturn]
      exact List.mem_cons_self
    · have hnot : '\n' ∉ start ++ after := fun h => (List.mem_append.1 h).elim hfeed hmem
      rw [lines_of_not_mem hnot, if_neg (by simp [hne])]
      exact ⟨_, List.mem_singleton_self _, List.prefix_append _ _⟩

/-- The first part of two texts is one of the first, or the first and one of the second. -/
theorem prefix_append_cases {α : Type} {text first second : List α} (h : text <+: first ++ second) :
    text <+: first ∨ ∃ rest, text = first ++ rest ∧ rest <+: second := by
  rcases List.prefix_or_prefix_of_prefix h (List.prefix_append first second) with h' | ⟨rest, rfl⟩
  · exact .inl h'
  · exact .inr ⟨rest, rfl, (List.prefix_append_right_inj first).1 h⟩

/-- The first part of a text of whole lines is some of its lines, and the first part of the one
after them. -/
theorem prefix_unlines {rows : List (List Char)} {text : List Char} (h : text <+: unlines rows) :
    ∃ whole rest part, rows = whole ++ rest ∧ text = unlines whole ++ part ∧
      (part = [] ∨ ∃ row others, rest = row :: others ∧ part <+: row) := by
  induction rows generalizing text with
  | nil => exact ⟨[], [], [], rfl, List.prefix_nil.1 h, .inl rfl⟩
  | cons row rows ih =>
    rw [unlines_cons] at h
    rcases prefix_append_cases h with hrow | ⟨other, rfl, hother⟩
    · exact ⟨[], row :: rows, text, rfl, rfl, .inr ⟨row, rows, rfl, hrow⟩⟩
    · rcases List.prefix_cons_iff.1 hother with rfl | ⟨tail, rfl, htail⟩
      · exact ⟨[], row :: rows, row, rfl, by simp, .inr ⟨row, rows, rfl, List.prefix_rfl⟩⟩
      · obtain ⟨whole, rest, part, rfl, rfl, hpart⟩ := ih htail
        exact ⟨row :: whole, rest, part, rfl, by simp, hpart⟩

end Paperclip.Text
