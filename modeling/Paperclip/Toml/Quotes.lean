import Paperclip.Toml.Documents

/-!
# Strings that are written as they are

A program may put a text between quotes without escaping what is in it.

* `Spells`: the source between the quotes of a basic string, and the text that it spells. An escape
  is a backslash, a character and perhaps some digits, and stands for one character.
* `Carried`: a text that spells itself. `Spells.carried`: no other text is read back from between
  quotes, whatever comes after the line.
* `Quotes`: what is taken of a TOML crate: the text of a key is the string after its equals sign. A
  string with three quotes in front ends at the next three, and is no longer than what is between.
* `quotes_own`: a reader of rows that does.
-/

namespace Toml

/-- The source of a basic string, and its text. -/
inductive Spells : List Char → List Char → Prop
  | nil : Spells [] []
  | plain {c : Char} {src value : List Char} (hc : allowed c = true) (hquote : c ≠ '"')
      (hslash : c ≠ '\\') (h : Spells src value) : Spells (c :: src) (c :: value)
  | escape {e c : Char} {digits src value : List Char} (he : allowed e = true)
      (hdigits : digits.all Char.isAlphanum = true) (h : Spells src value) :
      Spells ('\\' :: e :: (digits ++ src)) (c :: value)

/-- A text that may stand between quotes as it is. -/
def Carried (text : List Char) : Prop := ∀ c ∈ text, allowed c = true ∧ c ≠ '\\' ∧ c ≠ '"'

instance (text : List Char) : Decidable (Carried text) := List.decidableBAll _ text

/-- No string goes on after the end of its line. -/
theorem Spells.ne_break {src value : List Char} (h : Spells src value) (more rest : List Char) :
    src ++ '"' :: more ≠ '\n' :: rest := by
  intro heq
  cases h with
  | nil => cases (List.cons.inj heq).1
  | plain hc => exact allowed_ne_break hc (List.cons.inj heq).1
  | escape => cases (List.cons.inj heq).1

/-- A string that is read from where a text was put between quotes is no longer than the text, and
as long only if the text spells itself. -/
theorem Spells.length_le {src value : List Char} (h : Spells src value) {text more rest : List Char}
    (heq : src ++ '"' :: more = text ++ '"' :: '\n' :: rest) :
    value.length ≤ text.length ∧ (value.length = text.length → Carried text) := by
  induction h generalizing text with
  | nil =>
    refine ⟨Nat.zero_le _, fun hlen => ?_⟩
    rw [List.length_eq_zero_iff.1 hlen.symm]
    exact fun c hc => absurd hc List.not_mem_nil
  | @plain c src value hc hquote hslash _ ih =>
    cases text with
    | nil => exact absurd (List.cons.inj heq).1 hquote
    | cons d text =>
      obtain ⟨rfl, hrest⟩ := List.cons.inj heq
      obtain ⟨hle, hcarried⟩ := ih hrest
      refine ⟨Nat.succ_le_succ hle, fun hlen => ?_⟩
      have htext := hcarried (Nat.succ.inj hlen)
      intro e he
      rcases List.mem_cons.1 he with rfl | he
      · exact ⟨hc, hslash, hquote⟩
      · exact htext e he
  | @escape e c digits src value _ hdigits hsrc ih =>
    have hquote : '"' ∉ digits := fun hmem =>
      absurd (List.all_eq_true.1 hdigits _ hmem) (by decide)
    have hbreak : '\n' ∉ digits := fun hmem =>
      absurd (List.all_eq_true.1 hdigits _ hmem) (by decide)
    match text with
    | [] => cases (List.cons.inj heq).1
    | [d] =>
      -- the backslash is the last character, and the closing quote is escaped
      have hnext : digits ++ (src ++ '"' :: more) = '\n' :: rest := by
        simpa using (List.cons.inj (List.cons.inj heq).2).2
      cases digits with
      | nil => exact absurd hnext (hsrc.ne_break _ _)
      | cons digit digits =>
        exact absurd ((List.cons.inj hnext).1 ▸ List.mem_cons_self) hbreak
    | d :: d' :: text =>
      have hnext : digits ++ (src ++ '"' :: more) = text ++ '"' :: '\n' :: rest := by
        simpa using (List.cons.inj (List.cons.inj heq).2).2
      obtain ⟨text', rfl, hrest⟩ | ⟨digits', rfl, hrest⟩ := List.append_eq_append_iff.1 hnext
      · obtain ⟨hle, -⟩ := ih hrest
        simp only [List.length_cons, List.length_append]
        exact ⟨by omega, by omega⟩
      · cases digits' with
        | nil =>
          have hnil : src ++ '"' :: more = [] ++ '"' :: '\n' :: rest := hrest.symm
          obtain ⟨hle, -⟩ := ih hnil
          simp only [List.length_cons, List.length_nil] at hle ⊢
          exact ⟨by omega, by omega⟩
        | cons digit digits' =>
          have hmem : '"' ∈ text ++ digit :: digits' := by
            rw [(List.cons.inj hrest).1]
            simp
          exact absurd hmem hquote

theorem Spells.carried {src text more rest : List Char} (h : Spells src text)
    (heq : src ++ '"' :: more = text ++ '"' :: '\n' :: rest) : Carried text :=
  (h.length_le heq).2 rfl

/-- Three quotes. -/
def triple : List Char := ['"', '"', '"']

/-- A row that is no table. -/
def Row.inner {α : Type} : Row α → Bool
  | blank | comment _ | pair _ _ => true
  | table _ | array _ => false

/-- What stands before the value of a key. -/
def opening (key : List Char) : List Char := key ++ [' ', '=', ' ', '"']

/-- What is taken of a TOML crate that reads the text of a key into a `field`. -/
structure Quotes {ε α : Type} (fromStr : String → Except ε α) (key : List Char)
    (field : α → Option String) : Prop where
  basic : ∀ rows rest a, (∀ row ∈ rows, row.Fits ∧ row.inner = true) → ¬ ['"', '"'] <+: rest →
    fromStr (String.ofList (renderRows rows ++ (opening key ++ rest))) = .ok a →
    ∃ src value more, rest = src ++ '"' :: more ∧ Spells src value ∧
      field a = some (String.ofList value)
  multi : ∀ rows rest a, (∀ row ∈ rows, row.Fits ∧ row.inner = true) →
    fromStr (String.ofList (renderRows rows ++ (opening key ++ ('"' :: '"' :: rest)))) = .ok a →
    ∃ src value more, rest = src ++ (triple ++ more) ∧ value.length ≤ src.length ∧
      field a = some (String.ofList value)

/-! ## A reader of rows -/

theorem isAlphanum_of_hexDigit {c : Char} {n : ℕ} (h : hexDigitValue c = some n) :
    c.isAlphanum = true := by
  show (decide (c.val ≥ 'A'.val ∧ c.val ≤ 'Z'.val) || (c.val ≥ 'a'.val && c.val ≤ 'z'.val) ||
    (c.val ≥ '0'.val && c.val ≤ '9'.val)) = true
  simp only [Bool.or_eq_true, Bool.and_eq_true, decide_eq_true_eq]
  unfold hexDigitValue at h
  split at h
  · next hdigit => exact .inr hdigit
  · split at h
    · next hupper => exact .inl (.inl ⟨hupper.1, UInt32.le_trans hupper.2 (by decide)⟩)
    · split at h
      · next hlower => exact .inl (.inr ⟨hlower.1, UInt32.le_trans hlower.2 (by decide)⟩)
      · cases h

theorem isAlphanum_of_readCode {a b c d e : Char} (h : readCode a b c d = some e) :
    [a, b, c, d].all Char.isAlphanum = true := by
  unfold readCode at h
  obtain ⟨_, ha, h⟩ := Option.bind_eq_some_iff.1 h
  obtain ⟨_, hb, h⟩ := Option.bind_eq_some_iff.1 h
  obtain ⟨_, hc, h⟩ := Option.bind_eq_some_iff.1 h
  obtain ⟨_, hd, -⟩ := Option.bind_eq_some_iff.1 h
  simp [isAlphanum_of_hexDigit ha, isAlphanum_of_hexDigit hb, isAlphanum_of_hexDigit hc,
    isAlphanum_of_hexDigit hd]

theorem allowed_of_unescape {e c : Char} (h : unescape e = some c) : allowed e = true := by
  unfold unescape at h
  split at h <;> first | rfl | cases h

/-- What is read from between the quotes of a line is what the string there spells. -/
theorem spells_of_readString {line value : List Char} (h : readString line = some value) :
    ∃ src, line = src ++ ['"'] ∧ Spells src value := by
  fun_induction readString line generalizing value with
  | case1 => cases h
  | case2 =>
    cases h
    exact ⟨[], rfl, .nil⟩
  | case3 rest hne => cases h
  | case4 a b c d rest ih =>
    obtain ⟨e, hcode, h⟩ := Option.bind_eq_some_iff.1 h
    obtain ⟨value, hvalue, rfl⟩ := Option.map_eq_some_iff.1 h
    obtain ⟨src, rfl, hsrc⟩ := ih hvalue
    exact ⟨'\\' :: 'u' :: ([a, b, c, d] ++ src), rfl,
      .escape (by decide) (isAlphanum_of_readCode hcode) hsrc⟩
  | case5 c rest hu ih =>
    obtain ⟨e, hun, h⟩ := Option.bind_eq_some_iff.1 h
    obtain ⟨value, hvalue, rfl⟩ := Option.map_eq_some_iff.1 h
    obtain ⟨src, rfl, hsrc⟩ := ih hvalue
    exact ⟨'\\' :: c :: ([] ++ src), rfl, .escape (allowed_of_unescape hun) rfl hsrc⟩
  | case6 c rest hquote hu hslash hallowed ih =>
    obtain ⟨value, hvalue, rfl⟩ := Option.map_eq_some_iff.1 h
    obtain ⟨src, rfl, hsrc⟩ := ih hvalue
    refine ⟨c :: src, rfl, .plain hallowed hquote (fun hc => ?_) hsrc⟩
    cases src with
    | nil => exact hslash _ _ hc rfl
    | cons d src => exact hslash _ _ hc rfl
  | case7 => cases h

/-- The rows of a document that starts with rows that can be carried. -/
theorem readRows_append {rows : List (Row Spelled)} (h : ∀ row ∈ rows, row.Fits)
    (rest : List Char) : readRows (renderRows rows ++ rest) =
      (readRows rest).map (rows.map (Row.map Spelled.datum) ++ ·) := by
  rw [readRows, renderRows, splitOn_lines fun row hrow => (h row hrow).not_mem,
    mapM_lines fun row hrow => Row.read_render (h row hrow)]
  rfl

/-- The keys of a document that starts with rows that are no tables. -/
theorem sections_append {rows : List (Row Datum)} (h : ∀ row ∈ rows, row.inner = true)
    (rest : List (Row Datum)) :
    ∃ keys, (sections (rows ++ rest)).1 = keys ++ (sections rest).1 := by
  induction rows with
  | nil => exact ⟨[], rfl⟩
  | cons row rows ih =>
    obtain ⟨keys, hkeys⟩ := ih fun other hother => h other (List.mem_cons_of_mem _ hother)
    have hrow := h row List.mem_cons_self
    cases row with
    | blank => exact ⟨keys, hkeys⟩
    | comment text => exact ⟨keys, hkeys⟩
    | pair key value => exact ⟨(key, value) :: keys, congrArg _ hkeys⟩
    | table name => cases hrow
    | array name => cases hrow

/-- A key that is there once has the value that it is there with. -/
theorem lookup_middle {α β : Type} [BEq α] [LawfulBEq α] {before after : List (α × β)} {key : α}
    {value : β} (h : ((before ++ (key, value) :: after).map Prod.fst).Nodup) :
    (before ++ (key, value) :: after).lookup key = some value := by
  induction before with
  | nil => simp
  | cons entry before ih =>
    rw [List.cons_append, List.map_cons, List.nodup_cons] at h
    have hne : key ≠ entry.1 := by
      rintro rfl
      exact h.1 (by simp)
    rw [List.cons_append, List.lookup_cons, beq_false_of_ne hne]
    exact ih h.2

/-- A document that a reader of rows takes has the text of a key as its line spells it. -/
theorem fromStr_opening {ε α : Type} {e : ε} {ofSections : Keys × List Section → Option α}
    {key : String} {field : α → Option String}
    (hfield : ∀ document a, ofSections document = some a →
      (document.1.map Prod.fst).Nodup ∧ field a = document.1.text key)
    (hname : IsName key.toList) {rows : List (Row Spelled)} {rest : List Char} {a : α}
    (hrows : ∀ row ∈ rows, row.Fits ∧ row.inner = true)
    (h : fromStr e ofSections (String.ofList (renderRows rows ++ (opening key.toList ++ rest))) =
      .ok a) :
    ∃ line rest' value, rest = line ++ rest' ∧ (∀ c, rest'.head? = some c → c = '\n') ∧
      readString line = some value ∧ field a = some (String.ofList value) := by
  have hopen : '\n' ∉ opening key.toList := by
    simp only [opening, List.mem_append, not_or]
    exact ⟨hname.not_mem, by decide⟩
  obtain ⟨line, rest', hrest, hend, others, hline⟩ : ∃ line rest', rest = line ++ rest' ∧
      (∀ c, rest'.head? = some c → c = '\n') ∧ ∃ others,
      (opening key.toList ++ rest).splitOn '\n' = (opening key.toList ++ line) :: others := by
    by_cases hbreak : '\n' ∈ rest
    · obtain ⟨before, after, rfl, hbefore⟩ := List.eq_append_cons_of_mem hbreak
      refine ⟨before, '\n' :: after, rfl, fun c hc => (Option.some.inj hc).symm,
        after.splitOn '\n', ?_⟩
      rw [← List.append_assoc, List.splitOn_append_cons_self_of_not_mem (by simp [hopen, hbefore])]
    · exact ⟨rest, [], by simp, by simp, [], List.splitOn_eq_singleton (by simp [hopen, hbreak])⟩
  rw [fromStr, String.toList_ofList, readRows_append fun row hrow => (hrows row hrow).1] at h
  have hread : Row.read (opening key.toList ++ line) =
      ((readString line).map Datum.text).map (Row.pair key.toList) := by
    have := Row.read_pair hname ('"' :: line)
    simpa [opening, Datum.read] using this
  rw [readRows, hline, List.mapM_cons, hread] at h
  refine ⟨line, rest', ?_⟩
  cases hvalue : readString line with
  | none => simp [hvalue] at h
  | some value =>
    refine ⟨value, hrest, hend, rfl, ?_⟩
    cases hothers : others.mapM Row.read with
    | none => simp [hvalue, hothers] at h
    | some more =>
      simp only [hvalue, hothers, Option.map_some, Option.bind_eq_bind, Option.bind_some,
        Option.pure_def] at h
      cases hsections : ofSections (sections (rows.map (Row.map Spelled.datum) ++
          Row.pair key.toList (Datum.text value) :: more)) with
      | none => simp [hsections] at h
      | some found =>
        simp only [hsections, Option.elim_some, Except.ok.injEq] at h
        obtain ⟨hnodup, hfound⟩ := hfield _ _ hsections
        have hinner : ∀ row ∈ rows.map (Row.map Spelled.datum), row.inner = true := by
          intro row hrow
          obtain ⟨spelled, hspelled, rfl⟩ := List.mem_map.1 hrow
          have := (hrows spelled hspelled).2
          cases spelled <;> first | rfl | cases this
        obtain ⟨keys, hkeys⟩ := sections_append hinner
          (Row.pair key.toList (Datum.text value) :: more)
        rw [hkeys] at hnodup
        rw [← h, hfound, Keys.text, hkeys]
        have hlookup := lookup_middle hnodup
        simp only [sections] at hlookup ⊢
        rw [hlookup]

/-- A reader of rows takes a text between quotes as it is spelled. -/
theorem quotes_own {ε α : Type} (e : ε) {ofSections : Keys × List Section → Option α}
    {key : String} {field : α → Option String}
    (hfield : ∀ document a, ofSections document = some a →
      (document.1.map Prod.fst).Nodup ∧ field a = document.1.text key)
    (hname : IsName key.toList) : Quotes (fromStr e ofSections) key.toList field where
  basic rows rest a hrows _ h := by
    obtain ⟨line, rest', value, rfl, -, hline, hvalue⟩ := fromStr_opening hfield hname hrows h
    obtain ⟨src, rfl, hsrc⟩ := spells_of_readString hline
    exact ⟨src, value, rest', by simp, hsrc, hvalue⟩
  multi rows rest a hrows h := by
    obtain ⟨line, rest', value, hrest, hend, hline, -⟩ := fromStr_opening hfield hname hrows h
    -- the two quotes are on one line, which an empty string would end
    cases line with
    | nil => cases hline
    | cons c line =>
      obtain ⟨rfl, htail⟩ := List.cons.inj hrest
      cases line with
      | nil =>
        have hrest' : '"' :: rest = rest' := htail
        exact absurd (hend '"' (by rw [← hrest']; rfl)) (by decide)
      | cons d line => cases hline

end Toml
