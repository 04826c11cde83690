import Mathlib.Data.Nat.Notation
import Mathlib.Data.List.Infix

/-!
# Bytes read as text

UTF-8 is read a byte at a time. What is no character is read as one replacement character for each
longest piece that could have become one.

* `Pending`, `feed`: the character that is not whole yet, and what a byte does.
* `lossy`: the text of some bytes. `lossy_encode`: that of a text's bytes is the text.
* `lossy_append`: an ASCII byte starts anew, so what comes before it is read on its own.
* `lossy_prefix`: the text of the first bytes is the first part of the text, and perhaps a
  replacement character. `exists_lossy`: a first part that does not end with one is such a text.
-/

namespace Paperclip.Text

/-- What stands for bytes that are no character. -/
def REPLACEMENT : Char := '\uFFFD'

/-- A character that is not whole: its bits so far, between which numbers the next byte has to be,
and how many more are to come after it. -/
structure Pending where
  value : ℕ
  low : ℕ
  high : ℕ
  more : ℕ
  deriving DecidableEq

/-- What the first byte of several starts. -/
def lead (n : ℕ) : Option Pending :=
  if 0xC2 ≤ n ∧ n ≤ 0xDF then some ⟨n - 0xC0, 0x80, 0xBF, 0⟩
  else if n = 0xE0 then some ⟨0, 0xA0, 0xBF, 1⟩
  else if n = 0xED then some ⟨0xD, 0x80, 0x9F, 1⟩
  else if 0xE1 ≤ n ∧ n ≤ 0xEF then some ⟨n - 0xE0, 0x80, 0xBF, 1⟩
  else if n = 0xF0 then some ⟨0, 0x90, 0xBF, 2⟩
  else if n = 0xF4 then some ⟨4, 0x80, 0x8F, 2⟩
  else if 0xF1 ≤ n ∧ n ≤ 0xF3 then some ⟨n - 0xF0, 0x80, 0xBF, 2⟩
  else none

/-- A byte that starts a character. -/
def start (n : ℕ) : List Char × Option Pending :=
  if n < 0x80 then ([Char.ofNat n], none)
  else
    match lead n with
    | some pending => ([], some pending)
    | none => ([REPLACEMENT], none)

/-- A byte that goes on with a character. -/
def Pending.next (pending : Pending) (n : ℕ) : List Char × Option Pending :=
  let value := pending.value * 64 + (n - 0x80)
  if pending.more = 0 then ([Char.ofNat value], none)
  else ([], some ⟨value, 0x80, 0xBF, pending.more - 1⟩)

/-- What a byte makes known, and what is pending after it. -/
def feed (pending : Option Pending) (n : ℕ) : List Char × Option Pending :=
  match pending with
  | none => start n
  | some pending =>
    if pending.low ≤ n ∧ n ≤ pending.high then pending.next n
    else (REPLACEMENT :: (start n).1, (start n).2)

/-- The text of what is pending and some bytes. -/
def lossyFrom (pending : Option Pending) : List UInt8 → List Char
  | [] => if pending.isSome then [REPLACEMENT] else []
  | b :: bytes => (feed pending b.toNat).1 ++ lossyFrom (feed pending b.toNat).2 bytes

/-- The text of some bytes. -/
def lossy (bytes : List UInt8) : List Char := lossyFrom none bytes

variable {pending : Option Pending} {bytes : List UInt8}

theorem lossyFrom_cons (b : UInt8) : lossyFrom pending (b :: bytes) =
    (feed pending b.toNat).1 ++ lossyFrom (feed pending b.toNat).2 bytes := rfl

/-! ## Pieces -/

theorem start_ascii {n : ℕ} (h : n < 0x80) : start n = ([Char.ofNat n], none) := if_pos h

/-- No pending character goes on with an ASCII byte. -/
theorem lead_low {n : ℕ} {p : Pending} (h : lead n = some p) : 0x80 ≤ p.low := by
  unfold lead at h
  repeat' split at h
  all_goals
    first
    | cases Option.some.inj h; simp only [Nat.reduceLeDiff, Nat.le_refl]
    | cases h

/-- A pending character that has been started by bytes. -/
def Started (pending : Option Pending) : Prop := ∀ p ∈ pending, 0x80 ≤ p.low

theorem started_none : Started none := by simp [Started]

theorem started_start (n : ℕ) : Started (start n).2 := by
  unfold start
  split
  · exact started_none
  · split
    · next p h => simpa [Started] using lead_low h
    · exact started_none

theorem started_feed (n : ℕ) (pending : Option Pending) : Started (feed pending n).2 := by
  cases pending with
  | none => exact started_start n
  | some p =>
    rw [feed]
    split
    · rw [Pending.next]
      split
      · exact started_none
      · simp [Started]
    · exact started_start n

/-- What is known after some bytes, and what is pending. -/
def after (pending : Option Pending) : List UInt8 → List Char × Option Pending
  | [] => ([], pending)
  | b :: bytes =>
    ((feed pending b.toNat).1 ++ (after (feed pending b.toNat).2 bytes).1,
      (after (feed pending b.toNat).2 bytes).2)

theorem lossyFrom_append (pending : Option Pending) (bytes more : List UInt8) :
    lossyFrom pending (bytes ++ more) =
      (after pending bytes).1 ++ lossyFrom (after pending bytes).2 more := by
  induction bytes generalizing pending with
  | nil => rfl
  | cons b bytes ih => rw [List.cons_append, lossyFrom_cons, ih, after, List.append_assoc]

theorem lossyFrom_eq (pending : Option Pending) (bytes : List UInt8) : lossyFrom pending bytes =
    (after pending bytes).1 ++ if (after pending bytes).2.isSome then [REPLACEMENT] else [] := by
  have := lossyFrom_append pending bytes []
  rwa [List.append_nil] at this

theorem started_after (h : Started pending) (bytes : List UInt8) :
    Started (after pending bytes).2 := by
  induction bytes generalizing pending with
  | nil => exact h
  | cons b bytes ih => exact ih (started_feed _ _)

/-- An ASCII byte starts anew. -/
theorem lossy_append (bytes : List UInt8) {b : UInt8} (hb : b.toNat < 0x80) (more : List UInt8) :
    lossy (bytes ++ b :: more) = lossy bytes ++ Char.ofNat b.toNat :: lossy more := by
  have hfeed (p : Option Pending) (hp : Started p) : feed p b.toNat =
      ((if p.isSome then [REPLACEMENT] else []) ++ [Char.ofNat b.toNat], none) := by
    cases p with
    | none => exact start_ascii hb
    | some p =>
      have hlow : 0x80 ≤ p.low := hp p rfl
      rw [feed, if_neg (by omega), start_ascii hb]
      rfl
  rw [lossy, lossyFrom_append, lossyFrom_cons, hfeed _ (started_after started_none bytes), lossy,
    lossyFrom_eq none bytes]
  simp [lossy]

/-- The text of the first bytes: the first part of the text, and perhaps a replacement. -/
theorem lossy_prefix {torn bytes : List UInt8} (h : torn <+: bytes) :
    ∃ part, part <+: lossy bytes ∧ (lossy torn = part ∨ lossy torn = part ++ [REPLACEMENT]) := by
  obtain ⟨rest, rfl⟩ := h
  refine ⟨(after none torn).1, ?_, ?_⟩
  · rw [lossy, lossyFrom_append]
    exact List.prefix_append _ _
  · rw [lossy, lossyFrom_eq]
    split
    · exact .inr rfl
    · exact .inl (List.append_nil _)

/-! ## First parts -/

theorem start_last {n : ℕ} {first rest : List Char} {d : Char}
    (h : (start n).1 = first ++ d :: rest) : rest = [] ∧ (start n).2 = none := by
  have hone {c : Char} (h : [c] = first ++ d :: rest) : rest = [] := by
    cases first <;> simp_all
  unfold start at h ⊢
  split at h
  · next hascii =>
    rw [if_pos hascii]
    exact ⟨hone h, rfl⟩
  · next hascii =>
    rw [if_neg hascii]
    split at h
    · simp at h
    · exact ⟨hone h, rfl⟩

/-- A character that a byte makes known is the last one, and nothing is pending after it, unless it
is a replacement. -/
theorem feed_last {n : ℕ} {first rest : List Char} {d : Char} (hd : d ≠ REPLACEMENT)
    (h : (feed pending n).1 = first ++ d :: rest) : rest = [] ∧ (feed pending n).2 = none := by
  cases pending with
  | none => exact start_last h
  | some p =>
    rw [feed] at h ⊢
    split at h
    · next hin =>
      rw [if_pos hin]
      rw [Pending.next] at h ⊢
      split at h
      · next hmore =>
        rw [if_pos hmore]
        cases first <;> simp_all
      · simp at h
    · next hin =>
      rw [if_neg hin]
      cases first with
      | nil => exact absurd (List.cons.inj h).1.symm hd
      | cons c first => exact start_last (List.cons.inj h).2

/-- The first part of a text, up to a character that is no replacement, is the text of the first
bytes. -/
theorem exists_after {first rest : List Char} {d : Char} (hd : d ≠ REPLACEMENT)
    (h : lossyFrom pending bytes = first ++ d :: rest) :
    ∃ torn, torn <+: bytes ∧ after pending torn = (first ++ [d], none) := by
  induction bytes generalizing pending first with
  | nil =>
    rw [lossyFrom] at h
    split at h
    · cases first <;> simp_all
    · simp at h
  | cons b bytes ih =>
    rw [lossyFrom_cons, List.append_eq_append_iff] at h
    rcases h with ⟨more, rfl, h⟩ | ⟨more, hfeed, h⟩
    · obtain ⟨torn, htorn, hafter⟩ := ih h
      exact ⟨b :: torn, List.cons_prefix_cons.2 ⟨rfl, htorn⟩, by simp [after, hafter]⟩
    · cases more with
      | nil =>
        obtain ⟨torn, htorn, hafter⟩ := @ih _ [] h.symm
        exact ⟨b :: torn, List.cons_prefix_cons.2 ⟨rfl, htorn⟩, by simp [after, hafter, hfeed]⟩
      | cons c more =>
        obtain ⟨rfl, -⟩ := List.cons.inj h
        obtain ⟨rfl, hnone⟩ := feed_last hd hfeed
        exact ⟨[b], List.cons_prefix_cons.2 ⟨rfl, List.nil_prefix⟩, by simp [after, hfeed, hnone]⟩

theorem exists_lossy {first rest : List Char} {d : Char} (hd : d ≠ REPLACEMENT)
    (h : lossy bytes = first ++ d :: rest) :
    ∃ torn, torn <+: bytes ∧ lossy torn = first ++ [d] := by
  obtain ⟨torn, htorn, hafter⟩ := exists_after hd h
  exact ⟨torn, htorn, by simp [lossy, lossyFrom_eq, hafter]⟩

/-! ## Texts -/

theorem lead_two : ∀ k < 32, 2 ≤ k → lead (k + 0xC0) = some ⟨k, 0x80, 0xBF, 0⟩ := by decide

theorem lead_three : ∀ k < 16, lead (k + 0xE0) =
    some ⟨k, if k = 0 then 0xA0 else 0x80, if k = 0xD then 0x9F else 0xBF, 1⟩ := by decide

theorem lead_four : ∀ k < 5, lead (k + 0xF0) =
    some ⟨k, if k = 0 then 0x90 else 0x80, if k = 4 then 0x8F else 0xBF, 2⟩ := by decide

/-- A first byte of several. -/
theorem lossyFrom_lead {n : ℕ} (hn : 0x80 ≤ n) (h256 : n < 256) {p : Pending}
    (h : lead n = some p) (bytes : List UInt8) :
    lossyFrom none (UInt8.ofNat n :: bytes) = lossyFrom (some p) bytes := by
  have hstart : start n = ([], some p) := by
    rw [start, if_neg (by omega), h]
  rw [lossyFrom_cons, UInt8.toNat_ofNat_of_lt' h256, feed, hstart]
  rfl

variable {k value low high more : ℕ}

/-- A byte that goes on, after which more are to come. -/
theorem lossyFrom_more (hlow : low ≤ k + 0x80) (hhigh : k + 0x80 ≤ high) (h256 : k + 0x80 < 256)
    (bytes : List UInt8) :
    lossyFrom (some ⟨value, low, high, more + 1⟩) (UInt8.ofNat (k + 0x80) :: bytes) =
      lossyFrom (some ⟨value * 64 + k, 0x80, 0xBF, more⟩) bytes := by
  rw [lossyFrom_cons, UInt8.toNat_ofNat_of_lt' h256, feed, if_pos ⟨hlow, hhigh⟩, Pending.next,
    if_neg (Nat.succ_ne_zero _), Nat.add_sub_cancel]
  rfl

/-- The last byte of a character. -/
theorem lossyFrom_last (hlow : low ≤ k + 0x80) (hhigh : k + 0x80 ≤ high) (h256 : k + 0x80 < 256)
    (bytes : List UInt8) :
    lossyFrom (some ⟨value, low, high, 0⟩) (UInt8.ofNat (k + 0x80) :: bytes) =
      Char.ofNat (value * 64 + k) :: lossyFrom none bytes := by
  rw [lossyFrom_cons, UInt8.toNat_ofNat_of_lt' h256, feed, if_pos ⟨hlow, hhigh⟩, Pending.next,
    if_pos rfl, Nat.add_sub_cancel]
  rfl

/-- The bytes of a character are read as it. -/
theorem lossyFrom_encodeChar (c : Char) (bytes : List UInt8) :
    lossyFrom none (String.utf8EncodeChar c ++ bytes) = c :: lossyFrom none bytes := by
  have hvalid : c.val.toNat < 0xD800 ∨ 0xDFFF < c.val.toNat ∧ c.val.toNat < 0x110000 := c.valid
  have hc : Char.ofNat c.val.toNat = c := Char.ofNat_toNat c
  generalize hv : c.val.toNat = v at hvalid hc
  unfold String.utf8EncodeChar
  rw [hv]
  dsimp only
  split
  · have h256 : v < 256 := by omega
    rw [List.singleton_append, lossyFrom_cons, UInt8.toNat_ofNat_of_lt' h256, feed,
      start_ascii (by omega), hc]
    rfl
  · split
    · rw [List.cons_append, List.singleton_append,
        lossyFrom_lead (by omega) (by omega) (lead_two _ (by omega) (by omega)),
        lossyFrom_last (by omega) (by omega) (by omega), ← hc]
      congr 2
      omega
    · split
      · rw [List.cons_append, List.cons_append, List.singleton_append,
          lossyFrom_lead (by omega) (by omega) (lead_three _ (by omega)),
          lossyFrom_more (by split <;> omega) (by split <;> omega) (by omega),
          lossyFrom_last (by omega) (by omega) (by omega), ← hc]
        congr 2
        omega
      · rw [List.cons_append, List.cons_append, List.cons_append, List.singleton_append,
          lossyFrom_lead (by omega) (by omega) (lead_four _ (by omega)),
          lossyFrom_more (by split <;> omega) (by split <;> omega) (by omega),
          lossyFrom_more (by omega) (by omega) (by omega),
          lossyFrom_last (by omega) (by omega) (by omega), ← hc]
        congr 2
        omega

/-- The text of a text's bytes is the text. -/
theorem lossy_encode (text : List Char) : lossy (text.flatMap String.utf8EncodeChar) = text := by
  induction text with
  | nil => rfl
  | cons c text ih => rw [List.flatMap_cons, lossy, lossyFrom_encodeChar, ← lossy, ih]

/-- ASCII bytes after some others are read on their own. -/
theorem lossy_append_ascii (bytes : List UInt8) {text : List Char}
    (h : ∀ c ∈ text, c.toNat < 0x80) :
    lossy (bytes ++ text.map fun c => UInt8.ofNat c.toNat) = lossy bytes ++ text := by
  induction text generalizing bytes with
  | nil => simp
  | cons c text ih =>
    have hc : c.toNat < 0x80 := h c List.mem_cons_self
    have hbyte : (UInt8.ofNat c.toNat).toNat = c.toNat :=
      UInt8.toNat_ofNat_of_lt' (hc.trans (by decide))
    have hrest := ih [] fun d hd => h d (List.mem_cons_of_mem _ hd)
    rw [List.nil_append] at hrest
    rw [List.map_cons, lossy_append bytes (by omega), hbyte, Char.ofNat_toNat, hrest]
    rfl

end Paperclip.Text
