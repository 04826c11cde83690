import Mathlib.Algebra.Group.Nat.Defs
import Paperclip.Packages.Manifest

/-!
# The fields of documents

The texts of a document, and what they are parsed into. Whoever reads a document reports a field
that does not parse by its name and its text, so a parser here answers `none` for every error.

* `Raw n`: `n` bytes, as a digest, a key id or a signature holds them; `decodeHex`: from their text.
* `AppId.parse`, `DisplayName.parse`, `Digest.parse`, `parseProtocol`: the fields.
* `RawIndexDocument`, `RawDocument`: the two signed documents, before their fields are parsed.
* `Crates`: what the package code takes from other crates.
-/

namespace Paperclip.Packages

open Files Protocol

/-! ## Texts -/

/-- Whether a character is white space. -/
def isWhitespace (c : Char) : Bool :=
  let n := c.toNat
  (9 ≤ n && n ≤ 13) || n == 0x20 || n == 0x85 || n == 0xA0 || n == 0x1680 ||
    (0x2000 ≤ n && n ≤ 0x200A) || n == 0x2028 || n == 0x2029 || n == 0x202F || n == 0x205F ||
    n == 0x3000

/-- Whether a character is a control character. -/
def isControl (c : Char) : Bool := c.toNat < 0x20 || (0x7F ≤ c.toNat && c.toNat ≤ 0x9F)

def isAsciiLowercase (c : Char) : Bool := 'a' ≤ c && c ≤ 'z'

def isAsciiDigit (c : Char) : Bool := '0' ≤ c && c ≤ '9'

def isAsciiAlphanumeric (c : Char) : Bool :=
  isAsciiLowercase c || isAsciiDigit c || ('A' ≤ c && c ≤ 'Z')

/-- The text without the white space around it. -/
def trim (text : List Char) : List Char :=
  ((text.dropWhile isWhitespace).reverse.dropWhile isWhitespace).reverse

theorem trim_nil : trim [] = [] := rfl

private theorem dropWhile_of_head {p : Char → Bool} {text : List Char}
    (h : ∀ c, text.head? = some c → p c = false) : text.dropWhile p = text := by
  cases text with
  | nil => rfl
  | cons c rest => rw [List.dropWhile_cons_of_neg (by simp [h c rfl])]

/-- A text that neither starts nor ends with white space. -/
theorem trim_eq {text : List Char} (hf : ∀ c, text.head? = some c → isWhitespace c = false)
    (hl : ∀ c, text.getLast? = some c → isWhitespace c = false) : trim text = text := by
  unfold trim
  rw [dropWhile_of_head hf, dropWhile_of_head (by simpa using hl), List.reverse_reverse]

/-- What is left when the white space at the end is taken away too. -/
theorem trim_isPrefix (text : List Char) : trim text <+: text.dropWhile isWhitespace := by
  have := List.reverse_prefix.2
    (List.dropWhile_suffix (l := (text.dropWhile isWhitespace).reverse) isWhitespace)
  rwa [List.reverse_reverse] at this

/-- The text after `start`, if that is what it starts with. -/
def stripPrefix (start text : List Char) : Option (List Char) :=
  if start.isPrefixOf text then some (text.drop start.length) else none

/-! ## Hexadecimal -/

/-- `n` bytes. -/
abbrev Raw (n : Nat) := { bytes : Bytes // bytes.length = n }

/-- The value of a lower-case hex digit. -/
def hexValue (c : Char) : Option ℕ :=
  if isAsciiDigit c then some (c.toNat - '0'.toNat)
  else if 'a' ≤ c && c ≤ 'f' then some (c.toNat - 'a'.toNat + 10)
  else none

/-- The bytes that a text of hex digits spells. -/
def hexPairs : List Char → Option Bytes
  | [] => some []
  | [_] => none
  | high :: low :: rest => do
    let high ← hexValue high
    let low ← hexValue low
    let bytes ← hexPairs rest
    return UInt8.ofNat (high * 16 + low) :: bytes

/-- Exactly `n` bytes. -/
def decodeHex (text : List Char) (n : ℕ) : Option (Raw n) :=
  (hexPairs text).bind fun bytes => if h : bytes.length = n then some ⟨bytes, h⟩ else none

/-- The digit of a value below sixteen. -/
def nibble (value : ℕ) : Char :=
  Char.ofNat (if value < 10 then '0'.toNat + value else 'a'.toNat + value - 10)

/-- The text of some bytes. -/
def encodeHex (bytes : Bytes) : List Char :=
  bytes.flatMap fun byte => [nibble (byte.toNat / 16), nibble (byte.toNat % 16)]

theorem nibble_spec : ∀ n < 16, hexValue (nibble n) = some n ∧ isWhitespace (nibble n) = false := by
  decide

theorem hexPairs_encodeHex (bytes : Bytes) : hexPairs (encodeHex bytes) = some bytes := by
  induction bytes with
  | nil => rfl
  | cons byte rest ih =>
    have hb := byte.toNat_lt
    have hh := (nibble_spec (byte.toNat / 16) (by omega)).1
    have hl := (nibble_spec (byte.toNat % 16) (by omega)).1
    have hv : UInt8.ofNat (byte.toNat / 16 * 16 + byte.toNat % 16) = byte := by
      rw [show byte.toNat / 16 * 16 + byte.toNat % 16 = byte.toNat by omega, UInt8.ofNat_toNat]
    unfold encodeHex at ih ⊢
    simp only [List.flatMap_cons, List.cons_append, List.nil_append, hexPairs, hh, hl, ih, hv,
      Option.bind_eq_bind, Option.bind_some, Option.pure_def]

theorem decodeHex_encodeHex {n : ℕ} (raw : Raw n) : decodeHex (encodeHex raw.1) n = some raw := by
  simp [decodeHex, hexPairs_encodeHex, raw.2]

/-- Hex has no white space in it. -/
theorem mem_encodeHex {bytes : Bytes} {c : Char} (h : c ∈ encodeHex bytes) :
    isWhitespace c = false := by
  obtain ⟨byte, -, hc⟩ := List.mem_flatMap.mp h
  have hb := byte.toNat_lt
  simp only [List.mem_cons, List.not_mem_nil, or_false] at hc
  rcases hc with rfl | rfl
  · exact (nibble_spec _ (by omega)).2
  · exact (nibble_spec _ (by omega)).2

/-! ## Fields -/

namespace AppId

/-- Longest permitted id, in bytes. -/
def MAX_LEN : Nat := 128

/-- Whether a text can stand between two dots of an id. -/
def segmentOk (segment : List Char) : Bool :=
  match segment with
  | [] => false
  | first :: _ =>
    isAsciiLowercase first &&
      segment.all (fun c => isAsciiLowercase c || isAsciiDigit c || c == '-') &&
      segment.getLast? != some '-'

/-- Parses an app id. -/
def parse (text : String) : Option AppId :=
  let segments := text.toList.splitOn '.'
  if text.utf8ByteSize ≤ MAX_LEN ∧ 2 ≤ segments.length ∧ segments.all segmentOk then some ⟨text⟩
  else none

end AppId

/-- The label of an app. -/
structure DisplayName where
  text : String
  deriving DecidableEq, Repr

namespace DisplayName

/-- Longest permitted name, in characters. -/
def MAX_LEN : Nat := 48

/-- Parses a label. The white space around it is dropped. -/
def parse (text : String) : Option DisplayName :=
  let trimmed := trim text.toList
  if trimmed ≠ [] ∧ trimmed.length ≤ MAX_LEN ∧ ¬ trimmed.any isControl then
    some ⟨String.ofList trimmed⟩
  else none

end DisplayName

/-- A SHA-256 digest. -/
structure Digest where
  bytes : Raw 32
  deriving DecidableEq

/-- Parses a digest. -/
def Digest.parse (text : String) : Option Digest := do
  let hex ← stripPrefix "sha256:".toList text.toList
  let bytes ← decodeHex hex 32
  return ⟨bytes⟩

/-- A number below `2 ^ 16`, which a sign may precede. -/
def parseU16 (text : List Char) : Option Nat :=
  let digits := (stripPrefix ['+'] text).getD text
  let value := digits.foldl (fun n c => n * 10 + (c.toNat - '0'.toNat)) 0
  if digits ≠ [] ∧ digits.all isAsciiDigit ∧ value < 2 ^ 16 then some value else none

/-- A number below `2 ^ 64`, which a sign may precede. -/
def parseU64 (text : List Char) : Option ℕ :=
  let digits := (stripPrefix ['+'] text).getD text
  let value := digits.foldl (fun n c => n * 10 + (c.toNat - '0'.toNat)) 0
  if digits ≠ [] ∧ digits.all isAsciiDigit ∧ value < 2 ^ 64 then some value else none

/-- Parses a protocol version. -/
def parseProtocol (text : String) : Option ProtocolVersion :=
  match text.toList.splitOn '.' with
  | [major, minor] => do
    let major ← parseU16 major
    let minor ← parseU16 minor
    return ⟨major, minor⟩
  | _ => none

theorem isAsciiDigit_of_isDigit {c : Char} (h : c.isDigit = true) : isAsciiDigit c = true := by
  simp only [Char.isDigit, Bool.and_eq_true, decide_eq_true_eq] at h
  simp only [isAsciiDigit, Bool.and_eq_true, decide_eq_true_eq, Char.le_def]
  exact h

theorem mem_toDigits {n : ℕ} {c : Char} (h : c ∈ Nat.toDigits 10 n) : c.isDigit = true :=
  Nat.isDigit_of_mem_toDigits (by decide) (by decide) h

theorem isWhitespace_of_isDigit {c : Char} (h : c.isDigit = true) : isWhitespace c = false := by
  have hrange : 48 ≤ c.toNat ∧ c.toNat ≤ 57 := Char.isDigit_iff_toNat.1 h
  simp only [isWhitespace, Bool.or_eq_false_iff, Bool.and_eq_false_iff, decide_eq_false_iff_not,
    beq_eq_false_iff_ne]
  omega

/-- The digits of a number have nothing to trim. -/
theorem trim_toDigits (n : ℕ) : trim (Nat.toDigits 10 n) = Nat.toDigits 10 n :=
  trim_eq (fun _ h => isWhitespace_of_isDigit (mem_toDigits (List.mem_of_head? h)))
    (fun _ h => isWhitespace_of_isDigit (mem_toDigits (List.mem_of_getLast? h)))

/-- White space at the end is trimmed. -/
theorem trim_concat (text : List Char) {c : Char} (hc : isWhitespace c = true) :
    trim (text ++ [c]) = trim text := by
  unfold trim
  rw [List.dropWhile_append]
  split
  · next h =>
    rw [List.dropWhile_cons_of_pos hc, List.isEmpty_iff.mp h]
    rfl
  · rw [List.reverse_append, List.reverse_singleton, List.singleton_append,
      List.dropWhile_cons_of_pos hc]

/-- The digits of a number have no sign, are digits, and spell it. -/
theorem toDigits_spec (n : ℕ) : stripPrefix ['+'] (Nat.toDigits 10 n) = none ∧
    (Nat.toDigits 10 n).all isAsciiDigit = true ∧
    (Nat.toDigits 10 n).foldl (fun n c => n * 10 + (c.toNat - '0'.toNat)) 0 = n := by
  refine ⟨?_, ?_, ?_⟩
  · rw [stripPrefix, if_neg]
    intro hpre
    obtain ⟨rest, hrest⟩ := List.isPrefixOf_iff_prefix.1 hpre
    have := mem_toDigits (n := n) (c := '+') (by rw [← hrest]; simp)
    simp [Char.isDigit] at this
  · exact List.all_eq_true.2 fun c hc => isAsciiDigit_of_isDigit (mem_toDigits hc)
  · have := Nat.ofDigitChars_ten_toDigits (n := n)
    rw [Nat.ofDigitChars_eq_foldl] at this
    simpa only [Nat.mul_comm] using this

/-- A number that fits is parsed from its digits. -/
theorem parseU16_toDigits {n : ℕ} (h : n < 2 ^ 16) : parseU16 (Nat.toDigits 10 n) = some n := by
  obtain ⟨hsign, hdigits, hvalue⟩ := toDigits_spec n
  rw [parseU16, hsign, Option.getD_none, hvalue, if_pos ⟨Nat.toDigits_ne_nil, hdigits, h⟩]

theorem parseU64_toDigits {n : ℕ} (h : n < 2 ^ 64) : parseU64 (Nat.toDigits 10 n) = some n := by
  obtain ⟨hsign, hdigits, hvalue⟩ := toDigits_spec n
  rw [parseU64, hsign, Option.getD_none, hvalue, if_pos ⟨Nat.toDigits_ne_nil, hdigits, h⟩]

/-! ## Documents -/

/-- One line of a catalog index, as written. -/
structure RawIndexEntry where
  app : String
  name : String
  version : String
  descriptor : String
  deriving DecidableEq, Repr

/-- A catalog index, as written. -/
structure RawIndexDocument where
  name : String
  serial : Nat
  generated : Nat
  release : List RawIndexEntry
  deriving DecidableEq, Repr

/-- A release descriptor, as written. -/
structure RawDocument where
  app : String
  name : String
  version : String
  protocol : String
  archive : String
  size : Nat
  digest : String
  published : Nat
  notes : String
  deriving DecidableEq, Repr

/-- What the package code takes from other crates, for public keys of type `K`: the check of a raw
signature over a message, the hash, and the readers of TOML and of semantic versions. -/
structure Crates (K : Type) where
  verifyStrict : K → (message : Bytes) → Raw 64 → Bool
  sha256 : Bytes → Raw 32
  indexToml : String → Except String RawIndexDocument
  releaseToml : String → Except String RawDocument
  version : String → Option Version

variable {K : Type}

/-- The digest of some bytes. -/
def Digest.ofBytes (crates : Crates K) (bytes : Bytes) : Digest := ⟨crates.sha256 bytes⟩

/-- The text of some bytes, if they are UTF-8. -/
def decodeUtf8 (bytes : Bytes) : Option String := String.fromUTF8? ⟨bytes.toArray⟩

/-- The bytes of a text. -/
def encodeUtf8 (text : String) : Bytes := text.toUTF8.data.toList

theorem decodeUtf8_encodeUtf8 (text : String) : decodeUtf8 (encodeUtf8 text) = some text := by
  unfold decodeUtf8 encodeUtf8 String.fromUTF8?
  simp only [Array.toArray_toList]
  exact dif_pos text.isValidUTF8

theorem encodeUtf8_of_decodeUtf8 {bytes : Bytes} {text : String}
    (h : decodeUtf8 bytes = some text) : encodeUtf8 text = bytes := by
  unfold decodeUtf8 String.fromUTF8? at h
  split at h
  · obtain rfl := Option.some.inj h
    simp [encodeUtf8, String.fromUTF8]
  · cases h

/-- A first part of a text's bytes that is a text is a first part of it. -/
theorem prefix_of_decodeUtf8 {torn : Bytes} {text whole : String}
    (htorn : torn <+: encodeUtf8 whole) (h : decodeUtf8 torn = some text) :
    text.toList <+: whole.toList := by
  obtain ⟨rest, hrest⟩ := htorn
  rw [← encodeUtf8_of_decodeUtf8 h] at hrest
  refine List.isPrefix_of_utf8Encode_append_eq_utf8Encode rest.toByteArray ?_
  rw [String.utf8Encode_toList, String.utf8Encode_toList]
  apply ByteArray.ext
  apply Array.ext'
  simpa [encodeUtf8] using hrest

end Paperclip.Packages
