import Mathlib.Algebra.GroupWithZero.Nat
import Paperclip.Packages.Fields
import Paperclip.Toml.Lines

/-!
# The texts of fields

What is written for a version or a protocol, and read back from it.

* `Version.WellFormed`: what the crate of semantic versions makes sure of.
* `isPlain`: a character of a field that needs no quotes. Versions, protocols and digests have no others.
* `parseProtocol_text`: a protocol version is parsed from its text.
-/

namespace Paperclip

namespace Version

/-- A character of an identifier. -/
def isIdentifierChar (c : Char) : Bool := Packages.isAsciiAlphanumeric c || c == '-'

/-- What the crate of semantic versions makes sure of, as it builds one. -/
structure WellFormed (v : Version) : Prop where
  numbers : v.major < 2 ^ 64 ∧ v.minor < 2 ^ 64 ∧ v.patch < 2 ^ 64
  identifiers : ∀ identifier ∈ v.pre ++ v.build,
    identifier ≠ "" ∧ identifier.toList.all isIdentifierChar = true
  noLeadingZero : ∀ identifier ∈ v.pre, identifier.toList.all Char.isDigit = true →
    identifier.toList.head? = some '0' → identifier = "0"

end Version

namespace Packages

open Protocol

/-- How many bytes a text takes. -/
theorem utf8ByteSize_ofList (text : List Char) :
    (String.ofList text).utf8ByteSize = (text.map Char.utf8Size).sum := by
  induction text with
  | nil => rfl
  | cons c text ih =>
    rw [String.ofList_cons, String.utf8ByteSize_append, String.utf8ByteSize_singleton, ih]
    rfl

/-- The text of a protocol version. -/
def protocolText (protocol : ProtocolVersion) : String :=
  toString protocol.major ++ "." ++ toString protocol.minor

/-- A character of an unquoted field: of a version, of a number, of a digest. -/
def isPlain (c : Char) : Bool := isAsciiAlphanumeric c || c == '-' || c == '.' || c == '+' || c == ':'

theorem isPlain_spec {c : Char} (h : isPlain c = true) :
    Toml.allowed c = true ∧ c ≠ '\\' ∧ c ≠ '"' := by
  refine ⟨?_, ?_, ?_⟩
  · have hrange : 0x20 ≤ c.toNat ∧ c.toNat ≤ 0x7A := by
      simp only [isPlain, isAsciiAlphanumeric, isAsciiLowercase, isAsciiDigit, Bool.or_eq_true,
        Bool.and_eq_true, decide_eq_true_eq, beq_iff_eq] at h
      rcases h with (((((h | h) | h) | rfl) | rfl) | rfl) | rfl
      · exact ⟨Nat.le_trans (show 0x20 ≤ 'a'.toNat by decide) h.1, h.2⟩
      · exact ⟨Nat.le_trans (show 0x20 ≤ '0'.toNat by decide) h.1,
          Nat.le_trans h.2 (show '9'.toNat ≤ 0x7A by decide)⟩
      · exact ⟨Nat.le_trans (show 0x20 ≤ 'A'.toNat by decide) h.1,
          Nat.le_trans h.2 (show 'Z'.toNat ≤ 0x7A by decide)⟩
      all_goals decide
    simp only [Toml.allowed, Bool.or_eq_true, Bool.and_eq_true, decide_eq_true_eq]
    right
    omega
  · rintro rfl
    exact absurd h (by decide)
  · rintro rfl
    exact absurd h (by decide)

theorem isPlain_of_isDigit {c : Char} (h : c.isDigit = true) : isPlain c = true := by
  simp [isPlain, isAsciiAlphanumeric, isAsciiDigit_of_isDigit h]

theorem plain_number (n : ℕ) : (toString n).toList.all isPlain = true := by
  rw [show toString n = Nat.repr n from rfl, Nat.repr_eq_ofList_toDigits, String.toList_ofList]
  exact List.all_eq_true.2 fun c hc => isPlain_of_isDigit (mem_toDigits hc)

theorem plain_identifiers {identifiers : List String}
    (h : ∀ identifier ∈ identifiers, identifier.toList.all Version.isIdentifierChar = true) :
    (".".intercalate identifiers).toList.all isPlain = true := by
  have hone {identifier : String} (h : identifier.toList.all Version.isIdentifierChar = true) :
      identifier.toList.all isPlain = true := by
    refine List.all_eq_true.2 fun c hc => ?_
    have := List.all_eq_true.1 h c hc
    simp only [Version.isIdentifierChar, Bool.or_eq_true] at this
    rcases this with h | h <;> simp [isPlain, h]
  induction identifiers with
  | nil => rfl
  | cons identifier rest ih =>
    cases rest with
    | nil =>
      rw [String.intercalate_singleton]
      exact hone (h identifier List.mem_cons_self)
    | cons next rest =>
      rw [String.intercalate_cons_cons, String.toList_append, String.toList_append, List.all_append,
        List.all_append, hone (h identifier List.mem_cons_self),
        ih fun i hi => h i (List.mem_cons_of_mem _ hi)]
      rfl

theorem plain_version {version : Version} (h : version.WellFormed) :
    version.toString.toList.all isPlain = true := by
  have hpre := plain_identifiers fun i hi => (h.identifiers i (List.mem_append_left _ hi)).2
  have hbuild := plain_identifiers fun i hi => (h.identifiers i (List.mem_append_right _ hi)).2
  have hnumber (n : ℕ) : (Nat.repr n).toList.all isPlain = true := plain_number n
  unfold Version.toString
  dsimp only
  split <;> split <;>
    simp only [String.toList_append, List.all_append, hnumber, hpre, hbuild, toString] <;> decide

theorem plain_protocol (protocol : ProtocolVersion) :
    (protocolText protocol).toList.all isPlain = true := by
  simp only [protocolText, String.toList_append, List.all_append, plain_number]
  decide

theorem isPlain_of_hexValue {c : Char} {value : ℕ} (h : hexValue c = some value) :
    isPlain c = true := by
  unfold hexValue at h
  split at h
  · next hdigit => simp [isPlain, isAsciiAlphanumeric, hdigit]
  · split at h
    · next hletter =>
      have hlower : isAsciiLowercase c = true := by
        simp only [Bool.and_eq_true, decide_eq_true_eq] at hletter
        simp only [isAsciiLowercase, Bool.and_eq_true, decide_eq_true_eq]
        exact ⟨hletter.1, Nat.le_trans hletter.2 (show 'f'.toNat ≤ 'z'.toNat by decide)⟩
      simp [isPlain, isAsciiAlphanumeric, hlower]
    · cases h

theorem plain_hexPairs (text : List Char) : ∀ bytes, hexPairs text = some bytes →
    text.all isPlain = true := by
  induction text using hexPairs.induct with
  | case1 => exact fun _ _ => rfl
  | case2 c => exact fun _ h => by cases h
  | case3 high low rest ih =>
    intro bytes h
    obtain ⟨value, hhigh, h⟩ := Option.bind_eq_some_iff.1 h
    obtain ⟨value', hlow, h⟩ := Option.bind_eq_some_iff.1 h
    obtain ⟨bytes', hrest, h⟩ := Option.bind_eq_some_iff.1 h
    rw [List.all_cons, List.all_cons, isPlain_of_hexValue hhigh, isPlain_of_hexValue hlow,
      ih bytes' hrest]
    rfl

theorem plain_digest {text : String} (h : (Packages.Digest.parse text).isSome = true) :
    text.toList.all isPlain = true := by
  obtain ⟨digest, h⟩ := Option.isSome_iff_exists.1 h
  obtain ⟨hex, hstrip, h⟩ := Option.bind_eq_some_iff.1 h
  obtain ⟨bytes, hdecode, -⟩ := Option.bind_eq_some_iff.1 h
  obtain ⟨raw, hpairs, -⟩ := Option.bind_eq_some_iff.1 hdecode
  unfold stripPrefix at hstrip
  split at hstrip
  · next hstart =>
    obtain ⟨rest, hrest⟩ := List.isPrefixOf_iff_prefix.1 hstart
    rw [← hrest, List.drop_left] at hstrip
    cases hstrip
    rw [← hrest, List.all_append, plain_hexPairs _ _ hpairs]
    decide
  · cases hstrip

theorem parseProtocol_text {protocol : ProtocolVersion}
    (h : protocol.major < 2 ^ 16 ∧ protocol.minor < 2 ^ 16) :
    parseProtocol (protocolText protocol) = some protocol := by
  have hdot (n : ℕ) : '.' ∉ Nat.toDigits 10 n := fun hc => by
    have := mem_toDigits hc
    simp [Char.isDigit] at this
  have htext : (protocolText protocol).toList =
      Nat.toDigits 10 protocol.major ++ '.' :: Nat.toDigits 10 protocol.minor := by
    simp [protocolText, Nat.repr_eq_ofList_toDigits]
  rw [parseProtocol, htext, List.splitOn_append_cons_self_of_not_mem (hdot _),
    List.splitOn_eq_singleton (hdot _)]
  dsimp only
  rw [parseU16_toDigits h.1, parseU16_toDigits h.2]
  rfl

end Packages

end Paperclip
