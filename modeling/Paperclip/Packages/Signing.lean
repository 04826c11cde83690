import Paperclip.Packages.Fields

/-!
# Publisher signatures

A signature is over a domain separator and the bytes of a document as they were served.

* `Domain.message`: what is signed. It says which domain and which document (`message_inj`).
* `TrustedKeys.verify`: the check of a detached signature against the keys of this installation.
* `Verified`: bytes that a trusted key has signed. The signature is part of the type, so a document
  that was not checked cannot be parsed.
-/

namespace Paperclip.Packages

open Files

/-- The kinds of documents, which no signature confuses. -/
inductive Domain where
  | release
  | catalog
  | platform
  deriving DecidableEq, Repr

namespace Domain

/-- The name used in error messages. -/
def label : Domain → String
  | release => "paperclip.release.v1"
  | catalog => "paperclip.catalog.v1"
  | platform => "paperclip.platform.v1"

/-- The separator: the name and a NUL. -/
def separator (domain : Domain) : Bytes :=
  domain.label.toList.map (fun c => UInt8.ofNat c.toNat) ++ [0]

/-- The bytes that a signature is computed over. -/
def message (domain : Domain) (document : Bytes) : Bytes := domain.separator ++ document

/-- The eleventh byte of a message is the first letter of its domain. -/
theorem message_getElem (domain : Domain) (document : Bytes) :
    (domain.message document)[10]? = domain.separator[10]? := by
  rw [message, List.getElem?_append_left (by cases domain <;> decide)]

/-- A message is of one domain and of one document. -/
theorem message_inj {domain domain' : Domain} {document document' : Bytes}
    (h : domain.message document = domain'.message document') :
    domain = domain' ∧ document = document' := by
  have hd : domain = domain' := by
    have h10 := congrArg (·[10]?) h
    simp only [message_getElem] at h10
    cases domain <;> cases domain' <;> first | rfl | exact absurd h10 (by decide)
  subst hd
  exact ⟨rfl, List.append_cancel_left h⟩

end Domain

/-- The short name of a public key. -/
structure KeyId where
  bytes : Raw 8
  deriving DecidableEq

/-- A public key, as the tablet holds it. -/
structure PublicKey (K : Type) where
  inner : K
  id : KeyId

/-- A detached signature: which key made it, and what it made. -/
structure Signature where
  key : KeyId
  raw : Raw 64
  deriving DecidableEq

/-- Why a signature was not accepted. -/
inductive SignatureError where
  | notASignature
  | malformed
  | malformedKeyId
  | notOneLine
  | untrustedKey (key : KeyId) (trusted : Nat)
  | badSignature (key : KeyId) (domain : String)
  deriving DecidableEq

/-- The one line of a text that is neither blank nor a comment. -/
def singleLine (text : List Char) : Except SignatureError (List Char) :=
  match ((text.splitOn '\n').map trim).filter fun line =>
      line ≠ [] ∧ line.head? ≠ some '#' with
  | [line] => .ok line
  | _ => .error .notOneLine

namespace Signature

def ARMOUR : String := "paperclip-signature-v1"

/-- Reads a signature file. -/
def parse (text : String) : Except SignatureError Signature := do
  let line ← singleLine text.toList
  match line.splitOn ' ' with
  | [] => .error .notASignature
  | armour :: fields =>
    if armour ≠ ARMOUR.toList then .error .notASignature
    else match fields with
      | [] => .error .malformedKeyId
      | key :: fields =>
        match decodeHex key 8 with
        | none => .error .malformedKeyId
        | some key =>
          match fields with
          | [body] =>
            match decodeHex body 64 with
            | some raw => .ok ⟨⟨key⟩, raw⟩
            | none => .error .malformed
          | _ => .error .malformed

/-- The line of a signature. -/
def line (signature : Signature) : List Char :=
  [' '].intercalate [ARMOUR.toList, encodeHex signature.key.bytes.1, encodeHex signature.raw.1]

/-- The single line written to a signature file, newline included. -/
def toArmoured (signature : Signature) : String := String.ofList (signature.line ++ ['\n'])

theorem isWhitespace_of_mem_fields {signature : Signature} {field : List Char}
    (h : field ∈ [ARMOUR.toList, encodeHex signature.key.bytes.1, encodeHex signature.raw.1]) :
    ∀ c ∈ field, isWhitespace c = false := by
  simp only [List.mem_cons, List.not_mem_nil, or_false] at h
  rcases h with rfl | rfl | rfl
  · intro c hc
    have hall : ARMOUR.toList.all (fun c => !isWhitespace c) = true := by decide
    simpa using List.all_eq_true.mp hall c hc
  · exact fun _ => mem_encodeHex
  · exact fun _ => mem_encodeHex

/-- The line has the three fields in it, and no end of a line. -/
theorem splitOn_line (signature : Signature) :
    signature.line.splitOn ' ' =
      [ARMOUR.toList, encodeHex signature.key.bytes.1, encodeHex signature.raw.1] :=
  List.splitOn_intercalate ' ' (fun _ hf hc =>
    absurd (isWhitespace_of_mem_fields hf _ hc) (by decide)) (List.cons_ne_nil _ _)

theorem line_eq (signature : Signature) :
    signature.line = ARMOUR.toList ++ ' ' :: encodeHex signature.key.bytes.1 ++
      ' ' :: encodeHex signature.raw.1 := by
  simp [line]

/-- Reading the line gives the signature back. -/
theorem singleLine_toArmoured (signature : Signature) :
    singleLine (signature.line ++ ['\n']) = .ok signature.line := by
  have hne : encodeHex signature.raw.1 ≠ [] := by
    obtain ⟨_ | ⟨byte, rest⟩, h⟩ := signature.raw
    · cases h
    · simp [encodeHex]
  have hend : '\n' ∉ signature.line := by
    intro h
    rw [line_eq, List.mem_append, List.mem_append, List.mem_cons, List.mem_cons] at h
    rcases h with (h | h | h) | h | h
    · exact absurd h (by decide)
    · cases h
    · exact absurd (mem_encodeHex h) (by decide)
    · cases h
    · exact absurd (mem_encodeHex h) (by decide)
  have htrim : trim signature.line = signature.line := by
    refine trim_eq (fun c h => ?_) fun c h => ?_
    · rw [line_eq] at h
      obtain rfl := Option.some.inj h
      decide
    · rw [line_eq, List.getLast?_append_of_ne_nil _ (List.cons_ne_nil _ _),
        List.getLast?_cons_of_ne_nil hne] at h
      exact mem_encodeHex (List.mem_of_getLast? h)
  have hline : signature.line ≠ [] ∧ signature.line.head? ≠ some '#' := by
    rw [line_eq]
    exact ⟨List.cons_ne_nil _ _, fun h => absurd (Option.some.inj h) (by decide)⟩
  unfold singleLine
  rw [List.splitOn_append_cons_self_of_not_mem hend]
  simp [htrim, hline, trim_nil]

/-- A signature survives its file. -/
theorem parse_toArmoured (signature : Signature) : parse signature.toArmoured = .ok signature := by
  simp only [parse, toArmoured, String.toList_ofList, singleLine_toArmoured, splitOn_line,
    decodeHex_encodeHex, bind, Except.bind]
  simp

end Signature

/-- The public keys that this installation accepts documents from. -/
abbrev TrustedKeys (K : Type) := AList fun _ : KeyId => PublicKey K

variable {K : Type} {crates : Crates K} {keys : TrustedKeys K}

/-- A key of the installation, by this id, has signed the document under the domain. -/
def Signed (crates : Crates K) (keys : TrustedKeys K) (domain : Domain) (document : Bytes)
    (signer : KeyId) : Prop :=
  ∃ key, keys.lookup signer = some key ∧
    ∃ raw, crates.verifyStrict key.inner (domain.message document) raw = true

/-- Bytes that a trusted key has signed. -/
structure Verified (crates : Crates K) (keys : TrustedKeys K) where
  bytes : Bytes
  signer : KeyId
  domain : Domain
  signed : Signed crates keys domain bytes signer

namespace TrustedKeys

/-- Adds a key. -/
def trust (keys : TrustedKeys K) (key : PublicKey K) : TrustedKeys K := keys.insert key.id key

/-- Verifies a signature over a document. -/
def verify (crates : Crates K) (keys : TrustedKeys K) (domain : Domain) (document : Bytes)
    (signature : Signature) : Except SignatureError (Verified crates keys) :=
  match hk : keys.lookup signature.key with
  | none => .error (.untrustedKey signature.key keys.keys.length)
  | some key =>
    if hs : crates.verifyStrict key.inner (domain.message document) signature.raw then
      .ok ⟨document, signature.key, domain, key, hk, signature.raw, hs⟩
    else .error (.badSignature signature.key domain.label)

/-- What was verified is the document under the domain. -/
theorem verify_ok {domain : Domain} {document : Bytes} {signature : Signature}
    {verified : Verified crates keys} (h : keys.verify crates domain document signature = .ok verified) :
    verified.bytes = document ∧ verified.domain = domain ∧ verified.signer = signature.key := by
  unfold verify at h
  split at h
  · cases h
  · split at h <;> cases h
    exact ⟨rfl, rfl, rfl⟩

end TrustedKeys

end Paperclip.Packages
