import Paperclip.Files.Tree

/-!
# ELF headers

What the first bytes of an entrypoint say it is. A 16-bit field is read as a number.
-/

namespace Paperclip.Packages

open Files

/-- Bytes of an ELF header that are read. -/
def HEADER_BYTES : Nat := 20

def MAGIC : Bytes := [0x7f, 0x45, 0x4c, 0x46]

def CLASS_64 : UInt8 := 2

def DATA_LITTLE_ENDIAN : UInt8 := 1

def TYPE_EXECUTABLE : Nat := 2

def TYPE_SHARED_OBJECT : Nat := 3

/-- `EM_AARCH64`, the tablet's architecture. -/
def MACHINE_AARCH64 : Nat := 0xB7

/-- What kind of ELF object a file is. -/
inductive ObjectKind where
  | executable
  | sharedObject
  deriving DecidableEq, Repr

/-- What an ELF header says. -/
structure ExecutableTarget where
  machine : Nat
  kind : ObjectKind
  deriving DecidableEq, Repr

/-- Why a file is not a usable entrypoint. -/
inductive BinaryError where
  | notElf
  | wrongElfShape
  | notExecutable (kind : Nat)
  | wrongMachine (found expected : Nat)
  deriving DecidableEq, Repr

/-- The little-endian 16-bit number at an offset. -/
def u16At (header : Bytes) (offset : Nat) : Nat :=
  (header.getD offset 0).toNat + 256 * (header.getD (offset + 1) 0).toNat

/-- Reads the header of an entrypoint. -/
def inspectEntrypoint (file : Bytes) : Except BinaryError ExecutableTarget :=
  if file.length < HEADER_BYTES then .error .notElf
  else if file.take 4 ≠ MAGIC then .error .notElf
  else if file.getD 4 0 ≠ CLASS_64 ∨ file.getD 5 0 ≠ DATA_LITTLE_ENDIAN then .error .wrongElfShape
  else if u16At file 16 = TYPE_EXECUTABLE then .ok ⟨u16At file 18, .executable⟩
  else if u16At file 16 = TYPE_SHARED_OBJECT then .ok ⟨u16At file 18, .sharedObject⟩
  else .error (.notExecutable (u16At file 16))

end Paperclip.Packages
