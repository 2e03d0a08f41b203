import Grove.Wire

/-! # Descriptors

A descriptor names the kind of a payload and the payload's length, in three bytes.
-/

namespace Grove

inductive SizeError where
  /-- More bytes than a two-byte length can say. -/
  | tooLarge (length : Nat)
  /-- Another length than the one that the kind fixes. -/
  | wrong (space : Namespace) (kind : Kind space) (expected : UInt16) (actual : Nat)
  deriving DecidableEq, Repr

def SizeError.message : SizeError → String
  | tooLarge length => s!"payload of {length} bytes exceeds the 65535 byte limit"
  | wrong space kind expected actual =>
    s!"{space.name} type {kind.label} requires length {expected}, got {actual}"

structure Descriptor (n : Namespace) where
  kind : Kind n
  length : UInt16
  deriving DecidableEq, Repr

abbrev HashDescriptor := Descriptor .hash

namespace Descriptor

variable {n : Namespace}

def new (kind : Kind n) (length : Nat) : Except SizeError (Descriptor n) :=
  if 65535 < length then .error (.tooLarge length)
  else
    match kind.fixedLength with
    | some expected =>
      if expected.toNat = length then .ok ⟨kind, expected⟩
      else .error (.wrong n kind expected length)
    | none => .ok ⟨kind, UInt16.ofNat length⟩

/-- The descriptor of a kind with its fixed length, or zero where none is fixed. -/
def fixed (kind : Kind n) : Descriptor n :=
  ⟨kind, kind.fixedLength.getD 0⟩

def WellFormed (d : Descriptor n) : Prop :=
  ∀ expected ∈ d.kind.fixedLength, d.length = expected

instance (d : Descriptor n) : Decidable d.WellFormed :=
  Option.decidableForallMem (p := fun expected => d.length = expected) d.kind.fixedLength

def text (d : Descriptor n) : String :=
  s!"{d.kind.label}_{d.length}"

/-- The descriptor of a kind and a length that were read, if the kind allows the length. -/
def ofRead (kind : Kind n) (length : UInt16) : Decoder DecodeError (Descriptor n) :=
  match kind.fixedLength with
  | some expected =>
    if length = expected then return ⟨kind, length⟩
    else throw (.lengthMismatch n kind expected length)
  | none => return ⟨kind, length⟩

def decode : Decoder DecodeError (Descriptor n) := do
  let tag : UInt8 ← Wire.decode
  let some kind := Kind.ofTag? n tag | throw (.unknownTag n tag)
  let length : UInt16 ← Wire.decode
  ofRead kind length

def size : Nat :=
  3

instance : Wire (Descriptor n) where
  encode d := encode d.kind.tag ++ encode d.length
  encodedLength _ := size
  decode := decode

end Descriptor

end Grove
