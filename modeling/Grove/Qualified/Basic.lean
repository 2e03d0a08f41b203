import Grove.Qualified.Descriptor

/-! # Qualified values

A qualified value is a payload behind its descriptor. Every field of variable length is one:
identifiers, contents, keys and signatures.
-/

namespace Grove

structure Qualified (n : Namespace) where
  descriptor : Descriptor n
  payload : Bytes
  deriving DecidableEq, Repr

abbrev Hash := Qualified .hash
abbrev Content := Qualified .content
abbrev Key := Qualified .key
abbrev Signature := Qualified .signature

namespace Qualified

variable {n : Namespace}

instance : LawfulBEq (Qualified n) :=
  inferInstance

def kind (q : Qualified n) : Kind n :=
  q.descriptor.kind

/-- The payload is as long as the descriptor says, and as the kind demands. -/
structure WellFormed (q : Qualified n) : Prop where
  descriptor : q.descriptor.WellFormed
  length : q.payload.length = q.descriptor.length.toNat

instance (q : Qualified n) : Decidable q.WellFormed :=
  decidable_of_iff (q.descriptor.WellFormed ∧ q.payload.length = q.descriptor.length.toNat)
    ⟨fun h => ⟨h.1, h.2⟩, fun h => ⟨h.1, h.2⟩⟩

def new (kind : Kind n) (payload : Bytes) : Except SizeError (Qualified n) := do
  return ⟨← Descriptor.new kind payload.length, payload⟩

/-- A payload behind the descriptor that its kind fixes. -/
def ofFixed (kind : Kind n) (payload : Bytes) : Qualified n :=
  ⟨.fixed kind, payload⟩

def decode : Decoder DecodeError (Qualified n) := do
  let descriptor ← Wire.decode
  let payload ← Decoder.take descriptor.length.toNat
  return ⟨descriptor, payload⟩

instance : Wire (Qualified n) where
  encode q := encode q.descriptor ++ q.payload
  encodedLength q := Descriptor.size + q.payload.length
  decode := decode

/--
A value of each namespace in turn, as far as they can be read, and the failure that stopped the
reading, with the bytes from there on.
-/
def decodeSequence :
    List Namespace → Bytes → List ((n : Namespace) × Qualified n) × Option DecodeError × Bytes
  | [], rest => ([], none, rest)
  | n :: spaces, rest =>
    match (decode (n := n)).run rest with
    | .ok (q, rest) =>
      let (read, failure, rest) := decodeSequence spaces rest
      (⟨n, q⟩ :: read, failure, rest)
    | .error e => ([], some e, rest)

/-- Lexicographic order of bytes, a proper front part first. -/
def compareBytes : Bytes → Bytes → Ordering
  | [], [] => .eq
  | [], _ :: _ => .lt
  | _ :: _, [] => .gt
  | x :: a, y :: b => (compare x.toNat y.toNat).then (compareBytes a b)

/-- Orders by kind, then by length, then by payload. -/
instance : Ord (Qualified n) where
  compare p q :=
    ((compare p.kind.tag.toNat q.kind.tag.toNat).then
      (compare p.descriptor.length.toNat q.descriptor.length.toNat)).then
        (compareBytes p.payload q.payload)

/-- Not after `q` in the order of qualified values. -/
def le (p q : Qualified n) : Bool :=
  (compare p q).isLE

end Qualified

def Hash.null : Hash :=
  .ofFixed .null []

def Qualified.isNull (h : Hash) : Bool :=
  h.kind = .null

end Grove
