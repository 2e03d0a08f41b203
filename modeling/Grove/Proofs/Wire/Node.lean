import Grove.Node.Codec
import Grove.Proofs.Wire.Qualified

/-! # Reading nodes

A byte string starts with a node exactly when the node is sealed and its wire form stands in front.
Hence a sealed node is read back whatever follows it, and no node has two wire forms: what is read
is written again byte for byte, and its identifier is the digest of the bytes that were read.
-/

namespace Grove

namespace Field

theorem decode_eq_ok_iff {f : Field} {α : Type} [Wire α] {input : Bytes} {p : α × Bytes} :
    (f.decode α).run input = .ok p ↔ (Wire.decode (α := α)).run input = .ok p :=
  Decoder.mapError_eq_ok_iff

theorem decodeKind_eq_ok_iff {kind : NodeKind} {input rest : Bytes} :
    decodeKind.run input = .ok (kind, rest) ↔ input = encode kind.tag ++ rest := by
  simp only [decodeKind, Decoder.bind_eq_ok_iff, decode_eq_ok_iff, LawfulWire.decode_eq_ok_iff]
  constructor
  · rintro ⟨tag, _, rfl, h⟩
    cases hk : Kind.ofTag? .node tag with
    | none => simp only [hk, Decoder.throw_eq_ok_iff] at h
    | some found =>
      simp only [hk, Decoder.pure_eq_ok_iff] at h
      obtain ⟨rfl, rfl⟩ := h
      rw [Kind.tag_of_ofTag? hk]
  · rintro rfl
    refine ⟨kind.tag, rest, rfl, ?_⟩
    simp only [Kind.ofTag?_tag, Decoder.pure_eq_ok_iff, and_self]

end Field

namespace Header

def values (h : Header) : List ((n : Namespace) × Qualified n) :=
  [⟨_, h.parent⟩, ⟨_, h.metadata⟩, ⟨_, h.signer⟩]

structure Readable (h : Header) : Prop where
  version : h.version = schemaVersion
  idKind : h.idDescriptor.kind ≠ .null
  idDescriptor : h.idDescriptor.WellFormed
  values : ∀ v ∈ h.values, v.2.WellFormed

theorem decode_eq_ok_iff {kind : NodeKind} {h : Header} {input rest : Bytes} :
    decode.run input = .ok ((kind, h), rest) ↔ h.Readable ∧ input = h.encode kind ++ rest := by
  simp only [decode, Decoder.bind_eq_ok_iff, Decoder.unless_throw_eq_ok_iff,
    Decoder.pure_eq_ok_iff, Decidable.not_not, Field.decode_eq_ok_iff,
    Field.decodeKind_eq_ok_iff, LawfulWire.decode_eq_ok_iff, Descriptor.decode_eq_ok_iff,
    Qualified.decode_eq_ok_iff]
  constructor
  · rintro ⟨version, _, rfl, hv, _, _, rfl, parent, _, ⟨hp, rfl⟩, idDescriptor, _, ⟨hd, rfl⟩, hk,
      depth, _, rfl, created, _, rfl, metadata, _, ⟨hm, rfl⟩, signer, _, ⟨hs, rfl⟩, heq, rfl⟩
    obtain ⟨rfl, rfl⟩ := Prod.mk.inj heq
    refine ⟨⟨hv, hk, hd, by simp [values, hp, hm, hs]⟩, ?_⟩
    simp only [encode, List.append_assoc]
  · rintro ⟨hr, rfl⟩
    have hw := hr.values
    simp only [values, List.forall_mem_cons, List.not_mem_nil, false_imp_iff, implies_true,
      and_true] at hw
    refine ⟨_, _, by simp only [encode, List.append_assoc], hr.version, _, _, rfl,
      _, _, ⟨hw.1, rfl⟩, _, _, ⟨hr.idDescriptor, rfl⟩, hr.idKind, _, _, rfl, _, _, rfl,
      _, _, ⟨hw.2.1, rfl⟩, _, _, ⟨hw.2.2, rfl⟩, rfl, rfl⟩

end Header

namespace Body

def values : Body → List ((n : Namespace) × Qualified n)
  | .identity name publicKey => [⟨_, name⟩, ⟨_, publicKey⟩]
  | .community name => [⟨_, name⟩]
  | .conversation content => [⟨_, content⟩]
  | .reply place thread content => [⟨_, place⟩, ⟨_, thread⟩, ⟨_, content⟩]

theorem decode_eq_ok_iff {kind : NodeKind} {b : Body} {input rest : Bytes} :
    (decode kind).run input = .ok (b, rest) ↔
      b.kind = kind ∧ (∀ v ∈ b.values, v.2.WellFormed) ∧ input = b.encode ++ rest := by
  cases kind <;> simp only [decode, Decoder.bind_eq_ok_iff, Decoder.pure_eq_ok_iff,
    Field.decode_eq_ok_iff, Qualified.decode_eq_ok_iff]
  case identity =>
    constructor
    · rintro ⟨name, _, ⟨hn, rfl⟩, publicKey, _, ⟨hk, rfl⟩, rfl, rfl⟩
      exact ⟨rfl, by simp [values, hn, hk], (List.append_assoc ..).symm⟩
    · rintro ⟨hk, hw, rfl⟩
      cases b with
      | identity name publicKey =>
        simp [values] at hw
        exact ⟨_, _, ⟨hw.1, List.append_assoc ..⟩, _, _, ⟨hw.2, rfl⟩, rfl, rfl⟩
      | _ => cases hk
  case community =>
    constructor
    · rintro ⟨name, _, ⟨hn, rfl⟩, rfl, rfl⟩
      exact ⟨rfl, by simp [values, hn], rfl⟩
    · rintro ⟨hk, hw, rfl⟩
      cases b with
      | community name => exact ⟨_, _, ⟨by simpa [values] using hw, rfl⟩, rfl, rfl⟩
      | _ => cases hk
  case conversation =>
    constructor
    · rintro ⟨content, _, ⟨hc, rfl⟩, rfl, rfl⟩
      exact ⟨rfl, by simp [values, hc], rfl⟩
    · rintro ⟨hk, hw, rfl⟩
      cases b with
      | conversation content => exact ⟨_, _, ⟨by simpa [values] using hw, rfl⟩, rfl, rfl⟩
      | _ => cases hk
  case reply =>
    constructor
    · rintro ⟨place, _, ⟨hp, rfl⟩, thread, _, ⟨ht, rfl⟩, content, _, ⟨hc, rfl⟩, rfl, rfl⟩
      exact ⟨rfl, by simp [values, hp, ht, hc], by simp only [encode, List.append_assoc]⟩
    · rintro ⟨hk, hw, rfl⟩
      cases b with
      | reply place thread content =>
        simp [values] at hw
        exact ⟨_, _, ⟨hw.1, by simp only [encode, List.append_assoc]⟩, _, _, ⟨hw.2.1, rfl⟩,
          _, _, ⟨hw.2.2, rfl⟩, rfl, rfl⟩
      | _ => cases hk

end Body

namespace Node

def signedValues (n : Node) : List ((n : Namespace) × Qualified n) :=
  n.toHeader.values ++ n.body.values

def values (n : Node) : List ((n : Namespace) × Qualified n) :=
  n.signedValues ++ [⟨_, n.signature⟩]

/-- A node of the current version, with values as long as they say, under the identifier that its
bytes have. -/
structure Sealed (n : Node) : Prop where
  version : n.version = schemaVersion
  idKind : n.idDescriptor.kind ≠ .null
  idDescriptor : n.idDescriptor.WellFormed
  values : ∀ v ∈ n.values, v.2.WellFormed
  id : n.id = n.computeId

theorem forall_mem_values {n : Node} {p : ((n : Namespace) × Qualified n) → Prop} :
    (∀ v ∈ n.values, p v) ↔
      (∀ v ∈ n.toHeader.values, p v) ∧ (∀ v ∈ n.body.values, p v) ∧ p ⟨_, n.signature⟩ := by
  simp only [values, signedValues, List.append_assoc, List.forall_mem_append,
    List.forall_mem_singleton]

theorem sealed_iff {n : Node} :
    n.Sealed ↔ n.toHeader.Readable ∧ (∀ v ∈ n.body.values, v.2.WellFormed) ∧
      n.signature.WellFormed ∧ n.id = n.computeId := by
  constructor
  · intro h
    obtain ⟨hh, hb, hs⟩ := forall_mem_values.1 h.values
    exact ⟨⟨h.version, h.idKind, h.idDescriptor, hh⟩, hb, hs, h.id⟩
  · rintro ⟨hh, hb, hs, hi⟩
    exact ⟨hh.version, hh.idKind, hh.idDescriptor, forall_mem_values.2 ⟨hh.values, hb, hs⟩, hi⟩

/-- What is read before the signature is what the signature covers. -/
theorem take_signed {signed rest : Bytes} :
    (signed ++ rest).take ((signed ++ rest).length - rest.length) = signed := by
  rw [List.length_append, Nat.add_sub_cancel, List.take_left]

theorem decode_eq_ok_iff {n : Node} {input rest : Bytes} :
    decode.run input = .ok (n, rest) ↔ n.Sealed ∧ input = n.encode ++ rest := by
  simp only [decode, Decoder.bind_eq_ok_iff, Decoder.get_eq_ok_iff, Prod.exists,
    Decoder.pure_eq_ok_iff, Field.decode_eq_ok_iff, Header.decode_eq_ok_iff,
    Body.decode_eq_ok_iff, Qualified.decode_eq_ok_iff, sealed_iff]
  constructor
  · rintro ⟨_, _, ⟨rfl, rfl⟩, kind, header, _, ⟨hh, rfl⟩, body, _, ⟨rfl, hb, rfl⟩, _, _,
      ⟨rfl, rfl⟩, signature, _, ⟨hs, rfl⟩, rfl, rfl⟩
    rw [← List.append_assoc, take_signed]
    exact ⟨⟨hh, hb, hs, rfl⟩, by simp only [encode, signedBytes, kind, List.append_assoc]⟩
  · rintro ⟨⟨hh, hb, hs, hi⟩, rfl⟩
    refine ⟨_, _, ⟨rfl, rfl⟩, n.kind, n.toHeader,
      n.body.encode ++ (Grove.encode n.signature ++ rest),
      ⟨hh, by simp only [encode, signedBytes, List.append_assoc]⟩, n.body, _, ⟨rfl, hb, rfl⟩, _, _,
      ⟨rfl, rfl⟩, n.signature, rest, ⟨hs, rfl⟩, ?_, rfl⟩
    rw [encode, List.append_assoc, take_signed, ← computeId, ← hi]

theorem ofBytes_eq_ok_iff {n : Node} {input : Bytes} :
    ofBytes input = .ok n ↔ n.Sealed ∧ input = n.encode := by
  rw [ofBytes, Decoder.all_eq_ok_iff, decode_eq_ok_iff, List.append_nil]

theorem ofBytesAs_of_ofBytes {n : Node} {input : Bytes} (h : ofBytes input = .ok n)
    (kind : NodeKind) :
    ofBytesAs kind input = if n.kind = kind then .ok n else .error (.wrongKind kind n.kind) := by
  rw [ofBytesAs, h]
  rfl

/-- A sealed node is read back from its wire form and leaves what stands behind, and only a reader
for its own kind accepts it. -/
theorem read_encode {n : Node} (h : n.Sealed) :
    (∀ rest, decode.run (n.encode ++ rest) = .ok (n, rest)) ∧ ofBytes n.encode = .ok n ∧
      ∀ kind, ofBytesAs kind n.encode =
        if n.kind = kind then .ok n else .error (.wrongKind kind n.kind) := by
  have hb : ofBytes n.encode = .ok n := ofBytes_eq_ok_iff.2 ⟨h, rfl⟩
  exact ⟨fun rest => decode_eq_ok_iff.2 ⟨h, rfl⟩, hb, ofBytesAs_of_ofBytes hb⟩

/-- A node that nobody has signed, under the identifier that its bytes have. -/
def unsigned (parent signer : Hash) (depth : UInt32) (body : Body) : Node :=
  let draft : Node :=
    { version := schemaVersion
      parent
      idDescriptor := .fixed .sha512_256
      depth
      created := 1700000000000
      metadata := ⟨⟨.twig, 4⟩, [0x61, 0x2F, 0x31, 0x00]⟩
      signer
      body
      signature := .ofFixed .ed25519 (List.replicate 64 0)
      id := .null }
  { draft with id := draft.computeId }

def unsignedReply : Node :=
  unsigned (.ofFixed .sha512_256 (List.replicate 32 0x0A))
    (.ofFixed .sha512_256 (List.replicate 32 0x0B)) 7
    (.reply (.ofFixed .sha512_256 (List.replicate 32 0x0C)) .null ⟨⟨.utf8, 2⟩, [0x68, 0x69]⟩)

theorem sealed_unsignedReply : unsignedReply.Sealed where
  version := rfl
  idKind := by decide
  idDescriptor := by decide
  values := by decide
  id := rfl

/-- The unsigned reply is read back although more bytes follow, and not as a conversation. -/
theorem read_encode_unsignedReply :
    decode.run (unsignedReply.encode ++ [0x00, 0x01]) = .ok (unsignedReply, [0x00, 0x01]) ∧
      ofBytesAs .conversation unsignedReply.encode = .error (.wrongKind .conversation .reply) := by
  obtain ⟨hr, _, hk⟩ := read_encode sealed_unsignedReply
  exact ⟨hr _, hk .conversation⟩

/-- What is read as a node is its wire form and a rest, the values are as long as they say, and the
identifier is the digest of the bytes before the signature. So no two inputs are the same node. -/
theorem encode_of_read :
    (∀ {input rest : Bytes} {n : Node}, decode.run input = .ok (n, rest) →
      input = n.encode ++ rest ∧ (∀ v ∈ n.values, v.2.WellFormed) ∧ n.id = n.computeId ∧
        ∃ signed, input = signed ++ (Grove.encode n.signature ++ rest) ∧
          n.id = .digest n.idDescriptor.kind signed) ∧
      ∀ {a b : Bytes} {n : Node}, ofBytes a = .ok n → ofBytes b = .ok n → a = b := by
  constructor
  · intro input rest n h
    obtain ⟨hs, rfl⟩ := decode_eq_ok_iff.1 h
    exact ⟨rfl, hs.values, hs.id, n.signedBytes, List.append_assoc .., hs.id⟩
  · intro a b n ha hb
    rw [(ofBytes_eq_ok_iff.1 ha).2, (ofBytes_eq_ok_iff.1 hb).2]

/-- The input that starts with the unsigned reply. -/
theorem encode_of_read_unsignedReply :
    decode.run (unsignedReply.encode ++ [0x00, 0x01]) = .ok (unsignedReply, [0x00, 0x01]) ∧
      ∃ signed, unsignedReply.encode ++ [0x00, 0x01] =
          signed ++ (Grove.encode unsignedReply.signature ++ [0x00, 0x01]) ∧
        unsignedReply.id = .digest .sha512_256 signed := by
  have h : decode.run (unsignedReply.encode ++ [0x00, 0x01]) =
      .ok (unsignedReply, [0x00, 0x01]) := decode_eq_ok_iff.2 ⟨sealed_unsignedReply, rfl⟩
  obtain ⟨_, _, _, hd⟩ := encode_of_read.1 h
  exact ⟨h, hd⟩

end Node

end Grove
