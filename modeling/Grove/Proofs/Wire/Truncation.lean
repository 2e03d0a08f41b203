import Grove.Proofs.Wire.Node

/-! # Input that ends too early

Every component of a node says where it ends before it ends, and what is checked of it is checked
only when its bytes are there. So on a proper front part of a node no check can fail: what fails is
the read that the input is too short for, and the error says so.
-/

namespace Grove

def DecodeError.IsShortage (e : DecodeError) : Prop :=
  ∃ needed available, e = .truncated needed available ∧ available < needed

def NodeError.IsShortage (e : NodeError) : Prop :=
  ∃ field cause, e = .field field cause ∧ cause.IsShortage

namespace Decoder

variable {ε ε' α β : Type} {short : ε → Prop} {a b input : Bytes}

/-- On every proper front part of the bytes the decoder fails as it does for want of bytes. -/
def Starves (d : Decoder ε α) (short : ε → Prop) (bytes : Bytes) : Prop :=
  ∀ front behind, front ++ behind = bytes → behind ≠ [] → ∃ e, d.run front = .error e ∧ short e

/-- The decoder reads the value from the bytes, whatever follows, and from no less than them. -/
structure Consumes (d : Decoder ε α) (short : ε → Prop) (bytes : Bytes) (value : α) : Prop where
  read : ∀ rest, d.run (bytes ++ rest) = .ok (value, rest)
  starves : d.Starves short bytes

theorem run_bind_of_ok {d : Decoder ε α} {f : α → Decoder ε β} {value : α} {rest : Bytes}
    (h : d.run input = .ok (value, rest)) : (d >>= f).run input = (f value).run rest := by
  rw [StateT.run_bind, h]
  rfl

theorem run_bind_of_error {d : Decoder ε α} {f : α → Decoder ε β} {e : ε}
    (h : d.run input = .error e) : (d >>= f).run input = .error e := by
  rw [StateT.run_bind, h]
  rfl

theorem consumes_pure (value : α) : (pure value : Decoder ε α).Consumes short [] value where
  read _ := rfl
  starves _ _ h hne := absurd (List.append_eq_nil_iff.1 h).2 hne

section Bind

variable {d : Decoder ε α} {f : α → Decoder ε β} {value : α} {result : β}

theorem Starves.bind (hd : d.Starves short a) : (d >>= f).Starves short a := by
  intro front behind h hne
  obtain ⟨e, he, hshort⟩ := hd front behind h hne
  exact ⟨e, run_bind_of_error he, hshort⟩

theorem Consumes.starves_bind (hd : d.Consumes short a value) (hf : (f value).Starves short b) :
    (d >>= f).Starves short (a ++ b) := by
  have hlater (front behind : Bytes) (h : front ++ behind = b) (hne : behind ≠ []) :
      ∃ e, (d >>= f).run (a ++ front) = .error e ∧ short e := by
    rw [run_bind_of_ok (hd.read front)]
    exact hf front behind h hne
  intro front behind h hne
  rcases List.append_eq_append_iff.1 h with ⟨missing, rfl, rfl⟩ | ⟨read, rfl, rfl⟩
  · by_cases hmissing : missing = []
    · subst hmissing
      simpa only [List.append_nil] using hlater [] _ rfl hne
    · exact hd.starves.bind front missing rfl hmissing
  · exact hlater _ _ rfl hne

theorem Consumes.bind (hd : d.Consumes short a value) (hf : (f value).Consumes short b result) :
    (d >>= f).Consumes short (a ++ b) result where
  read rest := by
    rw [List.append_assoc, run_bind_of_ok (hd.read _), hf.read]
  starves := hd.starves_bind hf.starves

theorem Consumes.map {g : α → β} (hd : d.Consumes short a value) :
    (return g (← d) : Decoder ε β).Consumes short a (g value) := by
  have h := hd.bind (f := fun v => pure (g v)) (consumes_pure (g value))
  rwa [List.append_nil] at h

end Bind

theorem Starves.get {f : Bytes → Decoder ε α} (h : ∀ input, (f input).Starves short b) :
    (get >>= f).Starves short b :=
  fun front behind hb hne => h front front behind hb hne

theorem Consumes.check {c : Prop} [Decidable c] {e : ε} {f : β → Decoder ε α} {d : Decoder ε α}
    {value : α} (hc : ¬c) (hd : d.Consumes short a value) :
    (if c then throw e >>= f else d).Consumes short a value := by
  rwa [if_neg hc]

theorem Consumes.mapError {short' : ε' → Prop} {g : ε → ε'} {d : Decoder ε α} {value : α}
    (hd : d.Consumes short a value) (hg : ∀ e, short e → short' (g e)) :
    (d.mapError g).Consumes short' a value where
  read rest := mapError_eq_ok_iff.2 (hd.read rest)
  starves front behind h hne := by
    obtain ⟨e, he, hshort⟩ := hd.starves front behind h hne
    refine ⟨g e, ?_, hg e hshort⟩
    show (d.run front).mapError g = _
    rw [he]
    rfl

theorem consumes_take (bytes : Bytes) :
    (take bytes.length).Consumes DecodeError.IsShortage bytes bytes where
  read rest := take_eq_ok_iff.2 ⟨rfl, rfl⟩
  starves front behind h hne := by
    have hlt : front.length < bytes.length := by
      rw [← h, List.length_append]
      exact Nat.lt_add_of_pos_right (List.length_pos_iff.2 hne)
    exact ⟨_, if_pos hlt, _, _, rfl, hlt⟩

end Decoder

class ThriftyWire (α : Type) [Wire α] : Prop extends LawfulWire α where
  starves (value : α) :
    (Wire.decode (α := α)).Starves DecodeError.IsShortage (Wire.encode value)

namespace Wire

open Decoder

theorem starves_word {α : Type} {width : Nat} {ofNat : Nat → α} {bytes : Bytes}
    (h : bytes.length = width) :
    (return ofNat (← decodeNat width) : Decoder DecodeError α).Starves DecodeError.IsShortage
      bytes := by
  subst h
  exact (consumes_take bytes).map.map.starves

instance : ThriftyWire UInt8 where
  starves w := starves_word (Bytes.length_ofNat 1 w.toNat)

instance : ThriftyWire UInt16 where
  starves w := starves_word (Bytes.length_ofNat 2 w.toNat)

instance : ThriftyWire UInt32 where
  starves w := starves_word (Bytes.length_ofNat 4 w.toNat)

instance : ThriftyWire UInt64 where
  starves w := starves_word (Bytes.length_ofNat 8 w.toNat)

theorem consumes {α : Type} [Wire α] [ThriftyWire α] (value : α) :
    (Wire.decode (α := α)).Consumes DecodeError.IsShortage (encode value) value where
  read _ := LawfulWire.decode_eq_ok_iff.2 rfl
  starves := ThriftyWire.starves value

end Wire

variable {n : Namespace}

theorem Descriptor.consumes {d : Descriptor n} (hd : d.WellFormed) :
    (Wire.decode (α := Descriptor n)).Consumes DecodeError.IsShortage (encode d) d where
  read rest := decode_eq_ok_iff.2 ⟨hd, rfl⟩
  starves := by
    show (decode (n := n)).Starves _ (encode d.kind.tag ++ encode d.length)
    refine (Wire.consumes d.kind.tag).starves_bind ?_
    simp only [Kind.ofTag?_tag]
    exact (Wire.consumes d.length).starves.bind

theorem Qualified.consumes {q : Qualified n} (hq : q.WellFormed) :
    (Wire.decode (α := Qualified n)).Consumes DecodeError.IsShortage (encode q) q := by
  show (decode (n := n)).Consumes _ (encode q.descriptor ++ q.payload) q
  refine (Descriptor.consumes hq.descriptor).bind ?_
  rw [← hq.length]
  exact (Decoder.consumes_take q.payload).map

namespace Field

theorem consumes {α : Type} [Wire α] {bytes : Bytes} {value : α} (f : Field)
    (h : (Wire.decode (α := α)).Consumes DecodeError.IsShortage bytes value) :
    (f.decode α).Consumes NodeError.IsShortage bytes value :=
  h.mapError fun e he => ⟨f, e, rfl, he⟩

theorem consumes_kind (kind : NodeKind) :
    decodeKind.Consumes NodeError.IsShortage (encode kind.tag) kind where
  read _ := decodeKind_eq_ok_iff.2 rfl
  starves := (consumes .nodeType (Wire.consumes kind.tag)).starves.bind

end Field

theorem Header.consumes {h : Header} (hr : h.Readable) (kind : NodeKind) :
    decode.Consumes NodeError.IsShortage (h.encode kind) (kind, h) := by
  obtain ⟨hparent, hmetadata, hsigner⟩ :
      h.parent.WellFormed ∧ h.metadata.WellFormed ∧ h.signer.WellFormed := by
    simpa [values] using hr.values
  unfold decode encode
  simp only [List.append_assoc]
  refine (Field.consumes .schemaVersion (Wire.consumes h.version)).bind ?_
  refine .check (Decidable.not_not.2 hr.version) ?_
  refine (Field.consumes_kind kind).bind ?_
  refine (Field.consumes .parent (Qualified.consumes hparent)).bind ?_
  refine (Field.consumes .idDescriptor (Descriptor.consumes hr.idDescriptor)).bind ?_
  refine .check hr.idKind ?_
  refine (Field.consumes .treeDepth (Wire.consumes h.depth)).bind ?_
  refine (Field.consumes .created (Wire.consumes h.created)).bind ?_
  refine (Field.consumes .metadata (Qualified.consumes hmetadata)).bind ?_
  exact (Field.consumes .signerId (Qualified.consumes hsigner)).map

theorem Body.consumes {b : Body} (hb : ∀ v ∈ b.values, v.2.WellFormed) :
    (decode b.kind).Consumes NodeError.IsShortage b.encode b := by
  cases b with
  | identity name publicKey =>
    obtain ⟨hname, hkey⟩ : name.WellFormed ∧ publicKey.WellFormed := by simpa [values] using hb
    refine (Field.consumes .name (Qualified.consumes hname)).bind ?_
    exact (Field.consumes .publicKey (Qualified.consumes hkey)).map
  | community name =>
    have hname : name.WellFormed := by simpa [values] using hb
    exact (Field.consumes .name (Qualified.consumes hname)).map
  | conversation content =>
    have hcontent : content.WellFormed := by simpa [values] using hb
    exact (Field.consumes .content (Qualified.consumes hcontent)).map
  | reply place thread content =>
    obtain ⟨hplace, hthread, hcontent⟩ :
        place.WellFormed ∧ thread.WellFormed ∧ content.WellFormed := by simpa [values] using hb
    rw [encode, List.append_assoc]
    refine (Field.consumes .communityId (Qualified.consumes hplace)).bind ?_
    refine (Field.consumes .conversationId (Qualified.consumes hthread)).bind ?_
    exact (Field.consumes .content (Qualified.consumes hcontent)).map

/-- A sealed node is read from no less than all of its bytes. -/
theorem Node.Sealed.consumes {n : Node} (h : n.Sealed) :
    decode.Consumes NodeError.IsShortage n.encode n where
  read _ := decode_eq_ok_iff.2 ⟨h, rfl⟩
  starves := by
    obtain ⟨hheader, hbody, hsignature, -⟩ := sealed_iff.1 h
    rw [encode, signedBytes, List.append_assoc]
    refine .get fun input => ?_
    refine (Header.consumes hheader n.kind).starves_bind ?_
    refine (Body.consumes hbody).starves_bind ?_
    refine .get fun rest => ?_
    exact (Field.consumes .signature (Qualified.consumes hsignature)).starves.bind

end Grove
