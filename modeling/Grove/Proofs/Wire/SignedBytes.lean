import Grove.Proofs.Wire.Node

/-! # Signed bytes

Every field of a node ends where its own bytes say, so signed bytes can be split in one way only:
they determine the kind and all that is signed. That a kind fixes lengths is not needed for this.
-/

namespace Grove

variable {r s : Bytes}

theorem Wire.encode_append_inj {α : Type} [Wire α] [LawfulWire α] {v w : α} :
    encode v ++ r = encode w ++ s ↔ v = w ∧ r = s := by
  constructor
  · intro h
    have hv : Wire.decode.run (encode v ++ r) = .ok (v, r) := LawfulWire.decode_eq_ok_iff.2 rfl
    rw [LawfulWire.decode_eq_ok_iff.2 h] at hv
    cases hv
    exact ⟨rfl, rfl⟩
  · rintro ⟨rfl, rfl⟩
    rfl

variable {n : Namespace}

theorem Kind.tag_inj {k l : Kind n} : k.tag = l.tag ↔ k = l := by
  constructor
  · intro h
    rw [← Option.some_inj, ← ofTag?_tag k, h, ofTag?_tag]
  · rintro rfl
    rfl

theorem Descriptor.encode_append_inj {d e : Descriptor n} :
    encode d ++ r = encode e ++ s ↔ d = e ∧ r = s := by
  obtain ⟨k, length⟩ := d
  obtain ⟨l, length'⟩ := e
  show encode k.tag ++ encode length ++ r = encode l.tag ++ encode length' ++ s ↔ _
  rw [List.append_assoc, List.append_assoc, Wire.encode_append_inj, Wire.encode_append_inj,
    Kind.tag_inj, Descriptor.mk.injEq, and_assoc]

namespace Qualified

/-- The payload is as long as the descriptor says. -/
def Delimited (q : Qualified n) : Prop :=
  q.payload.length = q.descriptor.length.toNat

instance (q : Qualified n) : Decidable q.Delimited :=
  inferInstanceAs (Decidable (_ = _))

theorem WellFormed.delimited {q : Qualified n} (h : q.WellFormed) : q.Delimited :=
  h.length

theorem encode_append_inj {p q : Qualified n} (hp : p.Delimited) (hq : q.Delimited) :
    encode p ++ r = encode q ++ s ↔ p = q ∧ r = s := by
  obtain ⟨d, payload⟩ := p
  obtain ⟨e, payload'⟩ := q
  show encode d ++ payload ++ r = encode e ++ payload' ++ s ↔ _
  rw [List.append_assoc, List.append_assoc, Descriptor.encode_append_inj, Qualified.mk.injEq,
    and_assoc]
  refine and_congr_right ?_
  rintro rfl
  exact ⟨fun h => List.append_inj h (hp.trans hq.symm), by rintro ⟨rfl, rfl⟩; rfl⟩

theorem encode_inj {p q : Qualified n} (hp : p.Delimited) (hq : q.Delimited) :
    encode p = encode q ↔ p = q := by
  simpa using encode_append_inj (r := []) (s := []) hp hq

end Qualified

theorem Header.encode_append_inj {g h : Header} {k l : NodeKind}
    (hg : ∀ v ∈ g.values, v.2.Delimited) (hh : ∀ v ∈ h.values, v.2.Delimited) :
    g.encode k ++ r = h.encode l ++ s ↔ k = l ∧ g = h ∧ r = s := by
  obtain ⟨version, parent, idDescriptor, depth, created, metadata, signer⟩ := g
  obtain ⟨version', parent', idDescriptor', depth', created', metadata', signer'⟩ := h
  simp only [values, List.forall_mem_cons] at hg hh
  obtain ⟨hp, hm, hs, _⟩ := hg
  obtain ⟨hp', hm', hs', _⟩ := hh
  simp only [encode, List.append_assoc, Wire.encode_append_inj, Descriptor.encode_append_inj,
    Qualified.encode_append_inj hp hp', Qualified.encode_append_inj hm hm',
    Qualified.encode_append_inj hs hs', Kind.tag_inj, Header.mk.injEq, and_assoc]
  exact and_left_comm

theorem Body.encode_inj {b c : Body} (hk : b.kind = c.kind) (hb : ∀ v ∈ b.values, v.2.Delimited)
    (hc : ∀ v ∈ c.values, v.2.Delimited) : b.encode = c.encode ↔ b = c := by
  cases b <;> cases c <;> simp only [kind, reduceCtorEq] at hk <;>
    simp only [values, List.forall_mem_cons] at hb hc
  case identity.identity name publicKey name' publicKey' =>
    rw [encode, encode, Qualified.encode_append_inj hb.1 hc.1, Qualified.encode_inj hb.2.1 hc.2.1,
      identity.injEq]
  case community.community name name' =>
    rw [encode, encode, Qualified.encode_inj hb.1 hc.1, community.injEq]
  case conversation.conversation content content' =>
    rw [encode, encode, Qualified.encode_inj hb.1 hc.1, conversation.injEq]
  case reply.reply place thread content place' thread' content' =>
    rw [encode, encode, List.append_assoc, List.append_assoc,
      Qualified.encode_append_inj hb.1 hc.1, Qualified.encode_append_inj hb.2.1 hc.2.1,
      Qualified.encode_inj hb.2.2.1 hc.2.2.1, reply.injEq]

namespace Node

def Delimited (n : Node) : Prop :=
  ∀ v ∈ n.signedValues, v.2.Delimited

theorem Sealed.delimited {n : Node} (h : n.Sealed) : n.Delimited := fun v hv =>
  (h.values v (List.mem_append_left _ hv)).delimited

theorem signedBytes_inj {a b : Node} (ha : a.Delimited) (hb : b.Delimited) :
    a.signedBytes = b.signedBytes ↔ a.toHeader = b.toHeader ∧ a.body = b.body := by
  obtain ⟨hah, hab⟩ := List.forall_mem_append.1 ha
  obtain ⟨hbh, hbb⟩ := List.forall_mem_append.1 hb
  rw [signedBytes, signedBytes, Header.encode_append_inj hah hbh]
  constructor
  · rintro ⟨hk, hh, hbody⟩
    exact ⟨hh, (Body.encode_inj hk hab hbb).1 hbody⟩
  · rintro ⟨hh, hbody⟩
    exact ⟨congrArg Body.kind hbody, hh, congrArg Body.encode hbody⟩

end Node

end Grove
