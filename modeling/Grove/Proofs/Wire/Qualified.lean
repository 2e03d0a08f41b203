import Grove.Qualified.Basic

/-! # Reading qualified values

A byte string starts with a qualified value exactly when the value is well-formed and its wire form
stands in front. Descriptors in front of payloads are read in the same way. A kind and a payload
make a well-formed value too, if they make any.
-/

namespace Grove

variable {n : Namespace}

namespace Descriptor

theorem new_eq_ok_iff {kind : Kind n} {length : Nat} {d : Descriptor n} :
    new kind length = .ok d ↔ d.WellFormed ∧ d.kind = kind ∧ d.length.toNat = length := by
  unfold new
  split
  · next hlarge =>
    refine iff_of_false nofun ?_
    rintro ⟨-, -, rfl⟩
    exact absurd hlarge (Nat.not_lt.2 (Nat.le_of_lt_succ d.length.toNat_lt))
  · next hsmall =>
    split
    · next expected hfixed =>
      split
      · next hlength =>
        constructor
        · intro h
          obtain rfl := Except.ok.inj h
          exact ⟨fun other hother => Option.some.inj (hfixed.symm.trans hother), rfl, hlength⟩
        · rintro ⟨hw, rfl, rfl⟩
          rw [← hw expected hfixed]
      · next hlength =>
        refine iff_of_false nofun ?_
        rintro ⟨hw, rfl, rfl⟩
        exact hlength (congrArg UInt16.toNat (hw expected hfixed)).symm
    · next hfree =>
      constructor
      · intro h
        obtain rfl := Except.ok.inj h
        exact ⟨fun other hother => absurd (hfree.symm.trans hother) nofun, rfl,
          UInt16.toNat_ofNat_of_lt' (show length < 65536 by omega)⟩
      · rintro ⟨-, rfl, rfl⟩
        rw [UInt16.ofNat_toNat]

theorem ofRead_eq_ok_iff {kind : Kind n} {length : UInt16} {d : Descriptor n}
    {input rest : Bytes} : (ofRead kind length).run input = .ok (d, rest) ↔
      d.WellFormed ∧ ⟨kind, length⟩ = d ∧ input = rest := by
  unfold ofRead
  split
  · next expected hf =>
    split
    · next he =>
      rw [Decoder.pure_eq_ok_iff, iff_and_self]
      rintro ⟨rfl, _⟩
      simp [WellFormed, hf, he]
    · next he =>
      rw [Decoder.throw_eq_ok_iff, false_iff]
      rintro ⟨hw, rfl, _⟩
      exact he (hw expected hf)
  · next hf =>
    rw [Decoder.pure_eq_ok_iff, iff_and_self]
    rintro ⟨rfl, _⟩
    simp [WellFormed, hf]

theorem decode_eq_ok_iff {d : Descriptor n} {input rest : Bytes} :
    (Wire.decode (α := Descriptor n)).run input = .ok (d, rest) ↔
      d.WellFormed ∧ input = encode d ++ rest := by
  show (decode (n := n)).run input = .ok (d, rest) ↔
    d.WellFormed ∧ input = encode d.kind.tag ++ encode d.length ++ rest
  simp only [decode, Decoder.bind_eq_ok_iff, LawfulWire.decode_eq_ok_iff]
  constructor
  · rintro ⟨tag, _, rfl, h⟩
    cases hk : Kind.ofTag? n tag with
    | none => simp only [hk, Decoder.throw_eq_ok_iff] at h
    | some kind =>
      simp only [hk, Decoder.bind_eq_ok_iff, LawfulWire.decode_eq_ok_iff, ofRead_eq_ok_iff] at h
      obtain ⟨length, _, rfl, hw, rfl, rfl⟩ := h
      exact ⟨hw, by rw [Kind.tag_of_ofTag? hk, List.append_assoc]⟩
  · rintro ⟨hw, rfl⟩
    refine ⟨d.kind.tag, encode d.length ++ rest, List.append_assoc .., ?_⟩
    simp only [Kind.ofTag?_tag, Decoder.bind_eq_ok_iff, LawfulWire.decode_eq_ok_iff,
      ofRead_eq_ok_iff]
    exact ⟨d.length, rest, rfl, hw, rfl, rfl⟩

end Descriptor

namespace Qualified

theorem wellFormed_iff_lengths {q : Qualified n} :
    q.WellFormed ↔ q.payload.length = q.descriptor.length.toNat ∧
      ∀ expected ∈ q.kind.fixedLength, q.payload.length = expected.toNat := by
  constructor
  · rintro ⟨hd, hlength⟩
    refine ⟨hlength, fun expected hexpected => ?_⟩
    rw [hlength, hd expected hexpected]
  · rintro ⟨hlength, hfixed⟩
    refine ⟨fun expected hexpected => UInt16.toNat_inj.1 ?_, hlength⟩
    exact hlength.symm.trans (hfixed expected hexpected)

theorem new_eq_ok_iff {kind : Kind n} {payload : Bytes} {q : Qualified n} :
    new kind payload = .ok q ↔ q.WellFormed ∧ q.kind = kind ∧ q.payload = payload := by
  unfold new
  constructor
  · intro h
    cases hd : Descriptor.new kind payload.length with
    | error e =>
      rw [hd] at h
      exact absurd h nofun
    | ok descriptor =>
      rw [hd] at h
      obtain rfl := Except.ok.inj h
      obtain ⟨hw, hkind, hlength⟩ := Descriptor.new_eq_ok_iff.1 hd
      exact ⟨⟨hw, hlength.symm⟩, hkind, rfl⟩
  · rintro ⟨hw, rfl, rfl⟩
    have hd : Descriptor.new q.kind q.payload.length = .ok q.descriptor :=
      Descriptor.new_eq_ok_iff.2 ⟨hw.descriptor, rfl, hw.length.symm⟩
    rw [hd]
    rfl

theorem decode_eq_ok_iff {q : Qualified n} {input rest : Bytes} :
    (Wire.decode (α := Qualified n)).run input = .ok (q, rest) ↔
      q.WellFormed ∧ input = encode q ++ rest := by
  show (decode (n := n)).run input = .ok (q, rest) ↔
    q.WellFormed ∧ input = encode q.descriptor ++ q.payload ++ rest
  simp only [decode, Decoder.bind_eq_ok_iff, Descriptor.decode_eq_ok_iff, Decoder.take_eq_ok_iff,
    Decoder.pure_eq_ok_iff]
  constructor
  · rintro ⟨descriptor, _, ⟨hd, rfl⟩, payload, _, ⟨rfl, hl⟩, rfl, rfl⟩
    exact ⟨⟨hd, hl⟩, (List.append_assoc ..).symm⟩
  · rintro ⟨hw, rfl⟩
    exact ⟨q.descriptor, q.payload ++ rest, ⟨hw.descriptor, List.append_assoc ..⟩,
      q.payload, rest, ⟨rfl, hw.length⟩, rfl, rfl⟩

end Qualified

end Grove
