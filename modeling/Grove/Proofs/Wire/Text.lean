import Grove.Proofs.Text.Qualified
import Grove.Proofs.Wire.Node

/-! # Texts of identifiers

Two identifiers with one text are the same. The identifiers of sealed nodes are digests, and all
their texts are of one size.
-/

namespace Grove

theorem eq_of_append_cons {α : Type} {a : α} {l l' r r' : List α} (hl : a ∉ l) (hl' : a ∉ l')
    (h : l ++ a :: r = l' ++ a :: r') : l = l' ∧ r = r' := by
  induction l generalizing l' with
  | nil =>
    cases l' with
    | nil => exact ⟨rfl, (List.cons.inj h).2⟩
    | cons b l' => exact absurd (List.mem_cons.2 (.inl (List.cons.inj h).1)) hl'
  | cons b l ih =>
    cases l' with
    | nil => exact absurd (List.mem_cons.2 (.inl (List.cons.inj h).1.symm)) hl
    | cons c l' =>
      obtain ⟨rfl, htail⟩ := List.cons.inj h
      obtain ⟨rfl, rfl⟩ :=
        ih (mt (List.mem_cons_of_mem b) hl) (mt (List.mem_cons_of_mem b) hl') htail
      exact ⟨rfl, rfl⟩

namespace Hex

theorem digit_ascii {k : Nat} (h : k < 16) : (digit k).utf8Size = 1 ∧ digit k ≠ '\x00' := by
  revert k
  decide

theorem utf8ByteSize_text (b : Bytes) : (text b).utf8ByteSize = 2 * b.length := by
  induction b with
  | nil => rfl
  | cons x b ih =>
    have hx := x.toNat_lt
    have htext : text (x :: b) = String.singleton (digit (x.toNat / 16)) ++
        (String.singleton (digit (x.toNat % 16)) ++ text b) := by
      refine String.toList_inj.1 ?_
      simp only [String.toList_append, toList_text, String.toList_singleton]
      rfl
    rw [htext, String.utf8ByteSize_append, String.utf8ByteSize_append, ih,
      String.utf8ByteSize_singleton, String.utf8ByteSize_singleton,
      (digit_ascii (show x.toNat / 16 < 16 by omega)).1,
      (digit_ascii (show x.toNat % 16 < 16 by omega)).1, List.length_cons]
    omega

theorem not_mem_text (b : Bytes) : '\x00' ∉ (text b).toList := by
  rw [toList_text, encode, List.mem_flatMap]
  rintro ⟨x, -, hx⟩
  have hlt := x.toNat_lt
  simp only [List.mem_cons, List.not_mem_nil, or_false] at hx
  rcases hx with h | h
  · exact (digit_ascii (show x.toNat / 16 < 16 by omega)).2 h.symm
  · exact (digit_ascii (show x.toNat % 16 < 16 by omega)).2 h.symm

end Hex

namespace Qualified

theorem text_inj {p q : Hash} (h : p.text = q.text) : p = q := by
  have h := congrArg String.toList h
  rw [toList_text, toList_text] at h
  obtain ⟨⟨kind, length⟩, payload⟩ := p
  obtain ⟨⟨kind', length'⟩, payload'⟩ := q
  have hkind : kind = kind' := by
    -- The labels begin with different letters.
    cases kind <;> cases kind' <;>
      first | rfl | exact absurd (congrArg List.head? h) (by simp [Qualified.kind, Kind.label])
  subst hkind
  have hrest := (List.cons.inj (List.append_cancel_left h)).2
  obtain ⟨hdigits, hrest⟩ :=
    eq_of_append_cons Nat.underscore_not_in_toDigits Nat.underscore_not_in_toDigits hrest
  have hlength : length.toNat = length'.toNat := by
    rw [← Nat.ofDigitChars_ten_toDigits (n := length.toNat), hdigits, Nat.ofDigitChars_ten_toDigits]
  have hhex : Hex.encode payload = Hex.encode payload' := (List.cons.inj hrest).2
  have hpayload : some payload = some payload' := by
    rw [← Hex.decode?_encode, hhex, Hex.decode?_encode]
  rw [UInt16.toNat_inj.1 hlength, Option.some.inj hpayload]

theorem text_digest (b : Bytes) :
    (ofFixed .sha512_256 b : Hash).text = "SHA512_256_32__" ++ Hex.text b := by
  have hdigits : Nat.toDigits 10 32 = ['3', '2'] := by decide
  refine String.toList_inj.1 ?_
  rw [toList_text, String.toList_append, Hex.toList_text]
  show "SHA512_256".toList ++ '_' :: (Nat.toDigits 10 32 ++ '_' :: '_' :: Hex.encode b) = _
  rw [hdigits]
  rfl

theorem wellFormed_digest (b : Bytes) :
    (ofFixed .sha512_256 (Sha512.digest256 b) : Hash).WellFormed := by
  refine ⟨?_, Sha512.length_digest256 _⟩
  rintro _ ⟨⟩
  rfl

theorem WellFormed.exists_digest {id : Hash} (h : id.WellFormed) (hnull : id.isNull = false) :
    ∃ b : Bytes, b.length = 32 ∧ id = ofFixed .sha512_256 b := by
  obtain ⟨⟨kind, length⟩, payload⟩ := id
  cases kind with
  | null => simp [isNull, kind] at hnull
  | sha512_256 =>
    obtain rfl : length = 32 := h.descriptor 32 rfl
    exact ⟨payload, h.length, rfl⟩

theorem WellFormed.utf8ByteSize_text {id : Hash} (h : id.WellFormed) (hnull : id.isNull = false) :
    id.text.utf8ByteSize = 79 := by
  obtain ⟨b, hb, rfl⟩ := h.exists_digest hnull
  rw [text_digest, String.utf8ByteSize_append, Hex.utf8ByteSize_text, hb]
  rfl

theorem WellFormed.not_mem_text {id : Hash} (h : id.WellFormed) (hnull : id.isNull = false) :
    '\x00' ∉ id.text.toList := by
  obtain ⟨b, -, rfl⟩ := h.exists_digest hnull
  rw [text_digest, String.toList_append, List.mem_append, not_or]
  exact ⟨by decide, Hex.not_mem_text _⟩

end Qualified

namespace Node

variable {n : Node}

theorem Sealed.id_eq (h : n.Sealed) :
    n.id = .ofFixed .sha512_256 (Sha512.digest256 n.signedBytes) := by
  rw [h.id, computeId]
  cases hk : n.idDescriptor.kind with
  | null => exact absurd hk h.idKind
  | sha512_256 => rfl

theorem Sealed.isNull_id (h : n.Sealed) : n.id.isNull = false := by
  rw [h.id_eq]
  rfl

theorem Sealed.wellFormed_id (h : n.Sealed) : n.id.WellFormed := by
  rw [h.id_eq]
  exact Qualified.wellFormed_digest _

end Node

end Grove
