import Grove.Proofs.Text.Ascii
import Grove.Proofs.Text.Numeral
import Grove.Proofs.Wire.Qualified
import Grove.Qualified.Text

/-! # Texts of qualified values

A label has single underscores only, so the first two underscores that follow each other stand
behind the length, and the last one before them stands behind the label. So a text is read as a
value exactly if it spells the value, and the texts of one value differ in what a number and
hexadecimal digits leave open.
-/

namespace Grove

variable {n : Namespace}

theorem Kind.isChain_label (k : Kind n) :
    (k.label.toList ++ ['_']).IsChain fun x y => ¬(x = '_' ∧ y = '_') := by
  cases k <;> decide

theorem Hex.toList_text (b : Bytes) : (text b).toList = encode b :=
  String.toList_ofList

namespace Qualified

variable {p q : Qualified n} {s : String}

theorem toList_text (q : Qualified n) :
    q.text.toList = q.kind.label.toList ++ '_' ::
      (Nat.toDigits 10 q.descriptor.length.toNat ++ '_' :: '_' :: Hex.encode q.payload) := by
  have hlength : (toString q.descriptor.length).toList =
      Nat.toDigits 10 q.descriptor.length.toNat := by
    show (toString q.descriptor.length.toNat).toList = _
    rw [Nat.toString_eq_ofList_toDigits, String.toList_ofList]
  have hline : "_".toList = ['_'] := rfl
  have hlines : "__".toList = ['_', '_'] := rfl
  show (q.kind.label ++ "_" ++ toString q.descriptor.length ++ "__" ++
    String.ofList (Hex.encode q.payload)).toList = _
  simp only [String.toList_append, String.toList_ofList, hlength, hline, hlines, List.append_assoc,
    List.cons_append, List.nil_append]

/-- The text is the label of the value, its length as a number, maybe behind a plus sign, and its
payload in hexadecimal digits. -/
structure Spelled (q : Qualified n) (sign digits hex : List Char) (s : String) : Prop where
  text : s.toList = q.kind.label.toList ++ '_' :: (sign ++ digits ++ '_' :: '_' :: hex)
  sign : sign = [] ∨ sign = ['+']
  length : Decimal.Denotes digits q.payload.length
  hex : Hex.Spells hex q.payload

variable {sign digits hex : List Char}

theorem Spelled.not_mem (h : q.Spelled sign digits hex s) : '_' ∉ sign ++ digits := by
  rw [List.mem_append, not_or]
  refine ⟨?_, h.length.not_mem (by decide)⟩
  rcases h.sign with rfl | rfl <;> decide

theorem Spelled.split (h : q.Spelled sign digits hex s) :
    Text.splitFirstPair? '_' '_' s.toList =
      some (q.kind.label.toList ++ '_' :: (sign ++ digits), hex) := by
  have hne : sign ++ digits ≠ [] := List.append_ne_nil_of_right_ne_nil _ h.length.nonempty
  have hhead : q.kind.label.toList ++ '_' :: (sign ++ digits) ++ ['_'] =
      q.kind.label.toList ++ ['_'] ++ (sign ++ digits ++ ['_']) := by
    rw [List.append_assoc, List.append_assoc, List.cons_append, List.singleton_append]
  have hchain : (q.kind.label.toList ++ '_' :: (sign ++ digits) ++ ['_']).IsChain
      fun x y => ¬(x = '_' ∧ y = '_') := by
    rw [hhead]
    refine q.kind.isChain_label.append (Text.isChain_of_not_mem h.not_mem) fun x _ y hy hpair => ?_
    rw [List.head?_append_of_ne_nil _ hne, hpair.2] at hy
    exact h.not_mem (List.mem_of_mem_head? hy)
  have htext : s.toList = q.kind.label.toList ++ '_' :: (sign ++ digits) ++ '_' :: '_' :: hex := by
    rw [h.text, List.append_assoc _ ('_' :: _), List.cons_append]
  rw [htext, Text.splitFirstPair?_append hchain hex]

theorem toOption_new_eq_some_iff {kind : Kind n} {payload : Bytes} :
    (new kind payload).toOption = some q ↔
      q.WellFormed ∧ q.kind = kind ∧ q.payload = payload := by
  rw [← new_eq_ok_iff]
  cases new kind payload <;> simp [Except.toOption]

theorem ofText?_eq_some_iff :
    ofText? n s = some q ↔ q.WellFormed ∧ ∃ sign digits hex, q.Spelled sign digits hex s := by
  constructor
  · intro h
    simp only [ofText?, Option.bind_eq_bind, Option.bind_eq_some_iff, Prod.exists] at h
    obtain ⟨head, hex, hpair, label, number, hlast, kind, hkind, length, hnumber, payload, hhex,
      h⟩ := h
    split at h
    · next hlength =>
      obtain ⟨hq, rfl, rfl⟩ := toOption_new_eq_some_iff.1 h
      obtain ⟨sign, digits, rfl, hsign, hdigits⟩ := Decimal.readSigned?_eq_some_iff.1 hnumber
      refine ⟨hq, sign, digits, hex, ?_, hsign, hlength ▸ hdigits, Hex.decode?_eq_some_iff.1 hhex⟩
      rw [Text.eq_of_splitFirstPair? hpair, Text.eq_of_splitLast? hlast,
        Kind.label_of_ofLabel? hkind, String.toList_ofList, List.append_assoc, List.cons_append]
    · exact absurd h nofun
  · rintro ⟨hq, sign, digits, hex, h⟩
    have hlast : Text.splitLast? '_' (q.kind.label.toList ++ '_' :: (sign ++ digits)) =
        some (q.kind.label.toList, sign ++ digits) := Text.splitLast?_append h.not_mem
    have hkind : Kind.ofLabel? n (String.ofList q.kind.label.toList) = some q.kind := by
      rw [String.ofList_toList, Kind.ofLabel?_label]
    have hnumber : Decimal.readSigned? (sign ++ digits) = some q.payload.length :=
      Decimal.readSigned?_eq_some_iff.2 ⟨sign, digits, rfl, h.sign, h.length⟩
    simp only [ofText?, h.split, Option.bind_eq_bind, Option.bind_some, hlast, hkind, hnumber,
      Hex.decode?_eq_some_iff.2 h.hex, if_pos]
    exact toOption_new_eq_some_iff.2 ⟨hq, rfl, rfl⟩

theorem spelled_text (h : q.WellFormed) :
    q.Spelled [] (Decimal.write q.payload.length) (Hex.encode q.payload) q.text where
  text := by
    rw [toList_text, List.nil_append, h.length]
    rfl
  sign := .inl rfl
  length := Decimal.denotes_write _
  hex := Hex.decode?_eq_some_iff.1 (Hex.decode?_encode _)

theorem ofText?_text (h : q.WellFormed) : ofText? n q.text = some q :=
  ofText?_eq_some_iff.2 ⟨h, _, _, _, spelled_text h⟩

theorem wellFormed_iff :
    q.WellFormed ↔ q.payload.length ≤ 65535 ∧
      (∀ expected ∈ q.kind.fixedLength, q.payload.length = expected.toNat) ∧
      q.descriptor.length = UInt16.ofNat q.payload.length := by
  rw [wellFormed_iff_lengths]
  constructor
  · rintro ⟨hlength, hfixed⟩
    refine ⟨hlength ▸ Nat.le_of_lt_succ q.descriptor.length.toNat_lt, hfixed, ?_⟩
    rw [hlength, UInt16.ofNat_toNat]
  · rintro ⟨hsmall, hfixed, hlength⟩
    refine ⟨?_, hfixed⟩
    rw [hlength, UInt16.toNat_ofNat_of_lt' (show q.payload.length < 65536 by omega)]

/-- Values are made of a kind and a payload, or read from bytes or from a text. -/
inductive Obtained (q : Qualified n) : Prop
  | new {kind : Kind n} {payload : Bytes} (made : new kind payload = .ok q)
  | decode {input rest : Bytes}
      (read : (Wire.decode (α := Qualified n)).run input = .ok (q, rest))
  | ofText {s : String} (read : ofText? n s = some q)

theorem Obtained.wellFormed (h : q.Obtained) : q.WellFormed := by
  cases h with
  | new made => exact (new_eq_ok_iff.1 made).1
  | decode read => exact (decode_eq_ok_iff.1 read).1
  | ofText read => exact (ofText?_eq_some_iff.1 read).1

/-- The text of a value is read as this value. The texts that are read as a value are those that
spell it, if the length is one that its kind and its descriptor can have. So no two values share a
text, and the texts of one value differ in signs, leading zeros and the case of digits only. -/
theorem ofText?_spelled (n : Namespace) :
    (∀ q : Qualified n, q.Obtained → ofText? n q.text = some q) ∧
    (∀ (s : String) (q : Qualified n), ofText? n s = some q ↔
      (q.payload.length ≤ 65535 ∧
        (∀ expected ∈ q.kind.fixedLength, q.payload.length = expected.toNat) ∧
        q.descriptor.length = UInt16.ofNat q.payload.length) ∧
      ∃ sign digits hex, q.Spelled sign digits hex s) ∧
    (∀ p q : Qualified n, p.Obtained → q.Obtained → p.text = q.text → p = q) ∧
    ∀ (s t : String) (q : Qualified n), ofText? n s = some q → ofText? n t = some q →
      ∃ sign zeros hex sign' zeros' hex',
        q.Spelled sign (List.replicate zeros '0' ++ Decimal.write q.payload.length) hex s ∧
        q.Spelled sign' (List.replicate zeros' '0' ++ Decimal.write q.payload.length) hex' t ∧
        hex.map Char.toLower = hex'.map Char.toLower := by
  refine ⟨fun q hq => ofText?_text hq.wellFormed, fun s q => ?_, fun p q hp hq htext => ?_,
    fun s t q hs ht => ?_⟩
  · rw [ofText?_eq_some_iff, wellFormed_iff]
  · have hread := ofText?_text hp.wellFormed
    rw [htext, ofText?_text hq.wellFormed] at hread
    exact (Option.some.inj hread).symm
  · obtain ⟨-, sign, digits, hex, hs⟩ := ofText?_eq_some_iff.1 hs
    obtain ⟨-, sign', digits', hex', ht⟩ := ofText?_eq_some_iff.1 ht
    obtain ⟨zeros, rfl⟩ := hs.length.exists_zeros
    obtain ⟨zeros', rfl⟩ := ht.length.exists_zeros
    exact ⟨sign, zeros, hex, sign', zeros', hex', hs, ht, hs.hex.trans ht.hex.symm⟩

example : ofText? .content "UTF8_+02__4A4b" = some ⟨⟨.utf8, 2⟩, [0x4a, 0x4b]⟩ := by decide

end Qualified

end Grove
