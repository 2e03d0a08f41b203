import Grove.Bytes.Hex
import Grove.Text.Decimal

/-! # Numerals

Decimal numerals are read as the number that their digits denote. Those of one number differ in
leading zeros only, and the one without is the one that is written. Hexadecimal text is read in
either case, so texts of the same bytes differ in case only.
-/

namespace Grove

namespace Decimal

variable {c : Char} {s digits : List Char} {n : Nat}

theorem digit?_eq_some_iff {k : Nat} :
    digit? c = some k ↔ c.isDigit = true ∧ c.toNat - '0'.toNat = k := by
  have hdigit : '0' ≤ c ∧ c ≤ '9' ↔ c.isDigit = true := Char.isDigit_iff_toNat.symm
  unfold digit?
  split
  · next h => simp [hdigit.1 h]
  · next h => simp [mt hdigit.2 h]

theorem foldlM_eq_some_iff {start : Nat} :
    s.foldlM (fun n c => (digit? c).map (10 * n + ·)) start = some n ↔
      (∀ c ∈ s, c.isDigit = true) ∧ Nat.ofDigitChars 10 s start = n := by
  induction s generalizing start with
  | nil => simp
  | cons c s ih =>
    simp only [List.foldlM_cons, Option.bind_eq_bind, Option.bind_eq_some_iff,
      Option.map_eq_some_iff, digit?_eq_some_iff, Nat.ofDigitChars_cons, List.forall_mem_cons]
    constructor
    · rintro ⟨_, ⟨_, ⟨hc, rfl⟩, rfl⟩, hs⟩
      exact ⟨⟨hc, (ih.1 hs).1⟩, (ih.1 hs).2⟩
    · rintro ⟨⟨hc, hs⟩, hn⟩
      exact ⟨_, ⟨_, ⟨hc, rfl⟩, rfl⟩, ih.2 ⟨hs, hn⟩⟩

/-- The text consists of digits, at least one, and they denote the number. -/
structure Denotes (s : List Char) (n : Nat) : Prop where
  nonempty : s ≠ []
  digits : ∀ c ∈ s, c.isDigit = true
  value : Nat.ofDigitChars 10 s 0 = n

theorem read?_eq_some_iff : read? s = some n ↔ Denotes s n := by
  have hdenotes : Denotes s n ↔
      s ≠ [] ∧ (∀ c ∈ s, c.isDigit = true) ∧ Nat.ofDigitChars 10 s 0 = n :=
    ⟨fun h => ⟨h.nonempty, h.digits, h.value⟩, fun h => ⟨h.1, h.2.1, h.2.2⟩⟩
  rw [hdenotes]
  unfold read?
  split
  · next h => simp [h]
  · next h => rw [foldlM_eq_some_iff, and_iff_right h]

theorem Denotes.not_mem (h : Denotes s n) (hc : c.isDigit = false) : c ∉ s := fun hmem =>
  absurd ((h.digits c hmem).symm.trans hc) nofun

theorem denotes_write (n : Nat) : Denotes (write n) n where
  nonempty := Nat.toDigits_ne_nil
  digits _ := Nat.isDigit_of_mem_toDigits (by decide) (by decide)
  value := Nat.ofDigitChars_ten_toDigits

theorem not_mem_write (hc : c.isDigit = false) (n : Nat) : c ∉ write n :=
  (denotes_write n).not_mem hc

theorem readSigned?_eq_some_iff :
    readSigned? s = some n ↔
      ∃ sign digits, s = sign ++ digits ∧ (sign = [] ∨ sign = ['+']) ∧ Denotes digits n := by
  constructor
  · intro h
    unfold readSigned? at h
    split at h
    · next digits => exact ⟨['+'], digits, rfl, .inr rfl, read?_eq_some_iff.1 h⟩
    · exact ⟨[], s, rfl, .inl rfl, read?_eq_some_iff.1 h⟩
  · rintro ⟨_, digits, rfl, rfl | rfl, h⟩
    · rw [List.nil_append, readSigned?]
      · exact read?_eq_some_iff.2 h
      · rintro digits rfl
        exact h.not_mem (c := '+') (by decide) List.mem_cons_self
    · exact read?_eq_some_iff.2 h

theorem digitChar_of_isDigit (h : c.isDigit = true) :
    c.toNat - '0'.toNat < 10 ∧ (c.toNat - '0'.toNat).digitChar = c := by
  obtain ⟨hlow, hhigh⟩ := Char.isDigit_iff_toNat.1 h
  have hnine : '9'.toNat = '0'.toNat + 9 := rfl
  have hlt : c.toNat - '0'.toNat < 10 := by omega
  refine ⟨hlt, Char.toNat_inj.1 ?_⟩
  rw [Nat.toNat_digitChar_of_lt_ten hlt]
  exact Nat.add_sub_of_le hlow

theorem write_of_isDigit (h : c.isDigit = true) : write (c.toNat - '0'.toNat) = [c] := by
  obtain ⟨hlt, hchar⟩ := digitChar_of_isDigit h
  rw [write, Nat.toDigits_of_lt_base hlt, hchar]

theorem write_ofDigitChars_of_pos {start : Nat} (hs : ∀ c ∈ s, c.isDigit = true)
    (hstart : 0 < start) : write (Nat.ofDigitChars 10 s start) = write start ++ s := by
  induction s generalizing start with
  | nil => rw [Nat.ofDigitChars_nil, List.append_nil]
  | cons c s ih =>
    obtain ⟨hc, hs⟩ := List.forall_mem_cons.1 hs
    have hnext : write (10 * start + (c.toNat - '0'.toNat)) = write start ++ [c] := by
      rw [← write_of_isDigit hc]
      exact (Nat.toDigits_append_toDigits (by decide) hstart (digitChar_of_isDigit hc).1).symm
    rw [Nat.ofDigitChars_cons, ih hs (by omega), hnext, List.append_assoc, List.singleton_append]

theorem write_ofDigitChars_cons (hs : ∀ d ∈ c :: s, d.isDigit = true) (hc : c ≠ '0') :
    write (Nat.ofDigitChars 10 (c :: s) 0) = c :: s := by
  obtain ⟨hdigit, hs⟩ := List.forall_mem_cons.1 hs
  have hlow := (Char.isDigit_iff_toNat.1 hdigit).1
  have hne : c.toNat ≠ '0'.toNat := mt Char.toNat_inj.1 hc
  have hpos : 0 < 10 * 0 + (c.toNat - '0'.toNat) := by omega
  rw [Nat.ofDigitChars_cons, write_ofDigitChars_of_pos hs hpos, Nat.mul_zero, Nat.zero_add,
    write_of_isDigit hdigit, List.singleton_append]

/-- Numerals of one number differ in leading zeros only. -/
theorem Denotes.exists_zeros (h : Denotes s n) :
    ∃ zeros, s = List.replicate zeros '0' ++ write n := by
  obtain ⟨hne, hs, rfl⟩ := h
  induction s with
  | nil => exact absurd rfl hne
  | cons c s ih =>
    by_cases hc : c = '0'
    · subst hc
      by_cases hnil : s = []
      · subst hnil
        exact ⟨0, rfl⟩
      · obtain ⟨zeros, hzeros⟩ := ih hnil fun d hd => hs d (List.mem_cons_of_mem _ hd)
        refine ⟨zeros + 1, ?_⟩
        rw [List.replicate_succ, List.cons_append]
        exact congrArg _ hzeros
    · exact ⟨0, (write_ofDigitChars_cons hs hc).symm⟩

/-- There is no leading zero but that of the numeral zero. -/
def Plain (s : List Char) : Prop :=
  s.head? = some '0' → s = ['0']

theorem Denotes.plain_iff (h : Denotes s n) : Plain s ↔ s = write n := by
  obtain ⟨c, s, rfl⟩ := List.exists_cons_of_ne_nil h.nonempty
  by_cases hc : c = '0'
  · subst hc
    constructor
    · intro hplain
      obtain rfl : s = [] := (List.cons.inj (hplain rfl)).2
      rw [← h.value]
      rfl
    · intro hwrite _
      by_cases hnil : s = []
      · rw [hnil]
      -- The zero adds nothing to the number, so what is written is shorter.
      have hrest : Denotes s n :=
        ⟨hnil, fun d hd => h.digits d (List.mem_cons_of_mem _ hd), h.value⟩
      obtain ⟨zeros, hzeros⟩ := hrest.exists_zeros
      rw [← hwrite] at hzeros
      have hlength := congrArg List.length hzeros
      rw [List.length_append, List.length_cons] at hlength
      omega
  · refine iff_of_true (fun hzero => absurd (Option.some.inj hzero) hc) ?_
    rw [← h.value, write_ofDigitChars_cons h.digits hc]

end Decimal

namespace Hex

variable {c : Char} {s : List Char} {v : Nat} {b : Bytes}

theorem digit_eq_digitChar (h : v < 16) : digit v = v.digitChar := by
  revert v
  decide

theorem toNat_digitChar (h : v < 16) :
    v.digitChar.toNat = if v < 10 then 48 + v else 87 + v := by
  revert v
  decide

theorem toNat_toLower (c : Char) :
    c.toLower.toNat = if 65 ≤ c.toNat ∧ c.toNat ≤ 90 then c.toNat + 32 else c.toNat := by
  have hupper : c.val ≥ 'A'.val ∧ c.val ≤ 'Z'.val ↔ 65 ≤ c.toNat ∧ c.toNat ≤ 90 := Iff.rfl
  unfold Char.toLower
  split
  · next h =>
    rw [if_pos (hupper.1 h), Char.toNat_mk, UInt32.toNat_add]
    have hle : c.val.toNat ≤ 90 := (hupper.1 h).2
    exact Nat.mod_eq_of_lt (show c.val.toNat + 32 < _ by omega)
  · next h => rw [if_neg (mt hupper.2 h)]

theorem value?_eq_some_iff : value? c = some v ↔ v < 16 ∧ c.toLower = v.digitChar := by
  have hrange (a b : Char) : a ≤ c ∧ c ≤ b ↔ a.toNat ≤ c.toNat ∧ c.toNat ≤ b.toNat := Iff.rfl
  rw [← Char.toNat_inj, toNat_toLower]
  simp only [value?, hrange, Char.reduceToNat]
  by_cases hv : v < 16
  · rw [toNat_digitChar hv]
    grind
  · grind

theorem encode_cons (x : UInt8) (b : Bytes) :
    encode (x :: b) = (x.toNat / 16).digitChar :: (x.toNat % 16).digitChar :: encode b := by
  have hx := x.toNat_lt
  rw [← digit_eq_digitChar (show x.toNat / 16 < 16 by omega),
    ← digit_eq_digitChar (show x.toNat % 16 < 16 by omega)]
  rfl

/-- The text spells the bytes with two digits each, whose case does not matter. -/
def Spells (s : List Char) (b : Bytes) : Prop :=
  s.map Char.toLower = b.flatMap fun x => [(x.toNat / 16).digitChar, (x.toNat % 16).digitChar]

theorem encode_eq_flatMap (b : Bytes) :
    encode b = b.flatMap fun x => [(x.toNat / 16).digitChar, (x.toNat % 16).digitChar] := by
  induction b with
  | nil => rfl
  | cons x b ih => rw [encode_cons, ih, List.flatMap_cons, List.cons_append, List.singleton_append]

theorem map_toLower_cons_cons_iff {c d : Char} :
    (c :: d :: s).map Char.toLower = encode b ↔
      ∃ hi lo rest, value? c = some hi ∧ value? d = some lo ∧
        b = UInt8.ofNat (16 * hi + lo) :: rest ∧ s.map Char.toLower = encode rest := by
  simp only [value?_eq_some_iff]
  constructor
  · intro h
    cases b with
    | nil => exact absurd h nofun
    | cons x rest =>
      have hx := x.toNat_lt
      rw [encode_cons] at h
      obtain ⟨hc, h⟩ := List.cons.inj h
      obtain ⟨hd, h⟩ := List.cons.inj h
      refine ⟨x.toNat / 16, x.toNat % 16, rest, ⟨by omega, hc⟩, ⟨by omega, hd⟩, ?_, h⟩
      rw [Nat.div_add_mod, UInt8.ofNat_toNat]
  · rintro ⟨hi, lo, rest, ⟨hhi, hc⟩, ⟨hlo, hd⟩, rfl, h⟩
    have hbyte : (UInt8.ofNat (16 * hi + lo)).toNat = 16 * hi + lo :=
      UInt8.toNat_ofNat_of_lt' (show 16 * hi + lo < 256 by omega)
    rw [List.map_cons, List.map_cons, encode_cons, hbyte,
      show (16 * hi + lo) / 16 = hi by omega, show (16 * hi + lo) % 16 = lo by omega, hc, hd, h]

/-- Digits of either case are read as the bytes that they spell in lower case. -/
theorem decodeBehind?_eq_some_iff {read out : Bytes} :
    decodeBehind? read s = some out ↔
      ∃ b, out = read.reverse ++ b ∧ s.map Char.toLower = encode b := by
  induction read, s using decodeBehind?.induct with
  | case1 read =>
    rw [decodeBehind?, Option.some.injEq]
    constructor
    · rintro rfl
      exact ⟨[], (List.append_nil _).symm, rfl⟩
    · rintro ⟨b, rfl, hb⟩
      cases b with
      | nil => exact (List.append_nil _).symm
      | cons x b => exact absurd (hb.trans (encode_cons x b)).symm (List.cons_ne_nil _ _)
  | case2 read c =>
    refine iff_of_false (Option.some_ne_none out).symm ?_
    rintro ⟨b, -, hb⟩
    cases b with
    | nil => exact absurd hb (List.cons_ne_nil _ _)
    | cons x b => exact absurd (hb.trans (encode_cons x b)) (by simp)
  | case3 read c d s hi lo hc hd ih =>
    simp only [decodeBehind?, hc, hd, ih, map_toLower_cons_cons_iff]
    constructor
    · rintro ⟨rest, rfl, h⟩
      refine ⟨_, ?_, hi, lo, rest, rfl, rfl, rfl, h⟩
      rw [List.reverse_cons, List.append_assoc, List.singleton_append]
    · rintro ⟨_, rfl, _, _, rest, ⟨⟩, ⟨⟩, rfl, h⟩
      refine ⟨rest, ?_, h⟩
      rw [List.reverse_cons, List.append_assoc, List.singleton_append]
  | case4 read c d s hnone =>
    refine iff_of_false (fun h => ?_) ?_
    · rw [decodeBehind?] at h
      split at h
      · next hi lo hc hd => exact hnone hi lo hc hd
      · exact absurd h.symm (Option.some_ne_none out)
    · rintro ⟨b, -, hb⟩
      obtain ⟨hi, lo, rest, hc, hd, -⟩ := map_toLower_cons_cons_iff.1 hb
      exact hnone hi lo hc hd

theorem decode?_eq_some_iff : decode? s = some b ↔ Spells s b := by
  simp [decode?, decodeBehind?_eq_some_iff, Spells, encode_eq_flatMap]

end Hex

end Grove
