import Grove.Text.Split
import Grove.Text.Utf8
import Mathlib.Data.List.Chain
import Mathlib.Data.List.TakeDrop

/-! # Separators in texts

A separator of one byte stands in the bytes of a text exactly where its character stands in the
text. What is split at a separator is what was joined by it. What is split at a pair is what was
joined by it as well, if the pair is neither in the first part nor begun by its end.
-/

namespace Grove

namespace Utf8

variable {c d : Char} {s : String}

theorem encode_append (s t : String) : encode (s ++ t) = encode s ++ encode t := by
  simp [encode, String.toUTF8]

theorem encode_eq_flatMap (s : String) : encode s = s.toList.flatMap String.utf8EncodeChar := by
  rw [encode, String.toUTF8, ← String.utf8Encode_toList, List.utf8Encode, List.data_toByteArray]

/-- Only a character of one byte has a byte below 128, and it is this byte. -/
theorem mem_utf8EncodeChar_iff (hc : c.toNat < 128) :
    UInt8.ofNat c.toNat ∈ String.utf8EncodeChar d ↔ d = c := by
  have hd : d.val.toNat = d.toNat := rfl
  rw [← Char.toNat_inj, String.utf8EncodeChar]
  simp only [hd]
  split
  · next hone =>
    rw [List.mem_singleton, ← UInt8.toNat_inj, UInt8.toNat_ofNat', UInt8.toNat_ofNat']
    omega
  · split
    · simp only [List.mem_cons, List.not_mem_nil, or_false, ← UInt8.toNat_inj, UInt8.toNat_ofNat']
      omega
    · split
      · simp only [List.mem_cons, List.not_mem_nil, or_false, ← UInt8.toNat_inj,
          UInt8.toNat_ofNat']
        omega
      · simp only [List.mem_cons, List.not_mem_nil, or_false, ← UInt8.toNat_inj,
          UInt8.toNat_ofNat']
        omega

theorem mem_encode_iff (hc : c.toNat < 128) : UInt8.ofNat c.toNat ∈ encode s ↔ c ∈ s.toList := by
  rw [encode_eq_flatMap, List.mem_flatMap]
  simp only [mem_utf8EncodeChar_iff hc, exists_eq_right]

end Utf8

namespace Text

variable {α : Type} [DecidableEq α] {p : α} {l a b : List α}

theorem splitAll_eq_splitOn (p : α) (l : List α) : splitAll p l = l.splitOn p := by
  induction l with
  | nil => rfl
  | cons x l ih =>
    rw [splitAll_cons, ih, List.splitOn_cons_eq_if_modifyHead]
    cases hparts : l.splitOn p with
    | nil => exact absurd (ih.trans hparts) (splitAll_ne_nil p l)
    | cons part parts => simp [splitAll.place]

theorem not_mem_of_mem_splitAll {part : List α} (h : part ∈ splitAll p l) : p ∉ part := by
  induction l generalizing part with
  | nil =>
    obtain rfl : part = [] := List.mem_singleton.1 h
    exact List.not_mem_nil
  | cons x l ih =>
    rw [splitAll_cons] at h
    cases hparts : splitAll p l with
    | nil => exact absurd hparts (splitAll_ne_nil p l)
    | cons first parts =>
      rw [hparts] at h ih
      rw [splitAll.place] at h
      split at h
      · rcases List.mem_cons.1 h with rfl | h
        · exact List.not_mem_nil
        · exact ih h
      · next hx =>
        rcases List.mem_cons.1 h with rfl | h
        · exact List.not_mem_cons_of_ne_of_not_mem (Ne.symm hx) (ih List.mem_cons_self)
        · exact ih (List.mem_cons_of_mem _ h)

theorem splitLast?_append (hb : p ∉ b) : splitLast? p (a ++ p :: b) = some (a, b) := by
  have hspan : (a ++ p :: b).reverse.span (· ≠ p) = (b.reverse, p :: a.reverse) := by
    have hpass : ∀ x ∈ b.reverse, decide (x ≠ p) = true := by
      intro x hx
      simp only [decide_eq_true_eq]
      rintro rfl
      exact hb (List.mem_reverse.1 hx)
    rw [List.span_eq_takeWhile_dropWhile, List.reverse_append, List.reverse_cons,
      List.append_assoc, List.takeWhile_append_of_pos hpass, List.dropWhile_append_of_pos hpass]
    simp
  simp only [splitLast?, hspan, List.reverse_reverse]

theorem eq_of_splitLast? (h : splitLast? p l = some (a, b)) : l = a ++ p :: b := by
  rw [splitLast?, List.span_eq_takeWhile_dropWhile] at h
  split at h
  · exact absurd h nofun
  · next after x before hspan =>
    obtain ⟨hafter, hbefore⟩ := Prod.mk.inj hspan
    obtain ⟨rfl, rfl⟩ := Prod.mk.inj (Option.some.inj h)
    have hx : x = p := by
      have hne : l.reverse.dropWhile (fun y => decide (y ≠ p)) ≠ [] := by
        rw [hbefore]
        exact List.cons_ne_nil x before
      simpa only [hbefore, List.head_cons, decide_eq_false_iff_not, ne_eq, not_not] using
        List.head_dropWhile_not (fun y => decide (y ≠ p)) hne
    have hwhole := List.takeWhile_append_dropWhile (p := fun y => decide (y ≠ p)) (l := l.reverse)
    rw [hafter, hbefore, hx] at hwhole
    rw [← List.reverse_reverse l, ← hwhole, List.reverse_append, List.reverse_cons,
      List.append_assoc, List.singleton_append]

omit [DecidableEq α] in
theorem isChain_of_not_mem {q : α} (h : p ∉ l) :
    (l ++ [p]).IsChain fun x y => ¬(x = p ∧ y = q) := by
  induction l with
  | nil => exact .singleton p
  | cons x l ih =>
    rw [List.cons_append, List.isChain_cons]
    refine ⟨fun y _ hpair => h ?_, ih (mt (List.mem_cons_of_mem x) h)⟩
    rw [hpair.1]
    exact List.mem_cons_self

theorem search_append {q : α} (h : (l ++ [p]).IsChain fun x y => ¬(x = p ∧ y = q))
    (passed r : List α) :
    splitFirstPair?.search p q passed (l ++ p :: q :: r) = some (passed.reverse ++ l, r) := by
  induction l generalizing passed with
  | nil => simp [splitFirstPair?.search]
  | cons x l ih =>
    obtain ⟨y, l', hl⟩ : ∃ y l', l ++ [p] = y :: l' :=
      List.exists_cons_of_ne_nil (List.append_ne_nil_of_right_ne_nil l (List.cons_ne_nil p []))
    rw [List.cons_append, hl, List.isChain_cons_cons, ← hl] at h
    have hrest : l ++ p :: q :: r = y :: (l' ++ q :: r) := by
      rw [List.append_cons, hl, List.cons_append]
    rw [List.cons_append, hrest, splitFirstPair?.search, if_neg h.1, ← hrest, ih h.2,
      List.reverse_cons, List.append_assoc, List.singleton_append]

theorem splitFirstPair?_append {q : α} (h : (l ++ [p]).IsChain fun x y => ¬(x = p ∧ y = q))
    (r : List α) : splitFirstPair? p q (l ++ p :: q :: r) = some (l, r) :=
  search_append h [] r

theorem eq_of_search {q : α} {passed : List α}
    (h : splitFirstPair?.search p q passed l = some (a, b)) :
    passed.reverse ++ l = a ++ p :: q :: b := by
  induction passed, l using splitFirstPair?.search.induct p q with
  | case1 passed x y l hpair =>
    obtain ⟨rfl, rfl⟩ := hpair
    rw [splitFirstPair?.search, if_pos ⟨rfl, rfl⟩] at h
    obtain ⟨rfl, rfl⟩ := Prod.mk.inj (Option.some.inj h)
    rfl
  | case2 passed x y l hpair ih =>
    rw [splitFirstPair?.search, if_neg hpair] at h
    rw [← ih h, List.reverse_cons, List.append_assoc, List.singleton_append]
  | case3 passed l hshort =>
    rw [splitFirstPair?.search] at h
    · exact absurd h nofun
    · exact hshort

theorem eq_of_splitFirstPair? {q : α} (h : splitFirstPair? p q l = some (a, b)) :
    l = a ++ p :: q :: b :=
  eq_of_search h

end Text

end Grove
