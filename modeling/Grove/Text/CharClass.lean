/-! # Classes of characters

A class of characters is a table of ranges of their numbers in rising order, ends included.
-/

namespace Grove.Text

/-- Whether every range has its ends in order and lies behind the one before it, with a gap. -/
def rises : List (Nat × Nat) → Bool
  | [] => true
  | [r] => r.1 ≤ r.2
  | r :: s :: ranges => r.1 ≤ r.2 && r.2 + 1 < s.1 && rises (s :: ranges)

def count (ranges : List (Nat × Nat)) : Nat :=
  ranges.foldr (fun r n => r.2 + 1 - r.1 + n) 0

/-- Whether a number lies in one of the ranges; the search ends where they rise above it. -/
def inRanges (n : Nat) : List (Nat × Nat) → Bool
  | [] => false
  | (low, high) :: ranges => low ≤ n && (n ≤ high || inRanges n ranges)

theorem le_of_rises {r : Nat × Nat} : ∀ {ranges : List (Nat × Nat)},
    rises (r :: ranges) = true → ∀ s ∈ ranges, r.1 ≤ s.1
  | [], _, _, hs => by simp at hs
  | t :: ranges, h, s, hs => by
    simp only [rises, Bool.and_eq_true, decide_eq_true_eq] at h
    obtain rfl | hs := List.mem_cons.1 hs
    · omega
    · have := le_of_rises h.2 s hs
      omega

theorem rises_tail {r : Nat × Nat} {ranges : List (Nat × Nat)} (h : rises (r :: ranges) = true) :
    rises ranges = true := by
  cases ranges with
  | nil => rfl
  | cons s ranges =>
    simp only [rises, Bool.and_eq_true] at h
    exact h.2

theorem inRanges_iff {n : Nat} {ranges : List (Nat × Nat)} (h : rises ranges = true) :
    inRanges n ranges = true ↔ ∃ r ∈ ranges, r.1 ≤ n ∧ n ≤ r.2 := by
  induction ranges with
  | nil => simp [inRanges]
  | cons r ranges ih =>
    simp only [inRanges, Bool.and_eq_true, Bool.or_eq_true, decide_eq_true_eq, ih (rises_tail h),
      List.mem_cons, exists_eq_or_imp, and_or_left]
    refine or_congr Iff.rfl ⟨And.right, ?_⟩
    rintro ⟨s, hs, hn⟩
    have := le_of_rises h s hs
    exact ⟨by omega, s, hs, hn⟩

def spaceRanges : List (Nat × Nat) :=
  [(0x9, 0xD), (0x20, 0x20), (0x85, 0x85), (0xA0, 0xA0), (0x1680, 0x1680), (0x2000, 0x200A),
    (0x2028, 0x2029), (0x202F, 0x202F), (0x205F, 0x205F), (0x3000, 0x3000)]

theorem rises_spaceRanges : rises spaceRanges = true := by
  decide

theorem count_spaceRanges : count spaceRanges = 25 := by
  decide

def isSpace (c : Char) : Bool :=
  inRanges c.toNat spaceRanges

theorem isSpace_of_isWhitespace {c : Char} (h : c.isWhitespace = true) : isSpace c = true := by
  simp only [Char.isWhitespace, Bool.or_eq_true, decide_eq_true_eq] at h
  obtain ((rfl | rfl) | rfl) | rfl := h <;> decide

end Grove.Text
