/-! # Byte strings

A byte string is a list of bytes. Words are written big-endian in a fixed number of bytes; the
curve arithmetic reads and writes little-endian.
-/

namespace Grove

abbrev Bytes := List UInt8

namespace Bytes

/-- The number that a byte string denotes, most significant byte first. -/
def toNat (b : Bytes) : Nat :=
  b.foldl (fun n x => 256 * n + x.toNat) 0

/-- The last `width` base-256 digits of a number, most significant first. -/
def ofNat : (width n : Nat) → Bytes
  | 0, _ => []
  | width + 1, n => ofNat width (n / 256) ++ [UInt8.ofNat n]

def toNatLE (b : Bytes) : Nat :=
  toNat b.reverse

def ofNatLE (width n : Nat) : Bytes :=
  (ofNat width n).reverse

@[simp] theorem length_ofNat (width n : Nat) : (ofNat width n).length = width := by
  induction width generalizing n with
  | zero => rfl
  | succ width ih => simp [ofNat, ih]

theorem toNat_append_singleton (b : Bytes) (x : UInt8) :
    toNat (b ++ [x]) = 256 * toNat b + x.toNat := by
  simp [toNat]

theorem toNat_ofNat (width n : Nat) : toNat (ofNat width n) = n % Nat.pow 256 width := by
  induction width generalizing n with
  | zero => simp [ofNat, toNat, Nat.mod_one]
  | succ width ih =>
    rw [ofNat, toNat_append_singleton, ih, Nat.pow_eq, Nat.pow_eq, Nat.pow_succ', Nat.mod_mul,
      UInt8.toNat_ofNat']
    omega

theorem ofNat_length_toNat (b : Bytes) : ofNat b.length (toNat b) = b := by
  suffices h : ∀ c : Bytes, ofNat c.length (toNat c.reverse) = c.reverse by
    simpa using h b.reverse
  intro c
  induction c with
  | nil => rfl
  | cons x c ih =>
    have hx := x.toNat_lt
    rw [List.reverse_cons, List.length_cons, ofNat, toNat_append_singleton,
      show (256 * toNat c.reverse + x.toNat) / 256 = toNat c.reverse by omega, ih]
    congr 2
    apply UInt8.toNat_inj.1
    rw [UInt8.toNat_ofNat']
    omega

theorem toNat_lt (b : Bytes) : toNat b < Nat.pow 256 b.length := by
  have h := toNat_ofNat b.length (toNat b)
  rw [ofNat_length_toNat] at h
  rw [h]
  exact Nat.mod_lt _ (Nat.pow_pos (by decide))

end Bytes

end Grove
