import Grove.Bytes.Basic

/-! # Hexadecimal text

Bytes are written with two lower-case digits each. Reading takes digits of either case and needs
an even number of them.
-/

namespace Grove.Hex

def digit (n : Nat) : Char :=
  if n < 10 then Char.ofNat (48 + n) else Char.ofNat (87 + n)

def value? (c : Char) : Option Nat :=
  if '0' ≤ c ∧ c ≤ '9' then some (c.toNat - 48)
  else if 'a' ≤ c ∧ c ≤ 'f' then some (c.toNat - 87)
  else if 'A' ≤ c ∧ c ≤ 'F' then some (c.toNat - 55)
  else none

def encode (b : Bytes) : List Char :=
  b.flatMap fun x => [digit (x.toNat / 16), digit (x.toNat % 16)]

/-- The bytes that a text denotes, behind those already read in reverse. -/
def decodeBehind? (read : Bytes) : List Char → Option Bytes
  | [] => some read.reverse
  | [_] => none
  | c :: d :: s =>
    match value? c, value? d with
    | some hi, some lo => decodeBehind? (UInt8.ofNat (16 * hi + lo) :: read) s
    | _, _ => none

def decode? (s : List Char) : Option Bytes :=
  decodeBehind? [] s

def text (b : Bytes) : String :=
  String.ofList (encode b)

theorem value?_digit {n : Nat} (h : n < 16) : value? (digit n) = some n := by
  revert n
  decide

theorem decodeBehind?_encode (read b : Bytes) :
    decodeBehind? read (encode b) = some (read.reverse ++ b) := by
  induction b generalizing read with
  | nil => simp [encode, decodeBehind?]
  | cons x b ih =>
    have hx := x.toNat_lt
    have he : encode (x :: b) = digit (x.toNat / 16) :: digit (x.toNat % 16) :: encode b := rfl
    rw [he]
    simp only [decodeBehind?, value?_digit (show x.toNat / 16 < 16 by omega),
      value?_digit (show x.toNat % 16 < 16 by omega), Nat.div_add_mod, UInt8.ofNat_toNat, ih]
    simp

@[simp] theorem decode?_encode (b : Bytes) : decode? (encode b) = some b :=
  decodeBehind?_encode [] b

end Grove.Hex
