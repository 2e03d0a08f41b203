/-! # Decimal numerals -/

namespace Grove.Decimal

def digit? (c : Char) : Option Nat :=
  if '0' ≤ c ∧ c ≤ '9' then some (c.toNat - 48) else none

/-- The number that a nonempty string of ASCII digits denotes; leading zeros are allowed. -/
def read? (s : List Char) : Option Nat :=
  if s = [] then none
  else s.foldlM (fun n c => (digit? c).map (10 * n + ·)) 0

def readSigned? : List Char → Option Nat
  | '+' :: s => read? s
  | s => read? s

def write (n : Nat) : List Char :=
  Nat.toDigits 10 n

def text (n : Nat) : String :=
  String.ofList (write n)

end Grove.Decimal
