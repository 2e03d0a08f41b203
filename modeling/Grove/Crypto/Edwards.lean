import Grove.Bytes.Basic

/-! # The twisted Edwards curve of Ed25519

The curve `-x² + y² = 1 + d x² y²` over the field of `2^255 - 19` elements. Points are kept in
extended homogeneous coordinates, in which one complete formula adds any two points. A point is
written as its `y`, with the parity of its `x` in the top bit.
-/

namespace Grove.Edwards

def prime : Nat :=
  Nat.pow 2 255 - 19

def order : Nat :=
  Nat.pow 2 252 + 27742317777372353535851937790883648493

def signBit : Nat :=
  Nat.pow 2 255

theorem prime_pos : 0 < prime := by
  decide

abbrev Field := Fin prime

namespace Field

def ofNat (n : Nat) : Field :=
  ⟨n % prime, Nat.mod_lt n prime_pos⟩

/-- `x` to the power of the lowest `bits` bits of `n`, by squaring. -/
def power (x : Field) : (bits n : Nat) → Field
  | 0, _ => ofNat 1
  | bits + 1, n =>
    let high := power (x * x) bits (n / 2)
    if n % 2 = 1 then x * high else high

/-- The inverse of a nonzero element; zero goes to zero. -/
def inverse (x : Field) : Field :=
  power x 255 (prime - 2)

def isOdd (x : Field) : Bool :=
  x.val % 2 = 1

def rootOfMinusOne : Field :=
  power (ofNat 2) 255 ((prime - 1) / 4)

/-- The even square root of `u / v`, if there is one. -/
def rootOfQuotient? (u v : Field) : Option Field :=
  let v3 := v * v * v
  let x := u * v3 * power (u * v3 * v3 * v) 255 ((prime - 5) / 8)
  let even (x : Field) := if isOdd x then -x else x
  if v * x * x = u then some (even x)
  else if v * x * x = -u then some (even (x * rootOfMinusOne))
  else none

end Field

/-- The coefficient `d` of the curve. -/
def coefficient : Field :=
  -Field.ofNat 121665 * (Field.ofNat 121666).inverse

/-- The point `(x / z, y / z)`, with `t = x y / z`. -/
structure Point where
  x : Field
  y : Field
  z : Field
  t : Field
  deriving DecidableEq, Repr

namespace Point

def zero : Point :=
  ⟨.ofNat 0, .ofNat 1, .ofNat 1, .ofNat 0⟩

def ofAffine (x y : Field) : Point :=
  ⟨x, y, .ofNat 1, x * y⟩

/-- The point of order `order` whose `y` is `4 / 5` and whose `x` is even. -/
def base : Point :=
  ofAffine
    (.ofNat 15112221349535400772501151409588531511454012693041857206046113283949847762202)
    (.ofNat 46316835694926478169428394003475163141307993866256225615783033603165251855960)

def add (p q : Point) : Point :=
  let a := (p.y - p.x) * (q.y - q.x)
  let b := (p.y + p.x) * (q.y + q.x)
  let c := (p.t * q.t) * (coefficient + coefficient)
  let d := (p.z + p.z) * q.z
  let e := b - a
  let f := d - c
  let g := d + c
  let h := b + a
  ⟨e * f, g * h, f * g, e * h⟩

def neg (p : Point) : Point :=
  ⟨-p.x, p.y, p.z, -p.t⟩

def multiple (p : Point) : (bits n : Nat) → Point
  | 0, _ => zero
  | bits + 1, n =>
    let high := multiple (p.add p) bits (n / 2)
    if n % 2 = 1 then p.add high else high

def encode (p : Point) : Bytes :=
  let scale := p.z.inverse
  let sign := if (p.x * scale).isOdd then signBit else 0
  Bytes.ofNatLE 32 ((p.y * scale).val + sign)

/--
The point that 32 bytes denote. The lower bits are taken modulo the field's size, and the sign of
an `x` that is zero is ignored.
-/
def decode? (b : Bytes) : Option Point :=
  let n := b.toNatLE
  let y := Field.ofNat (n % signBit)
  let square := y * y
  let x? := Field.rootOfQuotient? (square - .ofNat 1) (coefficient * square + .ofNat 1)
  x?.map fun x => ofAffine (if n / signBit % 2 = 1 then -x else x) y

end Point

end Grove.Edwards
