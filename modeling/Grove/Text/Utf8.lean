import Grove.Bytes.Basic

/-! # UTF-8

Texts and the byte strings that encode them. Strict reading refuses ill-formed bytes; repairing
puts the replacement character in the place of each longest run that begins no character.
-/

namespace Grove.Utf8

def encode (s : String) : Bytes :=
  s.toUTF8.data.toList

def decode? (b : Bytes) : Option String :=
  String.fromUTF8? ⟨b.toArray⟩

@[simp] theorem decode?_encode (s : String) : decode? (encode s) = some s := by
  rw [decode?, encode, Array.toArray_toList]
  exact dif_pos s.isValidUTF8

theorem encode_of_decode? {b : Bytes} {s : String} (h : decode? b = some s) : encode s = b := by
  unfold decode? String.fromUTF8? at h
  split at h
  · cases h
    rfl
  · cases h

abbrev ByteRange := UInt8 × UInt8

def continuation : ByteRange := (0x80, 0xBF)

/--
The leading bits that a first byte holds, and the ranges of the bytes that must follow it. The
narrowed ranges keep out overlong forms, surrogates and numbers above `0x10FFFF`.
-/
def lead? (b : UInt8) : Option (Nat × List ByteRange) :=
  let tail := continuation
  if b < 0x80 then some (b.toNat, [])
  else if b < 0xC2 then none
  else if b < 0xE0 then some (b.toNat - 0xC0, [tail])
  else if b = 0xE0 then some (0, [(0xA0, 0xBF), tail])
  else if b = 0xED then some (13, [(0x80, 0x9F), tail])
  else if b < 0xF0 then some (b.toNat - 0xE0, [tail, tail])
  else if b = 0xF0 then some (0, [(0x90, 0xBF), tail, tail])
  else if b < 0xF4 then some (b.toNat - 0xF0, [tail, tail, tail])
  else if b = 0xF4 then some (4, [(0x80, 0x8F), tail, tail])
  else none

/-- A character begun: the bits read and the ranges of the bytes still to come. -/
abbrev Pending := Nat × List ByteRange

/-- What one more byte completes (`none` for a run that begins no character), and what it leaves. -/
def feed : Option Pending → UInt8 → List (Option Char) × Option Pending
  | some (bits, (lo, hi) :: ranges), b =>
    if lo ≤ b ∧ b ≤ hi then settle (64 * bits + (b.toNat - 0x80), ranges)
    else let next := start b; (none :: next.1, next.2)
  | _, b => start b
where
  settle : Pending → List (Option Char) × Option Pending
    | (bits, []) => ([some (Char.ofNat bits)], none)
    | pending => ([], some pending)
  start (b : UInt8) : List (Option Char) × Option Pending :=
    match lead? b with
    | none => ([none], none)
    | some pending => settle pending

/-- The characters of a byte string in order, `none` for each longest run that begins no
character. -/
def scan (b : Bytes) : List (Option Char) :=
  let (read, pending) := b.foldl (fun (read, pending) x =>
    let next := feed pending x
    (next.1.reverse ++ read, next.2)) ([], none)
  (if pending.isSome then none :: read else read).reverse

/-- The text of a byte string, with `U+FFFD` for what is ill-formed. -/
def repair (b : Bytes) : String :=
  String.ofList ((scan b).map (·.getD '\uFFFD'))

end Grove.Utf8
