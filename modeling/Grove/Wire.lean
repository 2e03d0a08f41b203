import Grove.Kind

/-! # Wire forms

Values are written one after another without separators. A decoder takes a value from the front of
a byte string and hands back what follows, so that further values can stand after it. A word has
exactly one wire form.
-/

namespace Grove

inductive DecodeError where
  /-- The input ends before a component is complete. -/
  | truncated (needed available : Nat)
  /-- A byte that stands for no kind of its namespace. -/
  | unknownTag (space : Namespace) (tag : UInt8)
  /-- A length other than the one that the kind fixes. -/
  | lengthMismatch (space : Namespace) (kind : Kind space) (expected actual : UInt16)
  /-- Bytes left over after a complete value. -/
  | trailing (count : Nat)
  deriving DecidableEq, Repr

namespace DecodeError

def message : DecodeError → String
  | truncated needed available =>
    s!"truncated input: needed {needed} bytes, {available} available"
  | unknownTag space tag => s!"unknown {space.name} tag {tag}"
  | lengthMismatch space kind expected actual =>
    s!"{space.name} type {kind.label} requires length {expected}, got {actual}"
  | trailing count => s!"{count} trailing bytes after node"

end DecodeError

/-- Takes a value from the front of a byte string. -/
abbrev Decoder (ε α : Type) := StateT Bytes (Except ε) α

namespace Decoder

variable {ε ε' α : Type}

def take (n : Nat) : Decoder DecodeError Bytes := fun input =>
  if input.length < n then .error (.truncated n input.length)
  else .ok (input.splitAt n)

def mapError (f : ε → ε') (d : Decoder ε α) : Decoder ε' α := fun input =>
  (d.run input).mapError f

/-- Runs a decoder on a whole byte string; leftover bytes are the error that `leftover` names. -/
def all (leftover : Nat → ε) (d : Decoder ε α) (input : Bytes) : Except ε α := do
  let (value, rest) ← d.run input
  if rest.isEmpty then return value else throw (leftover rest.length)

theorem take_eq_ok_iff {n : Nat} {input head rest : Bytes} :
    (take n).run input = .ok (head, rest) ↔ input = head ++ rest ∧ head.length = n := by
  have hrun : (take n).run input =
      if input.length < n then .error (.truncated n input.length)
      else .ok (input.take n, input.drop n) := by
    simp [take, StateT.run]
  rw [hrun]
  split
  · next hlt =>
    constructor
    · intro h
      cases h
    · rintro ⟨rfl, rfl⟩
      rw [List.length_append] at hlt
      omega
  · next hle =>
    constructor
    · intro h
      cases h
      exact ⟨(List.take_append_drop n input).symm,
        List.length_take_of_le (Nat.le_of_not_lt hle)⟩
    · rintro ⟨rfl, rfl⟩
      simp

theorem bind_eq_ok_iff {β : Type} {d : Decoder ε α} {f : α → Decoder ε β} {input : Bytes}
    {p : β × Bytes} : (d >>= f).run input = .ok p ↔
      ∃ value rest, d.run input = .ok (value, rest) ∧ (f value).run rest = .ok p := by
  rw [StateT.run_bind]
  cases d.run input with
  | error e => simp [bind, Except.bind]
  | ok q =>
    constructor
    · intro h
      exact ⟨q.1, q.2, rfl, h⟩
    · rintro ⟨value, rest, h, hp⟩
      cases h
      exact hp

theorem pure_eq_ok_iff {value b : α} {input rest : Bytes} :
    (pure value : Decoder ε α).run input = .ok (b, rest) ↔ value = b ∧ input = rest := by
  show Except.ok (value, input) = Except.ok (b, rest) ↔ _
  simp

theorem get_eq_ok_iff {input read rest : Bytes} :
    (get : Decoder ε Bytes).run input = .ok (read, rest) ↔ input = read ∧ input = rest := by
  show Except.ok (input, input) = Except.ok (read, rest) ↔ _
  simp

theorem throw_eq_ok_iff {e : ε} {input : Bytes} {p : α × Bytes} :
    (throw e : Decoder ε α).run input = .ok p ↔ False := by
  show Except.error e = Except.ok p ↔ False
  simp

theorem unless_throw_eq_ok_iff {β : Type} {c : Prop} [Decidable c] {e : ε} {f : β → Decoder ε α}
    {d : Decoder ε α} {input : Bytes} {p : α × Bytes} :
    (if c then throw e >>= f else d).run input = .ok p ↔ ¬c ∧ d.run input = .ok p := by
  split
  · next hc =>
    rw [bind_eq_ok_iff]
    constructor
    · rintro ⟨_, _, h, _⟩
      exact (throw_eq_ok_iff.1 h).elim
    · rintro ⟨hn, _⟩
      exact (hn hc).elim
  · next hc => simp [hc]

theorem mapError_eq_ok_iff {f : ε → ε'} {d : Decoder ε α} {input : Bytes} {p : α × Bytes} :
    (d.mapError f).run input = .ok p ↔ d.run input = .ok p := by
  show (d.run input).mapError f = .ok p ↔ _
  cases d.run input with
  | error e =>
    show Except.error (f e) = Except.ok p ↔ _
    simp
  | ok q =>
    show Except.ok q = Except.ok p ↔ _
    simp

theorem all_eq_ok_iff {leftover : Nat → ε} {d : Decoder ε α} {input : Bytes} {value : α} :
    d.all leftover input = .ok value ↔ d.run input = .ok (value, []) := by
  cases h : d.run input with
  | error e => simp [all, h, bind, Except.bind]
  | ok p =>
    obtain ⟨found, rest⟩ := p
    cases rest with
    | nil => simp [all, h, bind, Except.bind, pure, Except.pure]
    | cons x rest => simp [all, h, bind, Except.bind, throw, throwThe, MonadExceptOf.throw]

end Decoder

class Wire (α : Type) where
  encode : α → Bytes
  /-- How many bytes the wire form has, without writing it. -/
  encodedLength : α → Nat
  decode : Decoder DecodeError α

export Wire (encode)

namespace Wire

/-- A number read from `width` bytes, most significant first. -/
def decodeNat (width : Nat) : Decoder DecodeError Nat := do
  return Bytes.toNat (← Decoder.take width)

instance : Wire UInt8 where
  encode w := Bytes.ofNat 1 w.toNat
  encodedLength _ := 1
  decode := return UInt8.ofNat (← decodeNat 1)

instance : Wire UInt16 where
  encode w := Bytes.ofNat 2 w.toNat
  encodedLength _ := 2
  decode := return UInt16.ofNat (← decodeNat 2)

instance : Wire UInt32 where
  encode w := Bytes.ofNat 4 w.toNat
  encodedLength _ := 4
  decode := return UInt32.ofNat (← decodeNat 4)

instance : Wire UInt64 where
  encode w := Bytes.ofNat 8 w.toNat
  encodedLength _ := 8
  decode := return UInt64.ofNat (← decodeNat 8)

theorem decodeNat_eq_ok_iff {width n : Nat} {input rest : Bytes} :
    (decodeNat width).run input = .ok (n, rest) ↔
      input = Bytes.ofNat width n ++ rest ∧ n < Nat.pow 256 width := by
  simp only [decodeNat, Decoder.bind_eq_ok_iff, Decoder.take_eq_ok_iff, Decoder.pure_eq_ok_iff]
  constructor
  · rintro ⟨head, _, ⟨rfl, rfl⟩, rfl, rfl⟩
    rw [Bytes.ofNat_length_toNat]
    exact ⟨rfl, Bytes.toNat_lt head⟩
  · rintro ⟨rfl, h⟩
    exact ⟨Bytes.ofNat width n, rest, ⟨rfl, Bytes.length_ofNat width n⟩,
      by rw [Bytes.toNat_ofNat, Nat.mod_eq_of_lt h], rfl⟩

theorem decodeWord_eq_ok_iff {α : Type} (width : Nat) {toNat : α → Nat} {ofNat : Nat → α}
    (toNat_ofNat : ∀ n < Nat.pow 256 width, toNat (ofNat n) = n)
    (ofNat_toNat : ∀ w, ofNat (toNat w) = w) (toNat_lt : ∀ w, toNat w < Nat.pow 256 width)
    {input rest : Bytes} {w : α} :
    (return ofNat (← decodeNat width) : Decoder DecodeError α).run input = .ok (w, rest) ↔
      input = Bytes.ofNat width (toNat w) ++ rest := by
  simp only [Decoder.bind_eq_ok_iff, decodeNat_eq_ok_iff, Decoder.pure_eq_ok_iff]
  constructor
  · rintro ⟨n, _, ⟨rfl, hn⟩, rfl, rfl⟩
    rw [toNat_ofNat n hn]
  · rintro rfl
    exact ⟨toNat w, rest, ⟨rfl, toNat_lt w⟩, ofNat_toNat w, rfl⟩

end Wire

/-- Every value can be read back from its wire form, and from no other bytes. -/
class LawfulWire (α : Type) [Wire α] : Prop where
  length_encode (value : α) : (Wire.encode value).length = Wire.encodedLength value
  decode_eq_ok_iff {input rest : Bytes} {value : α} :
    Wire.decode.run input = .ok (value, rest) ↔ input = Wire.encode value ++ rest

instance : LawfulWire UInt8 where
  length_encode w := Bytes.length_ofNat 1 w.toNat
  decode_eq_ok_iff := Wire.decodeWord_eq_ok_iff 1 (fun _ h => UInt8.toNat_ofNat_of_lt' h)
    (fun _ => UInt8.ofNat_toNat) UInt8.toNat_lt

instance : LawfulWire UInt16 where
  length_encode w := Bytes.length_ofNat 2 w.toNat
  decode_eq_ok_iff := Wire.decodeWord_eq_ok_iff 2 (fun _ h => UInt16.toNat_ofNat_of_lt' h)
    (fun _ => UInt16.ofNat_toNat) UInt16.toNat_lt

instance : LawfulWire UInt32 where
  length_encode w := Bytes.length_ofNat 4 w.toNat
  decode_eq_ok_iff := Wire.decodeWord_eq_ok_iff 4 (fun _ h => UInt32.toNat_ofNat_of_lt' h)
    (fun _ => UInt32.ofNat_toNat) UInt32.toNat_lt

instance : LawfulWire UInt64 where
  length_encode w := Bytes.length_ofNat 8 w.toNat
  decode_eq_ok_iff := Wire.decodeWord_eq_ok_iff 8 (fun _ h => UInt64.toNat_ofNat_of_lt' h)
    (fun _ => UInt64.ofNat_toNat) UInt64.toNat_lt

end Grove
