import Grove.Text.Split
import Grove.Twig.Basic

/-! # Encoded twigs

Keys and values alternate with zero bytes between them, in the order of the keys. The version of a
key is the number behind its last slash, so a name may hold slashes. A twig without entries is the
empty byte string.
-/

namespace Grove.Twig

/-- The parts of the encoded form: each key followed by its value. -/
def parts (t : Twig) : List Bytes :=
  t.entries.flatMap fun (k, v) => [Utf8.encode k.text, v]

def encode (t : Twig) : Bytes :=
  [0].intercalate t.parts

def Key.ofBytes (raw : Bytes) : Except TwigError Key :=
  match Utf8.decode? raw with
  | none => .error (.invalidKey (Utf8.repair raw))
  | some text =>
    match Text.splitLast? '/' text.toList with
    | none => .error (.missingVersion text)
    | some (name, digits) =>
      if name = [] then .error .emptyName
      else
        match Decimal.read? digits with
        | none => .error (.invalidVersion text)
        | some version =>
          if version < UInt64.size then .ok ⟨String.ofList name, UInt64.ofNat version⟩
          else .error (.invalidVersion text)

def insertParts (t : Twig) : List Bytes → Except TwigError Twig
  | [] => .ok t
  | [key] => do throw (.missingValue (← Key.ofBytes key))
  | key :: value :: parts => do
    let key ← Key.ofBytes key
    if t.contains key then throw (.duplicateKey key)
    insertParts (t.insert key value) parts

def decode (b : Bytes) : Except TwigError Twig :=
  if b = [] then .ok empty else empty.insertParts (Text.splitAll 0 b)

end Grove.Twig
