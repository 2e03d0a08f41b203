import Grove.Bytes.Hex
import Grove.Qualified.Basic
import Grove.Text.Decimal
import Grove.Text.Quoted
import Grove.Text.Split

/-! # Text form of qualified values

A qualified value is written `LABEL_length__hex`. Reading takes the length with a plus sign or
leading zeros and hexadecimal digits of either case; all else has to be as written.
-/

namespace Grove.Qualified

variable {n : Namespace}

def text (q : Qualified n) : String :=
  s!"{q.descriptor.text}__{Hex.text q.payload}"

instance : ToString (Qualified n) where
  toString := text

def ofText? (n : Namespace) (s : String) : Option (Qualified n) := do
  let (head, hex) ← Text.splitFirstPair? '_' '_' s.toList
  let (label, length) ← Text.splitLast? '_' head
  let kind ← Kind.ofLabel? n (String.ofList label)
  let length ← Decimal.readSigned? length
  let payload ← Hex.decode? hex
  if payload.length = length then (new kind payload).toOption else none

def invalidTextMessage (s : String) : String :=
  s!"invalid qualified text {Text.quote s}"

end Grove.Qualified
