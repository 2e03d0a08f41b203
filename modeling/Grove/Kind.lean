import Grove.Bytes.Basic

/-! # Kinds

Every typed value names its kind by one byte. Kinds live in five namespaces, so the same byte may
stand for different kinds in different places. A kind may fix the length of what it describes.
-/

namespace Grove

inductive Namespace where
  | hash
  | content
  | key
  | signature
  | node
  deriving DecidableEq, Repr

def Namespace.name : Namespace → String
  | .hash => "hash"
  | .content => "content"
  | .key => "key"
  | .signature => "signature"
  | .node => "node"

def Namespace.all : List Namespace :=
  [.hash, .content, .key, .signature, .node]

def Namespace.ofName? (s : String) : Option Namespace :=
  all.find? fun n => n.name = s

inductive Kind : Namespace → Type where
  | null : Kind .hash
  | sha512_256 : Kind .hash
  | utf8 : Kind .content
  | twig : Kind .content
  | noKey : Kind .key
  | ed25519Key : Kind .key
  | ed25519 : Kind .signature
  | identity : Kind .node
  | community : Kind .node
  | conversation : Kind .node
  | reply : Kind .node
  deriving DecidableEq, Repr

abbrev HashKind := Kind .hash
abbrev NodeKind := Kind .node

namespace Kind

variable {n : Namespace}

/-- The byte that stands for a kind inside its namespace. -/
def tag : Kind n → UInt8
  | null => 0
  | sha512_256 => 1
  | utf8 => 1
  | twig => 2
  | noKey => 0
  | ed25519Key => 1
  | ed25519 => 1
  | identity => 1
  | community => 2
  | conversation => 3
  | reply => 4

def label : Kind n → String
  | null => "NULL"
  | sha512_256 => "SHA512_256"
  | utf8 => "UTF8"
  | twig => "TWIG"
  | noKey => "NOKEY"
  | ed25519Key => "ED25519"
  | ed25519 => "ED25519"
  | identity => "IDENTITY"
  | community => "COMMUNITY"
  | conversation => "CONVERSATION"
  | reply => "REPLY"

/-- The length that a kind demands of every payload, if it demands one. -/
def fixedLength : Kind n → Option UInt16
  | null => some 0
  | sha512_256 => some 32
  | noKey => some 0
  | ed25519Key => some 32
  | ed25519 => some 64
  | _ => none

def all : (n : Namespace) → List (Kind n)
  | .hash => [null, sha512_256]
  | .content => [utf8, twig]
  | .key => [noKey, ed25519Key]
  | .signature => [ed25519]
  | .node => [identity, community, conversation, reply]

def ofTag? (n : Namespace) (t : UInt8) : Option (Kind n) :=
  (all n).find? fun k => k.tag = t

def ofLabel? (n : Namespace) (s : String) : Option (Kind n) :=
  (all n).find? fun k => k.label = s

@[simp] theorem ofTag?_tag (k : Kind n) : ofTag? n k.tag = some k := by
  cases k <;> rfl

theorem tag_of_ofTag? {t : UInt8} {k : Kind n} (h : ofTag? n t = some k) : k.tag = t := by
  simpa using List.find?_some h

@[simp] theorem ofLabel?_label (k : Kind n) : ofLabel? n k.label = some k := by
  cases k <;> rfl

theorem label_of_ofLabel? {s : String} {k : Kind n} (h : ofLabel? n s = some k) :
    k.label = s := by
  simpa using List.find?_some h

end Kind

end Grove
