import Grove.Text.Decimal
import Grove.Text.Quoted
import Grove.Text.Utf8

/-! # Twigs

A twig is a table of byte strings under versioned names, kept in ascending order of name and then
version. Names are nonempty, and neither names nor values hold a zero byte, which separates them in
the encoded form.
-/

namespace Grove

structure Twig.Key where
  name : String
  version : UInt64
  deriving DecidableEq, Repr

namespace Twig.Key

def text (k : Key) : String :=
  s!"{k.name}/{Decimal.text k.version.toNat}"

/-- Before `l` by name, or by version under one name. -/
def before (k l : Key) : Bool :=
  k.name < l.name || (k.name = l.name && k.version < l.version)

end Twig.Key

/-- A twig's entries in ascending order of their keys. -/
structure Twig where
  entries : List (Twig.Key × Bytes)
  deriving DecidableEq, Repr

inductive TwigError where
  | missingValue (key : Twig.Key)
  | missingVersion (key : String)
  | emptyName
  | invalidVersion (key : String)
  /-- The key is no UTF-8; its repaired text is given. -/
  | invalidKey (repaired : String)
  | duplicateKey (key : Twig.Key)
  | nulInKey
  | nulInValue
  deriving DecidableEq, Repr

def TwigError.message : TwigError → String
  | missingValue key => s!"key {Text.quote key.text} has no value"
  | missingVersion key => s!"key {Text.quote key} has no version delimiter"
  | emptyName => "key name must be non-empty"
  | invalidVersion key => s!"invalid version in key {Text.quote key}"
  | invalidKey repaired => s!"key {Text.quote repaired} is not valid UTF-8"
  | duplicateKey key => s!"duplicate key {key.text}"
  | nulInKey => "NUL byte in key"
  | nulInValue => "NUL byte in value"

namespace Twig

def empty : Twig :=
  ⟨[]⟩

def length (t : Twig) : Nat :=
  t.entries.length

def get? (t : Twig) (k : Key) : Option Bytes :=
  t.entries.lookup k

def contains (t : Twig) (k : Key) : Bool :=
  (t.get? k).isSome

/-- Adds an entry in its place, or replaces the value of an entry with the same key. -/
def insertEntry (k : Key) (v : Bytes) : List (Key × Bytes) → List (Key × Bytes)
  | [] => [(k, v)]
  | (l, w) :: entries =>
    if k = l then (k, v) :: entries
    else if k.before l then (k, v) :: (l, w) :: entries
    else (l, w) :: insertEntry k v entries

def insert (t : Twig) (k : Key) (v : Bytes) : Twig :=
  ⟨insertEntry k v t.entries⟩

def set (t : Twig) (name : String) (version : UInt64) (value : Bytes) : Except TwigError Twig :=
  if name = "" then .error .emptyName
  else if 0 ∈ Utf8.encode name then .error .nulInKey
  else if 0 ∈ value then .error .nulInValue
  else .ok (t.insert ⟨name, version⟩ value)

theorem lookup_insertEntry (k l : Key) (v : Bytes) (entries : List (Key × Bytes)) :
    (insertEntry k v entries).lookup l = if l = k then some v else entries.lookup l := by
  induction entries with
  | nil =>
    by_cases h : l = k
    · simp [insertEntry, h]
    · simp [insertEntry, List.lookup_cons, beq_false_of_ne h, h]
  | cons entry entries ih =>
    obtain ⟨m, w⟩ := entry
    simp only [insertEntry]
    split
    · next hk =>
      subst hk
      by_cases h : l = k
      · simp [h]
      · simp [List.lookup_cons, beq_false_of_ne h, h]
    · next hk =>
      split
      · by_cases h : l = k
        · simp [h]
        · simp [List.lookup_cons, beq_false_of_ne h, h]
      · by_cases h : l = m
        · subst h
          simp [Ne.symm hk]
        · simp [List.lookup_cons, beq_false_of_ne h, ih]

theorem get?_insert (t : Twig) (k l : Key) (v : Bytes) :
    (t.insert k v).get? l = if l = k then some v else t.get? l :=
  lookup_insertEntry k l v t.entries

end Twig

end Grove
