import Grove.Bytes.Basic
import Grove.Text.Split

/-! # Disks

A disk holds files and directories in places below its root. A path says how to get to a place, and
is kept as it was written, since messages show it that way. It may pass through a directory by an
empty name or a dot, and go up by two dots, but only through directories that are there.
-/

namespace Grove

structure Path where
  /-- Whether the way begins at the root, and not at the home of the disk. -/
  absolute : Bool
  names : List String
  deriving DecidableEq, Repr

namespace Path

def ofText (s : String) : Path :=
  match (Text.splitAll '/' s.toList).map String.ofList with
  | "" :: name :: names => ⟨true, name :: names⟩
  | names => ⟨false, names⟩

def text (p : Path) : String :=
  String.intercalate "/" (if p.absolute then "" :: p.names else p.names)

/-- The path that goes on with another one, unless that begins at the root itself. -/
def join (p q : Path) : Path :=
  if q.absolute then q
  else
    let names := if p.names.getLast? = some "" then p.names.dropLast else p.names
    { p with names := names ++ q.names }

def child (p : Path) (name : String) : Path :=
  p.join ⟨false, [name]⟩

def trim (p : Path) : Path :=
  { p with names := (p.names.reverse.dropWhile (· = "")).reverse }

/-- The paths to the directories above, the lowest first. -/
def above (p : Path) : List Path :=
  let names := p.names.filter fun name => name ≠ "" ∧ name ≠ "."
  (List.range names.length).reverse.map fun n => { p with names := names.take n }

end Path

/-- The names on the way from the root down to an entry. -/
abbrev Place := List String

inductive Entry where
  | file (content : Bytes)
  | directory
  deriving DecidableEq, Repr

structure Disk where
  /-- The place where paths begin that do not begin at the root. -/
  home : Place
  /-- How messages write the home. -/
  label : String
  entries : List (Place × Entry)
  /-- Files that cannot be removed. -/
  locked : List Place
  deriving DecidableEq, Repr

namespace Disk

inductive Refusal where
  | missing
  | other
  deriving DecidableEq, Repr

/-- A disk with nothing but the directories on the way home. -/
def empty (label : String) (home : Place) : Disk :=
  ⟨home, label, (List.range (home.length + 1)).map fun n => (home.take n, .directory), []⟩

def display (d : Disk) (p : Path) : String :=
  if p.absolute then p.text else d.label ++ "/" ++ p.text

def lookup? (d : Disk) (q : Place) : Option Entry :=
  d.entries.lookup q

def longestPath : Nat :=
  4095

def longestName : Nat :=
  255

/-- Whether a path can be followed at all: it is not too long, and holds no zero. -/
def admits (d : Disk) (p : Path) : Bool :=
  let s := (Path.join ⟨true, d.home⟩ p).text
  s.utf8ByteSize ≤ longestPath && !s.toList.contains '\x00'

def step (d : Disk) (here : Place) (name : String) : Except Refusal Place :=
  match d.lookup? here with
  | none => .error .missing
  | some (.file _) => .error .other
  | some .directory =>
    if name = "" ∨ name = "." then .ok here
    else if name = ".." then .ok here.dropLast
    else if name.utf8ByteSize ≤ longestName then .ok (here ++ [name])
    else .error .other

/-- The place a path leads to, whether or not something is there. -/
def locate (d : Disk) (p : Path) : Except Refusal Place :=
  if d.admits p then p.names.foldlM d.step (if p.absolute then [] else d.home)
  else .error .other

def entry (d : Disk) (p : Path) : Except Refusal Entry := do
  match d.lookup? (← d.locate p) with
  | some e => .ok e
  | none => .error .missing

def exists? (d : Disk) (p : Path) : Bool :=
  (d.entry p).isOk

def isDirectory (d : Disk) (p : Path) : Bool :=
  match d.entry p with
  | .ok .directory => true
  | _ => false

def read (d : Disk) (p : Path) : Except Refusal Bytes := do
  match ← d.entry p with
  | .file content => .ok content
  | .directory => .error .other

def list (d : Disk) (p : Path) : Except Refusal (List (String × Entry)) := do
  let q ← d.locate p
  match ← d.entry p with
  | .directory =>
    .ok (d.entries.filterMap fun (r, e) =>
      match r.getLast? with
      | some name => if r.dropLast = q then some (name, e) else none
      | none => none)
  | .file _ => .error .other

def put (d : Disk) (q : Place) (e : Entry) : Disk :=
  { d with entries := d.entries.filter (fun x => x.1 ≠ q) ++ [(q, e)] }

def makeDirectory (d : Disk) (p : Path) : Except Refusal Disk := do
  unless d.admits p do throw .other
  let q ← d.locate p.trim
  if (d.lookup? q).isSome then .error .other else .ok (d.put q .directory)

/-- Makes the first of the directories, and for that the others first if they are missing; whether
it is there in the end, and what has been made. -/
def makeFirst (d : Disk) : List Path → Bool × Disk
  | [] => (true, d)
  | p :: above =>
    match d.makeDirectory p with
    | .ok d => (true, d)
    | .error .other => (d.isDirectory p, d)
    | .error .missing =>
      match d.makeFirst above with
      | (false, d) => (false, d)
      | (true, d) =>
        match d.makeDirectory p with
        | .ok d => (true, d)
        | .error _ => (d.isDirectory p, d)

def makeDirectories (d : Disk) (p : Path) : Bool × Disk :=
  d.makeFirst (p :: p.above)

/-- Writes a file into a directory that is there, over a file of the same name. -/
def write (d : Disk) (p : Path) (content : Bytes) : Except Refusal Disk := do
  let q ← d.locate p
  if d.lookup? q = some .directory then .error .other else .ok (d.put q (.file content))

def removeFile (d : Disk) (p : Path) : Except Refusal Disk := do
  let q ← d.locate p
  match d.lookup? q with
  | none => .error .missing
  | some .directory => .error .other
  | some (.file _) =>
    if q ∈ d.locked then .error .other
    else .ok { d with entries := d.entries.filter fun x => x.1 ≠ q }

/-- Removes a directory and what is below it, if it is there. A directory that is not called by its
name is only emptied. -/
def removeTree (d : Disk) (p : Path) : Disk :=
  match d.locate p with
  | .ok q =>
    let stays := p.trim.names.getLast?.any fun name => name = "." ∨ name = ".."
    if d.lookup? q = some .directory then
      { d with entries := d.entries.filter fun x => !q.isPrefixOf x.1 || (stays && x.1 = q) }
    else d
  | .error _ => d

theorem eq_of_step_empty {d : Disk} {here q : Place} (h : d.step here "" = .ok q) : here = q := by
  rw [step] at h
  split at h <;> simp_all

theorem locate_child {d : Disk} {p : Path} {q : Place} {name : String}
    (hp : d.locate p = .ok q) (hadmits : d.admits (p.child name) = true) :
    d.locate (p.child name) = d.step q name := by
  obtain ⟨absolute, names⟩ := p
  rw [locate] at hp ⊢
  rw [if_pos hadmits]
  generalize hstart : (if absolute then [] else d.home) = start at hp
  have hwhole : names.foldlM d.step start = .ok q := by
    split at hp
    · exact hp
    · simp at hp
  have hinit : (if names.getLast? = some "" then names.dropLast else names).foldlM d.step start =
      .ok q := by
    by_cases hlast : names.getLast? = some ""
    · obtain ⟨init, rfl⟩ := List.getLast?_eq_some_iff.1 hlast
      rw [if_pos hlast, List.dropLast_concat]
      rw [List.foldlM_append] at hwhole
      cases hrest : init.foldlM d.step start with
      | error e => simp [hrest, bind, Except.bind] at hwhole
      | ok here =>
        cases hstep : d.step here "" with
        | error e => simp [hrest, hstep, bind, Except.bind] at hwhole
        | ok there =>
          obtain rfl := eq_of_step_empty hstep
          simpa [hrest, hstep, bind, Except.bind, pure, Except.pure] using hwhole
    · rw [if_neg hlast, hwhole]
  change List.foldlM d.step (if absolute then [] else d.home) (_ ++ [name]) = _
  rw [hstart, List.foldlM_append, hinit]
  exact bind_pure (d.step q name)

theorem lookup?_put (d : Disk) (q : Place) (e : Entry) (r : Place) :
    (d.put q e).lookup? r = if r = q then some e else d.lookup? r := by
  simp only [lookup?, put]
  induction d.entries with
  | nil =>
    by_cases hr : r = q
    · simp [hr]
    · simp [List.lookup_cons, beq_false_of_ne hr, hr]
  | cons x entries ih =>
    obtain ⟨s, f⟩ := x
    by_cases hs : s = q
    · subst hs
      rw [List.filter_cons_of_neg (by simp), ih]
      by_cases hr : r = s
      · simp [hr]
      · simp [List.lookup_cons, beq_false_of_ne hr, hr]
    · rw [List.filter_cons_of_pos (by simpa using hs), List.cons_append, List.lookup_cons, ih,
        List.lookup_cons]
      by_cases hr : r = s
      · subst hr
        simp [hs]
      · simp [beq_false_of_ne hr]

end Disk

end Grove
