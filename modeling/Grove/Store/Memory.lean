import Grove.Store.Search

/-! # Memory stores

Nodes are kept in the order in which they were added, beside two indexes: the links from parents to
children, and a timeline with the latest created node first. All three change together.
-/

namespace Grove

structure Stamp where
  kind : NodeKind
  created : UInt64
  id : Hash
  deriving DecidableEq, Repr

structure Memory where
  /-- In the order of insertion. -/
  nodes : List Node
  /-- Pairs of parent and child, in the order in which the children were added. -/
  links : List (Hash × Hash)
  /-- The latest first, and the earlier added first among equals. -/
  timeline : List Stamp
  deriving DecidableEq, Repr

namespace Memory

def empty : Memory :=
  ⟨[], [], []⟩

def get? (m : Memory) (id : Hash) : Option Node :=
  m.nodes.find? fun n => n.id = id

def contains (m : Memory) (id : Hash) : Bool :=
  (m.get? id).isSome

def children (m : Memory) (parent : Hash) : List Hash :=
  m.links.filterMap fun (p, c) => if p = parent then some c else none

def recent (m : Memory) (kind : NodeKind) (count : Nat) : List Node :=
  ((m.timeline.filter fun s => s.kind = kind).filterMap fun s => m.get? s.id).take count

/-- Puts a stamp behind all that are not earlier. -/
def insertStamp (s : Stamp) : List Stamp → List Stamp
  | [] => [s]
  | t :: stamps => if t.created < s.created then s :: t :: stamps else t :: insertStamp s stamps

/-- Adds a node whose identifier is absent. -/
def insert (m : Memory) (n : Node) : Memory :=
  { nodes := m.nodes ++ [n]
    links := if n.parent.isNull then m.links else m.links ++ [(n.parent, n.id)]
    timeline := insertStamp ⟨n.kind, n.created, n.id⟩ m.timeline }

def add (m : Memory) (n : Node) : Memory :=
  if m.contains n.id then m else m.insert n

def ofList (nodes : List Node) : Memory :=
  nodes.foldl add empty

/-- Removes a single node, with the links from it and to it. -/
def remove (m : Memory) (id : Hash) : Memory :=
  let below := m.links.filter fun link => link.1 ≠ id
  match m.get? id with
  | none => { m with links := below }
  | some n =>
    { nodes := m.nodes.filter fun k => k.id ≠ id
      links := below.filter fun link => link ≠ (n.parent, id)
      timeline := m.timeline.filter fun s => s.id ≠ id }

/-- The node and all below it, upper rows first; nothing if the links run in a circle. -/
def subtree? (m : Memory) (id : Hash) : Option (List Hash) :=
  Id.run (rowsBelow (fun p => pure (m.children p)) (m.nodes.length + 1) [id])

def removeSubtree (m : Memory) (id : Hash) : Except StoreError Memory :=
  if m.contains id then
    match m.subtree? id with
    | some ids => .ok (ids.reverse.foldl remove m)
    | none => .error (.endless id)
  else .error (.notFound id)

theorem get?_insert (m : Memory) (n : Node) (id : Hash) :
    (m.insert n).get? id = (m.get? id).or (if n.id = id then some n else none) := by
  by_cases h : n.id = id <;> simp [get?, insert, h]

theorem get?_add (m : Memory) (n : Node) (id : Hash) :
    (m.add n).get? id = (m.get? id).or (if n.id = id then some n else none) := by
  rw [add]
  split
  · next hc =>
    by_cases h : n.id = id
    · subst h
      obtain ⟨found, hf⟩ := Option.isSome_iff_exists.1 hc
      simp [hf]
    · simp [h]
  · exact get?_insert m n id

theorem mem_children {m : Memory} {p c : Hash} : c ∈ m.children p ↔ (p, c) ∈ m.links := by
  simp [children]

theorem children_insert (m : Memory) (n : Node) (p : Hash) :
    (m.insert n).children p =
      m.children p ++ if n.parent = p ∧ ¬p.isNull then [n.id] else [] := by
  by_cases hn : n.parent.isNull <;> by_cases h : n.parent = p <;> simp_all [children, insert]

variable {ω : Type}

def update (f : Memory → Except StoreError Memory) : Action (Memory × ω) Unit :=
  (Action.change f).on Prod.fst fun m t => (m, t.2)

def store : Store ω Memory where
  get id := .read fun t => t.1.get? id
  children id := .read fun t => t.1.children id
  recent kind count := .read fun t => t.1.recent kind count
  add n := update fun m => .ok (m.add n)
  removeSubtree id := update fun m => m.removeSubtree id
  nodes := .read fun t => t.1.nodes
  reach t := t.1.nodes.length + t.1.links.length

end Memory

end Grove
