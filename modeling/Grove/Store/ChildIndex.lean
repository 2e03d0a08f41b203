import Grove.Qualified.Basic

/-! # Child index

The known children of each parent. A parent may be known to have no children, which is not the same
as never having been looked at.
-/

namespace Grove

structure ChildIndex where
  /-- The parents that are known. -/
  known : List Hash
  /-- Pairs of a known parent and one of its children, without repeats. -/
  links : List (Hash × Hash)
  deriving DecidableEq, Repr

namespace ChildIndex

def empty : ChildIndex :=
  ⟨[], []⟩

def isKnown (x : ChildIndex) (parent : Hash) : Bool :=
  x.known.contains parent

def children (x : ChildIndex) (parent : Hash) : List Hash :=
  x.links.filterMap fun (p, c) => if p = parent then some c else none

/-- The known children of a parent, and whether the parent is known at all. -/
def get (x : ChildIndex) (parent : Hash) : List Hash × Bool :=
  (x.children parent, x.isKnown parent)

/-- Makes the parent known, with these children besides those that it has. -/
def add (x : ChildIndex) (parent : Hash) (children : List Hash) : ChildIndex :=
  { known := x.known.insert parent
    links := children.foldl (fun links c => links.insert (parent, c)) x.links }

def removeChild (x : ChildIndex) (parent child : Hash) : ChildIndex :=
  { x with links := x.links.filter (· ≠ (parent, child)) }

def removeParent (x : ChildIndex) (parent : Hash) : ChildIndex :=
  { known := x.known.filter (· ≠ parent)
    links := x.links.filter fun link => link.1 ≠ parent }

theorem mem_children {x : ChildIndex} {p c : Hash} : c ∈ x.children p ↔ (p, c) ∈ x.links := by
  simp [children]

theorem mem_children_add {x : ChildIndex} {p q c : Hash} {cs : List Hash} :
    c ∈ (x.add p cs).children q ↔ c ∈ x.children q ∨ q = p ∧ c ∈ cs := by
  have hfold (links : List (Hash × Hash)) :
      (q, c) ∈ cs.foldl (fun links c => links.insert (p, c)) links ↔
        (q, c) ∈ links ∨ q = p ∧ c ∈ cs := by
    induction cs generalizing links with
    | nil => simp
    | cons d cs ih =>
      rw [List.foldl_cons, ih, List.mem_insert_iff, Prod.mk.injEq, List.mem_cons]
      grind
  rw [mem_children, mem_children]
  exact hfold x.links

theorem mem_children_removeChild {x : ChildIndex} {p q c d : Hash} :
    c ∈ (x.removeChild p d).children q ↔ c ∈ x.children q ∧ ¬(q = p ∧ c = d) := by
  simp only [mem_children, removeChild, List.mem_filter, decide_eq_true_eq, ne_eq, Prod.mk.injEq]

theorem mem_children_removeParent {x : ChildIndex} {p q c : Hash} :
    c ∈ (x.removeParent p).children q ↔ c ∈ x.children q ∧ q ≠ p := by
  simp [mem_children, removeParent]

theorem isKnown_add {x : ChildIndex} {p q : Hash} {cs : List Hash} :
    (x.add p cs).isKnown q ↔ q = p ∨ x.isKnown q := by
  simp [isKnown, add]

@[simp] theorem isKnown_removeChild {x : ChildIndex} {p q d : Hash} :
    (x.removeChild p d).isKnown q = x.isKnown q := rfl

theorem isKnown_removeParent {x : ChildIndex} {p q : Hash} :
    (x.removeParent p).isKnown q ↔ x.isKnown q ∧ q ≠ p := by
  simp [isKnown, removeParent]

end ChildIndex

end Grove
