import Grove.Store.Search

/-! # Two tiers

A fast store in front of a slow one. All that is in front is behind too: opening copies the front to
the back, and adding writes the back first. A node found only behind is put in front on the way.
-/

namespace Grove

namespace Action

variable {ω κ β α : Type}

def front (a : Action (κ × ω) α) : Action ((κ × β) × ω) α :=
  a.on (fun s => (s.1.1, s.2)) fun t s => ((t.1, s.1.2), t.2)

def back (a : Action (β × ω) α) : Action ((κ × β) × ω) α :=
  a.on (fun s => (s.1.2, s.2)) fun t s => ((s.1.1, t.1), t.2)

/-- An action whose complaint that something is not there is passed over. -/
def unlessNotFound {σ : Type} (a : Action σ Unit) : Action σ Unit :=
  tryCatch a fun
    | .notFound _ => pure ()
    | e => throw e

end Action

variable {ω κ β : Type}

/-- Adds all nodes of the store to the target beside it. -/
def Store.copyInto (source : Store ω κ) (target : Store ω β) : Action ((κ × β) × ω) Unit := do
  let nodes ← source.nodes.front
  (target.addAll nodes).back

namespace Cache

variable (front : Store ω κ) (back : Store ω β)

def get (id : Hash) : Action ((κ × β) × ω) (Option Node) := do
  if let some n ← (front.get id).front then return some n
  let some n ← (back.get id).back | return none
  (front.add n).front
  return some n

def add (n : Node) : Action ((κ × β) × ω) Unit := do
  (back.add n).back
  (front.add n).front

/-- Removes the subtree behind, then all of it that is in front. -/
def removeSubtree (id : Hash) : Action ((κ × β) × ω) Unit := do
  let bound := back.reach ((← MonadState.get).1.2, (← MonadState.get).2)
  let ids ← (subtree back.children (bound + 1) id).back
  (back.removeSubtree id).back
  ids.reverse.forM fun id => (front.removeSubtree id).front.unlessNotFound

def store : Store ω (κ × β) where
  get := get front back
  children id := (back.children id).back
  recent kind count := (back.recent kind count).back
  add := add front back
  removeSubtree := removeSubtree front back
  nodes := back.nodes.back
  reach s := front.reach (s.1.1, s.2) + back.reach (s.1.2, s.2)

/-- Copies all that is in front to the back. -/
def opening : Action ((κ × β) × ω) Unit :=
  front.copyInto back

end Cache

end Grove
