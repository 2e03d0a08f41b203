import Grove.Store.Basic

/-! # Searching below a node

All nodes below a node, row by row: first the node, then its children, then theirs. The number of
rows is bounded, since links may run in a circle.
-/

namespace Grove

variable {m : Type → Type} [Monad m]

/-- The row and all rows below it, or nothing if there are more than `bound` rows. -/
def rowsBelow (children : Hash → m (List Hash)) : (bound : Nat) → List Hash → m (Option (List Hash))
  | _, [] => pure (some [])
  | 0, _ :: _ => pure none
  | bound + 1, row => do
    let next ← row.mapM children
    let below ← rowsBelow children bound next.flatten
    return below.map (row ++ ·)

def subtree {σ : Type} (children : Hash → Action σ (List Hash)) (bound : Nat) (id : Hash) :
    Action σ (List Hash) := do
  match ← rowsBelow children bound [id] with
  | some ids => return ids
  | none => throw (.endless id)

end Grove
