import Grove.Tree.Trace

/-! # Kinship

The ancestors of a node, all that hangs below it, and what of that has nothing below it in turn.
-/

namespace Grove

namespace Ground

variable {σ ε : Type}

def descendants (ground : Ground σ) (id : Hash) : ExceptT (WalkError ε) (StateM σ) (List Hash) :=
  Trace.notes <| Walk.run (Trace.ground ground) id fun visited => do
    if visited ≠ id then Trace.note visited

/-- The descendants of a node that have no children. -/
def leaves (ground : Ground σ) (id : Hash) : ExceptT (WalkError ε) (StateM σ) (List Hash) :=
  Trace.notes <| ExceptT.adapt Walk.flatten <|
    Walk.run (Trace.ground ground) id fun visited => do
      if visited ≠ id then
        if (← Walk.atNode visited (Trace.beside (ground.children visited))).isEmpty then
          Trace.note visited

end Ground

variable {σ : Type}

/-- The stored nodes above, nearest first, at most `bound` of them. -/
def climb (get : Hash → Action σ (Option Node)) : (bound : Nat) → Hash → Action σ (List Hash)
  | 0, next => if next.isNull then pure [] else throw (.endless next)
  | bound + 1, next => do
    if next.isNull then return []
    match ← get next with
    | some n => return next :: (← climb get bound n.parent)
    | none => return []

/--
The ancestors of a node, nearest first, as far as they are stored. A node that is not stored has
none.
-/
def ancestry (get : Hash → Action σ (Option Node)) (bound : Nat) (id : Hash) :
    Action σ (List Hash) := do
  match ← get id with
  | some n => climb get bound n.parent
  | none => return []

namespace Store

variable {ω : Type} (s : Store ω σ)

def ground (state : σ × ω) : Ground (σ × ω) :=
  ⟨s.children, s.reach state⟩

def ancestry (id : Hash) : Action (σ × ω) (List Hash) := do
  Grove.ancestry s.get (s.reach (← MonadState.get) + 1) id

def descendants {ε : Type} (id : Hash) : ExceptT (WalkError ε) (StateM (σ × ω)) (List Hash) := do
  (s.ground (← MonadState.get)).descendants id

def leaves {ε : Type} (id : Hash) : ExceptT (WalkError ε) (StateM (σ × ω)) (List Hash) := do
  (s.ground (← MonadState.get)).leaves id

end Store

end Grove
