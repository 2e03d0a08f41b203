import Grove.Store.Basic

/-! # Breadth-first walks

A walk visits a root and all that can be reached from it, nearer nodes first and each node once. The
visitor sees a node before its children are looked up, and its failure ends the walk.
-/

namespace Grove

/-- Why a walk ended early, with the node that it had come to. -/
inductive WalkError (ε : Type) where
  | missingStore
  | missingRoot
  | missingVisitor
  | visitor (id : Hash) (cause : ε)
  | store (id : Hash) (cause : StoreError)
  | unresolved (id : Hash)
  deriving DecidableEq, Repr

def WalkError.message {ε : Type} [ToString ε] : WalkError ε → String
  | missingStore => "walk requires a store"
  | missingRoot => "walk requires a non-null root"
  | missingVisitor => "walk requires a visitor"
  | visitor id cause => s!"visitor stopped at {id}: {cause}"
  | store id cause => s!"store failed at {id}: {cause.message}"
  | unresolved id => s!"walked to {id} but it is not stored"

abbrev Visitor (σ ε α : Type) := α → ExceptT ε (StateM σ) Unit

/-- Where to walk: the children of nodes, and how many different nodes there can be. -/
structure Ground (σ : Type) where
  children : Hash → Action σ (List Hash)
  reach : Nat

namespace Walk

variable {σ ε : Type}

def unseen (seen ids : List Hash) : List Hash :=
  (ids.filter (· ∉ seen)).eraseDups

def atNode {α : Type} (id : Hash) (a : Action σ α) : ExceptT (WalkError ε) (StateM σ) α :=
  ExceptT.adapt (.store id) a

/-- Visits what waits in the queue and all that is found on the way, at most `bound` nodes. -/
def visitAll (children : Hash → Action σ (List Hash)) (visit : Visitor σ ε Hash) :
    (bound : Nat) → (queue seen : List Hash) → ExceptT (WalkError ε) (StateM σ) Unit
  | _, [], _ => pure ()
  | 0, id :: _, _ => throw (.store id (.endless id))
  | bound + 1, id :: queue, seen => do
    ExceptT.adapt (.visitor id) (visit id)
    let found := unseen seen (← atNode id (children id))
    visitAll children visit bound (queue ++ found) (seen ++ found)

def run (ground : Ground σ) (root : Hash) (visit : Visitor σ ε Hash) :
    ExceptT (WalkError ε) (StateM σ) Unit := do
  if root.isNull then throw .missingRoot
  visitAll ground.children visit (ground.reach + 1) [root] [root]

structure Plan (σ ε : Type) where
  ground : Option (Ground σ) := none
  root : Option Hash := none
  visit : Option (Visitor σ ε Hash) := none

/-- Walks as planned; what is missing is said before anything is visited. -/
def Plan.run (p : Plan σ ε) : ExceptT (WalkError ε) (StateM σ) Unit := do
  let some ground := p.ground | throw .missingStore
  let some root := p.root.filter (!·.isNull) | throw .missingRoot
  let some visit := p.visit | throw .missingVisitor
  Walk.run ground root visit

/-- The walk's own failures, for a visitor that failed with those of the walk. -/
def flatten : WalkError (WalkError ε) → WalkError ε
  | .missingStore => .missingStore
  | .missingRoot => .missingRoot
  | .missingVisitor => .missingVisitor
  | .visitor _ cause => cause
  | .store id cause => .store id cause
  | .unresolved id => .unresolved id

/-- Looks a node up before the visitor sees it. -/
def resolving (get : Hash → Action σ (Option Node)) (visit : Visitor σ ε Node) :
    Visitor σ (WalkError ε) Hash := fun id => do
  match ← atNode id (get id) with
  | some n => ExceptT.adapt (.visitor id) (visit n)
  | none => throw (.unresolved id)

def runNodes (ground : Ground σ) (get : Hash → Action σ (Option Node)) (root : Hash)
    (visit : Visitor σ ε Node) : ExceptT (WalkError ε) (StateM σ) Unit :=
  ExceptT.adapt flatten (run ground root (resolving get visit))

end Walk

end Grove
