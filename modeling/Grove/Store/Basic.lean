import Grove.Node.Validation

/-! # Stores

A store keeps nodes by identifier. It is given by its operations, each an action on the store's own
state and on what all stores share, such as a disk. A failing action may have changed the state.
-/

namespace Grove

inductive StoreError where
  | notFound (id : Hash)
  /-- The operation failed on its target, for the reason given where it is known. -/
  | io (operation target : String) (reason : Option String)
  | corrupt (target : Hash) (cause : NodeError)
  | invalid (cause : ValidationError)
  | closed
  /-- A search from the node passes more nodes than the store holds. -/
  | endless (id : Hash)
  deriving DecidableEq, Repr

namespace StoreError

def message : StoreError → String
  | notFound id => s!"node {id} not found"
  | io operation target none => s!"{operation} failed for {target}"
  | io operation target (some reason) => s!"{operation} failed for {target}: {reason}"
  | corrupt target cause => s!"stored node {target} is corrupt: {cause.message}"
  | invalid cause => cause.message
  | closed => "archive is closed"
  | endless id => s!"search from {id} does not end"

/-- Whether a reference could not be resolved, which more nodes may mend. -/
def isReferenceMissing : StoreError → Bool
  | notFound _ => true
  | invalid (.referenceMissing ..) => true
  | _ => false

end StoreError

/-- A step that may fail and that works on a state, kept also when it fails. -/
abbrev Action (σ α : Type) := ExceptT StoreError (StateM σ) α

namespace Action

variable {σ τ α : Type}

def on (part : τ → σ) (put : σ → τ → τ) (a : Action σ α) : Action τ α :=
  ExceptT.mk fun t =>
    let (result, s) := a.run (part t)
    (result, put s t)

def read (f : σ → α) : Action σ α :=
  return f (← get)

/-- A change of the state that may fail, without effect then. -/
def change (f : σ → Except StoreError σ) : Action σ Unit := do
  set (← liftExcept (f (← get)))
where
  liftExcept : Except StoreError σ → Action σ σ
    | .ok s => pure s
    | .error e => throw e

end Action

/-- The operations of a store with its own state `σ`, beside what is shared as `ω`. -/
structure Store (ω σ : Type) where
  get : Hash → Action (σ × ω) (Option Node)
  /-- The nodes directly below one, none if nothing is known of it. -/
  children : Hash → Action (σ × ω) (List Hash)
  /-- At most so many nodes of a kind, the latest created first. -/
  recent : NodeKind → Nat → Action (σ × ω) (List Node)
  /-- Keeps a node. A node whose identifier is present is left as it is. -/
  add : Node → Action (σ × ω) Unit
  /-- Removes a node and all below it. -/
  removeSubtree : Hash → Action (σ × ω) Unit
  /-- All nodes, in the order in which they are copied elsewhere. -/
  nodes : Action (σ × ω) (List Node)
  /-- No search from node to node passes more different nodes than this. -/
  reach : σ × ω → Nat

namespace Store

variable {ω σ : Type} (s : Store ω σ)

def getKind (kind : NodeKind) (id : Hash) : Action (σ × ω) (Option Node) :=
  return (← s.get id).filter fun n => n.kind = kind

def getIdentity (id : Hash) : Action (σ × ω) (Option Node) :=
  s.getKind .identity id

def getCommunity (id : Hash) : Action (σ × ω) (Option Node) :=
  s.getKind .community id

/-- The root of a thread in the community: a conversation, or a reply to the community itself. -/
def getConversation (community id : Hash) : Action (σ × ω) (Option Node) :=
  return (← s.get id).filter fun n => n.opensThreadIn community

def getReply (community thread id : Hash) : Action (σ × ω) (Option Node) :=
  return (← s.get id).filter fun n => n.repliesIn community thread

def addAll (nodes : List Node) : Action (σ × ω) Unit :=
  nodes.forM s.add

end Store

end Grove
