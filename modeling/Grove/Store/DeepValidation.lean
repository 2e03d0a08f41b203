import Grove.Store.Basic

/-! # Deep validation

A node's references are resolved through a look-up and have to lead to nodes of the right kinds, the
parent one level above. The signature is then checked with the signer that was found. A reference
that leads nowhere may still arrive, which is told apart from a node that is wrong. The look-up may
work on a state or not: any monad in which stores can fail will do.
-/

namespace Grove.Node

variable {m : Type → Type} [Monad m] [MonadExcept StoreError m] (get : Hash → m (Option Node))

def refuse {α : Type} (e : ValidationError) : m α :=
  throw (.invalid e)

def resolve (n : Node) (reference : Reference) (target : Hash) : m Node := do
  match ← get target with
  | some found => return found
  | none => refuse (.referenceMissing n.id reference target)

/-- Demands that a resolved reference leads to one of the kinds; the first is the expected one. -/
def expectKind (n : Node) (reference : Reference) (found : Node) (expected : NodeKind)
    (others : List NodeKind) : m Unit := do
  unless found.kind ∈ expected :: others do
    refuse (.wrongReferenceKind n.id reference found.id expected found.kind)

/-- The identity that signed the node, unless the node is an identity itself. -/
def resolveSigner (n : Node) : m (Option Identity) := do
  if n.kind = .identity then return none
  let found ← n.resolve get .signer n.signer
  n.expectKind .signer found .identity []
  return found.identity?

def otherParentKinds (n : Node) : List NodeKind :=
  if n.kind = .conversation then [] else [.conversation, .reply]

/-- The parent has to be of a kind that allows the node, and one level above it. -/
def checkParent (n : Node) : m Unit := do
  unless n.parent.isNull do
    let parent ← n.resolve get .parent n.parent
    n.expectKind .parent parent .community n.otherParentKinds
    unless n.depth = parent.depth + 1 do
      refuse (.depthMismatch n.id (parent.depth + 1) n.depth)

/-- A reply has to name a community, and a conversation or reply as the root of its thread. -/
def checkPlace (n : Node) : m Unit := do
  if let .reply place thread _ := n.body then
    let community ← n.resolve get .community place
    n.expectKind .community community .community []
    unless thread.isNull do
      let root ← n.resolve get .conversation thread
      n.expectKind .conversation root .conversation [.reply]

/-- Checks the references of a node, and then all that can be said with its signer at hand. -/
def checkDeep (n : Node) (verify : Verifier) : m Unit := do
  let signer ← n.resolveSigner get
  n.checkParent get
  n.checkPlace get
  match n.checkShallow signer verify with
  | .ok _ => return
  | .error e => refuse e

end Grove.Node
