import Grove.Crypto.Sha512
import Grove.Qualified.Text

/-! # Nodes

Identities sign, communities are the roots of trees, and conversations and replies hang below them.
A node refers to other nodes by identifier; its own identifier is the digest of its signed bytes.
-/

namespace Grove

def schemaVersion : UInt16 :=
  1

/-- What nodes of all kinds say. -/
structure Header where
  version : UInt16
  parent : Hash
  /-- The algorithm and length of the node's own identifier. -/
  idDescriptor : HashDescriptor
  depth : UInt32
  /-- Milliseconds since the epoch. -/
  created : UInt64
  metadata : Content
  /-- The identity that signed the node, null for an identity, which signs itself. -/
  signer : Hash
  deriving DecidableEq, Repr

/-- What only nodes of one kind say. -/
inductive Body where
  | identity (name : Content) (publicKey : Key)
  | community (name : Content)
  | conversation (content : Content)
  /-- The conversation is the root of the thread, null where the reply is the root itself. -/
  | reply (community conversation : Hash) (content : Content)
  deriving DecidableEq, Repr

def Body.kind : Body → NodeKind
  | identity .. => .identity
  | community .. => .community
  | conversation .. => .conversation
  | reply .. => .reply

structure Node extends Header where
  body : Body
  signature : Signature
  /-- The identifier that the node had when it was sealed or read. -/
  id : Hash
  deriving DecidableEq, Repr

/-- What a signature is checked against. -/
structure Identity where
  id : Hash
  publicKey : Key
  deriving DecidableEq, Repr

namespace Node

def kind (n : Node) : NodeKind :=
  n.body.kind

def identity? (n : Node) : Option Identity :=
  match n.body with
  | .identity _ publicKey => some ⟨n.id, publicKey⟩
  | _ => none

/-- The node that opened a reply's thread: its conversation, or the reply itself. -/
def threadRoot (id conversation : Hash) : Hash :=
  if conversation.isNull then id else conversation

def opensThreadIn (n : Node) (community : Hash) : Bool :=
  match n.body with
  | .conversation _ => n.parent = community
  | .reply c conversation _ => c = community && conversation.isNull
  | _ => false

def repliesIn (n : Node) (community thread : Hash) : Bool :=
  match n.body with
  | .reply c conversation _ => c = community && threadRoot n.id conversation = thread
  | _ => false

end Node

def Hash.digest (kind : HashKind) (b : Bytes) : Hash :=
  match kind with
  | .null => .null
  | .sha512_256 => .ofFixed .sha512_256 (Sha512.digest256 b)

end Grove
