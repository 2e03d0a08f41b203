import Grove.Node.Validation

/-! # Building nodes

An author is an identity with the signer that holds its key. Every node leaves here sealed: signed,
and with the digest of its signed bytes as its identifier. The time of creation is given.
-/

namespace Grove

inductive BuildError where
  | field (cause : FieldError)
  | signing (cause : CryptoError)
  /-- The signer's key is not the identity's key. -/
  | keyMismatch (identity : Hash)
  | invalidParent (kind : NodeKind)
  deriving DecidableEq, Repr

def BuildError.message : BuildError → String
  | field cause => cause.message
  | signing cause => s!"signing failed: {cause.message}"
  | keyMismatch identity => s!"signer key does not belong to identity {identity}"
  | invalidParent kind => s!"a {kind.label} node cannot be the parent of a reply"

namespace Qualified

def ofText (s : String) : Except FieldError Content :=
  (new .utf8 (Utf8.encode s)).mapError .size

/-- A content of one line. -/
def ofName (s : String) : Except FieldError Content :=
  if '\n' ∈ s.toList then .error (.nameContainsNewline .name) else ofText s

def ofTwig (t : Twig) : Except FieldError Content :=
  (new .twig t.encode).mapError .size

end Qualified

namespace Node

def sealWith (header : Header) (body : Body) (signer : Signer) : Except BuildError Node := do
  let draft : Node := { header with body, signature := .ofFixed .ed25519 [], id := .null }
  let signature ← (signer.sign draft.signedBytes).mapError .signing
  return { draft with signature, id := draft.computeId }

/-- The header of a node of the current version, without metadata that is too large. -/
def draftHeader (parent : Hash) (depth : UInt32) (created : UInt64) (metadata : Twig)
    (signer : Hash) : Except BuildError Header := do
  let metadata ← (Qualified.ofTwig metadata).mapError .field
  return { version := schemaVersion, parent, idDescriptor := .fixed .sha512_256, depth, created,
           metadata, signer }

def newIdentity (signer : Signer) (name : String) (metadata : Twig) (created : UInt64) :
    Except BuildError Node := do
  let header ← draftHeader .null 0 created metadata .null
  let name ← (Qualified.ofName name).mapError .field
  sealWith header (.identity name signer.publicKey) signer

def asCommunity? (n : Node) : Option { n : Node // n.kind = .community } :=
  if h : n.kind = .community then some ⟨n, h⟩ else none

end Node

/-- Someone who can sign nodes in the name of an identity. -/
structure Author where
  identity : Identity
  signer : Signer

namespace Author

def new (identity : Identity) (signer : Signer) : Except BuildError Author :=
  if signer.publicKey = identity.publicKey then .ok ⟨identity, signer⟩
  else .error (.keyMismatch identity.id)

def newCommunity (a : Author) (name : String) (metadata : Twig) (created : UInt64) :
    Except BuildError Node := do
  let header ← Node.draftHeader .null 0 created metadata a.identity.id
  let name ← (Qualified.ofName name).mapError .field
  Node.sealWith header (.community name) a.signer

def newConversation (a : Author) (community : { n : Node // n.kind = .community })
    (content : String) (metadata : Twig) (created : UInt64) : Except BuildError Node := do
  let parent := community.val
  let header ← Node.draftHeader parent.id (parent.depth + 1) created metadata a.identity.id
  let content ← (Qualified.ofText content).mapError .field
  Node.sealWith header (.conversation content) a.signer

/-- The community and the thread of a reply to `parent`. -/
def replyPlace (parent : Node) : Except BuildError (Hash × Hash) :=
  match parent.body with
  | .community _ => .ok (parent.id, .null)
  | .conversation _ => .ok (parent.parent, parent.id)
  | .reply place thread _ => .ok (place, Node.threadRoot parent.id thread)
  | .identity .. => .error (.invalidParent .identity)

def newReply (a : Author) (parent : Node) (content : String) (metadata : Twig)
    (created : UInt64) : Except BuildError Node := do
  let (place, thread) ← replyPlace parent
  let header ← Node.draftHeader parent.id (parent.depth + 1) created metadata a.identity.id
  let content ← (Qualified.ofText content).mapError .field
  Node.sealWith header (.reply place thread content) a.signer

end Author

end Grove
