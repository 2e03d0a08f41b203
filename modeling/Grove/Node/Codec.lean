import Grove.Node.Basic
import Grove.Node.Field

/-! # Wire form of nodes

The header's fields stand first, with the node's kind behind the version, then the fields of the
kind, then the signature. All before the signature is signed and is what the identifier digests;
the identifier itself is not written.
-/

namespace Grove

inductive NodeError where
  | field (field : Field) (cause : DecodeError)
  | unsupportedVersion (version : UInt16)
  | unusableIdDescriptor (descriptor : HashDescriptor)
  | trailing (count : Nat)
  | wrongKind (expected actual : NodeKind)
  deriving DecidableEq, Repr

def NodeError.message : NodeError → String
  | field f cause => s!"field {f.label}: {cause.message}"
  | unsupportedVersion version => s!"unsupported schema version {version}"
  | unusableIdDescriptor descriptor =>
    s!"id descriptor {descriptor.text} cannot produce an identifier"
  | trailing count => s!"{count} trailing bytes after node"
  | wrongKind expected actual => s!"expected {expected.label} node, found {actual.label}"

def Field.decode (f : Field) (α : Type) [Wire α] : Decoder NodeError α :=
  (Wire.decode (α := α)).mapError (.field f)

def Field.decodeKind : Decoder NodeError NodeKind := do
  let tag ← Field.nodeType.decode UInt8
  match Kind.ofTag? .node tag with
  | some kind => return kind
  | none => throw (.field .nodeType (.unknownTag .node tag))

namespace Header

def encode (h : Header) (kind : NodeKind) : Bytes :=
  Wire.encode h.version ++ Wire.encode kind.tag ++ Wire.encode h.parent ++
    Wire.encode h.idDescriptor ++ Wire.encode h.depth ++ Wire.encode h.created ++
    Wire.encode h.metadata ++ Wire.encode h.signer

/-- Reads a header and the kind that it holds. -/
def decode : Decoder NodeError (NodeKind × Header) := do
  let version ← Field.schemaVersion.decode UInt16
  if version ≠ schemaVersion then throw (.unsupportedVersion version)
  let kind ← Field.decodeKind
  let parent ← Field.parent.decode Hash
  let idDescriptor ← Field.idDescriptor.decode HashDescriptor
  if idDescriptor.kind = .null then throw (.unusableIdDescriptor idDescriptor)
  let depth ← Field.treeDepth.decode UInt32
  let created ← Field.created.decode UInt64
  let metadata ← Field.metadata.decode Content
  let signer ← Field.signerId.decode Hash
  return (kind, { version, parent, idDescriptor, depth, created, metadata, signer })

end Header

namespace Body

def encode : Body → Bytes
  | .identity name publicKey => Wire.encode name ++ Wire.encode publicKey
  | .community name => Wire.encode name
  | .conversation content => Wire.encode content
  | .reply place thread content =>
    Wire.encode place ++ Wire.encode thread ++ Wire.encode content

def decode : NodeKind → Decoder NodeError Body
  | .identity =>
    return .identity (← Field.name.decode Content) (← Field.publicKey.decode Key)
  | .community => return .community (← Field.name.decode Content)
  | .conversation => return .conversation (← Field.content.decode Content)
  | .reply =>
    return .reply (← Field.communityId.decode Hash) (← Field.conversationId.decode Hash)
      (← Field.content.decode Content)

end Body

namespace Node

/-- The bytes that the signature covers and the identifier digests. -/
def signedBytes (n : Node) : Bytes :=
  n.toHeader.encode n.kind ++ n.body.encode

def encode (n : Node) : Bytes :=
  n.signedBytes ++ Wire.encode n.signature

def computeId (n : Node) : Hash :=
  .digest n.idDescriptor.kind n.signedBytes

/-- Reads a node; its identifier is the digest of the signed bytes as they were read. -/
def decode : Decoder NodeError Node := do
  let input ← get
  let (kind, header) ← Header.decode
  let body ← Body.decode kind
  let signed := input.take (input.length - (← get).length)
  let signature ← Field.signature.decode Signature
  return { header with body, signature, id := .digest header.idDescriptor.kind signed }

/-- The node whose wire form is exactly the input. -/
def ofBytes (input : Bytes) : Except NodeError Node :=
  decode.all .trailing input

def ofBytesAs (kind : NodeKind) (input : Bytes) : Except NodeError Node := do
  let n ← ofBytes input
  if n.kind = kind then return n else throw (.wrongKind kind n.kind)

/--
The nodes that stand one after another, as far as they can be read, and the failure that stopped
the reading, with the bytes from there on.
-/
def decodeStream (input : Bytes) : List Node × Option NodeError × Bytes :=
  go input.length [] input
where
  /-- Every node takes at least a byte, so the length of the input bounds the number of nodes. -/
  go : Nat → List Node → Bytes → List Node × Option NodeError × Bytes
    | _, read, [] => (read.reverse, none, [])
    | 0, read, rest => (read.reverse, none, rest)
    | bound + 1, read, rest =>
      match decode.run rest with
      | .ok (n, rest) => go bound (n :: read) rest
      | .error e => (read.reverse, some e, rest)

end Node

end Grove
