import Grove.Qualified.Basic
import Grove.Twig.Basic

/-! # Fields and their rules

The fields of a node by name, the rules that the fields of a node obey, and what breaks them.
-/

namespace Grove

inductive Field where
  | schemaVersion
  | nodeType
  | parent
  | idDescriptor
  | treeDepth
  | created
  | metadata
  | signerId
  | name
  | publicKey
  | communityId
  | conversationId
  | content
  | signature
  deriving DecidableEq, Repr

def Field.label : Field → String
  | schemaVersion => "schema_version"
  | nodeType => "node_type"
  | parent => "parent"
  | idDescriptor => "id_descriptor"
  | treeDepth => "tree_depth"
  | created => "created"
  | metadata => "metadata"
  | signerId => "signer_id"
  | name => "name"
  | publicKey => "public_key"
  | communityId => "community_id"
  | conversationId => "conversation_id"
  | content => "content"
  | signature => "signature"

def Field.all : List Field :=
  [.schemaVersion, .nodeType, .parent, .idDescriptor, .treeDepth, .created, .metadata, .signerId,
    .name, .publicKey, .communityId, .conversationId, .content, .signature]

def Field.ofLabel? (s : String) : Option Field :=
  all.find? fun f => f.label = s

/-- Rules on how the fields of one node fit together. -/
inductive Rule where
  | knownVersion
  | idNamesDigest
  | rootHasDepthZero
  | identityHasKey
  | identityIsSelfSignedRoot
  | communityIsRoot
  | conversationHasParent
  | replyHasPlace
  | hasSigner
  deriving DecidableEq, Repr

def Rule.complaint : Rule → String
  | knownVersion => "unsupported schema version"
  | idNamesDigest => "id descriptor must name a digest"
  | rootHasDepthZero => "root nodes must have depth 0"
  | identityHasKey => "identity has no public key"
  | identityIsSelfSignedRoot => "identity must be a self-signed root"
  | communityIsRoot => "community must be a root"
  | conversationHasParent => "conversation needs a parent community"
  | replyHasPlace => "reply needs a parent and a community"
  | hasSigner => "missing signer"

inductive FieldError where
  | size (cause : SizeError)
  | nameContainsNewline (field : Field)
  | invalidUtf8 (field : Field)
  | invalidTwig (field : Field) (cause : TwigError)
  | broken (kind : NodeKind) (rule : Rule)
  deriving DecidableEq, Repr

def FieldError.message : FieldError → String
  | size cause => cause.message
  | nameContainsNewline field => s!"{field.label} contains a newline"
  | invalidUtf8 field => s!"{field.label} is not valid UTF-8"
  | invalidTwig field cause => s!"{field.label} is not valid twig: {cause.message}"
  | broken kind rule => s!"{kind.label} node: {rule.complaint}"

end Grove
