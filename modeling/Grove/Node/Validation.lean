import Grove.Node.Codec
import Grove.Signing
import Grove.Twig.Codec

/-! # Shallow validation

What can be said about a node from the node alone and, where it is known, the identity that signed
it. The fields are checked first, then the signature, then the identifier, so a changed field shows
as an invalid signature before the identifier is compared.
-/

namespace Grove

inductive Reference where
  | signer
  | parent
  | community
  | conversation
  deriving DecidableEq, Repr

def Reference.label : Reference → String
  | signer => "signer"
  | parent => "parent"
  | community => "community"
  | conversation => "conversation"

inductive ValidationError where
  | malformed (cause : FieldError)
  | identityMismatch (expected actual : Hash)
  | signatureInvalid (id : Hash)
  | signerMismatch (id signer identity : Hash)
  | referenceMissing (id : Hash) (reference : Reference) (target : Hash)
  | wrongReferenceKind (id : Hash) (reference : Reference) (target : Hash)
      (expected actual : NodeKind)
  | depthMismatch (id : Hash) (expected actual : UInt32)
  deriving DecidableEq, Repr

def ValidationError.message : ValidationError → String
  | malformed cause => s!"malformed node: {cause.message}"
  | identityMismatch expected actual =>
    s!"identity mismatch: expected {expected}, computed {actual}"
  | signatureInvalid id => s!"invalid signature on {id}"
  | signerMismatch id signer identity => s!"node {id} is signed by {signer}, not {identity}"
  | referenceMissing id reference target =>
    s!"{reference.label} {target} referenced by {id} is missing"
  | wrongReferenceKind id reference target expected actual =>
    s!"{reference.label} {target} referenced by {id} is a {actual.label} node, " ++
      s!"expected {expected.label}"
  | depthMismatch id expected actual => s!"node {id} has depth {actual}, expected {expected}"

namespace Qualified

/-- The text of a content of the UTF-8 kind. -/
def contentText? (c : Content) : Option String :=
  match c.kind with
  | .utf8 => Utf8.decode? c.payload
  | .twig => none

def checkContent (field : Field) (c : Content) : Except FieldError Unit :=
  match c.kind with
  | .utf8 => if (Utf8.decode? c.payload).isSome then .ok () else .error (.invalidUtf8 field)
  | .twig =>
    match Twig.decode c.payload with
    | .ok _ => .ok ()
    | .error e => .error (.invalidTwig field e)

def checkName (c : Content) : Except FieldError Unit := do
  c.checkContent .name
  if 0x0A ∈ c.payload then throw (.nameContainsNewline .name)

end Qualified

namespace Node

def require (n : Node) (rule : Rule) (holds : Bool) : Except FieldError Unit :=
  if holds then .ok () else .error (.broken n.kind rule)

def checkBody (n : Node) : Except FieldError Unit :=
  match n.body with
  | .identity name publicKey => do
    name.checkName
    n.require .identityHasKey (publicKey.kind ≠ .noKey)
    n.require .identityIsSelfSignedRoot (n.parent.isNull && n.signer.isNull)
  | .community name => do
    name.checkName
    n.require .communityIsRoot n.parent.isNull
  | .conversation content => do
    content.checkContent .content
    n.require .conversationHasParent (!n.parent.isNull)
  | .reply place _ content => do
    content.checkContent .content
    n.require .replyHasPlace (!n.parent.isNull && !place.isNull)

def checkFields (n : Node) : Except FieldError Unit := do
  n.require .knownVersion (n.version = schemaVersion)
  n.require .idNamesDigest (n.idDescriptor.kind = .sha512_256)
  n.metadata.checkContent .metadata
  n.require .rootHasDepthZero (!n.parent.isNull || n.depth = 0)
  n.checkBody
  n.require .hasSigner (n.kind = .identity || !n.signer.isNull)

def checkId (n : Node) (expected : Hash) : Except ValidationError Unit :=
  if n.computeId = expected then .ok () else .error (.identityMismatch expected n.computeId)

/-- The identity that has to have signed the node; an identity signs itself. -/
def expectedSigner (n : Node) : Hash :=
  if n.kind = .identity then n.id else n.signer

/-- The signature has to stand under the key of the identity, which has to be the signer. -/
def checkSignature (n : Node) (identity : Identity) (verify : Verifier) :
    Except ValidationError Unit :=
  if n.expectedSigner ≠ identity.id then
    .error (.signerMismatch n.id n.expectedSigner identity.id)
  else if verify identity.publicKey n.signedBytes n.signature then .ok ()
  else .error (.signatureInvalid n.id)

/--
Checks the fields, then the signature by the given signer (by the node itself, if it is an
identity), then the identifier. Without a signer no signature is checked.
-/
def checkShallow (n : Node) (signer : Option Identity) (verify : Verifier) :
    Except ValidationError Unit := do
  n.checkFields.mapError .malformed
  match n.identity?.or signer with
  | some identity => n.checkSignature identity verify
  | none => pure ()
  n.checkId n.id

end Node

end Grove
