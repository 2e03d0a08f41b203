import Grove.Crypto.Edwards
import Grove.Crypto.Sha512

/-! # Ed25519

Key pairs grow from a seed of 32 bytes. A signature is the encoding of a point followed by a
scalar. It is checked without the cofactor: the point that the equation yields has to be encoded as
the signature says, and the scalar has to be reduced. Keys of small order are accepted.
-/

namespace Grove

inductive CryptoError where
  | invalidKeyLength (expected actual : Nat)
  | invalidSignatureLength (expected actual : Nat)
  | verificationFailed
  | invalidPublicKey
  deriving DecidableEq, Repr

def CryptoError.message : CryptoError → String
  | invalidKeyLength expected actual =>
    s!"Invalid key length: expected {expected}, got {actual}"
  | invalidSignatureLength expected actual =>
    s!"Invalid signature length: expected {expected}, got {actual}"
  | verificationFailed => "Signature verification failed"
  | invalidPublicKey => "Invalid public key"

namespace Ed25519

open Edwards

/-- A key as it was written, with the point that it denotes. -/
structure PublicKey where
  bytes : Bytes
  point : Point
  deriving DecidableEq, Repr

def PublicKey.ofBytes (bytes : Bytes) : Except CryptoError PublicKey :=
  if bytes.length ≠ 32 then .error (.invalidKeyLength 32 bytes.length)
  else
    match Point.decode? bytes with
    | some point => .ok ⟨bytes, point⟩
    | none => .error .invalidPublicKey

structure SignatureParts where
  commitment : Bytes
  scalar : Bytes
  deriving DecidableEq, Repr

def SignatureParts.ofBytes (bytes : Bytes) : Except CryptoError SignatureParts :=
  if bytes.length ≠ 64 then .error (.invalidSignatureLength 64 bytes.length)
  else .ok ⟨bytes.take 32, bytes.drop 32⟩

/-- The scalar that ties a commitment, a key and a message together. -/
def challenge (commitment key message : Bytes) : Nat :=
  (Sha512.digest (commitment ++ key ++ message)).toNatLE % order

def verify (key : PublicKey) (message : Bytes) (signature : SignatureParts) :
    Except CryptoError Unit :=
  let s := signature.scalar.toNatLE
  let k := challenge signature.commitment key.bytes message
  if order ≤ s then .error .verificationFailed
  else if ((Point.base.multiple 253 s).add (key.point.neg.multiple 253 k)).encode
      = signature.commitment then .ok ()
  else .error .verificationFailed

structure KeyPair where
  seed : Bytes
  /-- The secret scalar. -/
  scalar : Nat
  /-- The secret that makes commitments unpredictable. -/
  nonceKey : Bytes
  publicKey : Bytes
  deriving DecidableEq, Repr

/-- Clears the lowest three bits and the highest, and sets the second highest. -/
def clamp (n : Nat) : Nat :=
  n % Nat.pow 2 254 / 8 * 8 + Nat.pow 2 254

def KeyPair.ofSeed (seed : Bytes) : KeyPair :=
  let secret := Sha512.digest seed
  let scalar := clamp (Bytes.toNatLE (secret.take 32))
  { seed, scalar, nonceKey := secret.drop 32,
    publicKey := (Point.base.multiple 255 scalar).encode }

def KeyPair.sign (pair : KeyPair) (message : Bytes) : Bytes :=
  let r := (Sha512.digest (pair.nonceKey ++ message)).toNatLE % order
  let commitment := (Point.base.multiple 253 r).encode
  let k := challenge commitment pair.publicKey message
  commitment ++ Bytes.ofNatLE 32 ((r + k * pair.scalar) % order)

end Ed25519

end Grove
