import Grove.Crypto.Ed25519
import Grove.Qualified.Basic

/-! # Signers and verifiers

Whoever builds nodes brings a signer, and whoever checks them a verifier. Nothing else in the
library knows how signatures are made.
-/

namespace Grove

structure Signer where
  publicKey : Key
  sign : Bytes → Except CryptoError Signature

/-- Whether a signature on a message stands under a key. -/
abbrev Verifier :=
  Key → Bytes → Signature → Bool

namespace Signer

def ed25519 (pair : Ed25519.KeyPair) : Signer where
  publicKey := .ofFixed .ed25519Key pair.publicKey
  sign message := .ok (.ofFixed .ed25519 (pair.sign message))

def ofSeed (seed : Bytes) : Signer :=
  ed25519 (.ofSeed seed)

/-- A signer with the same key that never signs. -/
def failing (s : Signer) : Signer where
  publicKey := s.publicKey
  sign _ := .error .verificationFailed

end Signer

def Verifier.ed25519 : Verifier := fun key message signature =>
  key.kind = .ed25519Key && accepts key message signature
where
  accepts (key : Key) (message : Bytes) (signature : Signature) : Bool :=
    let verified := do
      let key ← Ed25519.PublicKey.ofBytes key.payload
      Ed25519.verify key message (← Ed25519.SignatureParts.ofBytes signature.payload)
    verified.isOk

end Grove
