import Grove.Proofs.Validation.Shallow

/-! # Tampering

A node that was changed after it was sealed still goes under its old identifier. What gives it away
depends on the order of the checks: first the rules that its fields break, then the signature, if
there is an identity to check it with, and last the identifier. Since signed bytes determine what is
signed, the identifier is out of date after every change, unless digests collide.
-/

namespace Grove.Node

variable {n n' : Node} {identity s : Identity} {signer : Option Identity} {verify : Verifier}

theorem checkShallow_of_checkFields {e : FieldError} (h : n.checkFields = .error e) :
    n.checkShallow signer verify = .error (.malformed e) := by
  rw [checkShallow, h]
  rfl

section Checked

variable (hf : n.checkFields = .ok ()) (hi : n.identity?.or signer = some identity)

include hf

theorem checkShallow_of_unchecked (hi : n.identity?.or signer = none) :
    n.checkShallow signer verify = n.checkId n.id := by
  rw [checkShallow, hf, hi]
  rfl

include hi

theorem checkShallow_of_checked :
    n.checkShallow signer verify =
      (n.checkSignature identity verify >>= fun _ => n.checkId n.id) := by
  rw [checkShallow, hf, hi]
  rfl

end Checked

/-- Who has to have signed the node: itself, if it is an identity, or else the given identity. -/
def signatory (n : Node) (s : Identity) : Identity :=
  n.identity?.getD s

theorem identity?_or (h : n.kind = .identity ∨ signer = some s) :
    n.identity?.or signer = some (n.signatory s) := by
  rcases h with hk | rfl
  · obtain ⟨name, key, hb⟩ := exists_body_of_identity hk
    rw [signatory, identity?_of_body hb]
    rfl
  · rw [signatory]
    cases n.identity? <;> rfl

theorem expectedSigner_eq (h : n.kind ≠ .identity → n.signer = s.id) :
    n.expectedSigner = (n.signatory s).id := by
  unfold expectedSigner signatory
  split
  · next hk =>
    obtain ⟨name, key, hb⟩ := exists_body_of_identity hk
    rw [identity?_of_body hb]
    rfl
  · next hk =>
    rw [identity?_eq_none hk]
    exact h hk

theorem signer_of_checkShallow (hn : n.checkShallow (some s) verify = .ok ())
    (hk : n.kind ≠ .identity) : n.signer = s.id := by
  obtain ⟨-, hsigned, -⟩ := checkShallow_eq_ok_iff.1 hn
  have hs : s ∈ n.identity?.or (some s) := by
    rw [identity?_eq_none hk]
    rfl
  obtain ⟨hid, -⟩ := checkSignature_eq_ok_iff.1 (hsigned s hs)
  rwa [expectedSigner, if_neg hk] at hid

/-- The first node goes under the identifier of the second, but says something else, under whatever
signature. -/
structure Tampers (n' n : Node) : Prop where
  kind : n'.kind = n.kind
  id : n'.id = n.id
  changed : ¬(n'.toHeader = n.toHeader ∧ n'.body = n.body)

namespace Tampers

section Stale

variable (h : n'.Tampers n) (hd' : n'.Delimited) (hd : n.Delimited)

include h hd' hd

theorem signedBytes_ne : n'.signedBytes ≠ n.signedBytes :=
  fun heq => h.changed ((signedBytes_inj hd' hd).1 heq)

variable (hn : n.checkShallow signer verify = .ok ())
  (hcollide : Sha512.digest256 n'.signedBytes = Sha512.digest256 n.signedBytes →
    n'.signedBytes = n.signedBytes)
  (hf : n'.checkFields = .ok ())

include hn hcollide hf

theorem computeId_ne : n'.computeId ≠ n'.id := by
  intro hid
  obtain ⟨-, hkind, -⟩ := checkFields_eq_ok_iff.1 hf
  rw [h.id, id_of_checkShallow hn, computeId, hkind] at hid
  exact h.signedBytes_ne hd' hd (hcollide (congrArg Qualified.payload hid))

theorem checkId : n'.checkId n'.id = .error (.identityMismatch n.id n'.computeId) := by
  rw [Node.checkId, if_neg (h.computeId_ne hd' hd hn hcollide hf), h.id]

end Stale

theorem expectedSigner (h : n'.Tampers n) (hn : n.checkShallow (some s) verify = .ok ())
    (hsigner : n'.signer = n.signer) : n'.expectedSigner = (n'.signatory s).id :=
  expectedSigner_eq fun hk => hsigner.trans (signer_of_checkShallow hn (h.kind ▸ hk))

end Tampers

/-- A node that was accepted with a signer and then changed in something that is signed is never
accepted again, whatever its signature. Rules that it breaks are reported in every case. Otherwise,
without a signer, it is its identifier that is reported. With the same signer, it is the signature,
if it is the old one and stands on nothing else, and the identifier, if it is a new one that
stands. -/
theorem checkShallow_of_tampers (hn : n.checkShallow (some s) verify = .ok ()) (h : n'.Tampers n)
    (hd' : n'.Delimited) (hd : n.Delimited)
    (hcollide : Sha512.digest256 n'.signedBytes = Sha512.digest256 n.signedBytes →
      n'.signedBytes = n.signedBytes) :
    (∀ signer verify', n'.checkShallow signer verify' ≠ .ok ()) ∧
    (∀ e, n'.checkFields = .error e → ∀ signer verify',
      n'.checkShallow signer verify' = .error (.malformed e)) ∧
    (n'.checkFields = .ok () →
      (n.kind ≠ .identity → ∀ verify',
        n'.checkShallow none verify' = .error (.identityMismatch n.id n'.computeId)) ∧
      (n'.signer = n.signer → ∀ signer verify', n.kind = .identity ∨ signer = some s →
        (n'.signature = n.signature →
          (∀ key message, verify' key message n.signature = true → message = n.signedBytes) →
            n'.checkShallow signer verify' = .error (.signatureInvalid n.id)) ∧
        (verify' (n'.signatory s).publicKey n'.signedBytes n'.signature = true →
          n'.checkShallow signer verify' =
            .error (.identityMismatch n.id n'.computeId)))) := by
  refine ⟨fun signer verify' hok => ?_, fun e he signer verify' => checkShallow_of_checkFields he,
    fun hf => ?_⟩
  · obtain ⟨hf, -, hid⟩ := checkShallow_eq_ok_iff.1 hok
    exact h.computeId_ne hd' hd hn hcollide hf hid
  have hstale := h.checkId hd' hd hn hcollide hf
  constructor
  · intro hk verify'
    have hnone : n'.identity?.or none = none := by
      rw [identity?_eq_none (h.kind ▸ hk)]
      rfl
    rw [checkShallow_of_unchecked hf hnone, hstale]
  intro hsigner signer verify' hknown
  have hexpected := h.expectedSigner hn hsigner
  have hi : n'.identity?.or signer = some (n'.signatory s) :=
    identity?_or (hknown.imp_left h.kind.trans)
  rw [checkShallow_of_checked hf hi]
  constructor
  · intro hsignature hsole
    have hinvalid : ¬verify' (n'.signatory s).publicKey n'.signedBytes n'.signature = true := by
      rw [hsignature]
      exact fun hv => h.signedBytes_ne hd' hd (hsole _ _ hv)
    rw [checkSignature, if_neg fun hne => hne hexpected, if_neg hinvalid, h.id]
    rfl
  · intro hvalid
    rw [checkSignature_eq_ok_iff.2 ⟨hexpected, hvalid⟩]
    exact hstale

def sunkenReply (signature : Signature) : Node :=
  { unsignedReply with depth := 8, signature }

theorem tampers_sunkenReply (signature : Signature) :
    (sunkenReply signature).Tampers unsignedReply where
  kind := rfl
  id := rfl
  changed h := by
    have hdepth : (8 : UInt32) = 7 := congrArg Header.depth h.1
    exact absurd hdepth (by decide)

/-- Accepts on each message the signatures that stand beside it, under whatever key. -/
def onRecord (record : List (Bytes × Signature)) : Verifier :=
  fun _ message signature => (message, signature) ∈ record

/-- The reply is accepted with its signer. Once it is moved, its signature is reported to those who
know the signer and its identifier to those who do not, and to all once it is signed anew. -/
theorem checkShallow_sunkenReply :
    let signer : Identity := ⟨unsignedReply.signer, .ofFixed .ed25519Key (List.replicate 32 1)⟩
    let old := unsignedReply.signature
    let new := .ofFixed .ed25519 (List.replicate 64 1)
    let verify := onRecord [(unsignedReply.signedBytes, old), ((sunkenReply new).signedBytes, new)]
    unsignedReply.checkShallow (some signer) verify = .ok () ∧
      (sunkenReply old).checkShallow (some signer) verify =
        .error (.signatureInvalid unsignedReply.id) ∧
      (sunkenReply old).checkShallow none verify =
        .error (.identityMismatch unsignedReply.id (sunkenReply old).computeId) ∧
      (sunkenReply new).checkShallow (some signer) verify =
        .error (.identityMismatch unsignedReply.id (sunkenReply new).computeId) := by
  intro signer old new verify
  have hfields : unsignedReply.checkFields = .ok () :=
    (checkShallow_eq_ok_iff.1 (checkShallow_unsignedReply old)).1
  have hn : unsignedReply.checkShallow (some signer) verify = .ok () := by
    rw [checkShallow_of_checked hfields (identity?_or (.inr rfl)), seq_eq_ok_iff]
    exact ⟨checkSignature_eq_ok_iff.2 ⟨rfl, decide_eq_true List.mem_cons_self⟩,
      checkId_eq_ok_iff.2 rfl⟩
  have hd : unsignedReply.Delimited := sealed_unsignedReply.delimited
  have hd' (signature : Signature) : (sunkenReply signature).Delimited :=
    sealed_unsignedReply.delimited
  have hdigest : Sha512.digest256 (sunkenReply new).signedBytes ≠
      Sha512.digest256 unsignedReply.signedBytes := by decide +kernel
  have hcollide (signature : Signature) :
      Sha512.digest256 (sunkenReply signature).signedBytes =
          Sha512.digest256 unsignedReply.signedBytes →
        (sunkenReply signature).signedBytes = unsignedReply.signedBytes :=
    fun h => absurd h hdigest
  obtain ⟨-, -, hall⟩ :=
    checkShallow_of_tampers hn (tampers_sunkenReply old) (hd' old) hd (hcollide old)
  obtain ⟨-, -, hall'⟩ :=
    checkShallow_of_tampers hn (tampers_sunkenReply new) (hd' new) hd (hcollide new)
  obtain ⟨hunknown, hknown⟩ := hall hfields
  obtain ⟨-, hknown'⟩ := hall' hfields
  have hsole (key : Key) (message : Bytes) (hv : verify key message old = true) :
      message = unsignedReply.signedBytes := by
    rcases List.mem_cons.1 (of_decide_eq_true hv) with heq | hlast
    · exact congrArg Prod.fst heq
    · have hsignature : old = new := congrArg Prod.snd (List.mem_singleton.1 hlast)
      exact absurd hsignature (by decide)
  have hanew : verify ((sunkenReply new).signatory signer).publicKey (sunkenReply new).signedBytes
      new = true := decide_eq_true (List.mem_cons_of_mem _ List.mem_cons_self)
  exact ⟨hn, (hknown rfl _ verify (.inr rfl)).1 rfl hsole, hunknown (by decide) verify,
    (hknown' rfl _ verify (.inr rfl)).2 hanew⟩

end Grove.Node
