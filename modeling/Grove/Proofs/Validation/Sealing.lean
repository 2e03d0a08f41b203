import Grove.Node.Builder
import Grove.Proofs.Twig.Entries
import Grove.Proofs.Validation.Shallow
import Grove.Proofs.Wire.Text

/-! # Sealing

What builders put into a node passes the checks that readers make of it: contents and names are
texts, metadata is a twig, and the signature is one that the verifier accepts. What is left to show
of a built node is where its references lead.
-/

namespace Grove

namespace Qualified

variable {c : Content} {s : String} {field : Field}

theorem of_ofText (h : ofText s = .ok c) : c.WellFormed ∧ c.checkContent field = .ok () := by
  obtain ⟨hw, hkind, hpayload⟩ := new_eq_ok_iff.1 (mapError_eq_ok_iff.1 h)
  refine ⟨hw, ?_⟩
  rw [checkContent, hkind, hpayload, Utf8.decode?_encode]
  rfl

theorem of_ofName (h : ofName s = .ok c) : c.WellFormed ∧ c.checkName = .ok () := by
  unfold ofName at h
  split at h
  · exact absurd h nofun
  next hline =>
    obtain ⟨hw, hcheck⟩ : c.WellFormed ∧ c.checkContent .name = .ok () := of_ofText h
    obtain ⟨-, -, hpayload⟩ := new_eq_ok_iff.1 (mapError_eq_ok_iff.1 h)
    refine ⟨hw, seq_eq_ok_iff.2 ⟨hcheck, ?_⟩⟩
    have hbyte : (0x0A : UInt8) ∉ c.payload := by
      rw [hpayload]
      exact (Utf8.mem_encode_iff (c := '\n') (by decide)).not.2 hline
    rw [if_neg hbyte]
    rfl

theorem of_ofTwig {t : Twig} (ht : t.Valid) (h : ofTwig t = .ok c) :
    c.WellFormed ∧ c.checkContent field = .ok () := by
  obtain ⟨hw, hkind, hpayload⟩ := new_eq_ok_iff.1 (mapError_eq_ok_iff.1 h)
  exact ⟨hw, checkContent_encode ht field hkind hpayload⟩

end Qualified

/-- The signer has an Ed25519 key, and signatures under this key that the verifier accepts. -/
structure Signer.Vouched (signer : Signer) (verify : Verifier) : Prop where
  publicKey : signer.publicKey.WellFormed
  isEd25519 : signer.publicKey.kind = .ed25519Key
  signs {message : Bytes} {signature : Signature} : signer.sign message = .ok signature →
    signature.WellFormed ∧ verify signer.publicKey message signature = true

/-- The signature is the digest of the message, so anyone could sign under this key. -/
def Signer.digesting : Signer where
  publicKey := .ofFixed .ed25519Key (List.replicate 32 0x01)
  sign message := .ok (.ofFixed .ed25519 (Sha512.digest message))

def Verifier.digesting : Verifier := fun key message signature =>
  key = Signer.digesting.publicKey && signature = .ofFixed .ed25519 (Sha512.digest message)

theorem Signer.vouched_digesting : digesting.Vouched .digesting where
  publicKey := by decide
  isEd25519 := rfl
  signs := by
    rintro message _ ⟨⟩
    refine ⟨⟨?_, Sha512.length_digest message⟩, by simp [Verifier.digesting]⟩
    rintro _ ⟨⟩
    rfl

namespace Node

variable {n : Node} {header : Header} {body : Body} {signer : Signer} {verify : Verifier}
  {t : Twig} {parent signerId : Hash} {depth : UInt32} {created : UInt64}

theorem of_sealWith (h : sealWith header body signer = .ok n) :
    n.toHeader = header ∧ n.body = body ∧ signer.sign n.signedBytes = .ok n.signature ∧
      n.id = n.computeId := by
  obtain ⟨signature, hsign, hn⟩ := bind_eq_ok_iff.1 h
  obtain rfl := pure_eq_ok_iff.1 hn
  exact ⟨rfl, rfl, mapError_eq_ok_iff.1 hsign, rfl⟩

structure Drafted (parent : Hash) (depth : UInt32) (signerId : Hash) (header : Header) : Prop where
  version : header.version = schemaVersion
  parent : header.parent = parent
  idDescriptor : header.idDescriptor = .fixed .sha512_256
  depth : header.depth = depth
  signer : header.signer = signerId
  wellFormed : header.metadata.WellFormed
  metadata : header.metadata.checkContent .metadata = .ok ()

theorem drafted_of_draftHeader (ht : t.Valid)
    (h : draftHeader parent depth created t signerId = .ok header) :
    Drafted parent depth signerId header := by
  obtain ⟨content, hcontent, hheader⟩ := bind_eq_ok_iff.1 h
  obtain rfl := pure_eq_ok_iff.1 hheader
  obtain ⟨hw, hcheck⟩ := Qualified.of_ofTwig ht (mapError_eq_ok_iff.1 hcontent)
  exact ⟨rfl, rfl, rfl, rfl, rfl, hw, hcheck⟩

section Sealing

variable (hdraft : Drafted parent depth signerId header)
  (hseal : sealWith header body signer = .ok n) (hs : signer.Vouched verify)

include hdraft hseal hs

theorem sealed_of_sealWith (hparent : parent.WellFormed) (hsigner : signerId.WellFormed)
    (hbody : ∀ v ∈ body.values, v.2.WellFormed) : n.Sealed := by
  obtain ⟨rfl, rfl, hsign, hid⟩ := of_sealWith hseal
  have hvalues : ∀ v ∈ n.toHeader.values, v.2.WellFormed := by
    simp only [Header.values, List.forall_mem_cons]
    rw [hdraft.parent, hdraft.signer]
    exact ⟨hparent, hdraft.wellFormed, hsigner, fun _ hv => absurd hv List.not_mem_nil⟩
  refine sealed_iff.2 ⟨⟨hdraft.version, ?_, ?_, hvalues⟩, hbody, (hs.signs hsign).1, hid⟩
  · rw [hdraft.idDescriptor]
    decide
  · rw [hdraft.idDescriptor]
    decide

/-- A built node passes the checks that need no other node, if it obeys the rules of its kind and
the identity that it is checked with has the key of the signer. -/
theorem checkShallow_of_sealWith {signedBy : Option Identity} (hbody : n.checkBody = .ok ())
    (hroot : parent.isNull = true → depth = 0)
    (hsigned : n.kind = .identity ∨ signerId.isNull = false)
    (hidentity : ∀ identity ∈ n.identity?.or signedBy,
      n.expectedSigner = identity.id ∧ identity.publicKey = signer.publicKey) :
    n.checkShallow signedBy verify = .ok () := by
  obtain ⟨rfl, rfl, hsign, hid⟩ := of_sealWith hseal
  have hfields : n.checkFields = .ok () := by
    refine checkFields_eq_ok_iff.2 ⟨hdraft.version, ?_, hdraft.metadata, ?_, hbody, ?_⟩
    · rw [hdraft.idDescriptor]
      rfl
    · rw [hdraft.parent, hdraft.depth]
      exact hroot
    · rw [hdraft.signer]
      exact hsigned
  refine checkShallow_eq_ok_iff.2 ⟨hfields, fun identity hi => ?_, hid.symm⟩
  obtain ⟨hexpected, hkey⟩ := hidentity identity hi
  exact checkSignature_eq_ok_iff.2 ⟨hexpected, hkey ▸ (hs.signs hsign).2⟩

end Sealing

end Node

namespace Author

variable {p : Node} {place thread : Hash}

theorem of_replyPlace (h : replyPlace p = .ok (place, thread)) :
    p.kind = .community ∧ place = p.id ∧ thread = .null ∨
      p.kind = .conversation ∧ place = p.parent ∧ thread = p.id ∨
      ∃ above content, p.body = .reply place above content ∧
        thread = Node.threadRoot p.id above := by
  unfold replyPlace at h
  cases hb : p.body with
  | identity =>
    rw [hb] at h
    exact absurd h nofun
  | community =>
    rw [hb] at h
    obtain ⟨rfl, rfl⟩ := Prod.mk.inj (Except.ok.inj h)
    exact .inl ⟨by simp [Node.kind, hb, Body.kind], rfl, rfl⟩
  | conversation =>
    rw [hb] at h
    obtain ⟨rfl, rfl⟩ := Prod.mk.inj (Except.ok.inj h)
    exact .inr (.inl ⟨by simp [Node.kind, hb, Body.kind], rfl, rfl⟩)
  | reply =>
    rw [hb] at h
    obtain ⟨rfl, rfl⟩ := Prod.mk.inj (Except.ok.inj h)
    exact .inr (.inr ⟨_, _, rfl, rfl⟩)

end Author

end Grove
