import Grove.Node.Validation
import Grove.Proofs.Wire.SignedBytes

/-! # Shallow validation

What a node obeys when the checks that need no other node accept it. Whatever signature was checked
on the way, an accepted node carries the digest of its signed bytes, so two accepted nodes with one
identifier differ in their signatures at most unless their digests collide.
-/

namespace Grove

theorem bind_eq_ok_iff {ε α β : Type} {x : Except ε α} {f : α → Except ε β} {b : β} :
    (x >>= f) = .ok b ↔ ∃ a, x = .ok a ∧ f a = .ok b := by
  cases x <;> simp [bind, Except.bind]

theorem pure_eq_ok_iff {ε α : Type} {a b : α} : (pure a : Except ε α) = .ok b ↔ a = b := by
  simp [pure, Except.pure]

theorem throw_eq_ok_iff {ε α : Type} {e : ε} {a : α} :
    (throw e : Except ε α) = .ok a ↔ False := by
  simp [throw, throwThe, MonadExceptOf.throw]

theorem seq_eq_ok_iff {ε α : Type} {x : Except ε PUnit} {y : Except ε α} {a : α} :
    (x >>= fun _ => y) = .ok a ↔ x = .ok () ∧ y = .ok a := by
  cases x <;> simp [bind, Except.bind]

theorem mapError_eq_ok_iff {ε ε' α : Type} {f : ε → ε'} {x : Except ε α} {a : α} :
    x.mapError f = .ok a ↔ x = .ok a := by
  cases x with
  | error e => exact iff_of_false nofun nofun
  | ok b =>
    show Except.ok b = Except.ok a ↔ _
    simp only [Except.ok.injEq]

namespace Node

theorem require_eq_ok_iff {n : Node} {rule : Rule} {holds : Bool} :
    n.require rule holds = .ok () ↔ holds = true := by
  unfold require
  split
  · next h => simp only [h]
  · next h => simp only [h, reduceCtorEq]

theorem checkFields_eq_ok_iff {n : Node} :
    n.checkFields = .ok () ↔
      n.version = schemaVersion ∧ n.idDescriptor.kind = .sha512_256 ∧
        n.metadata.checkContent .metadata = .ok () ∧ (n.parent.isNull = true → n.depth = 0) ∧
          n.checkBody = .ok () ∧ (n.kind = .identity ∨ n.signer.isNull = false) := by
  simp only [checkFields, seq_eq_ok_iff, require_eq_ok_iff, Bool.or_eq_true, Bool.not_eq_true',
    decide_eq_true_eq, ← Bool.not_eq_true, ← Decidable.imp_iff_not_or]

theorem isNull_parent_iff {n : Node} (h : n.checkBody = .ok ()) :
    n.parent.isNull = true ↔ n.kind = .identity ∨ n.kind = .community := by
  unfold checkBody at h
  split at h <;> simp only [seq_eq_ok_iff, require_eq_ok_iff, Bool.and_eq_true] at h
  · next hb => simp [kind, hb, Body.kind, h]
  · next hb => simp [kind, hb, Body.kind, h]
  · next hb => simpa [kind, hb, Body.kind] using h.2
  · next hb => simpa [kind, hb, Body.kind] using h.2.1

theorem checkId_eq_ok_iff {n : Node} {expected : Hash} :
    n.checkId expected = .ok () ↔ n.computeId = expected := by
  unfold checkId
  split
  · next h => simp only [h]
  · next h => simp only [h, reduceCtorEq]

theorem exists_body_of_identity {n : Node} (h : n.kind = .identity) :
    ∃ name key, n.body = .identity name key := by
  cases hb : n.body with
  | identity name key => exact ⟨name, key, rfl⟩
  | community | conversation | reply => simp [kind, hb, Body.kind] at h

theorem identity?_of_body {n : Node} {name : Content} {key : Key}
    (h : n.body = .identity name key) : n.identity? = some ⟨n.id, key⟩ := by
  rw [identity?, h]

theorem identity?_eq_none {n : Node} (h : n.kind ≠ .identity) : n.identity? = none := by
  cases hb : n.body with
  | identity => simp [kind, hb, Body.kind] at h
  | community | conversation | reply => rw [identity?, hb]

theorem checkSignature_eq_ok_iff {n : Node} {identity : Identity} {verify : Verifier} :
    n.checkSignature identity verify = .ok () ↔
      n.expectedSigner = identity.id ∧
        verify identity.publicKey n.signedBytes n.signature = true := by
  unfold checkSignature
  split
  · next hid => simp only [hid, reduceCtorEq, false_and]
  · next hid =>
    rw [Decidable.not_not.1 hid, eq_self_iff_true, true_and]
    split
    · next hv => simp only [hv]
    · next hv => simp only [hv, reduceCtorEq]

theorem checkShallow_eq_ok_iff {n : Node} {signer : Option Identity} {verify : Verifier} :
    n.checkShallow signer verify = .ok () ↔
      n.checkFields = .ok () ∧
        (∀ identity ∈ n.identity?.or signer, n.checkSignature identity verify = .ok ()) ∧
          n.computeId = n.id := by
  rw [checkShallow, seq_eq_ok_iff, mapError_eq_ok_iff]
  refine and_congr_right fun _ => ?_
  cases n.identity?.or signer with
  | none => simp [checkId_eq_ok_iff]
  | some identity => simp [seq_eq_ok_iff, checkId_eq_ok_iff]

/-- An accepted node has the digest of its signed bytes as its identifier. -/
theorem id_of_checkShallow {n : Node} {signer : Option Identity} {verify : Verifier}
    (h : n.checkShallow signer verify = .ok ()) :
    n.id = .ofFixed .sha512_256 (Sha512.digest256 n.signedBytes) := by
  obtain ⟨hf, _, hi⟩ := checkShallow_eq_ok_iff.1 h
  obtain ⟨_, hk, _⟩ := checkFields_eq_ok_iff.1 hf
  rw [← hi, computeId, hk]
  rfl

/-- Signed bytes determine the kind and everything that is signed. So nodes that are accepted under
one identifier, by whatever signers and verifiers, differ in their signatures at most, unless their
signed bytes are different and collide. -/
theorem signedBytes_tamper_evident {a b : Node} (ha : a.Delimited) (hb : b.Delimited) :
    (a.signedBytes = b.signedBytes →
      a.kind = b.kind ∧ a.toHeader = b.toHeader ∧ a.body = b.body) ∧
    ∀ {signer signer' : Option Identity} {verify verify' : Verifier},
      a.checkShallow signer verify = .ok () → b.checkShallow signer' verify' = .ok () →
      a.id = b.id →
      (Sha512.digest256 a.signedBytes = Sha512.digest256 b.signedBytes →
        a.signedBytes = b.signedBytes) →
      { a with signature := b.signature } = b := by
  constructor
  · intro h
    obtain ⟨hh, hbody⟩ := (signedBytes_inj ha hb).1 h
    exact ⟨congrArg Body.kind hbody, hh, hbody⟩
  · intro signer signer' verify verify' hca hcb hid hcollide
    have hd : Sha512.digest256 a.signedBytes = Sha512.digest256 b.signedBytes := by
      rw [id_of_checkShallow hca, id_of_checkShallow hcb] at hid
      exact congrArg Qualified.payload hid
    obtain ⟨hh, hbody⟩ := (signedBytes_inj ha hb).1 (hcollide hd)
    obtain ⟨header, body, signature, id⟩ := a
    obtain ⟨header', body', signature', id'⟩ := b
    obtain rfl : header = header' := hh
    obtain rfl : body = body' := hbody
    obtain rfl : id = id' := hid
    rfl

theorem eq_ok_of_mem_toOption {ε α : Type} {x : Except ε α} {b : α} (h : b ∈ x.toOption) :
    x = .ok b := by
  cases x with
  | error e => exact absurd h nofun
  | ok c => exact congrArg Except.ok (Option.some.inj h)

theorem eq_ok_of_isOk {ε : Type} {x : Except ε Unit} (h : x.isOk = true) : x = .ok () := by
  cases x with
  | error e => exact absurd h nofun
  | ok => rfl

theorem checkShallow_unsignedReply (signature : Signature) :
    { unsignedReply with signature }.checkShallow none Verifier.ed25519 = .ok () := by
  have hm : Qualified.checkContent .metadata ⟨⟨.twig, 4⟩, [0x61, 0x2F, 0x31, 0x00]⟩ = .ok () :=
    eq_ok_of_isOk (by decide +kernel)
  have hc : Qualified.checkContent .content ⟨⟨.utf8, 2⟩, [0x68, 0x69]⟩ = .ok () :=
    eq_ok_of_isOk (by decide +kernel)
  have hp : unsignedReply.parent.isNull = false := by decide
  have hb : { unsignedReply with signature }.checkBody = .ok () :=
    seq_eq_ok_iff.2 ⟨hc, rfl⟩
  have hf : { unsignedReply with signature }.checkFields = .ok () :=
    checkFields_eq_ok_iff.2 ⟨rfl, rfl, hm, fun h => absurd (hp.symm.trans h) nofun, hb, .inr rfl⟩
  exact checkShallow_eq_ok_iff.2 ⟨hf, by simp [unsignedReply, unsigned, identity?], rfl⟩

/-- Two signatures on the unsigned reply make nodes that are accepted under one identifier. -/
theorem tamper_evident_unsignedReply :
    let a := { unsignedReply with signature := .ofFixed .ed25519 (List.replicate 64 1) }
    let b := { unsignedReply with signature := .ofFixed .ed25519 (List.replicate 64 2) }
    a ≠ b ∧ a.id = b.id ∧ { a with signature := b.signature } = b := by
  refine ⟨by decide, rfl, ?_⟩
  have hd : ∀ signature, { unsignedReply with signature }.Delimited :=
    fun _ => sealed_unsignedReply.delimited
  exact (signedBytes_tamper_evident (hd _) (hd _)).2 (checkShallow_unsignedReply _)
    (checkShallow_unsignedReply _) rfl fun _ => rfl

end Node

end Grove
