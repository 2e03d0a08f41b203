import Grove.Proofs.Archive.Forest
import Grove.Proofs.Validation.Sealing

/-! # Built nodes

What is built in the name of a stored identity and below a stored parent passes deep validation
where both of them did, and is read back from its wire form. The parent brings the references of a
reply along, and its own validity says where they lead. So neither the author of the parent nor the
verifier that accepted it matters, but only that the signer's own signatures are accepted.
-/

namespace Grove

namespace Memory

/-- The node is stored, and deep validation accepts it there, with whatever verifier. -/
structure Accepted (m : Memory) (n : Node) : Prop where
  stored : m.get? n.id = some n
  valid : ∃ verify, n.DeepValid m.get? verify
  values : ∀ v ∈ n.values, v.2.WellFormed

variable {m : Memory} {n p : Node} {place thread : Hash} {verify : Verifier}

theorem Accepted.isNull_id (h : m.Accepted n) : n.id.isNull = false := by
  obtain ⟨_, hv⟩ := h.valid
  exact Node.isNull_id_of_checkShallow hv.shallow

theorem Accepted.wellFormed_id (h : m.Accepted n) : n.id.WellFormed := by
  obtain ⟨_, hv⟩ := h.valid
  rw [Node.id_of_checkShallow hv.shallow]
  exact Qualified.wellFormed_digest _

theorem Accepted.checkFields (h : m.Accepted n) : n.checkFields = .ok () := by
  obtain ⟨_, hv⟩ := h.valid
  exact (Node.checkShallow_eq_ok_iff.1 hv.shallow).1

theorem Accepted.depth_of_community (h : m.Accepted n) (hk : n.kind = .community) :
    n.depth = 0 := by
  obtain ⟨-, -, -, hroot, hbody, -⟩ := Node.checkFields_eq_ok_iff.1 h.checkFields
  exact hroot ((Node.isNull_parent_iff hbody).2 (.inr hk))

structure Places (m : Memory) (place thread : Hash) : Prop where
  notNull : place.isNull = false
  wellFormed : place.WellFormed
  wellFormed_thread : thread.WellFormed
  community : ∃ c, m.get? place = some c ∧ c.kind = .community
  root : thread.isNull = false → ∃ r, m.get? thread = some r ∧ r.kind ∈ [.conversation, .reply]

theorem Accepted.places_of_body {content : Content} (h : m.Accepted p)
    (hb : p.body = .reply place thread content) : m.Places place thread := by
  obtain ⟨_, hv⟩ := h.valid
  obtain ⟨-, hvalues, -⟩ := Node.forall_mem_values.1 h.values
  obtain ⟨-, -, -, -, hbody, -⟩ := Node.checkFields_eq_ok_iff.1 h.checkFields
  obtain ⟨hcommunity, hroot⟩ := hv.place _ _ _ hb
  rw [Node.checkBody, hb] at hbody
  simp only [seq_eq_ok_iff, Node.require_eq_ok_iff, Bool.and_eq_true, Bool.not_eq_true'] at hbody
  rw [hb, Body.values, List.forall_mem_cons, List.forall_mem_cons] at hvalues
  obtain ⟨hplace, hthread, -⟩ := hvalues
  exact ⟨hbody.2.2, hplace, hthread, hcommunity, hroot⟩

theorem Accepted.places (h : m.Accepted p) (hplace : Author.replyPlace p = .ok (place, thread)) :
    p.kind ≠ .identity ∧ m.Places place thread := by
  obtain ⟨hk, rfl, rfl⟩ | ⟨hk, rfl, rfl⟩ | ⟨above, content, hb, rfl⟩ := Author.of_replyPlace hplace
  · exact ⟨by simp [hk], h.isNull_id, h.wellFormed_id, by decide, ⟨p, h.stored, hk⟩,
      fun hnull => by cases hnull⟩
  · obtain ⟨_, hv⟩ := h.valid
    obtain ⟨hparent, -⟩ := Node.forall_mem_values.1 h.values
    have hnull := hv.isNull_parent_eq_false (.inl hk)
    obtain ⟨c, hc, -, -, hcommunity⟩ := hv.exists_parent hnull
    refine ⟨by simp [hk], hnull, ?_, h.wellFormed_id, ⟨c, hc, hcommunity hk⟩, fun _ => ?_⟩
    · exact hparent ⟨_, p.parent⟩ List.mem_cons_self
    · exact ⟨p, h.stored, by simp [hk]⟩
  · have hk : p.kind = .reply := by simp [Node.kind, hb, Body.kind]
    have hplaces := h.places_of_body hb
    refine ⟨by simp [hk], ?_⟩
    unfold Node.threadRoot
    split
    -- A reply that opens a thread is the root of it.
    · exact ⟨hplaces.notNull, hplaces.wellFormed, h.wellFormed_id, hplaces.community,
        fun _ => ⟨p, h.stored, by simp [hk]⟩⟩
    · exact hplaces

/-- The signer writes as the author, in the name of an accepted identity. -/
structure Licensed (m : Memory) (signer : Signer) (a : Author) : Prop where
  author : ∃ i identity, m.Accepted i ∧ i.identity? = some identity ∧
    Author.new identity signer = .ok a

/-- The author has the key of an identity that is accepted in the memory. -/
structure Enrolled (m : Memory) (a : Author) : Prop where
  identity : ∃ i, m.Accepted i ∧ i.identity? = some a.identity
  publicKey : a.identity.publicKey = a.signer.publicKey

variable {a : Author}

theorem Licensed.enrolled {signer : Signer} (h : m.Licensed signer a) :
    m.Enrolled a ∧ a.signer = signer := by
  obtain ⟨i, identity, hi, hidentity, hnew⟩ := h.author
  unfold Author.new at hnew
  split at hnew
  · next hkey =>
    obtain rfl := Except.ok.inj hnew
    exact ⟨⟨⟨i, hi, hidentity⟩, hkey.symm⟩, rfl⟩
  · exact absurd hnew nofun

theorem Enrolled.exists_identity (h : m.Enrolled a) :
    ∃ i, m.Accepted i ∧ m.get? a.identity.id = some i ∧ i.id = a.identity.id ∧
      i.kind = .identity ∧ i.identity? = some a.identity := by
  obtain ⟨i, hi, hidentity⟩ := h.identity
  have hk : i.kind = .identity := by
    by_contra hk
    exact absurd ((Node.identity?_eq_none hk).symm.trans hidentity) nofun
  obtain ⟨name, key, hb⟩ := Node.exists_body_of_identity hk
  have hid : i.id = a.identity.id := by
    rw [Node.identity?_of_body hb] at hidentity
    exact congrArg Identity.id (Option.some.inj hidentity)
  exact ⟨i, hi, hid ▸ hi.stored, hid, hk, hidentity⟩

structure Fits (m : Memory) (verify : Verifier) (parent : Hash) (n : Node) : Prop where
  isSealed : n.Sealed
  valid : n.DeepValid m.get? verify
  parent : n.parent = parent

section Authored

variable {header : Header} {body : Body} {parent : Hash} {depth : UInt32}
  (ha : m.Enrolled a) (hs : a.signer.Vouched verify)
  (hdraft : Node.Drafted parent depth a.identity.id header)
  (hseal : Node.sealWith header body a.signer = .ok n) (hk : body.kind ≠ .identity)
  (hbody : n.checkBody = .ok ()) (hroot : parent.isNull = true → depth = 0)
  (hparent : parent.isNull = false → ∃ p, m.get? parent = some p ∧
    p.kind ∈ .community :: n.otherParentKinds ∧ depth = p.depth + 1)
  (hplace : ∀ place thread content, body = .reply place thread content → m.Places place thread)

include ha hs hdraft hseal hk hbody hroot hparent hplace

/-- What an enrolled author has signed is accepted if its references lead to the right nodes. -/
theorem Enrolled.deepValid_of_sealWith : n.DeepValid m.get? verify := by
  obtain ⟨i, hi, hget, hid, hikind, hidentity⟩ := ha.exists_identity
  obtain ⟨rfl, rfl, -, -⟩ := Node.of_sealWith hseal
  replace hk : n.kind ≠ .identity := hk
  have hsigner : n.signerIn m.get? = some a.identity := by
    rw [Node.signerIn, if_neg hk, hdraft.signer, hget, Option.bind_some, hidentity]
  refine ⟨fun _ => ⟨i, ?_, hikind⟩, ?_, fun place thread content hb => ?_, ?_⟩
  · rw [hdraft.signer, hget]
  · rw [hdraft.parent, hdraft.depth]
    exact hparent
  · have hp := hplace place thread content hb
    exact ⟨hp.community, hp.root⟩
  · refine Node.checkShallow_of_sealWith hdraft hseal hs hbody hroot (.inr ?_) ?_
    · rw [← hid]
      exact hi.isNull_id
    · rw [hsigner, Node.identity?_eq_none hk, Option.none_or]
      rintro _ ⟨⟩
      refine ⟨?_, ha.publicKey⟩
      rw [Node.expectedSigner, if_neg hk, hdraft.signer]

theorem Enrolled.fits_of_sealWith (hw : parent.WellFormed)
    (hvalues : ∀ v ∈ body.values, v.2.WellFormed) : m.Fits verify parent n := by
  obtain ⟨i, hi, -, hid, -⟩ := ha.exists_identity
  have hsealed := Node.sealed_of_sealWith hdraft hseal hs hw (hid ▸ hi.wellFormed_id) hvalues
  have hvalid := ha.deepValid_of_sealWith hs hdraft hseal hk hbody hroot hparent hplace
  refine ⟨hsealed, hvalid, ?_⟩
  obtain ⟨rfl, -⟩ := Node.of_sealWith hseal
  exact hdraft.parent

end Authored

section Builders

variable {signer : Signer} {name content : String} {t : Twig} {created : UInt64}

theorem fits_of_newIdentity (hs : signer.Vouched verify) (ht : t.Valid)
    (h : Node.newIdentity signer name t created = .ok n) : m.Fits verify .null n := by
  obtain ⟨header, hheader, h⟩ := bind_eq_ok_iff.1 h
  obtain ⟨name, hname, hseal⟩ := bind_eq_ok_iff.1 h
  obtain ⟨hw, hcheck⟩ := Qualified.of_ofName (mapError_eq_ok_iff.1 hname)
  have hdraft := Node.drafted_of_draftHeader ht hheader
  have hsealed := Node.sealed_of_sealWith hdraft hseal hs (by decide) (by decide)
    (by simp [Body.values, hw, hs.publicKey])
  obtain ⟨rfl, hb, -, -⟩ := Node.of_sealWith hseal
  have hk : n.kind = .identity := by simp [Node.kind, hb, Body.kind]
  have hnull : n.parent.isNull = true := by rw [hdraft.parent]; rfl
  have hbody : n.checkBody = .ok () := by
    rw [Node.checkBody, hb]
    refine seq_eq_ok_iff.2 ⟨hcheck, seq_eq_ok_iff.2 ⟨Node.require_eq_ok_iff.2 ?_, ?_⟩⟩
    · rw [hs.isEd25519]
      decide
    · refine Node.require_eq_ok_iff.2 ?_
      rw [hnull, hdraft.signer]
      rfl
  refine ⟨hsealed, ⟨fun hne => absurd hk hne, fun hne => ?_, fun _ _ _ hr => ?_, ?_⟩, hdraft.parent⟩
  · cases hnull.symm.trans hne
  · cases hb.symm.trans hr
  refine Node.checkShallow_of_sealWith hdraft hseal hs hbody (fun _ => rfl) (.inl hk) ?_
  rw [Node.identity?_of_body hb, Option.some_or]
  rintro _ ⟨⟩
  exact ⟨by rw [Node.expectedSigner, if_pos hk], rfl⟩

variable (ha : m.Enrolled a) (hs : a.signer.Vouched verify) (ht : t.Valid)

include ha hs ht

theorem Enrolled.fits_of_newCommunity (h : a.newCommunity name t created = .ok n) :
    m.Fits verify .null n := by
  obtain ⟨header, hheader, h⟩ := bind_eq_ok_iff.1 h
  obtain ⟨name, hname, hseal⟩ := bind_eq_ok_iff.1 h
  obtain ⟨hw, hcheck⟩ := Qualified.of_ofName (mapError_eq_ok_iff.1 hname)
  have hdraft := Node.drafted_of_draftHeader ht hheader
  obtain ⟨rfl, hb, -, -⟩ := Node.of_sealWith hseal
  have hbody : n.checkBody = .ok () := by
    rw [Node.checkBody, hb]
    refine seq_eq_ok_iff.2 ⟨hcheck, Node.require_eq_ok_iff.2 ?_⟩
    rw [hdraft.parent]
    rfl
  exact ha.fits_of_sealWith hs hdraft hseal (by simp [Body.kind]) hbody (fun _ => rfl)
    (fun hnull => by cases hnull) (fun _ _ _ hr => by cases hr) (by decide)
    (by simp [Body.values, hw])

theorem Enrolled.fits_of_newConversation {community : { n : Node // n.kind = .community }}
    (hc : m.Accepted community.val) (h : a.newConversation community content t created = .ok n) :
    m.Fits verify community.val.id n := by
  obtain ⟨header, hheader, h⟩ := bind_eq_ok_iff.1 h
  obtain ⟨content, hcontent, hseal⟩ := bind_eq_ok_iff.1 h
  obtain ⟨hw, hcheck⟩ := Qualified.of_ofText (mapError_eq_ok_iff.1 hcontent)
  have hdraft := Node.drafted_of_draftHeader ht hheader
  obtain ⟨rfl, hb, -, -⟩ := Node.of_sealWith hseal
  have hnull := hc.isNull_id
  have hbody : n.checkBody = .ok () := by
    rw [Node.checkBody, hb]
    refine seq_eq_ok_iff.2 ⟨hcheck, Node.require_eq_ok_iff.2 ?_⟩
    rw [hdraft.parent, hnull]
    rfl
  refine ha.fits_of_sealWith hs hdraft hseal (by simp [Body.kind]) hbody (fun hroot => ?_)
    (fun _ => ?_) (fun _ _ _ hr => ?_) hc.wellFormed_id (by simp [Body.values, hw])
  · cases hnull.symm.trans hroot
  · exact ⟨_, hc.stored, by simp [community.property], rfl⟩
  · cases hr

theorem Enrolled.fits_of_newReply (hp : m.Accepted p)
    (h : a.newReply p content t created = .ok n) : m.Fits verify p.id n := by
  obtain ⟨⟨place, thread⟩, hplace, h⟩ := bind_eq_ok_iff.1 h
  obtain ⟨header, hheader, h⟩ := bind_eq_ok_iff.1 h
  obtain ⟨content, hcontent, hseal⟩ := bind_eq_ok_iff.1 h
  obtain ⟨hw, hcheck⟩ := Qualified.of_ofText (mapError_eq_ok_iff.1 hcontent)
  obtain ⟨hkind, hplaces⟩ := hp.places hplace
  have hdraft := Node.drafted_of_draftHeader ht hheader
  obtain ⟨rfl, hb, -, -⟩ := Node.of_sealWith hseal
  have hnull := hp.isNull_id
  have hbody : n.checkBody = .ok () := by
    rw [Node.checkBody, hb]
    refine seq_eq_ok_iff.2 ⟨hcheck, Node.require_eq_ok_iff.2 ?_⟩
    rw [hdraft.parent, hnull, hplaces.notNull]
    rfl
  have hothers : n.otherParentKinds = [.conversation, .reply] := by
    rw [Node.otherParentKinds, if_neg (by simp [Node.kind, hb, Body.kind])]
  refine ha.fits_of_sealWith hs hdraft hseal (by simp [Body.kind]) hbody (fun hroot => ?_)
    (fun _ => ?_) ?_ hp.wellFormed_id ?_
  · cases hnull.symm.trans hroot
  · refine ⟨p, hp.stored, ?_, rfl⟩
    rw [hothers]
    rcases p.kind_cases with (hk | hk) | hk | hk
    · exact absurd hk hkind
    all_goals simp [hk]
  · rintro _ _ _ ⟨⟩
    exact hplaces
  · simp [Body.values, hw, hplaces.wellFormed, hplaces.wellFormed_thread]

end Builders

/-- What a signer builds: its own identity, or in the name of an accepted identity a community or
something below an accepted parent. Only a parent on the last level is too deep. -/
inductive Built (m : Memory) (signer : Signer) : Node → Prop
  | identity {name : String} {t : Twig} {created : UInt64} {n : Node} (metadata : t.Reached)
      (built : Node.newIdentity signer name t created = .ok n) : Built m signer n
  | community {a : Author} {name : String} {t : Twig} {created : UInt64} {n : Node}
      (author : m.Licensed signer a) (metadata : t.Reached)
      (built : a.newCommunity name t created = .ok n) : Built m signer n
  | conversation {a : Author} {c : { n : Node // n.kind = .community }} {content : String}
      {t : Twig} {created : UInt64} {n : Node} (author : m.Licensed signer a)
      (metadata : t.Reached) (accepted : m.Accepted c.val)
      (built : a.newConversation c content t created = .ok n) : Built m signer n
  | reply {a : Author} {p : Node} {content : String} {t : Twig} {created : UInt64} {n : Node}
      (author : m.Licensed signer a) (metadata : t.Reached) (accepted : m.Accepted p)
      (level : p.depth.toNat + 1 < 2 ^ 32) (built : a.newReply p content t created = .ok n) :
      Built m signer n

section Built

variable {ω : Type} {signer : Signer}

theorem Built.fits (hs : signer.Vouched verify) (h : m.Built signer n) :
    ∃ parent, m.Fits verify parent n ∧
      (parent.isNull = false → ∀ p, m.get? parent = some p → p.depth.toNat + 1 < 2 ^ 32) := by
  cases h with
  | identity metadata built =>
    exact ⟨_, fits_of_newIdentity hs metadata.valid built, nofun⟩
  | community author metadata built =>
    obtain ⟨ha, rfl⟩ := author.enrolled
    exact ⟨_, ha.fits_of_newCommunity hs metadata.valid built, nofun⟩
  | @conversation _ c _ _ _ _ author metadata accepted built =>
    obtain ⟨ha, rfl⟩ := author.enrolled
    refine ⟨_, ha.fits_of_newConversation hs metadata.valid accepted built, fun _ p hp => ?_⟩
    obtain rfl := Option.some.inj (accepted.stored.symm.trans hp)
    rw [accepted.depth_of_community c.property]
    decide
  | reply author metadata accepted level built =>
    obtain ⟨ha, rfl⟩ := author.enrolled
    refine ⟨_, ha.fits_of_newReply hs metadata.valid accepted built, fun _ p hp => ?_⟩
    obtain rfl := Option.some.inj (accepted.stored.symm.trans hp)
    exact level

/-- What is built passes deep validation, is read back from its wire form, and is one level below
its parent, if it has one. -/
theorem run_checkDeep_built (hs : signer.Vouched verify) (h : m.Built signer n) (w : ω) :
    (n.checkDeep store.get verify).run (m, w) = (.ok (), m, w) ∧
      Node.ofBytes n.encode = .ok n ∧
        (n.parent.isNull = false →
          ∃ p, m.get? n.parent = some p ∧ n.depth.toNat = p.depth.toNat + 1) := by
  obtain ⟨parent, hfits, hlevel⟩ := h.fits hs
  obtain rfl := hfits.parent
  refine ⟨?_, Node.ofBytes_eq_ok_iff.2 ⟨hfits.isSealed, rfl⟩, fun hnull => ?_⟩
  · rw [Node.answers_checkDeep (answers_get m w) n verify, Node.checkDeep_eq_ok_iff.2 hfits.valid]
  · obtain ⟨p, hp, -, hdepth, -⟩ := hfits.valid.exists_parent hnull
    refine ⟨p, hp, ?_⟩
    rw [hdepth, UInt32.toNat_add, UInt32.toNat_one, Nat.mod_eq_of_lt (hlevel hnull p hp)]

def planted : Memory :=
  .ofList Archive.plot

theorem accepted_plot : ∀ k ∈ Archive.plot, planted.Accepted k := by
  have hstored : ∀ k ∈ Archive.plot, planted.get? k.id = some k := by decide +kernel
  have hvalid : ∀ k ∈ Archive.plot,
      (k.checkDeep (lookUp planted.get?) fun _ _ _ => true : Except StoreError Unit).isOk := by
    decide +kernel
  have hvalues : ∀ k ∈ Archive.plot, ∀ v ∈ k.values, v.2.WellFormed := by decide +kernel
  exact fun k hk => ⟨hstored k hk,
    ⟨_, Node.checkDeep_eq_ok_iff.1 (Node.eq_ok_of_isOk (hvalid k hk))⟩, hvalues k hk⟩

/-- Someone makes a new identity, and in the name of the identity of the plot founds a community,
opens a thread in the community of the plot and answers the reply there, which nobody has signed. -/
theorem run_checkDeep_built_answer :
    ∃ a place p identity community conversation answer,
      planted.Licensed .digesting a ∧ place.val ∈ Archive.plot ∧ p ∈ Archive.plot ∧
      p.kind = .reply ∧
      Node.newIdentity .digesting "eve" .empty 7 = .ok identity ∧
      a.newCommunity "club" .empty 7 = .ok community ∧
      a.newConversation place "start" .empty 7 = .ok conversation ∧
      a.newReply p "and" .empty 7 = .ok answer ∧
      (∀ n ∈ [identity, community, conversation, answer],
        (n.checkDeep store.get .digesting).run (planted, ()) = (.ok (), planted, ()) ∧
          Node.ofBytes n.encode = .ok n) ∧
      conversation.parent = place.val.id ∧ conversation.depth.toNat = 1 ∧
      answer.parent = p.id ∧ answer.depth.toNat = 2 := by
  have hplot : ∃ p ∈ Archive.plot, p.kind = .reply ∧ p.depth = 1 ∧
      ∃ c ∈ Archive.plot, ∃ place ∈ c.asCommunity?, place.val = c ∧ c.depth = 0 ∧
      ∃ i ∈ Archive.plot, ∃ identity ∈ i.identity?,
        ∃ a ∈ (Author.new identity .digesting).toOption,
          (∃ n ∈ (Node.newIdentity .digesting "eve" .empty 7).toOption, n.kind = .identity) ∧
          (∃ n ∈ (a.newCommunity "club" .empty 7).toOption, n.kind = .community) ∧
          (∃ n ∈ (a.newConversation place "start" .empty 7).toOption, n.parent = c.id) ∧
          ∃ n ∈ (a.newReply p "and" .empty 7).toOption, n.parent = p.id := by
    decide +kernel
  obtain ⟨p, hp, hk, hdepth, _, hc, place, -, rfl, hroot, i, hi, identity, hidentity, a, ha,
    ⟨new, hnew, -⟩, ⟨club, hclub, -⟩, ⟨start, hstart, habove⟩, n, hn, hparent⟩ := hplot
  replace hnew := Node.eq_ok_of_mem_toOption hnew
  replace hclub := Node.eq_ok_of_mem_toOption hclub
  replace hstart := Node.eq_ok_of_mem_toOption hstart
  replace hn := Node.eq_ok_of_mem_toOption hn
  have hcommunity := accepted_plot place.val hc
  have haccepted := accepted_plot p hp
  have hlevel : p.depth.toNat + 1 < 2 ^ 32 := by
    rw [hdepth]
    decide
  have hlicensed : planted.Licensed .digesting a :=
    ⟨i, identity, accepted_plot i hi, hidentity, Node.eq_ok_of_mem_toOption ha⟩
  have hall (n : Node) (h : planted.Built .digesting n) :=
    run_checkDeep_built Signer.vouched_digesting h ()
  obtain ⟨hrunNew, hreadNew, -⟩ := hall new (.identity .empty hnew)
  obtain ⟨hrunClub, hreadClub, -⟩ := hall club (.community hlicensed .empty hclub)
  obtain ⟨hrunStart, hreadStart, hbelowStart⟩ :=
    hall start (.conversation hlicensed .empty hcommunity hstart)
  obtain ⟨hrun, hread, hbelow⟩ := hall n (.reply hlicensed .empty haccepted hlevel hn)
  rw [habove] at hbelowStart
  obtain ⟨_, hq, hcountStart⟩ := hbelowStart hcommunity.isNull_id
  obtain rfl := Option.some.inj (hcommunity.stored.symm.trans hq)
  rw [hroot] at hcountStart
  rw [hparent] at hbelow
  obtain ⟨_, hq, hcount⟩ := hbelow haccepted.isNull_id
  obtain rfl := Option.some.inj (haccepted.stored.symm.trans hq)
  rw [hdepth] at hcount
  refine ⟨a, place, p, new, club, start, n, hlicensed, hc, hp, hk, hnew, hclub, hstart, hn, ?_,
    habove, hcountStart, hparent, hcount⟩
  simp only [List.forall_mem_cons, List.not_mem_nil, false_imp_iff, implies_true, and_true]
  exact ⟨⟨hrunNew, hreadNew⟩, ⟨hrunClub, hreadClub⟩, ⟨hrunStart, hreadStart⟩, hrun, hread⟩

end Built

end Memory

end Grove
