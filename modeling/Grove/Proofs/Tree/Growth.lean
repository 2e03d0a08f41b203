import Grove.Proofs.Archive.Thread
import Grove.Proofs.Store.Consistent
import Grove.Proofs.Validation.Sealing
import Grove.Proofs.Wire.SignedBytes

/-! # Trees that authors grow

Authors put nodes below others that authors made before. Each of these hangs one level below its
parent, and a reply takes its community and thread over from it. Wherever the same holds of all
nodes in a memory, a reply belongs to the community that its ancestry ends in, and to the thread
that the node below the community opens. That two nodes do not have one digest is what it takes for
a memory to hold all that was grown; in which order it gets the nodes does not matter.
-/

namespace Grove

open Node

namespace Memory

variable {m : Memory} {n p root : Node} {line : List Node} {place thread : Hash} {content : Content}

/-- A forest in which conversations hang from communities, and replies take their place over from
their parents. -/
structure Tended (m : Memory) : Prop extends Forest m where
  conversation : ∀ n ∈ m.nodes, n.kind = .conversation →
    ∃ p, m.get? n.parent = some p ∧ p.kind = .community
  reply : ∀ n ∈ m.nodes, n.TakesPlace m.get?

namespace Tended

theorem rooted (h : m.Tended) : m.Rooted where
  toIndexed := h.toIndexed
  named n hn := (h.grounded n hn).named
  root n hn hk := ((h.grounded n hn).root hk).1
  conversation := h.conversation

/-- Where a reply belongs is handed down to it from the community, parent by parent. -/
theorem belongs (h : m.Tended) (hn : n ∈ m.nodes)
    (hline : Lineage m.get? n.parent (line ++ [root])) (hroot : root.kind = .community) :
    ∀ k ∈ n :: line, k.Belongs m.get? := by
  refine (h.rooted.forall_takesPlace_iff hline hroot).1 (List.forall_mem_cons.2 ⟨h.reply n hn, ?_⟩)
  exact fun k hk => h.reply k (mem_of_lineage hline (List.mem_append_left _ hk))

theorem run_reply {ω : Type} (h : m.Tended) (w : ω) (hn : n ∈ m.nodes)
    (hbody : n.body = .reply place thread content) :
    ∃ between root opener,
      (store.ancestry n.id).run (m, w) = (.ok ((between ++ [root]).map (·.id)), m, w) ∧
      (∀ p ∈ between ++ [root], m.get? p.id = some p) ∧
      (between ++ [root]).length = n.depth.toNat ∧ root.kind = .community ∧ root.id = place ∧
      (n :: between).getLast? = some opener ∧ opener.parent = place ∧
      opener.id = threadRoot n.id thread ∧
      (store.getConversation place (threadRoot n.id thread)).run (m, w) =
        (.ok (some opener), m, w) ∧
      ∀ c t, (store.getReply c t n.id).run (m, w) =
        (.ok (if c = place ∧ t = threadRoot n.id thread then some n else none), m, w) := by
  have hk : n.kind = .conversation ∨ n.kind = .reply := .inr (by simp [kind, hbody, Body.kind])
  obtain ⟨line, hline, -, hcount, hlast⟩ := h.lineage hn
  obtain ⟨root, hlast, hroot⟩ := hlast hk
  obtain ⟨between, rfl⟩ := List.getLast?_eq_some_iff.1 hlast
  have hlength : (between ++ [root]).length = n.depth.toNat := by
    have hlength := congrArg List.length hcount
    rwa [List.length_map, List.length_reverse, List.length_range] at hlength
  have hr := h.rooted
  have hstored {p : Node} (hp : p ∈ m.nodes) : m.get? p.id = some p := hr.get?_id hp
  have hancestry := run_ancestry (w := w) (hstored hn) hline.ascent (hlength ▸ h.depth_lt hn)
  have hall := h.belongs hn hline hroot
  obtain ⟨rfl, -⟩ := (hr.belongs_iff hline hroot hbody).1 (hall n List.mem_cons_self)
  obtain ⟨-, opener, hopener, hid, hparent, hopens⟩ := hr.exists_opener hn hline hroot hall hbody
  have hget : m.get? opener.id = some opener := by
    rcases List.mem_cons.1 (List.mem_of_getLast? hopener) with rfl | ho
    · exact hstored hn
    · exact hstored (mem_of_lineage hline (List.mem_append_left _ ho))
  refine ⟨between, root, opener, hancestry, fun p hp => hstored (mem_of_lineage hline hp),
    hlength, hroot, rfl, hopener, hparent, hid, ?_, fun c t => ?_⟩
  · show (Except.ok ((m.get? (threadRoot n.id thread)).filter fun k => k.opensThreadIn root.id),
      m, w) = _
    rw [← hid, hget, Option.filter_some, if_pos hopens]
  · show (Except.ok ((m.get? n.id).filter fun k => k.repliesIn c t), m, w) = _
    have hfound : n.repliesIn c t = true ↔ c = root.id ∧ t = threadRoot n.id thread := by
      simp only [repliesIn, hbody, Bool.and_eq_true, decide_eq_true_eq]
      exact and_congr eq_comm eq_comm
    rw [hstored hn, Option.filter_some]
    simp only [hfound]

end Tended

end Memory

namespace Author

/-- Nodes that authors made, the latest first, and each below one that was there before. Identities
have keys and authors have identifiers that are as long as they say, and no parent is so deep that
the depth of its child could not be said. -/
inductive Planted : List Node → Prop
  | bare : Planted []
  | identity {l : List Node} {signer : Signer} {name : String} {t : Twig} {created : UInt64}
      {n : Node} (planted : Planted l) (key : signer.publicKey.WellFormed)
      (made : Node.newIdentity signer name t created = .ok n) : Planted (n :: l)
  | community {l : List Node} {a : Author} {name : String} {t : Twig} {created : UInt64} {n : Node}
      (planted : Planted l) (author : a.identity.id.WellFormed)
      (made : a.newCommunity name t created = .ok n) : Planted (n :: l)
  | conversation {l : List Node} {a : Author} {content : String} {t : Twig} {created : UInt64}
      {n : Node} {c : { n : Node // n.kind = .community }} (planted : Planted l)
      (author : a.identity.id.WellFormed) (parent : c.val ∈ l)
      (made : a.newConversation c content t created = .ok n) : Planted (n :: l)
  | reply {l : List Node} {a : Author} {content : String} {t : Twig} {created : UInt64}
      {n p : Node} (planted : Planted l) (author : a.identity.id.WellFormed) (parent : p ∈ l)
      (depth : p.depth.toNat + 1 < 2 ^ 32)
      (made : a.newReply p content t created = .ok n) : Planted (n :: l)

variable {l : List Node} {n p : Node} {signer : Signer} {header : Header} {body : Body} {t : Twig}
  {parent signerId place thread : Hash} {depth : UInt32} {created : UInt64}

structure Made (parent : Hash) (depth : UInt32) (body : Body) (n : Node) : Prop where
  parent : n.parent = parent
  depth : n.depth = depth
  body : n.body = body
  isNull_id : n.id.isNull = false
  wellFormed_id : n.id.WellFormed
  values : ∀ v ∈ n.signedValues, v.2.WellFormed

theorem made_of_sealWith (hheader : draftHeader parent depth created t signerId = .ok header)
    (hseal : sealWith header body signer = .ok n) (hparent : parent.WellFormed)
    (hsigner : signerId.WellFormed) (hbody : ∀ v ∈ body.values, v.2.WellFormed) :
    Made parent depth body n := by
  obtain ⟨metadata, hmetadata, hpure⟩ := bind_eq_ok_iff.1 hheader
  obtain rfl := pure_eq_ok_iff.1 hpure
  obtain ⟨hn, hb, -, hid⟩ := of_sealWith hseal
  have hkind : n.idDescriptor.kind = .sha512_256 := by rw [hn]; rfl
  have hdigest : n.id = .ofFixed .sha512_256 (Sha512.digest256 n.signedBytes) := by
    rw [hid, computeId, hkind]
    rfl
  have hw := (Qualified.new_eq_ok_iff.1 (mapError_eq_ok_iff.1 (mapError_eq_ok_iff.1 hmetadata))).1
  refine ⟨by rw [hn], by rw [hn], hb, by rw [hdigest]; rfl, ?_, ?_⟩
  · rw [hdigest]
    exact Qualified.wellFormed_digest _
  · rw [signedValues, hn, hb]
    refine List.forall_mem_append.2 ⟨?_, hbody⟩
    simp [Header.values, hparent, hw, hsigner]

structure Bears (p n : Node) : Prop where
  parent : n.parent = p.id
  kind : p.kind ≠ .identity
  depth : n.depth.toNat = p.depth.toNat + 1
  community : n.kind = .conversation → p.kind = .community
  place {place thread : Hash} {content : Content} : n.body = .reply place thread content →
    replyPlace p = .ok (place, thread)

theorem Bears.congr {q : Node} (h : Bears p n) (hid : q.id = p.id)
    (hheader : q.toHeader = p.toHeader) (hbody : q.body = p.body) : Bears q n := by
  obtain ⟨header, body, signature, id⟩ := p
  obtain ⟨header', body', signature', id'⟩ := q
  obtain rfl : id' = id := hid
  obtain rfl : header' = header := hheader
  obtain rfl : body' = body := hbody
  exact ⟨h.parent, h.kind, h.depth, h.community, h.place⟩

structure Sown (l : List Node) (n : Node) : Prop where
  isNull_id : n.id.isNull = false
  wellFormed_id : n.id.WellFormed
  values : ∀ v ∈ n.signedValues, v.2.WellFormed
  root : n.kind = .identity ∨ n.kind = .community → n.parent.isNull = true ∧ n.depth = 0
  below : n.kind = .conversation ∨ n.kind = .reply → ∃ p ∈ l, Bears p n

theorem Sown.mono {l' : List Node} (h : Sown l n) (hsub : l ⊆ l') : Sown l' n where
  isNull_id := h.isNull_id
  wellFormed_id := h.wellFormed_id
  values := h.values
  root := h.root
  below hk := (h.below hk).imp fun _ hp => ⟨hsub hp.1, hp.2⟩

theorem Made.sown_root (h : Made .null 0 body n)
    (hk : body.kind = .identity ∨ body.kind = .community) : Sown l n where
  isNull_id := h.isNull_id
  wellFormed_id := h.wellFormed_id
  values := h.values
  root _ := ⟨by rw [h.parent]; rfl, h.depth⟩
  below hn := by
    rw [kind, h.body] at hn
    rcases hk with hk | hk <;> simp [hk] at hn

theorem Made.sown_below (h : Made p.id (p.depth + 1) body n) (hp : p ∈ l)
    (hk : body.kind = .conversation ∨ body.kind = .reply) (hparent : p.kind ≠ .identity)
    (hdepth : p.depth.toNat + 1 < 2 ^ 32)
    (hcommunity : body.kind = .conversation → p.kind = .community)
    (hplace : ∀ place thread content, body = .reply place thread content →
      replyPlace p = .ok (place, thread)) : Sown l n where
  isNull_id := h.isNull_id
  wellFormed_id := h.wellFormed_id
  values := h.values
  root hn := by
    rw [kind, h.body] at hn
    rcases hk with hk | hk <;> simp [hk] at hn
  below _ := by
    refine ⟨p, hp, h.parent, hparent, ?_, ?_, fun hb => hplace _ _ _ (h.body.symm.trans hb)⟩
    · rw [h.depth, UInt32.toNat_add, UInt32.toNat_one, Nat.mod_eq_of_lt hdepth]
    · rwa [kind, h.body]

theorem Sown.wellFormed_replyPlace (h : Sown l p) (hplace : replyPlace p = .ok (place, thread)) :
    p.kind ≠ .identity ∧ place.WellFormed ∧ thread.WellFormed := by
  obtain ⟨hheader, hvalues⟩ := List.forall_mem_append.1 h.values
  rw [Header.values, List.forall_mem_cons] at hheader
  obtain ⟨hk, rfl, rfl⟩ | ⟨hk, rfl, rfl⟩ | ⟨_, _, hb, rfl⟩ := of_replyPlace hplace
  · exact ⟨by simp [hk], h.wellFormed_id, by decide⟩
  · exact ⟨by simp [hk], hheader.1, h.wellFormed_id⟩
  · rw [hb, Body.values, List.forall_mem_cons, List.forall_mem_cons] at hvalues
    refine ⟨by simp [kind, hb, Body.kind], hvalues.1, ?_⟩
    unfold threadRoot
    split
    · exact h.wellFormed_id
    · exact hvalues.2.1

theorem wellFormed_of_ofText {s : String} {c : Content}
    (h : (Qualified.ofText s).mapError BuildError.field = .ok c) : c.WellFormed :=
  (Qualified.new_eq_ok_iff.1 (mapError_eq_ok_iff.1 (mapError_eq_ok_iff.1 h))).1

/-- Whatever authors do next, all that they made hangs where it should. -/
theorem Planted.sown (h : Planted l) : ∀ n ∈ l, Sown l n := by
  have hnull : Hash.null.WellFormed := by decide
  have hstep {l : List Node} {n : Node} (ih : ∀ n ∈ l, Sown l n) (hn : Sown (n :: l) n) :
      ∀ k ∈ n :: l, Sown (n :: l) k :=
    List.forall_mem_cons.2 ⟨hn, fun k hk => (ih k hk).mono (List.subset_cons_self ..)⟩
  induction h with
  | bare => exact fun n hn => absurd hn List.not_mem_nil
  | identity _ hkey hmade ih =>
    obtain ⟨header, hheader, h⟩ := bind_eq_ok_iff.1 hmade
    obtain ⟨name, hname, hseal⟩ := bind_eq_ok_iff.1 h
    have hw := (Qualified.of_ofName (mapError_eq_ok_iff.1 hname)).1
    have hn := made_of_sealWith hheader hseal hnull hnull (by simp [Body.values, hw, hkey])
    exact hstep ih (hn.sown_root (.inl rfl))
  | community _ hauthor hmade ih =>
    obtain ⟨header, hheader, h⟩ := bind_eq_ok_iff.1 hmade
    obtain ⟨name, hname, hseal⟩ := bind_eq_ok_iff.1 h
    have hw := (Qualified.of_ofName (mapError_eq_ok_iff.1 hname)).1
    have hn := made_of_sealWith hheader hseal hnull hauthor (by simp [Body.values, hw])
    exact hstep ih (hn.sown_root (.inr rfl))
  | @conversation l a _ _ _ n c _ hauthor hc hmade ih =>
    obtain ⟨header, hheader, h⟩ := bind_eq_ok_iff.1 hmade
    obtain ⟨content, hcontent, hseal⟩ := bind_eq_ok_iff.1 h
    have hw := wellFormed_of_ofText hcontent
    have hn := made_of_sealWith hheader hseal (ih _ hc).wellFormed_id hauthor
      (by simp [Body.values, hw])
    have hdepth : c.val.depth = 0 := ((ih _ hc).root (.inr c.property)).2
    exact hstep ih (hn.sown_below (List.mem_cons_of_mem n hc) (.inl rfl) (by simp [c.property])
      (by rw [hdepth]; decide) (fun _ => c.property) (by simp))
  | @reply l a _ _ _ n p _ hauthor hp hdepth hmade ih =>
    obtain ⟨⟨place, thread⟩, hplace, h⟩ := bind_eq_ok_iff.1 hmade
    obtain ⟨header, hheader, h⟩ := bind_eq_ok_iff.1 h
    obtain ⟨content, hcontent, hseal⟩ := bind_eq_ok_iff.1 h
    have hw := wellFormed_of_ofText hcontent
    obtain ⟨hkind, hwplace, hwthread⟩ := (ih p hp).wellFormed_replyPlace hplace
    have hn := made_of_sealWith hheader hseal (ih p hp).wellFormed_id hauthor
      (by simp [Body.values, hw, hwplace, hwthread])
    refine hstep ih (hn.sown_below (List.mem_cons_of_mem n hp) (.inr rfl) hkind hdepth
      (by simp [Body.kind]) ?_)
    rintro _ _ _ ⟨⟩
    exact hplace

/-- Two nodes do not have one identifier unless the bytes that it digests are the same. -/
def Collisionless (l : List Node) : Prop :=
  ∀ a ∈ l, ∀ b ∈ l, a.id = b.id → a.signedBytes = b.signedBytes

theorem Planted.eq_of_id (h : Planted l) (hc : Collisionless l) {a b : Node} (ha : a ∈ l)
    (hb : b ∈ l) (hid : a.id = b.id) : a.toHeader = b.toHeader ∧ a.body = b.body := by
  have hdelimited {n : Node} (hn : n ∈ l) : n.Delimited :=
    fun v hv => ((h.sown n hn).values v hv).delimited
  exact (signedBytes_inj (hdelimited ha) (hdelimited hb)).1 (hc a ha b hb hid)

section Stored

variable {added : List Node} (hadded : ∀ n, n ∈ added ↔ n ∈ l)

include hadded

theorem mem_of_stored (hn : n ∈ (Memory.ofList added).nodes) : n ∈ l :=
  (hadded n).1 (((Memory.within_empty added).foldl_add (List.Subset.refl added)).known hn)

theorem Planted.exists_stored (h : Planted l) (hc : Collisionless l) (hn : n ∈ l) :
    ∃ k, (Memory.ofList added).get? n.id = some k ∧ k.toHeader = n.toHeader ∧ k.body = n.body := by
  have hsome : ((Memory.ofList added).get? n.id).isSome :=
    Memory.isSome_get?_foldl_add.2 (.inr ⟨n, (hadded n).2 hn, rfl⟩)
  obtain ⟨k, hk⟩ := Option.isSome_iff_exists.1 hsome
  have hkl := mem_of_stored hadded (Memory.mem_of_get? hk)
  exact ⟨k, hk, h.eq_of_id hc hkl hn (Memory.id_of_get? hk)⟩

/-- A memory that was given all the planted nodes, in whatever order, is tended. -/
theorem Planted.tended (h : Planted l) (hc : Collisionless l) : (Memory.ofList added).Tended := by
  have hsown {n : Node} (hn : n ∈ (Memory.ofList added).nodes) : Sown l n :=
    h.sown n (mem_of_stored hadded hn)
  -- The parent may be stored with another signature, which no child can tell.
  have hparent {n : Node} (hn : n ∈ (Memory.ofList added).nodes)
      (hk : n.kind = .conversation ∨ n.kind = .reply) :
      ∃ q, (Memory.ofList added).get? n.parent = some q ∧ Bears q n := by
    obtain ⟨p, hp, hbears⟩ := (hsown hn).below hk
    obtain ⟨q, hq, hheader, hbody⟩ := h.exists_stored hadded hc hp
    exact ⟨q, hbears.parent ▸ hq, hbears.congr (Memory.id_of_get? hq) hheader hbody⟩
  have hindexed := ((Memory.within_empty added).foldl_add (List.Subset.refl added)).toIndexed
  refine ⟨⟨hindexed, fun n hn => ⟨(hsown hn).isNull_id, (hsown hn).root, fun hk => ?_⟩⟩,
    fun n hn hk => ?_, fun n hn place thread content hb => ?_⟩
  · obtain ⟨q, hq, hbears⟩ := hparent hn hk
    have hnull := (hsown (Memory.mem_of_get? hq)).isNull_id
    exact ⟨hbears.parent ▸ hnull, q, hq, hbears.kind, hbears.depth⟩
  · obtain ⟨q, hq, hbears⟩ := hparent hn (.inl hk)
    exact ⟨q, hq, hbears.community hk⟩
  · obtain ⟨q, hq, hbears⟩ := hparent hn (.inr (by simp [kind, hb, Body.kind]))
    exact ⟨q, hq, hbears.place hb⟩

end Stored

/-- Once all nodes that authors made are stored, in whatever order, the references of every reply
agree with its ancestry: that is as long as the reply is deep, and ends in the community of the
reply; the thread root of the reply is the node below that, which is found as such; and the reply is
found in its community and thread, and in no other. -/
theorem Planted.run_replies {ω : Type} (h : Planted l) (hc : Collisionless l) {added : List Node}
    (hadded : ∀ n, n ∈ added ↔ n ∈ l) (w : ω) :
    ∃ m, (Memory.store.addAll added).run (.empty, w) = (.ok (), m, w) ∧
      ∀ r ∈ l, ∀ place thread content, r.body = .reply place thread content →
        ∃ k between root opener,
          m.get? r.id = some k ∧ k ∈ l ∧ k.signedBytes = r.signedBytes ∧
          (Memory.store.ancestry r.id).run (m, w) =
            (.ok ((between ++ [root]).map (·.id)), m, w) ∧
          (∀ p ∈ between ++ [root], m.get? p.id = some p) ∧
          (between ++ [root]).length = r.depth.toNat ∧
          root.kind = .community ∧ root.id = place ∧
          (k :: between).getLast? = some opener ∧ opener.parent = place ∧
          opener.id = threadRoot r.id thread ∧
          (Memory.store.getConversation place (threadRoot r.id thread)).run (m, w) =
            (.ok (some opener), m, w) ∧
          ∀ c t, (Memory.store.getReply c t r.id).run (m, w) =
            (.ok (if c = place ∧ t = threadRoot r.id thread then some k else none), m, w) := by
  refine ⟨.ofList added, Memory.run_addAll added, fun r hr place thread content hbody => ?_⟩
  obtain ⟨k, hk, hheader, hkbody⟩ := h.exists_stored hadded hc hr
  have hbytes : k.signedBytes = r.signedBytes := by
    rw [signedBytes, signedBytes, kind, kind, hheader, hkbody]
  have hdepth : k.depth = r.depth := congrArg Header.depth hheader
  have hreply := (h.tended hadded hc).run_reply w (Memory.mem_of_get? hk) (hkbody.trans hbody)
  rw [Memory.id_of_get? hk, hdepth] at hreply
  obtain ⟨between, root, opener, hrest⟩ := hreply
  have hkl := mem_of_stored hadded (Memory.mem_of_get? hk)
  exact ⟨k, between, root, opener, hk, hkl, hbytes, hrest⟩

/-- A community with a reply and a reply to that, the latest first, by an author who puts the same
signature under everything. -/
def grafted : Except BuildError (List Node) := do
  let key : Key := .ofFixed .ed25519Key (List.replicate 32 0x01)
  let sign (_ : Bytes) := .ok (.ofFixed .ed25519 (List.replicate 64 0x00))
  let a : Author := ⟨⟨.ofFixed .sha512_256 (List.replicate 32 0x0A), key⟩, ⟨key, sign⟩⟩
  let place ← a.newCommunity "place" .empty 1000
  let upper ← a.newReply place "upper" .empty 2000
  let lower ← a.newReply upper "lower" .empty 3000
  return [lower, upper, place]

theorem exists_grafted : ∃ l, grafted = .ok l ∧ (l.map (·.id)).Nodup ∧
    (∀ n ∈ l, n.depth.toNat < 3) ∧ ∃ r ∈ l, r.depth = 2 ∧ r.kind = .reply := by
  have h : grafted.toOption.any (fun l => (l.map (·.id)).Nodup ∧
      (∀ n ∈ l, n.depth.toNat < 3) ∧ ∃ r ∈ l, r.depth = 2 ∧ r.kind = .reply) = true := by
    decide +kernel
  cases hl : grafted with
  | error e =>
    rw [hl] at h
    exact absurd h nofun
  | ok l =>
    rw [hl] at h
    exact ⟨l, rfl, of_decide_eq_true h⟩

/-- Both replies are stored before their parents, and the lower one still has its ancestry. -/
theorem run_replies_grafted :
    ∃ l, Planted l ∧ Collisionless l ∧ ∃ r ∈ l, ∃ place thread content m ids,
      r.body = .reply place thread content ∧
      (Memory.store.addAll l).run (.empty, ()) = (.ok (), m, ()) ∧
      (Memory.store.ancestry r.id).run (m, ()) = (.ok ids, m, ()) ∧
      ids.length = 2 ∧ ids.getLast? = some place := by
  obtain ⟨l, hl, hnodup, hdepth, r, hr, htwo, hk⟩ := exists_grafted
  have hplanted : Planted l := by
    obtain ⟨place, hplace, h⟩ := bind_eq_ok_iff.1 hl
    obtain ⟨upper, hupper, h⟩ := bind_eq_ok_iff.1 h
    obtain ⟨lower, hlower, h⟩ := bind_eq_ok_iff.1 h
    obtain rfl := pure_eq_ok_iff.1 h
    simp only [List.forall_mem_cons] at hdepth
    have hroot : Planted [place] := .community .bare (by decide) hplace
    have hchild : Planted [upper, place] := .reply hroot (by decide) (by simp) (by omega) hupper
    exact .reply hchild (by decide) (by simp) (by omega) hlower
  have hc : Collisionless l := by
    intro a ha b hb hid
    rw [List.inj_on_of_nodup_map hnodup ha hb hid]
  obtain ⟨place, thread, content, hbody⟩ :
      ∃ place thread content, r.body = .reply place thread content := by
    cases hb : r.body <;> simp [kind, hb, Body.kind] at hk ⊢
  obtain ⟨m, hm, hreplies⟩ := hplanted.run_replies hc (fun _ => Iff.rfl) ()
  obtain ⟨k, between, root, opener, -, -, -, hancestry, -, hlength, -, rfl, -⟩ :=
    hreplies r hr _ _ _ hbody
  refine ⟨l, hplanted, hc, r, hr, _, thread, content, m, _, hbody, hm, hancestry, ?_, ?_⟩
  · rw [List.length_map, hlength, htwo]
    rfl
  · rw [List.map_append, List.map_singleton, List.getLast?_concat]

end Author

end Grove
