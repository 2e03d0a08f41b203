import Grove.Node.Builder
import Grove.Proofs.Archive.Forest

/-! # Threads

A reply says in which community and thread it is, and its ancestry says so too. Deep validation
looks at each of the two alone: what it accepts hangs from a community, and names some stored
community and thread. They agree for a reply and the replies above it exactly when each takes its
place over from its parent, as authors do; then the reply and its thread are found there.
-/

namespace Grove

namespace Node

variable {lookup : Hash → Option Node} {p : Node} {line : List Node}

/-- A reply names the community at the root of its tree, and the node below that it hangs from. -/
def Belongs (lookup : Hash → Option Node) (n : Node) : Prop :=
  ∀ place thread content, n.body = .reply place thread content →
    ∃ line root, Lineage lookup n.parent (line ++ [root]) ∧ place = root.id ∧
      (thread = .null ↔ n.parent = root.id) ∧
      (thread ≠ .null → ∃ top, line.getLast? = some top ∧ thread = top.id)

/-- A reply is where an author would put it below its parent. -/
def TakesPlace (lookup : Hash → Option Node) (n : Node) : Prop :=
  ∀ place thread content, n.body = .reply place thread content →
    ∃ p, lookup n.parent = some p ∧ Author.replyPlace p = .ok (place, thread)

/-- The thread of a reply that has these nodes between itself and a community. -/
def threadBelow (line : List Node) : Hash :=
  (line.getLast?.map (·.id)).getD .null

theorem threadBelow_concat (top : Node) : threadBelow (line ++ [top]) = top.id := by
  simp [threadBelow]

theorem threadRoot_threadBelow (h : ∀ k ∈ line, k.id.isNull = false) :
    threadRoot p.id (threadBelow line) = threadBelow (p :: line) := by
  obtain rfl | ⟨between, top, rfl⟩ := List.eq_nil_or_concat line
  · rfl
  · rw [List.concat_eq_append] at h ⊢
    have htop := h top (by simp)
    rw [← List.cons_append, threadBelow_concat, threadBelow_concat, threadRoot,
      if_neg (by simp [htop])]

end Node

namespace Memory

open Node

variable {m : Memory} {n p root : Node} {id : Hash} {line : List Node}

theorem mem_of_lineage (hline : Lineage m.get? id line) (hn : n ∈ line) : n ∈ m.nodes := by
  obtain ⟨_, hget⟩ := hline.exists_lookup n hn
  exact mem_of_get? hget

theorem length_lt_of_lineage (hn : n ∈ m.nodes) (hline : Lineage m.get? n.parent line) :
    line.length < m.nodes.length := by
  have hsub : n :: line ⊆ m.nodes := List.cons_subset.2 ⟨hn, fun _ => mem_of_lineage hline⟩
  exact (hline.nodup_cons.subperm hsub).length_le

/-- Nothing is above identities and communities, and communities are above conversations. -/
structure Rooted (m : Memory) : Prop extends Indexed m where
  named : ∀ n ∈ m.nodes, n.id.isNull = false
  root : ∀ n ∈ m.nodes, n.kind = .identity ∨ n.kind = .community → n.parent.isNull = true
  conversation : ∀ n ∈ m.nodes, n.kind = .conversation →
    ∃ p, m.get? n.parent = some p ∧ p.kind = .community

namespace Rooted

theorem get?_id (h : m.Rooted) (hn : n ∈ m.nodes) : m.get? n.id = some n :=
  h.get?_eq_some_iff.2 ⟨hn, rfl⟩

theorem id_ne_null (h : m.Rooted) (hn : n ∈ m.nodes) : n.id ≠ .null := by
  intro hnull
  have hid := h.named n hn
  rw [hnull] at hid
  exact absurd hid (by decide)

theorem kind_of_lineage (h : m.Rooted) (hn : n ∈ m.nodes)
    (hline : Lineage m.get? n.parent (line ++ [root])) :
    n.kind = .conversation ∨ n.kind = .reply := by
  refine n.kind_cases.resolve_left fun hk => ?_
  have hnil := hline.eq_nil (h.root n hn hk)
  simp at hnil

theorem eq_nil_of_conversation (h : m.Rooted) (hn : n ∈ m.nodes) (hk : n.kind = .conversation)
    (hline : Lineage m.get? n.parent (line ++ [root])) : line = [] := by
  obtain _ | ⟨p, line⟩ := line
  · rfl
  obtain ⟨q, hq, hqk⟩ := h.conversation n hn hk
  cases hline with
  | step _ hget above =>
    obtain rfl := Option.some.inj (hq.symm.trans hget)
    have hpk := h.kind_of_lineage (mem_of_get? hq) above
    simp [hqk] at hpk

theorem parent_eq_root_iff (h : m.Rooted) (hline : Lineage m.get? n.parent (line ++ [root]))
    (hroot : root.kind = .community) : n.parent = root.id ↔ line = [] := by
  have hrm : root ∈ m.nodes := mem_of_lineage hline (by simp)
  constructor
  · intro hp
    obtain _ | ⟨p, line⟩ := line
    · rfl
    cases hline with
    | step _ hget above =>
      rw [hp, h.get?_id hrm] at hget
      obtain rfl := Option.some.inj hget
      have hrk := h.kind_of_lineage hrm above
      simp [hroot] at hrk
  · rintro rfl
    cases hline with
    | step _ hget _ => exact (id_of_get? hget).symm

theorem threadBelow_eq_null_iff (h : m.Rooted) (hline : line ⊆ m.nodes) :
    threadBelow line = .null ↔ line = [] := by
  constructor
  · intro hnull
    obtain rfl | ⟨between, top, rfl⟩ := List.eq_nil_or_concat line
    · rfl
    rw [List.concat_eq_append] at hnull hline
    rw [threadBelow_concat] at hnull
    exact absurd hnull (h.id_ne_null (hline (by simp)))
  · rintro rfl
    rfl

theorem belongs_iff (h : m.Rooted) (hline : Lineage m.get? n.parent (line ++ [root]))
    (hroot : root.kind = .community) {place thread : Hash} {content : Content}
    (hbody : n.body = .reply place thread content) :
    n.Belongs m.get? ↔ place = root.id ∧ thread = threadBelow line := by
  have hparent := h.parent_eq_root_iff hline hroot
  constructor
  · intro hb
    obtain ⟨line', root', hline', hplace, hnull, hthread⟩ := hb _ _ _ hbody
    obtain ⟨rfl, hr⟩ := List.append_inj' (hline'.unique hline) rfl
    obtain rfl := List.singleton_inj.1 hr
    refine ⟨hplace, ?_⟩
    by_cases ht : thread = .null
    · rw [hparent.1 (hnull.1 ht), ht]
      rfl
    · obtain ⟨top, htop, rfl⟩ := hthread ht
      rw [threadBelow, htop, Option.map_some, Option.getD_some]
  · rintro ⟨rfl, rfl⟩ _ _ _ hbody'
    obtain ⟨rfl, rfl, rfl⟩ := Body.reply.inj (hbody.symm.trans hbody')
    have hsub : line ⊆ m.nodes := fun k hk => mem_of_lineage hline (List.mem_append_left _ hk)
    have hnull := h.threadBelow_eq_null_iff hsub
    refine ⟨line, root, hline, rfl, hnull.trans hparent.symm, fun ht => ?_⟩
    obtain rfl | ⟨between, top, rfl⟩ := List.eq_nil_or_concat line
    · exact absurd rfl ht
    · rw [List.concat_eq_append, threadBelow_concat]
      exact ⟨top, by simp, rfl⟩

theorem replyPlace_eq (h : m.Rooted) (hline : Lineage m.get? n.parent (line ++ [root]))
    (hroot : root.kind = .community) (hp : m.get? n.parent = some p) (hb : p.Belongs m.get?) :
    Author.replyPlace p = .ok (root.id, threadBelow line) := by
  -- The parent is the community itself, or has a line up to it of its own.
  obtain _ | ⟨q, line⟩ := line <;> cases hline with
  | step _ hget above => ?_
  all_goals obtain rfl := Option.some.inj (hp.symm.trans hget)
  · unfold Author.replyPlace
    cases hbody : p.body <;> simp_all [kind, Body.kind, threadBelow]
  have hpm := mem_of_get? hp
  have hpk := h.kind_of_lineage hpm above
  unfold Author.replyPlace
  cases hbody : p.body with
  | identity => simp [kind, hbody, Body.kind] at hpk
  | community => simp [kind, hbody, Body.kind] at hpk
  | conversation content =>
    obtain rfl := h.eq_nil_of_conversation hpm (by simp [kind, hbody, Body.kind]) above
    have hroot := (h.parent_eq_root_iff above hroot).2 rfl
    simp [hroot, threadBelow]
  | reply place thread content =>
    obtain ⟨rfl, rfl⟩ := (h.belongs_iff above hroot hbody).1 hb
    have hids : ∀ k ∈ line, k.id.isNull = false :=
      fun k hk => h.named k (mem_of_lineage above (by simp [hk]))
    simp [threadRoot_threadBelow hids]

theorem takesPlace_iff_belongs (h : m.Rooted) (hline : Lineage m.get? n.parent (line ++ [root]))
    (hroot : root.kind = .community) (hp : m.get? n.parent = some p) (hb : p.Belongs m.get?) :
    n.TakesPlace m.get? ↔ n.Belongs m.get? := by
  have hauthor := h.replyPlace_eq hline hroot hp hb
  cases hbody : n.body with
  | identity | community | conversation => simp [TakesPlace, Belongs, hbody]
  | reply place thread content =>
    rw [h.belongs_iff hline hroot hbody]
    constructor
    · intro ht
      obtain ⟨q, hq, hplace⟩ := ht _ _ _ hbody
      obtain rfl := Option.some.inj (hp.symm.trans hq)
      simpa [eq_comm] using hauthor.symm.trans hplace
    · rintro ⟨rfl, rfl⟩ _ _ _ hbody'
      obtain ⟨rfl, rfl, rfl⟩ := Body.reply.inj (hbody.symm.trans hbody')
      exact ⟨p, hp, hauthor⟩

/-- All on the way up belong where they are exactly when all take their places over. -/
theorem forall_takesPlace_iff (h : m.Rooted) (hline : Lineage m.get? n.parent (line ++ [root]))
    (hroot : root.kind = .community) :
    (∀ k ∈ n :: line, k.TakesPlace m.get?) ↔ ∀ k ∈ n :: line, k.Belongs m.get? := by
  induction line generalizing n with
  | nil =>
    have hiff := fun p => h.takesPlace_iff_belongs (p := p) hline hroot
    cases hline with
    | step _ hget _ =>
      have hb : root.Belongs m.get? := by
        intro _ _ _ hbody
        simp [kind, hbody, Body.kind] at hroot
      simpa using hiff root hget hb
  | cons p line ih =>
    have hiff := fun p => h.takesPlace_iff_belongs (p := p) hline hroot
    cases hline with
    | step _ hget above =>
      rw [List.forall_mem_cons, ih above, List.forall_mem_cons (a := n)]
      exact and_congr_left fun hall => hiff p hget (hall p List.mem_cons_self)

theorem opensThreadIn (h : m.Rooted) (hn : n ∈ m.nodes)
    (hline : Lineage m.get? n.parent (line ++ [root])) (hroot : root.kind = .community)
    (hb : n.Belongs m.get?) (hparent : n.parent = root.id) : n.opensThreadIn root.id = true := by
  have hk := h.kind_of_lineage hn hline
  unfold Node.opensThreadIn
  cases hbody : n.body with
  | identity => simp [kind, hbody, Body.kind] at hk
  | community => simp [kind, hbody, Body.kind] at hk
  | conversation => simpa using hparent
  | reply place thread content =>
    obtain ⟨rfl, rfl⟩ := (h.belongs_iff hline hroot hbody).1 hb
    obtain rfl := (h.parent_eq_root_iff hline hroot).1 hparent
    exact Bool.and_eq_true_iff.2 ⟨decide_eq_true rfl, rfl⟩

theorem exists_opener (h : m.Rooted) (hn : n ∈ m.nodes)
    (hline : Lineage m.get? n.parent (line ++ [root])) (hroot : root.kind = .community)
    (hall : ∀ k ∈ n :: line, k.Belongs m.get?) {place thread : Hash} {content : Content}
    (hbody : n.body = .reply place thread content) :
    n.repliesIn root.id (threadRoot n.id thread) = true ∧
      ∃ opener, (n :: line).getLast? = some opener ∧ opener.id = threadRoot n.id thread ∧
        opener.parent = root.id ∧ opener.opensThreadIn root.id = true := by
  obtain ⟨rfl, rfl⟩ := (h.belongs_iff hline hroot hbody).1 (hall n List.mem_cons_self)
  refine ⟨by simp [Node.repliesIn, hbody], ?_⟩
  obtain rfl | ⟨between, top, rfl⟩ := List.eq_nil_or_concat line
  · have hparent := (h.parent_eq_root_iff hline hroot).2 rfl
    have hopens := h.opensThreadIn hn hline hroot (hall n List.mem_cons_self) hparent
    exact ⟨n, rfl, rfl, hparent, hopens⟩
  · rw [List.concat_eq_append] at hline hall ⊢
    have htop : top ∈ m.nodes := mem_of_lineage hline (by simp)
    have above : Lineage m.get? top.parent ([] ++ [root]) := by
      rw [List.append_assoc] at hline
      exact hline.of_append
    have hparent := (h.parent_eq_root_iff above hroot).2 rfl
    have hopens := h.opensThreadIn htop above hroot (hall top (by simp)) hparent
    refine ⟨top, ?_, ?_, hparent, hopens⟩
    · rw [← List.cons_append, List.getLast?_concat]
    · rw [threadBelow_concat, threadRoot, if_neg (by simp [h.named top htop])]

end Rooted

/-- All nodes are valid among those that are stored, and hang from a community if they hang from
anything. -/
structure Traced (m : Memory) : Prop extends Indexed m where
  valid : ∀ n ∈ m.nodes, ∃ verify, n.DeepValid m.get? verify
  lineage : ∀ n ∈ m.nodes, n.parent.isNull = false →
    ∃ line root, Lineage m.get? n.parent (line ++ [root]) ∧ root.kind = .community

theorem traced_empty : empty.Traced :=
  ⟨indexed_empty, by simp [empty], by simp [empty]⟩

namespace Traced

theorem lineage_of_deepValid (h : m.Traced) {verify : Verifier} (hv : n.DeepValid m.get? verify)
    (hnull : n.parent.isNull = false) :
    ∃ line root, Lineage m.get? n.parent (line ++ [root]) ∧ root.kind = .community := by
  obtain ⟨p, hp, hkind, _⟩ := hv.exists_parent hnull
  have hpm := mem_of_get? hp
  cases hpn : p.parent.isNull with
  | true =>
    obtain ⟨verify, hpv⟩ := h.valid p hpm
    have hroot := (hpv.isNull_parent_iff.1 hpn).resolve_left hkind
    exact ⟨[], p, .step hnull hp (.root hpn), hroot⟩
  | false =>
    obtain ⟨line, root, hline, hroot⟩ := h.lineage p hpm hpn
    exact ⟨p :: line, root, .step hnull hp hline, hroot⟩

theorem insert (h : m.Traced) (hid : m.get? n.id = none) {verify : Verifier}
    (hv : n.DeepValid m.get? verify) : (m.insert n).Traced := by
  have hmono : ∀ id p, m.get? id = some p → (m.insert n).get? id = some p :=
    fun _ _ hp => get?_insert_of_get? hp n
  refine ⟨h.toIndexed.insert hid, ?_, ?_⟩ <;> intro k hk
  · have hkv : ∃ verify, k.DeepValid m.get? verify := by
      rcases List.mem_append.1 hk with hk | hk
      · exact h.valid k hk
      · exact List.mem_singleton.1 hk ▸ ⟨verify, hv⟩
    obtain ⟨verify, hkv⟩ := hkv
    exact ⟨verify, hkv.mono hmono⟩
  · intro hnull
    have hkl : ∃ line root, Lineage m.get? k.parent (line ++ [root]) ∧ root.kind = .community := by
      rcases List.mem_append.1 hk with hk | hk
      · exact h.lineage k hk hnull
      · obtain rfl := List.mem_singleton.1 hk
        exact h.lineage_of_deepValid hv hnull
    obtain ⟨line, root, hline, hroot⟩ := hkl
    exact ⟨line, root, hline.mono hmono, hroot⟩

theorem rooted (h : m.Traced) : m.Rooted where
  toIndexed := h.toIndexed
  named n hn := by
    obtain ⟨verify, hv⟩ := h.valid n hn
    exact isNull_id_of_checkShallow hv.shallow
  root n hn hk := by
    obtain ⟨verify, hv⟩ := h.valid n hn
    exact hv.isNull_parent_iff.2 hk
  conversation n hn hk := by
    obtain ⟨verify, hv⟩ := h.valid n hn
    obtain ⟨p, hp, -, -, hpk⟩ := hv.exists_parent (hv.isNull_parent_eq_false (.inl hk))
    exact ⟨p, hp, hpk hk⟩

end Traced

end Memory

namespace Archive

variable {ω : Type} {a : Archive Memory} {w : ω} {id : Hash} {calls : List Call}

theorem Steady.run_find (h : a.Steady) (f : Node → Bool) :
    (do return (← (store Memory.store).get id).filter f :
      Action (Archive Memory × ω) _).run (a, w) =
      (.ok ((a.inner.get? id).filter f), a, w) := by
  exact Action.run_bind_ok ((h.run_whileOpen _).trans run_get)

theorem Steady.traced_run (h : a.Steady) (htraced : a.inner.Traced)
    (hcalls : ∀ c ∈ calls, ∃ n verify, c = .addValidated n verify) :
    ∃ a', run Memory.store calls (a, w) = (a', w) ∧ a'.Steady ∧ a'.inner.Traced := by
  have hvalidated : ∀ c ∈ calls, c.isValidated = true := by
    intro c hc
    obtain ⟨n, verify, rfl⟩ := hcalls c hc
    rfl
  apply h.run_induction htraced hvalidated (G := fun _ => True) (fun _ _ => trivial)
  · intro m n verify _ hm _ hn hv
    exact hm.insert hn hv
  · intro m m' id hc
    obtain ⟨n, verify, hn⟩ := hcalls _ hc
    cases hn

/-- In an archive over an initially empty memory that takes in validated nodes only, every stored
reply hangs from a community, and names a stored community and thread. It and the replies above it
name the community and the thread that they hang in exactly when each takes its place over from its
parent, and then the reply and the opener of its thread are found there. -/
theorem Steady.place_run (h : a.Steady) (hempty : a.inner = .empty)
    (hcalls : ∀ c ∈ calls, ∃ n verify, c = .addValidated n verify) :
    let t := run Memory.store calls (a, w)
    let lookup := t.1.inner.get?
    ∀ id n place thread content, lookup id = some n → n.body = .reply place thread content →
      (∃ c, lookup place = some c ∧ c.kind = .community) ∧
      (thread.isNull = false →
        ∃ r, lookup thread = some r ∧ r.kind ∈ [.conversation, .reply]) ∧
      ∃ line root,
        (ancestry Memory.store id).run t = (.ok ((line ++ [root]).map (·.id)), t) ∧
        (∀ p ∈ line ++ [root], lookup p.id = some p) ∧ root.kind = .community ∧
        ((∀ k ∈ n :: line, k.TakesPlace lookup) ↔ ∀ k ∈ n :: line, k.Belongs lookup) ∧
        ((∀ k ∈ n :: line, k.Belongs lookup) →
          ((store Memory.store).getReply root.id (Node.threadRoot id thread) id).run t =
            (.ok (some n), t) ∧
          ∃ opener ∈ n :: line, opener.id = Node.threadRoot id thread ∧ opener.parent = root.id ∧
            ((store Memory.store).getConversation root.id opener.id).run t =
              (.ok (some opener), t)) := by
  obtain ⟨b, hb, hs, ht⟩ := h.traced_run (w := w) (hempty ▸ Memory.traced_empty) hcalls
  have hr := ht.rooted
  simp only [hb]
  intro id n place thread content hn hbody
  have hnm := Memory.mem_of_get? hn
  obtain rfl := Memory.id_of_get? hn
  obtain ⟨verify, hv⟩ := ht.valid n hnm
  obtain ⟨hplace, hthread⟩ := hv.place _ _ _ hbody
  have hnull : n.parent.isNull = false := by
    rw [← Bool.not_eq_true, hv.isNull_parent_iff]
    simp [Node.kind, hbody, Body.kind]
  obtain ⟨line, root, hline, hroot⟩ := ht.lineage n hnm hnull
  refine ⟨hplace, hthread, line, root,
    hs.run_ancestry hn hline (Memory.length_lt_of_lineage hnm hline),
    fun p hp => hr.get?_id (Memory.mem_of_lineage hline hp), hroot,
    hr.forall_takesPlace_iff hline hroot, fun hall => ?_⟩
  obtain ⟨hreply, opener, ho, hid, hparent, hopens⟩ :=
    hr.exists_opener hnm hline hroot hall hbody
  have ho := List.mem_of_getLast? ho
  have hom : opener ∈ b.inner.nodes := by
    rcases List.mem_cons.1 ho with rfl | ho
    · exact hnm
    · exact Memory.mem_of_lineage hline (List.mem_append_left _ ho)
  constructor
  · refine (hs.run_find _).trans ?_
    rw [hn, Option.filter_some, if_pos hreply]
  · refine ⟨opener, ho, hid, hparent, (hs.run_find _).trans ?_⟩
    rw [hr.get?_id hom, Option.filter_some, if_pos hopens]

/-- The reply of the plot takes its place over from its parent, and is found there. -/
theorem place_run_planting :
    ∃ n ∈ plot, ∃ root ∈ plot, n.kind = .reply ∧ root.kind = .community ∧
      ((store Memory.store).getReply root.id n.id n.id).run
          (run Memory.store planting ({ inner := .empty }, ())) =
        (.ok (some n), run Memory.store planting ({ inner := .empty }, ())) := by
  have hstored : ∃ n ∈ plot, ∃ root ∈ plot, ∃ t,
      t = run Memory.store planting ({ inner := .empty }, ()) ∧ root.kind = .community ∧
      n.body = .reply root.id .null ⟨⟨.utf8, 2⟩, [0x68, 0x69]⟩ ∧
      t.1.inner.get? n.id = some n ∧ t.1.inner.get? n.parent = some root ∧
      ((ancestry Memory.store n.id).run t).1 = .ok [root.id] := by
    simp only [exists_eq_left]
    decide +kernel
  obtain ⟨n, hn, root, hr, t, ht, hk, hbody, hs, hparent, hline⟩ := hstored
  rw [ht] at hs hparent hline
  have hsteady : ({ inner := .empty } : Archive Memory).Steady := steady_new _
  have hcalls : ∀ c ∈ planting, ∃ n verify, c = .addValidated n verify :=
    List.forall_mem_map.2 fun n _ => ⟨n, _, rfl⟩
  have hall := hsteady.place_run (w := ()) rfl hcalls
  obtain ⟨_, _, line, root', hrun, _, _, hiff, hfound⟩ := hall n.id n _ _ _ hs hbody
  rw [hrun, Except.ok.injEq, List.map_append, List.map_singleton,
    List.append_eq_singleton_iff] at hline
  obtain ⟨hnil, hid⟩ | ⟨_, hid⟩ := hline
  · obtain rfl := List.map_eq_nil_iff.1 hnil
    have htakes : n.TakesPlace
        (run Memory.store planting ({ inner := .empty }, ())).1.inner.get? := by
      intro place thread content hbody'
      obtain ⟨rfl, rfl, _⟩ := Body.reply.inj (hbody.symm.trans hbody')
      refine ⟨root, hparent, ?_⟩
      unfold Author.replyPlace
      cases hb : root.body <;> simp [Node.kind, hb, Body.kind] at hk ⊢
    obtain ⟨hreply, _⟩ := hfound (hiff.1 (by simpa using htakes))
    refine ⟨n, hn, root, hr, by simp [Node.kind, hbody, Body.kind], hk, ?_⟩
    rw [List.singleton_inj.1 hid] at hreply
    exact hreply
  · simp at hid

/-- Two communities, and a reply that hangs from the first and names the second. -/
def misfiled : List Node :=
  let name : Content := ⟨⟨.utf8, 2⟩, [0x68, 0x69]⟩
  let author := Node.unsigned .null .null 0
    (.identity name (.ofFixed .ed25519Key (List.replicate 32 0x01)))
  let here := Node.unsigned .null author.id 0 (.community name)
  let there := Node.unsigned .null author.id 0 (.community ⟨⟨.utf8, 2⟩, [0x68, 0x6F]⟩)
  [author, here, there, Node.unsigned here.id author.id 1 (.reply there.id .null name)]

/-- Deep validation accepts the misfiled reply, which is not found in the community above it. -/
theorem not_belongs_misfiled :
    ∃ n ∈ misfiled, ∃ root ∈ misfiled, ∃ t, t = run Memory.store
        (misfiled.map fun n => .addValidated n fun _ _ _ => true) ({ inner := .empty }, ()) ∧
      root.kind = .community ∧ t.1.inner.get? n.id = some n ∧
      ((ancestry Memory.store n.id).run t).1 = .ok [root.id] ∧
      ¬n.Belongs t.1.inner.get? ∧
      (((store Memory.store).getReply root.id n.id n.id).run t).1 = .ok none := by
  have hstored : ∃ n ∈ misfiled, ∃ root ∈ misfiled, ∃ other ∈ misfiled, ∃ t, t = run Memory.store
        (misfiled.map fun n => .addValidated n fun _ _ _ => true) ({ inner := .empty }, ()) ∧
      root.kind = .community ∧ t.1.inner.get? n.id = some n ∧
      ((ancestry Memory.store n.id).run t).1 = .ok [root.id] ∧
      (((store Memory.store).getReply root.id n.id n.id).run t).1 = .ok none ∧
      n.body = .reply other.id .null ⟨⟨.utf8, 2⟩, [0x68, 0x69]⟩ ∧ other.id ≠ root.id ∧
      n.parent.isNull = false ∧ t.1.inner.get? n.parent = some root ∧
      root.parent.isNull = true := by
    simp only [exists_eq_left]
    decide +kernel
  obtain ⟨n, hn, root, hr, other, _, t, ht, hk, hs, hline, hreply, hbody, hne, hnull, hparent,
    hroot⟩ := hstored
  refine ⟨n, hn, root, hr, t, ht, hk, hs, hline, ?_, hreply⟩
  intro hb
  obtain ⟨line, root', hlineage, hplace, _⟩ := hb _ _ _ hbody
  have hsingle := hlineage.unique (.step hnull hparent (.root hroot))
  obtain ⟨_, rfl⟩ : line = [] ∧ root' = root := by
    simpa [List.append_eq_singleton_iff] using hsingle
  exact hne hplace

end Archive

end Grove
