import Grove.Proofs.Store.Forest
import Grove.Proofs.Store.Indexes
import Grove.Proofs.Tree.Record

/-! # Upward and downward

Going up follows the parents that nodes name, and going down an index of children that is kept
beside them. In a memory whose indexes keep to its nodes the two agree: of two stored nodes one is
among the descendants of the other if and only if that one is among the ancestors of the first. What
is missing in between breaks both ways at once.
-/

namespace Grove

namespace Memory

variable {ω : Type} {w : ω} {m : Memory} {n k : Node} {r x : Hash} {line known : List Node}

theorem Indexed.exists_swept (h : m.Indexed) (r : Hash) :
    ∃ order, Swept m.children r order ∧ order.length ≤ m.nodes.length + 1 := by
  have hclosed : ∀ p ∈ r :: m.nodes.map (·.id), m.children p ⊆ r :: m.nodes.map (·.id) := by
    intro p _ c hc
    obtain ⟨-, n, hn, -, rfl⟩ := h.mem_children.1 hc
    exact List.mem_cons_of_mem _ (List.mem_map_of_mem hn)
  obtain ⟨hfin, hcount⟩ := reaches_of_closed List.mem_cons_self hclosed
  obtain ⟨order, horder⟩ := Grove.exists_swept hfin
  refine ⟨order, horder, ?_⟩
  calc order.length
    _ ≤ { id | Reaches m.children r id }.ncard := horder.length_le hfin
    _ ≤ (r :: m.nodes.map (·.id)).length := hcount
    _ = m.nodes.length + 1 := by simp

theorem Indexed.isEmpty_children (h : m.Indexed) (x : Hash) : (m.children x).isEmpty =
    decide (∀ k ∈ m.nodes, k.parent.isNull = false → k.parent ≠ x) := by
  rw [Bool.eq_iff_iff, List.isEmpty_iff, List.eq_nil_iff_forall_not_mem, decide_eq_true_iff]
  constructor
  · rintro hnone k hk hnull rfl
    exact hnone k.id (h.mem_children.2 ⟨hnull, k, hk, rfl, rfl⟩)
  · rintro hnone c hc
    obtain ⟨hnull, k, hk, rfl, -⟩ := h.mem_children.1 hc
    exact hnone k hk hnull rfl

theorem Indexed.run_below {ε : Type} (h : m.Indexed) (w : ω) (hr : r.isNull = false) :
    ∃ order, Swept m.children r order ∧
      (store.descendants (ε := ε) r).run (m, w) = (.ok order.tail, m, w) ∧
      (store.leaves (ε := ε) r).run (m, w) =
        (.ok (order.tail.filter fun id => (m.children id).isEmpty), m, w) := by
  obtain ⟨order, horder, hlength⟩ := h.exists_swept r
  have hkids : ∀ id, Action.Leads (· = (m, w)) ((store.ground (m, w)).children id)
      (.ok (m.children id)) (· = (m, w)) := by
    rintro id _ rfl
    exact ⟨_, rfl, rfl⟩
  have hg : (store.ground (m, w)).Spans (· = (m, w)) m.children r order :=
    ⟨hr, horder, hlength.trans (Nat.succ_le_succ (Nat.le_add_right ..)), fun id => (hkids id).gives⟩
  obtain ⟨⟨_, hbelow, rfl⟩, ⟨_, hleaves, rfl⟩⟩ := Ground.run_of_leads (ε := ε) hg hkids rfl
  exact ⟨order, horder, hbelow, hleaves⟩

/-- Where parents do not run in a circle, going up comes to an end. -/
theorem exists_ascent (ha : Acyclic m.nodes) (hn : n ∈ m.nodes) :
    ∃ line, Ascent m.get? n.parent line := by
  suffices hall : ∀ a : { n // n ∈ m.nodes }, ∃ line, Ascent m.get? a.1.parent line from
    hall ⟨n, hn⟩
  intro a
  induction a using ha.wellFounded.induction with
  | h a ih =>
    obtain ⟨n, hn⟩ := a
    cases hnull : n.parent.isNull with
    | true => exact ⟨[], .null hnull⟩
    | false =>
      obtain hp | ⟨p, hp⟩ := (m.get? n.parent).eq_none_or_eq_some
      · exact ⟨[], .absent hp⟩
      · have hid := id_of_get? hp
        have habove : Hangs m.nodes p.id n.id := ⟨hid ▸ hnull, n, hn, hid.symm, rfl⟩
        obtain ⟨line, hline⟩ := ih ⟨p, mem_of_get? hp⟩ (.single habove)
        exact ⟨p :: line, .step hnull hp hline⟩

theorem isChain_ascent (hn : n ∈ m.nodes) (hline : Ascent m.get? n.parent line) :
    (n :: line).IsChain fun c p => Hangs m.nodes p.id c.id := by
  generalize hp : n.parent = p at hline
  induction hline generalizing n with
  | null _ => exact .singleton n
  | absent _ => exact .singleton n
  | @step id p line hnull hget _ ih =>
    have hid := id_of_get? hget
    refine .cons_cons ⟨hid ▸ hnull, n, hn, hp.trans hid.symm, rfl⟩ (ih (mem_of_get? hget) rfl)

theorem pairwise_ascent (hn : n ∈ m.nodes) (hline : Ascent m.get? n.parent line) :
    (n :: line).Pairwise fun c p => Relation.TransGen (Hangs m.nodes) p.id c.id := by
  have htrans : IsTrans Node fun c p => Relation.TransGen (Hangs m.nodes) p.id c.id :=
    ⟨fun _ _ _ hcb hba => hba.trans hcb⟩
  exact ((isChain_ascent hn hline).imp fun _ _ => .single).pairwise

theorem mem_nodes_of_ascent (hline : Ascent m.get? x line) : line ⊆ m.nodes := by
  induction hline with
  | null _ => exact List.nil_subset _
  | absent _ => exact List.nil_subset _
  | step _ hget _ ih => exact List.cons_subset.2 ⟨mem_of_get? hget, ih⟩

theorem length_lt_of_ascent (ha : Acyclic m.nodes) (hn : n ∈ m.nodes)
    (hline : Ascent m.get? n.parent line) : line.length < m.nodes.length := by
  have hnodup : (n :: line).Nodup := by
    refine (pairwise_ascent hn hline).imp ?_
    rintro c _ hpc rfl
    exact ha c.id hpc
  exact (hnodup.subperm (List.cons_subset.2 ⟨hn, mem_nodes_of_ascent hline⟩)).length_le

theorem Linked.of_transGen_hangs (h : m.Linked) (hn : n ∈ m.nodes)
    (hr : Relation.TransGen (Hangs m.nodes) r n.id) : n.parent.isNull = false ∧
      (n.parent = r ∨ Relation.TransGen (Hangs m.nodes) r n.parent) := by
  obtain ⟨p, hrp, hp⟩ := Relation.TransGen.tail'_iff.1 hr
  obtain ⟨hnull, rfl⟩ := (h.hangs_iff hn).1 hp
  exact ⟨hnull, Relation.reflTransGen_iff_eq_or_transGen.1 hrp⟩

/-- Of what a node is below, all that is stored is found on the way up. -/
theorem Linked.mem_ascent (h : m.Linked) (hn : n ∈ m.nodes) (hk : m.get? r = some k)
    (hline : Ascent m.get? n.parent line) (hr : Relation.TransGen (Hangs m.nodes) r n.id) :
    k ∈ line := by
  generalize hp : n.parent = p at hline
  obtain ⟨hnot, habove⟩ := h.of_transGen_hangs hn hr
  rw [hp] at hnot habove
  induction hline generalizing n with
  | null hnull =>
    rw [hnull] at hnot
    cases hnot
  | @absent p habsent =>
    rcases habove with rfl | habove
    · cases habsent.symm.trans hk
    · obtain ⟨_, -, -, q, hq, -, hid⟩ := Relation.TransGen.tail'_iff.1 habove
      exact absurd hid (id_ne_of_get? habsent q hq)
  | @step p q line _ hget _ ih =>
    rcases habove with rfl | habove
    · obtain rfl := Option.some.inj (hget.symm.trans hk)
      exact List.mem_cons_self
    · rw [← id_of_get? hget] at habove
      obtain ⟨hnot', habove'⟩ := h.of_transGen_hangs (mem_of_get? hget) habove
      exact List.mem_cons_of_mem _ (ih (mem_of_get? hget) habove rfl hnot' habove')

theorem Linked.mem_ascent_iff (h : m.Linked) (hn : m.get? x = some n) (hk : m.get? r = some k)
    (hline : Ascent m.get? n.parent line) :
    r ∈ line.map (·.id) ↔ Relation.TransGen (Hangs m.nodes) r x := by
  have hnm := mem_of_get? hn
  obtain rfl := id_of_get? hn
  obtain rfl := id_of_get? hk
  constructor
  · intro hr
    obtain ⟨p, hp, hid⟩ := List.mem_map.1 hr
    rw [← hid]
    exact (List.pairwise_cons.1 (pairwise_ascent hnm hline)).1 p hp
  · intro hr
    exact List.mem_map_of_mem (h.mem_ascent hnm hk hline hr)

theorem not_transGen_hangs_of_null {nodes : List Node} (hr : r.isNull = true) :
    ¬Relation.TransGen (Hangs nodes) r x := by
  intro h
  obtain ⟨_, ⟨hnot, -⟩, -⟩ := Relation.TransGen.head'_iff.1 h
  rw [hr] at hnot
  cases hnot

theorem Indexed.run_descendants (ε : Type) (h : m.Indexed) (ha : Acyclic m.nodes) (r : Hash)
    (w : ω) : ∃ below : List Hash,
      (store.descendants (ε := ε) r).run (m, w) =
        (if r.isNull then .error .missingRoot else .ok below, m, w) ∧
      (store.leaves (ε := ε) r).run (m, w) =
        (if r.isNull then .error .missingRoot else .ok (below.filter fun x =>
          ∀ k ∈ m.nodes, k.parent.isNull = false → k.parent ≠ x), m, w) ∧
      below.Nodup ∧ ∀ x, x ∈ below ↔ Relation.TransGen (Hangs m.nodes) r x := by
  cases hr : r.isNull with
  | true =>
    obtain ⟨hbelow, hleaves⟩ := Ground.run_of_null (ε := ε) (store.ground (m, w)) hr (m, w)
    refine ⟨[], hbelow, hleaves, List.nodup_nil, fun x => ?_⟩
    exact iff_of_false List.not_mem_nil (not_transGen_hangs_of_null hr)
  | false =>
    obtain ⟨order, horder, hbelow, hleaves⟩ := h.run_below (ε := ε) w hr
    refine ⟨order.tail, hbelow, ?_, horder.nodup.sublist (List.tail_sublist order), fun x => ?_⟩
    · have hleaf : ∀ x ∈ order.tail, (m.children x).isEmpty =
          decide (∀ k ∈ m.nodes, k.parent.isNull = false → k.parent ≠ x) :=
        fun x _ => h.isEmpty_children x
      rw [hleaves, List.filter_congr hleaf]
      rfl
    · rw [horder.mem_tail_iff, Reaches, h.below_eq, Relation.reflTransGen_iff_eq_or_transGen]
      constructor
      · rintro ⟨hne, hx⟩
        exact hx.resolve_left hne
      · intro hx
        refine ⟨?_, .inr hx⟩
        rintro rfl
        exact ha x hx

/-- Over a memory of any history, the descendants of a node and the ancestors of another say the
same of the two. -/
theorem ancestry_iff_descendants {ε : Type} {changes : List Change}
    (ha : Acyclic (changes.flatMap Change.added)) :
    let t := perform changes (.empty, w)
    (∀ x n, t.1.get? x = some n → ∃ line, Ascent t.1.get? n.parent line ∧
      (store.ancestry x).run t = (.ok (line.map (·.id)), t)) ∧
    ∀ r k, t.1.get? r = some k → ∃ below : List Hash,
      (store.descendants (ε := ε) r).run t =
        (if r.isNull then .error .missingRoot else .ok below, t) ∧
      (store.leaves (ε := ε) r).run t =
        (if r.isNull then .error .missingRoot else .ok (below.filter fun x =>
          ∀ k ∈ t.1.nodes, k.parent.isNull = false → k.parent ≠ x), t) ∧
      below.Nodup ∧ r ∉ below ∧
      ∀ x n above, t.1.get? x = some n → (store.ancestry x).run t = (.ok above, t) →
        (x ∈ below ↔ r ∈ above) := by
  obtain ⟨m, hrun, h⟩ := exists_perform ha w
  simp only [hrun]
  have hnodes : Acyclic m.nodes := ha.mono h.known
  have hancestry : ∀ x n, m.get? x = some n → ∃ line, Ascent m.get? n.parent line ∧
      (store.ancestry x).run (m, w) = (.ok (line.map (·.id)), m, w) := by
    intro x n hn
    have hnm := mem_of_get? hn
    obtain ⟨line, hline⟩ := exists_ascent hnodes hnm
    exact ⟨line, hline, run_ancestry hn hline (length_lt_of_ascent hnodes hnm hline)⟩
  have habove : ∀ r k x n above, m.get? r = some k → m.get? x = some n →
      (store.ancestry x).run (m, w) = (.ok above, m, w) →
        (r ∈ above ↔ Relation.TransGen (Hangs m.nodes) r x) := by
    intro r k x n above hk hn hrun
    obtain ⟨line, hline, hrun'⟩ := hancestry x n hn
    cases hrun'.symm.trans hrun
    exact h.mem_ascent_iff hn hk hline
  refine ⟨hancestry, fun r k hk => ?_⟩
  obtain ⟨below, hbelow, hleaves, hnodup, hmem⟩ := h.run_descendants ε hnodes r w
  refine ⟨below, hbelow, hleaves, hnodup, fun hrr => hnodes r ((hmem r).1 hrr), ?_⟩
  intro x n above hn hrun
  rw [hmem, habove r k x n above hk hn hrun]

/-- Although it came back after the reply, the place is above it again, and the reply below. -/
theorem ancestry_iff_descendants_reseeding :
    ∃ place ∈ Archive.plot, ∃ reply ∈ Archive.plot, ∃ below above : List Hash,
      (store.descendants (ε := Empty) place.id).run (perform reseeding (.empty, ())) =
        (.ok below, perform reseeding (.empty, ())) ∧
      (store.ancestry reply.id).run (perform reseeding (.empty, ())) =
        (.ok above, perform reseeding (.empty, ())) ∧
      reply.id ∈ below ∧ place.id ∈ above := by
  obtain ⟨hancestry, hbelow⟩ := ancestry_iff_descendants (ε := Empty) (w := ()) acyclic_reseeding
  have hm : ∃ place ∈ Archive.plot, ∃ reply ∈ Archive.plot, place.id.isNull = false ∧
      reply.parent = place.id ∧
      (perform reseeding (.empty, ())).1.get? place.id = some place ∧
      (perform reseeding (.empty, ())).1.get? reply.id = some reply := by
    decide +kernel
  generalize perform reseeding (.empty, ()) = t at hancestry hbelow hm ⊢
  obtain ⟨place, hplace, reply, hreply, hnull, hparent, hp, hr⟩ := hm
  obtain ⟨line, hline, hup⟩ := hancestry reply.id reply hr
  obtain ⟨below, hdown, -, -, -, hiff⟩ := hbelow place.id place hp
  have hmem : place.id ∈ line.map (·.id) := by
    rw [hparent] at hline
    cases hline with
    | null hn => cases hn.symm.trans hnull
    | absent hn => cases hn.symm.trans hp
    | step _ hget _ =>
      obtain rfl := Option.some.inj (hget.symm.trans hp)
      exact List.mem_cons_self
  rw [if_neg (by simp [hnull])] at hdown
  exact ⟨place, hplace, reply, hreply, below, _, hdown, hup, (hiff _ _ _ hr hup).2 hmem, hmem⟩

end Memory

end Grove
