import Grove.Proofs.Tree.Duality

/-! # Pruning

A subtree is removed together with all that the indexes say of it, and of all else nothing is lost:
each answer afterwards is the answer from before without what was removed. Since a memory is
determined by its nodes and their order, nothing of what was removed can come back to light, and a
node that is added again is added as for the first time.
-/

namespace Grove

namespace Memory

variable {ω : Type} {w : ω} {m m' : Memory} {n k : Node} {id : Hash} {ids : List Hash}
  {known : List Node}

theorem Arranged.timeline_eq (h : m.Arranged) (hl : m.Linked) :
    m.timeline = (m.nodes.map Node.stamp).mergeSort Stamp.notBefore :=
  Stamp.eq_mergeSort hl.nodup_stamps h.stamps h.leads

/-- Both indexes follow from the nodes and their order. -/
theorem Kept.eq_of_nodes_eq {known' : List Node} (h : m.Kept known) (h' : m'.Kept known')
    (heq : m.nodes = m'.nodes) : m = m' := by
  have hlinks : m.links = m'.links := by rw [h.links_eq, h'.links_eq, heq]
  have htimeline : m.timeline = m'.timeline := by
    rw [h.arranged.timeline_eq h.toLinked, h'.arranged.timeline_eq h'.toLinked, heq]
  cases m
  cases m'
  rw [mk.injEq]
  exact ⟨heq, hlinks, htimeline⟩

theorem Kept.foldl_add {l : List Node} (h : m.Kept known) (hl : l ⊆ known) :
    (l.foldl Memory.add m).Kept known := by
  induction l generalizing m with
  | nil => exact h
  | cons n l ih =>
    obtain ⟨hn, hl⟩ := List.cons_subset.1 hl
    exact ih (h.add hn) hl

theorem kept_ofList (l : List Node) : (ofList l).Kept l :=
  Kept.foldl_add ⟨within_empty l, arranged_empty⟩ (List.Subset.refl l)

theorem Kept.eq_ofList (h : m.Kept known) : m = ofList m.nodes :=
  h.eq_of_nodes_eq (kept_ofList m.nodes) (nodes_ofList h.nodup).symm

/-- What is removed has to be closed under children, or their links would stay in the answer. -/
theorem children_without (hids : ∀ p ∈ ids, m.children p ⊆ ids) (p : Hash) :
    (m.without ids).children p = (m.children p).filter (· ∉ ids) := by
  simp only [children, Memory.without, List.filterMap_filter, List.filter_filterMap]
  refine List.filterMap_congr fun link hlink => ?_
  obtain ⟨q, c⟩ := link
  by_cases hq : q = p
  · subst hq
    have hclosed : q ∈ ids → c ∈ ids := fun hq => hids q hq (mem_children.2 hlink)
    by_cases hc : c ∈ ids
    · simp [Option.filter_some, hc]
    · simp [Option.filter_some, hc, mt hclosed hc]
  · simp [hq]

theorem filter_get? (m : Memory) (ids : List Hash) (id : Hash) :
    (m.get? id).filter (fun n => n.id ∉ ids) = if id ∈ ids then none else m.get? id := by
  obtain hn | ⟨n, hn⟩ := (m.get? id).eq_none_or_eq_some
  · simp [hn]
  · by_cases hid : id ∈ ids <;> simp [hn, id_of_get? hn, hid]

theorem Linked.history_without (h : m.Linked) (kind : NodeKind) :
    (m.without ids).history kind = (m.history kind).filter fun n => n.id ∉ ids := by
  simp only [history, h.get?_without, List.filter_filterMap, filter_get?]
  simp only [Memory.without, List.filterMap_filter]
  refine List.filterMap_congr fun s _ => ?_
  by_cases hs : s.id ∈ ids <;> simp [hs]

theorem Arranged.recent_length (h : m.Arranged) (hl : m.Linked) (kind : NodeKind) :
    m.recent kind m.nodes.length = m.history kind := by
  refine List.take_of_length_le ((h.history_perm hl kind).length_eq.trans_le ?_)
  exact List.length_filter_le ..

/-- The second memory answers like the first, but for what is gone. -/
structure Pruned (m : Memory) (gone : List Hash) (m' : Memory) : Prop where
  nodes : m'.nodes = m.nodes.filter fun n => n.id ∉ gone
  get (id : Hash) : m'.get? id = if id ∈ gone then none else m.get? id
  children (p : Hash) : m'.children p = (m.children p).filter (· ∉ gone)
  recent (kind : NodeKind) (count : Nat) : m'.recent kind count =
    ((m.recent kind m.nodes.length).filter fun n => n.id ∉ gone).take count

/-- The second memory answers like the first, but for a node that has come last. -/
structure Joined (m : Memory) (n : Node) (m' : Memory) : Prop where
  nodes : m'.nodes = m.nodes ++ [n]
  get (id : Hash) : m'.get? id = if id = n.id then some n else m.get? id
  children (p : Hash) :
    m'.children p = m.children p ++ if n.parent = p ∧ ¬p.isNull then [n.id] else []
  recent (kind : NodeKind) (count : Nat) : m'.recent kind count =
    (((m.nodes ++ [n]).filter fun k => k.kind = kind).mergeSort Node.notBefore).take count

theorem Kept.pruned (h : m.Kept known) (hids : ∀ p ∈ ids, m.children p ⊆ ids) :
    Pruned m ids (m.without ids) where
  nodes := rfl
  get _ := h.get?_without
  children := children_without hids
  recent kind count := by
    rw [h.arranged.recent_length h.toLinked, ← h.history_without]
    rfl

theorem Kept.joined (h : (m.insert n).Kept known) (hid : m.get? n.id = none) :
    Joined m n (m.insert n) where
  nodes := rfl
  get id := by
    rw [get?_insert]
    by_cases hn : id = n.id
    · simp [hn, hid]
    · simp [hn, Ne.symm hn]
  children := children_insert m n
  recent := h.arranged.recent_eq h.toLinked

theorem Kept.exists_below (ε : Type) (h : m.Kept known) (ha : Acyclic known) (w : ω)
    (hn : m.get? id = some n) : ∃ below : List Hash,
      (store.descendants (ε := ε) id).run (m, w) =
        (if id.isNull then .error .missingRoot else .ok below, m, w) ∧
      (id.isNull = true → below = []) ∧
      (store.removeSubtree id).run (m, w) = (.ok (), m.without (id :: below), w) ∧
      (m.without (id :: below)).Kept known ∧
      ∀ p ∈ id :: below, m.children p ⊆ id :: below := by
  obtain ⟨below, hbelow, -, -, hmem⟩ := h.run_descendants ε (ha.mono h.known) id w
  obtain ⟨ids, hremove, hkept, hids⟩ := h.removeSubtree ha hn
  have hsame : ∀ c, c ∈ ids ↔ c ∈ id :: below := by
    intro c
    rw [hids, Relation.reflTransGen_iff_eq_or_transGen, List.mem_cons, hmem]
  have heq : m.without ids = m.without (id :: below) := without_congr hsame
  refine ⟨below, hbelow, fun hnull => ?_, ?_, heq ▸ hkept, fun p hp c hc => ?_⟩
  · refine List.eq_nil_iff_forall_not_mem.2 fun x hx => ?_
    exact not_transGen_hangs_of_null hnull ((hmem x).1 hx)
  · rw [run_removeSubtree, hremove, heq]
  · rw [← hsame, hids] at hp ⊢
    exact hp.tail (h.mem_children.1 hc)

/-- A subtree that is removed from a memory of any history is gone, and nothing else is. What was
removed can be added again as if it had never been there. -/
theorem removeSubtree_exact (ε : Type) {changes : List Change}
    (ha : Acyclic (changes.flatMap Change.added)) (id : Hash) :
    let t := perform changes (.empty, w)
    (t.1.get? id = none → (store.removeSubtree id).run t = (.error (.notFound id), t)) ∧
    ∀ n, t.1.get? id = some n → ∃ (m : Memory) (below : List Hash),
      (store.descendants (ε := ε) id).run t =
        (if id.isNull then .error .missingRoot else .ok below, t) ∧
      (id.isNull = true → below = []) ∧
      (store.removeSubtree id).run t = (.ok (), m, w) ∧ Pruned t.1 (id :: below) m ∧
      ∀ k ∈ t.1.nodes, k.id ∈ id :: below →
        (store.add k).run (m, w) = (.ok (), .ofList (m.nodes ++ [k]), w) ∧
          Joined m k (.ofList (m.nodes ++ [k])) := by
  obtain ⟨m, hrun, h⟩ := exists_perform ha w
  simp only [hrun]
  refine ⟨fun hid => ?_, fun n hn => ?_⟩
  · rw [run_removeSubtree, removeSubtree_of_get?_eq_none hid]
  obtain ⟨below, hbelow, hnull, hremove, hkept, hclosed⟩ := h.exists_below ε ha w hn
  refine ⟨m.without (id :: below), below, hbelow, hnull, hremove, h.pruned hclosed, ?_⟩
  intro k hk hgone
  have hid : (m.without (id :: below)).get? k.id = none := by
    rw [h.get?_without, if_pos hgone]
  have hadd := hkept.add (h.known hk)
  rw [add_of_get? hid] at hadd
  have heq : (m.without (id :: below)).insert k =
      ofList ((m.without (id :: below)).nodes ++ [k]) := hadd.eq_ofList
  rw [← heq, run_add, add_of_get? hid]
  exact ⟨rfl, hadd.joined hid⟩

/-- The place takes the reply along, which can come back alone. -/
theorem removeSubtree_exact_reseeding :
    ∃ place ∈ Archive.plot, ∃ reply ∈ Archive.plot, ∃ m : Memory,
      (store.removeSubtree place.id).run (perform reseeding (.empty, ())) = (.ok (), m, ()) ∧
      m.get? place.id = none ∧ m.get? reply.id = none ∧
      ∃ m' : Memory, (store.add reply).run (m, ()) = (.ok (), m', ()) ∧
        m'.get? reply.id = some reply ∧ m'.children place.id = [reply.id] := by
  have hall := removeSubtree_exact (w := ()) Empty acyclic_reseeding
  have hm : ∃ place ∈ Archive.plot, ∃ reply ∈ Archive.plot, place.id.isNull = false ∧
      reply.parent = place.id ∧ (perform reseeding (.empty, ())).1.get? place.id = some place ∧
      (perform reseeding (.empty, ())).1.get? reply.id = some reply ∧
      (perform reseeding (.empty, ())).1.children place.id = [reply.id] ∧
      ((Change.removeSubtree place.id).perform (perform reseeding (.empty, ()))).1.get?
        reply.id = none := by
    decide +kernel
  generalize perform reseeding (.empty, ()) = t at hall hm ⊢
  obtain ⟨place, hplace, reply, hreply, hnull, hparent, hp, hr, hkids, hgone⟩ := hm
  obtain ⟨m, below, -, -, hremove, hpruned, hadd⟩ := (hall place.id).2 place hp
  rw [Change.perform, hremove] at hgone
  have hbelow : reply.id ∈ place.id :: below := by
    by_contra hstays
    rw [hpruned.get, if_neg hstays, hr] at hgone
    cases hgone
  obtain ⟨hrun, hjoined⟩ := hadd reply (mem_of_get? hr) hbelow
  refine ⟨place, hplace, reply, hreply, m, hremove, ?_, hgone, _, hrun, ?_, ?_⟩
  · rw [hpruned.get, if_pos List.mem_cons_self]
  · rw [hjoined.get, if_pos rfl]
  · rw [hjoined.children, hpruned.children, hkids,
      List.filter_cons_of_neg (by rwa [decide_eq_true_iff, not_not])]
    simp [hparent, hnull]

end Memory

end Grove
