import Grove.Proofs.Store.Pruning

/-! # Merging

A memory that is copied into another one hands over its nodes in the order of insertion. The target
takes those that it does not have, behind all of its own, and keeps the others as they are. So a
second copy finds nothing to do, and a copy to an empty memory answers like the original.
-/

namespace Grove.Memory

variable {ω : Type} {w : ω} {m src dst : Memory} {id : Hash} {l known : List Node}

theorem Kept.mono {known' : List Node} (h : m.Kept known) (hsub : known ⊆ known') :
    m.Kept known' :=
  ⟨⟨h.toIndexed, fun _ hn => hsub (h.known hn)⟩, h.arranged⟩

theorem get?_foldl_add : (l.foldl add m).get? id = (m.get? id).or (l.find? fun n => n.id = id) := by
  induction l generalizing m with
  | nil => simp
  | cons n l ih =>
    rw [List.foldl_cons, ih, get?_add, Option.or_assoc, List.find?_cons]
    by_cases hid : n.id = id <;> simp [hid]

/-- The nodes of a list that the memory has none for. -/
def missing (m : Memory) (l : List Node) : List Node :=
  l.filter fun n => !m.contains n.id

theorem mem_missing {n : Node} : n ∈ m.missing l ↔ n ∈ l ∧ m.get? n.id = none := by
  simp [missing, contains]

theorem foldl_add_missing (hl : (l.map (·.id)).Nodup) :
    l.foldl add m = (m.missing l).foldl add m := by
  induction l generalizing m with
  | nil => rfl
  | cons n l ih =>
    obtain ⟨hn, hl⟩ := List.nodup_cons.1 hl
    obtain hget | ⟨k, hget⟩ := (m.get? n.id).eq_none_or_eq_some
    · have hsame : (m.insert n).missing l = m.missing l := by
        refine List.filter_congr fun k hk => ?_
        have hne : n.id ≠ k.id := fun heq => hn (List.mem_map.2 ⟨k, hk, heq.symm⟩)
        rw [contains, contains, get?_insert, if_neg hne, Option.or_none]
      have hcons : m.missing (n :: l) = n :: m.missing l :=
        List.filter_cons_of_pos (by simp [contains, hget])
      rw [hcons, List.foldl_cons, List.foldl_cons, add_of_get? hget, ih hl, hsame]
    · have hcons : m.missing (n :: l) = m.missing l :=
        List.filter_cons_of_neg (by simp [contains, hget])
      rw [hcons, List.foldl_cons, add_eq_self hget, ih hl]

theorem foldl_add_eq_self (h : ∀ n ∈ l, (m.get? n.id).isSome) : l.foldl add m = m := by
  induction l with
  | nil => rfl
  | cons n l ih =>
    obtain ⟨hn, hl⟩ := List.forall_mem_cons.1 h
    obtain ⟨k, hk⟩ := Option.isSome_iff_exists.1 hn
    rw [List.foldl_cons, add_eq_self hk, ih hl]

/-- The missing nodes come behind the nodes that are there. -/
theorem nodes_foldl_add_missing (hm : m.Linked) (hl : (l.map (·.id)).Nodup) :
    (l.foldl add m).nodes = m.nodes ++ m.missing l := by
  rw [foldl_add_missing hl]
  refine nodes_foldl_add ?_
  rw [List.map_append]
  refine hm.nodup.append (hl.sublist (List.filter_sublist.map _)) fun id hid hid' => ?_
  obtain ⟨k, hk, rfl⟩ := List.mem_map.1 hid
  obtain ⟨n, hn, hnk⟩ := List.mem_map.1 hid'
  exact id_ne_of_get? (mem_missing.1 hn).2 k hk hnk.symm

/-- The memory answers for all of the target and for what the target did not have of the source,
which comes last wherever there is an order. -/
structure Merges (src dst m : Memory) : Prop where
  nodes : m.nodes = dst.nodes ++ dst.missing src.nodes
  get (id : Hash) : m.get? id = (dst.get? id).or (src.get? id)
  children (p : Hash) :
    m.children p = dst.children p ++ (src.children p).filter fun c => !dst.contains c
  recent (kind : NodeKind) (count : Nat) : m.recent kind count =
    (((dst.nodes ++ dst.missing src.nodes).filter fun n => n.kind = kind).mergeSort
      Node.notBefore).take count

theorem Indexed.children_of_isNull (h : m.Indexed) {p : Hash} (hp : p.isNull = true) :
    m.children p = [] := by
  refine List.eq_nil_iff_forall_not_mem.2 fun c hc => ?_
  obtain ⟨hfalse, -⟩ := h.mem_children.1 hc
  exact absurd (hp.symm.trans hfalse) nofun

theorem Kept.merges (hsrc : src.Kept known) (hdst : dst.Kept known) :
    Merges src dst (src.nodes.foldl Memory.add dst) := by
  have hkept : (src.nodes.foldl Memory.add dst).Kept known := hdst.foldl_add hsrc.known
  have hnodes := nodes_foldl_add_missing hdst.toLinked hsrc.nodup
  refine ⟨hnodes, fun id => get?_foldl_add, fun p => ?_, fun kind count => ?_⟩
  · cases hp : p.isNull with
    | true =>
      rw [hkept.toIndexed.children_of_isNull hp, hdst.toIndexed.children_of_isNull hp,
        hsrc.toIndexed.children_of_isNull hp]
      rfl
    | false =>
      rw [hkept.toIndexed.children_eq hp, hdst.toIndexed.children_eq hp,
        hsrc.toIndexed.children_eq hp, hnodes, List.filter_append, List.map_append, List.filter_map,
        missing, List.filter_filter, List.filter_filter]
      simp only [Function.comp_def, Bool.and_comm]
  · rw [hkept.arranged.recent_eq hkept.toLinked, hnodes]

theorem run_copyInto : (store.copyInto store).run ((src, dst), w) =
    (.ok (), ((src, src.nodes.foldl add dst), w)) :=
  Cache.run_copyInto (w := w) (l := src.nodes) rfl (run_addAll src.nodes)

/-- Copying a memory of any history into another one merges them: the target keeps all of its own,
and what it did not have comes behind, in the order in which it came to the source. A second copy
changes nothing, and what was empty becomes the same as the source. -/
theorem copy_merges {changes changes' : List Change}
    (ha : Acyclic (changes.flatMap Change.added)) (ha' : Acyclic (changes'.flatMap Change.added)) :
    let src := (perform changes (.empty, w)).1
    let dst := (perform changes' (.empty, w)).1
    ∃ m, (store.copyInto store).run ((src, dst), w) = (.ok (), ((src, m), w)) ∧
      Merges src dst m ∧
      (store.copyInto store).run ((src, m), w) = (.ok (), ((src, m), w)) ∧
      (dst.nodes = [] → m = src) := by
  obtain ⟨src, hsrc, hs⟩ := exists_perform ha w
  obtain ⟨dst, hdst, ht⟩ := exists_perform ha' w
  simp only [hsrc, hdst]
  have hs' := hs.mono (List.subset_append_left _ (changes'.flatMap Change.added))
  have ht' := ht.mono (List.subset_append_right (changes.flatMap Change.added) _)
  refine ⟨src.nodes.foldl add dst, run_copyInto, hs'.merges ht', ?_, fun hempty => ?_⟩
  · have hall : ∀ n ∈ src.nodes, ((src.nodes.foldl add dst).get? n.id).isSome :=
      fun n hn => isSome_get?_foldl_add.2 (.inr ⟨n, hn, rfl⟩)
    rw [run_copyInto, foldl_add_eq_self hall]
  · have hdst : dst = .empty := by rw [ht.eq_ofList, hempty]; rfl
    rw [hdst]
    exact hs.eq_ofList.symm

/-- The reply of the plot is added alone, under another signature. -/
def straying : List Change :=
  (Archive.plot.drop 2).map fun n =>
    .add { n with signature := .ofFixed .ed25519 (List.replicate 64 1) }

theorem acyclic_straying : Acyclic (straying.flatMap Change.added) := by
  refine Acyclic.of_links Stack.Layering.consistent_plot.acyclic fun n hn => ?_
  simp only [straying, List.flatMap_map, Change.added, List.mem_flatMap, List.mem_singleton] at hn
  obtain ⟨k, hk, rfl⟩ := hn
  exact ⟨k, List.mem_of_mem_drop hk, rfl, rfl⟩

/-- The stray reply stays as it is and comes first, although the source has it under another
signature and between the other two. -/
theorem copy_merges_straying :
    let src := (perform reseeding (.empty, ())).1
    let dst := (perform straying (.empty, ())).1
    ∃ m, (store.copyInto store).run ((src, dst), ()) = (.ok (), ((src, m), ())) ∧
      src.nodes.map Node.kind = [.identity, .reply, .community] ∧
      m.nodes.map Node.kind = [.reply, .identity, .community] ∧
      ∃ stray ∈ dst.nodes, m.get? stray.id = some stray ∧ src.get? stray.id ≠ some stray := by
  have hall := copy_merges (w := ()) acyclic_reseeding acyclic_straying
  have hm : (perform reseeding (.empty, ())).1.nodes.map Node.kind =
        [.identity, .reply, .community] ∧
      ((perform straying (.empty, ())).1.nodes ++ (perform straying (.empty, ())).1.missing
        (perform reseeding (.empty, ())).1.nodes).map Node.kind = [.reply, .identity, .community] ∧
      ∃ stray ∈ (perform straying (.empty, ())).1.nodes,
        (perform straying (.empty, ())).1.get? stray.id = some stray ∧
          (perform reseeding (.empty, ())).1.get? stray.id ≠ some stray := by
    decide +kernel
  generalize (perform reseeding (.empty, ())).1 = src at hall hm ⊢
  generalize (perform straying (.empty, ())).1 = dst at hall hm ⊢
  obtain ⟨m, hrun, hmerges, -, -⟩ := hall
  obtain ⟨hsrc, hkinds, stray, hstray, hget, hother⟩ := hm
  refine ⟨m, hrun, hsrc, by rw [hmerges.nodes, hkinds], stray, hstray, ?_, hother⟩
  rw [hmerges.get, hget, Option.some_or]

end Grove.Memory
