import Grove.Proofs.Store.Search
import Grove.Store.Memory
import Mathlib.Data.List.Nodup

/-! # What a memory holds

A memory is indexed when its identifiers are distinct and its links are the parents of its nodes, in
the order of insertion. Insertion keeps that. Removing a list of identifiers one by one takes away
the nodes and the links that have to do with them, in whatever order, and a subtree is a list that
with each identifier has its children. So the removal of a subtree leaves no links behind.
-/

namespace Grove

namespace Memory

variable {m m' : Memory} {n : Node} {id : Hash} {ids : List Hash}

theorem id_of_get? (h : m.get? id = some n) : n.id = id := by
  simpa using List.find?_some h

theorem mem_of_get? (h : m.get? id = some n) : n ∈ m.nodes :=
  List.mem_of_find?_eq_some h

theorem id_ne_of_get? (h : m.get? id = none) : ∀ k ∈ m.nodes, k.id ≠ id := by
  simpa using List.find?_eq_none.1 h

theorem get?_eq_none_of_nodup {l : List Node} (h : ((m.nodes ++ n :: l).map (·.id)).Nodup) :
    m.get? n.id = none := by
  refine List.find?_eq_none.2 fun k hk => ?_
  rw [List.map_append, List.nodup_append] at h
  simpa using h.2.2 _ (List.mem_map_of_mem hk) n.id List.mem_cons_self

theorem get?_insert_of_get? {k : Node} (h : m.get? id = some k) (n : Node) :
    (m.insert n).get? id = some k := by
  rw [get?_insert, h, Option.some_or]

theorem add_of_get? (h : m.get? n.id = none) : m.add n = m.insert n := by
  rw [add, if_neg (by simp [contains, h])]

theorem nodes_foldl_add {l : List Node} (h : ((m.nodes ++ l).map (·.id)).Nodup) :
    (l.foldl add m).nodes = m.nodes ++ l := by
  induction l generalizing m with
  | nil => exact (List.append_nil _).symm
  | cons n l ih =>
    have hn : m.get? n.id = none := get?_eq_none_of_nodup h
    have hnodes : (m.add n).nodes ++ l = m.nodes ++ n :: l := by
      rw [add_of_get? hn]
      exact List.append_assoc ..
    rw [List.foldl_cons, ih (hnodes ▸ h), hnodes]

theorem nodes_ofList {l : List Node} (h : (l.map (·.id)).Nodup) : (ofList l).nodes = l :=
  nodes_foldl_add h

theorem add_eq_self {k : Node} (h : m.get? n.id = some k) : m.add n = m := by
  rw [add, if_pos (by simp [contains, h])]

theorem isSome_get?_add : ((m.add n).get? id).isSome ↔ (m.get? id).isSome ∨ n.id = id := by
  rw [get?_add]
  by_cases hid : n.id = id <;> simp [hid]

theorem isSome_get?_foldl_add {l : List Node} :
    ((l.foldl add m).get? id).isSome ↔ (m.get? id).isSome ∨ ∃ n ∈ l, n.id = id := by
  induction l generalizing m with
  | nil => simp
  | cons n l ih =>
    rw [List.foldl_cons, ih, isSome_get?_add, List.exists_mem_cons_iff, or_assoc]

theorem get?_add_eq_some_iff {k : Node} :
    (m.add n).get? id = some k ↔ m.get? id = some k ∨ m.get? id = none ∧ n.id = id ∧ n = k := by
  rw [get?_add]
  cases m.get? id <;> simp

section Run

variable {ω : Type} {w : ω}

theorem answers_get (m : Memory) (w : ω) (id : Hash) :
    (store.get id).Answers (m, w) (lookUp m.get? id) :=
  rfl

theorem run_add : (store.add n).run (m, w) = (.ok (), m.add n, w) :=
  Action.run_change_on (f := fun m : Memory => .ok (m.add n))

theorem run_addAll (l : List Node) : (store.addAll l).run (m, w) = (.ok (), l.foldl add m, w) := by
  induction l generalizing m with
  | nil => rfl
  | cons n l ih => exact (Action.run_bind_ok run_add).trans ih

theorem run_removeSubtree (m : Memory) (w : ω) (id : Hash) :
    (store.removeSubtree id).run (m, w) =
      match m.removeSubtree id with
      | .ok m' => (.ok (), m', w)
      | .error e => (.error e, m, w) := by
  refine (Action.run_change_on (f := fun m : Memory => m.removeSubtree id)).trans ?_
  cases m.removeSubtree id <;> rfl

end Run

/-- Both indexes speak of stored nodes only. -/
structure Linked (m : Memory) : Prop where
  nodup : (m.nodes.map (·.id)).Nodup
  links : ∀ link ∈ m.links, ∃ n ∈ m.nodes, (n.parent, n.id) = link
  stamps : ∀ s ∈ m.timeline, ∃ n ∈ m.nodes, n.id = s.id

theorem Linked.get?_eq_some_iff (h : m.Linked) :
    m.get? id = some n ↔ n ∈ m.nodes ∧ n.id = id := by
  constructor
  · exact fun hn => ⟨mem_of_get? hn, id_of_get? hn⟩
  · rintro ⟨hn, rfl⟩
    obtain hk | ⟨k, hk⟩ := (m.get? n.id).eq_none_or_eq_some
    · exact absurd rfl (id_ne_of_get? hk n hn)
    · rw [hk, List.inj_on_of_nodup_map h.nodup (mem_of_get? hk) hn (id_of_get? hk)]

/-- All that has nothing to do with the identifiers. -/
def without (m : Memory) (ids : List Hash) : Memory where
  nodes := m.nodes.filter fun n => n.id ∉ ids
  links := m.links.filter fun link => link.1 ∉ ids ∧ link.2 ∉ ids
  timeline := m.timeline.filter fun s => s.id ∉ ids

theorem without_nil : m.without [] = m := by
  simp [without]

theorem without_without {ids' : List Hash} :
    (m.without ids).without ids' = m.without (ids ++ ids') := by
  simp only [without, List.filter_filter, List.mem_append, not_or, Bool.decide_and, mk.injEq]
  refine ⟨?_, ?_, ?_⟩ <;> congr 1 <;> funext x <;> ac_rfl

theorem without_reverse : m.without ids.reverse = m.without ids := by
  simp only [without, List.mem_reverse]

theorem Linked.without (h : m.Linked) (ids : List Hash) : (m.without ids).Linked where
  nodup := h.nodup.sublist (List.filter_sublist.map _)
  links := by
    intro link hl
    obtain ⟨hl, hids⟩ := List.mem_filter.1 hl
    obtain ⟨n, hn, rfl⟩ := h.links link hl
    exact ⟨n, List.mem_filter.2 ⟨hn, decide_eq_true (of_decide_eq_true hids).2⟩, rfl⟩
  stamps := by
    intro s hs
    obtain ⟨hs, hids⟩ := List.mem_filter.1 hs
    obtain ⟨n, hn, hid⟩ := h.stamps s hs
    exact ⟨n, List.mem_filter.2 ⟨hn, hid ▸ hids⟩, hid⟩

theorem Linked.eq_of_link (h : m.Linked) (hn : m.get? id = some n) {link : Hash × Hash}
    (hl : link ∈ m.links) (hid : link.2 = id) : link = (n.parent, id) := by
  obtain ⟨k, hk, rfl⟩ := h.links link hl
  obtain rfl : k = n := Option.some.inj ((h.get?_eq_some_iff.2 ⟨hk, hid⟩).symm.trans hn)
  rw [← hid]

theorem children_without_singleton (m : Memory) (id p : Hash) :
    (m.without [id]).children p = if p = id then [] else (m.children p).filter (· ≠ id) := by
  split
  · next hp =>
    subst hp
    refine List.eq_nil_iff_forall_not_mem.2 fun c hc => ?_
    simpa using (List.mem_filter.1 (mem_children.1 hc)).2
  · next hp =>
    simp only [children, Memory.without, List.filterMap_filter, List.filter_filterMap]
    refine List.filterMap_congr fun link _ => ?_
    by_cases hq : link.1 = p
    · by_cases hc : link.2 = id <;> simp [hq, hp, hc, Option.filter_some]
    · simp [hq]

theorem Linked.remove_eq (h : m.Linked) (id : Hash) : m.remove id = m.without [id] := by
  unfold remove
  obtain hn | ⟨n, hn⟩ := (m.get? id).eq_none_or_eq_some
  · have hne := id_ne_of_get? hn
    have hlinks : ∀ link ∈ m.links, link.2 ≠ id := by
      intro link hl
      obtain ⟨k, hk, rfl⟩ := h.links link hl
      exact hne k hk
    have hstamps : ∀ s ∈ m.timeline, s.id ≠ id := by
      intro s hs
      obtain ⟨k, hk, hid⟩ := h.stamps s hs
      exact hid ▸ hne k hk
    simp only [hn, Memory.without, List.mem_singleton, mk.injEq]
    refine ⟨?_, List.filter_congr ?_, ?_⟩
    · exact (List.filter_eq_self.2 fun k hk => decide_eq_true (hne k hk)).symm
    · intro link hl
      simp [hlinks link hl]
    · exact (List.filter_eq_self.2 fun s hs => decide_eq_true (hstamps s hs)).symm
  · simp only [hn, Memory.without, List.mem_singleton, List.filter_filter, mk.injEq, true_and,
      and_true]
    refine List.filter_congr fun link hl => ?_
    have heq : link ≠ (n.parent, id) ↔ link.2 ≠ id := by
      refine not_congr ⟨fun h => congrArg Prod.snd h, h.eq_of_link hn hl⟩
    rw [← Bool.decide_and]
    exact decide_eq_decide.2 (by rw [heq, and_comm])

theorem Linked.foldl_remove_eq (h : m.Linked) (ids : List Hash) :
    ids.foldl remove m = m.without ids := by
  induction ids generalizing m with
  | nil => exact without_nil.symm
  | cons id ids ih =>
    rw [List.foldl_cons, h.remove_eq, ih (h.without [id]), without_without, List.singleton_append]

theorem without_congr {ids' : List Hash} (h : ∀ c, c ∈ ids ↔ c ∈ ids') :
    m.without ids = m.without ids' := by
  simp only [without, h]

/-- To what is below a node, the only link from elsewhere is the one from its parent. -/
theorem Linked.links_without (h : m.Linked) (hn : m.get? id = some n)
    (hids : ∀ c, c ∈ ids ↔ Relation.ReflTransGen (fun p c => c ∈ m.children p) id c) :
    (m.without ids).links =
      (m.links.filter fun link => link.1 ∉ ids).filter fun link => link ≠ (n.parent, id) := by
  rw [Memory.without, List.filter_filter]
  refine List.filter_congr fun link hlink => ?_
  have hiff : link.1 ∉ ids → (link.2 ∈ ids ↔ link = (n.parent, id)) := by
    obtain ⟨p, c⟩ := link
    intro hp
    constructor
    · intro hc
      rcases ((hids c).1 hc).cases_tail with rfl | ⟨b, hb, hbc⟩
      · exact h.eq_of_link hn hlink rfl
      · obtain ⟨k, hk, hlink'⟩ := h.links _ hlink
        obtain ⟨-, rfl⟩ := Prod.mk.inj hlink'
        have hget := h.get?_eq_some_iff.2 ⟨hk, rfl⟩
        have hparent : b = p := by
          have hleft := h.eq_of_link hget (mem_children.1 hbc) rfl
          have hright := h.eq_of_link hget hlink rfl
          exact (congrArg Prod.fst hleft).trans (congrArg Prod.fst hright).symm
        exact absurd ((hids b).2 hb) (hparent ▸ hp)
    · rintro heq
      rw [heq]
      exact (hids id).2 .refl
  by_cases hp : link.1 ∈ ids
  · simp [hp]
  · simp [hp, hiff hp]

theorem Linked.exists_rows_of_removeSubtree (h : m.Linked) (hr : m.removeSubtree id = .ok m') :
    ∃ bound ids, rows m.children bound [id] = some ids ∧ m' = m.without ids := by
  unfold removeSubtree at hr
  split at hr
  · split at hr
    · next ids hids =>
      obtain rfl := Except.ok.inj hr
      exact ⟨_, ids, hids, by rw [h.foldl_remove_eq, without_reverse]⟩
    · exact absurd hr nofun
  · exact absurd hr nofun

theorem Linked.removeSubtree_eq (h : m.Linked) (hr : m.removeSubtree id = .ok m') :
    ∃ ids, id ∈ ids ∧ (∀ p ∈ ids, m.children p ⊆ ids) ∧ m' = m.without ids := by
  obtain ⟨_, ids, hids, rfl⟩ := h.exists_rows_of_removeSubtree hr
  obtain ⟨hrow, hclosed⟩ := rows_closed hids
  exact ⟨ids, hrow List.mem_cons_self, hclosed, rfl⟩

theorem get?_eq_none_of_notFound {k : Hash} (h : m.removeSubtree id = .error (.notFound k)) :
    m.get? id = none := by
  unfold removeSubtree at h
  split at h
  · split at h <;> exact absurd h nofun
  · next hc => simpa [contains] using hc

theorem Linked.get?_without (h : m.Linked) :
    (m.without ids).get? id = if id ∈ ids then none else m.get? id := by
  ext n
  rw [(h.without ids).get?_eq_some_iff, Memory.without, List.mem_filter, decide_eq_true_iff]
  split
  · next hid =>
    refine iff_of_false ?_ nofun
    rintro ⟨⟨_, hn⟩, rfl⟩
    exact hn hid
  · next hid =>
    rw [h.get?_eq_some_iff]
    constructor
    · rintro ⟨⟨hn, _⟩, hi⟩
      exact ⟨hn, hi⟩
    · rintro ⟨hn, rfl⟩
      exact ⟨⟨hn, hid⟩, rfl⟩

/-- The links are those of the nodes, in the order of insertion. -/
structure Indexed (m : Memory) : Prop extends Linked m where
  links_eq : m.links = (m.nodes.filter (!·.parent.isNull)).map fun n => (n.parent, n.id)

theorem indexed_empty : empty.Indexed where
  nodup := List.nodup_nil
  links := fun _ hl => absurd hl List.not_mem_nil
  stamps := fun _ hs => absurd hs List.not_mem_nil
  links_eq := rfl

theorem mem_insertStamp {s t : Stamp} {stamps : List Stamp} :
    s ∈ insertStamp t stamps ↔ s = t ∨ s ∈ stamps := by
  induction stamps with
  | nil => simp [insertStamp]
  | cons u stamps ih =>
    unfold insertStamp
    split
    · exact List.mem_cons
    · rw [List.mem_cons, ih, List.mem_cons, or_left_comm]

theorem mem_links_insert {link : Hash × Hash} :
    link ∈ (m.insert n).links ↔
      link ∈ m.links ∨ n.parent.isNull = false ∧ link = (n.parent, n.id) := by
  unfold insert
  cases n.parent.isNull <;> simp

theorem Linked.insert (h : m.Linked) (hid : m.get? n.id = none) : (m.insert n).Linked where
  nodup := by
    have hne := id_ne_of_get? hid
    simpa [Memory.insert, List.nodup_append, h.nodup] using hne
  links := by
    intro link hl
    rcases mem_links_insert.1 hl with hl | ⟨_, rfl⟩
    · obtain ⟨k, hk, hkl⟩ := h.links link hl
      exact ⟨k, List.mem_append_left _ hk, hkl⟩
    · exact ⟨n, List.mem_append_right _ (List.mem_singleton_self n), rfl⟩
  stamps := by
    intro s hs
    rcases mem_insertStamp.1 hs with rfl | hs
    · exact ⟨n, List.mem_append_right _ (List.mem_singleton_self n), rfl⟩
    · obtain ⟨k, hk, hid⟩ := h.stamps s hs
      exact ⟨k, List.mem_append_left _ hk, hid⟩

theorem Indexed.insert (h : m.Indexed) (hid : m.get? n.id = none) : (m.insert n).Indexed where
  toLinked := h.toLinked.insert hid
  links_eq := by
    unfold Memory.insert
    cases hp : n.parent.isNull <;> simp [hp, h.links_eq]

theorem Indexed.add (h : m.Indexed) (n : Node) : (m.add n).Indexed := by
  obtain hid | ⟨k, hid⟩ := (m.get? n.id).eq_none_or_eq_some
  · rw [add_of_get? hid]
    exact h.insert hid
  · rwa [add_eq_self hid]

theorem Indexed.mem_children (h : m.Indexed) {p c : Hash} :
    c ∈ m.children p ↔ p.isNull = false ∧ ∃ n ∈ m.nodes, n.parent = p ∧ n.id = c := by
  rw [Memory.mem_children, h.links_eq]
  simp only [List.mem_map, List.mem_filter, Prod.mk.injEq, Bool.not_eq_true']
  constructor
  · rintro ⟨n, ⟨hn, hp⟩, rfl, rfl⟩
    exact ⟨hp, n, hn, rfl, rfl⟩
  · rintro ⟨hp, n, hn, rfl, rfl⟩
    exact ⟨n, ⟨hn, hp⟩, rfl, rfl⟩

theorem Indexed.nodup_links (h : m.Indexed) : m.links.Nodup := by
  rw [h.links_eq]
  have hids : ((m.nodes.filter (!·.parent.isNull)).map (·.id)).Nodup :=
    h.nodup.sublist (List.filter_sublist.map _)
  exact List.Nodup.of_map Prod.snd (by rwa [List.map_map])

theorem Indexed.nodup_children (h : m.Indexed) (p : Hash) : (m.children p).Nodup := by
  refine h.nodup_links.filterMap ?_
  rintro ⟨a, b⟩ ⟨a', b'⟩ c hc hc'
  simp only [Option.mem_def, Option.ite_none_right_eq_some, Option.some.injEq] at hc hc'
  rw [hc.1, hc.2, hc'.1, hc'.2]

/-- What is removed has to be closed under children, or links would be lost. -/
theorem Indexed.without (h : m.Indexed) (hids : ∀ p ∈ ids, m.children p ⊆ ids) :
    (m.without ids).Indexed where
  toLinked := h.toLinked.without ids
  links_eq := by
    simp only [Memory.without, h.links_eq, List.filter_map, List.filter_filter, Function.comp_def]
    congr 1
    refine List.filter_congr fun n hn => ?_
    cases hp : n.parent.isNull
    · have hparent : n.parent ∈ ids → n.id ∈ ids := fun hi =>
        hids _ hi (h.mem_children.2 ⟨hp, n, hn, rfl, rfl⟩)
      rw [Bool.not_false, Bool.and_true, Bool.true_and, decide_eq_decide]
      exact and_iff_right_of_imp (mt hparent)
    · rw [Bool.not_true, Bool.and_false, Bool.false_and]

end Memory

end Grove
