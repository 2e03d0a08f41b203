import Grove.Proofs.Store.Indexes

/-! # Ledgers

A ledger keeps nodes as a store does that looks everything up in maps: each node under its
identifier with the number of its insertion, the children of a node in a list, and for each kind an
index that is sorted by the time of creation and then by number. It shows what a memory shows, which
has no numbers and keeps the order of insertion in its lists.
-/

namespace Grove

instance {n : Namespace} : Hashable (Kind n) :=
  ⟨fun k => hash k.tag⟩

instance {n : Namespace} : Hashable (Qualified n) :=
  ⟨fun q => mixHash (hash q.kind) (hash q.payload)⟩

namespace Ledger

structure Rank where
  created : UInt64
  seq : UInt64
  deriving DecidableEq

/-- The later created first, and by number among equals. -/
def Rank.cmp : Rank → Rank → Ordering :=
  compareLex (fun a b => compare b.created a.created) (compareOn Rank.seq)

structure Item where
  node : Node
  seq : UInt64

def Item.rank (e : Item) : Rank :=
  ⟨e.node.created, e.seq⟩

def Item.notAfter (a b : Item) : Bool :=
  a.seq ≤ b.seq

abbrev Index := Std.TreeMap Rank Hash Rank.cmp

end Ledger

structure Ledger where
  items : Std.HashMap Hash Ledger.Item
  kids : Std.HashMap Hash (List Hash)
  indexes : Std.HashMap NodeKind Ledger.Index
  /-- The number of the next insertion. -/
  next : UInt64

namespace Ledger

def empty : Ledger :=
  ⟨∅, ∅, ∅, 0⟩

def get? (s : Ledger) (id : Hash) : Option Node :=
  s.items[id]?.map Item.node

def children (s : Ledger) (parent : Hash) : List Hash :=
  s.kids.getD parent []

def index (s : Ledger) (kind : NodeKind) : Index :=
  s.indexes.getD kind ∅

def ranked (s : Ledger) (kind : NodeKind) : List Item :=
  (s.index kind).toList.filterMap fun x => s.items[x.2]?

def recent (s : Ledger) (kind : NodeKind) (count : Nat) : List Node :=
  ((s.ranked kind).take count).map Item.node

/-- The nodes by number, in whatever order the map has them. -/
def nodes (s : Ledger) : List Node :=
  ((s.items.toList.map Prod.snd).mergeSort Item.notAfter).map Item.node

def insert (s : Ledger) (n : Node) : Ledger where
  items := s.items.insert n.id ⟨n, s.next⟩
  kids :=
    if n.parent.isNull then s.kids else s.kids.insert n.parent (s.children n.parent ++ [n.id])
  indexes := s.indexes.insert n.kind ((s.index n.kind).insert ⟨n.created, s.next⟩ n.id)
  next := s.next + 1

def add (s : Ledger) (n : Node) : Ledger :=
  if s.items.contains n.id then s else s.insert n

def remove (s : Ledger) (id : Hash) : Ledger :=
  let kids := s.kids.erase id
  match s.items[id]? with
  | none => { s with kids }
  | some e =>
    { s with
      items := s.items.erase id
      kids := kids.modify e.node.parent fun siblings => siblings.filter (· ≠ id)
      indexes := s.indexes.modify e.node.kind fun index => index.erase e.rank }

def subtree? (s : Ledger) (id : Hash) : Option (List Hash) :=
  Id.run (rowsBelow (fun p => pure (s.children p)) (s.items.size + 1) [id])

def removeSubtree (s : Ledger) (id : Hash) : Except StoreError Ledger :=
  if s.items.contains id then
    match s.subtree? id with
    | some ids => .ok (ids.reverse.foldl remove s)
    | none => .error (.endless id)
  else .error (.notFound id)

variable {ω : Type}

def update (f : Ledger → Except StoreError Ledger) : Action (Ledger × ω) Unit :=
  (Action.change f).on Prod.fst fun s t => (s, t.2)

def store : Store ω Ledger where
  get id := .read fun t => t.1.get? id
  children id := .read fun t => t.1.children id
  recent kind count := .read fun t => t.1.recent kind count
  add n := update fun s => .ok (s.add n)
  removeSubtree id := update fun s => s.removeSubtree id
  nodes := .read fun t => t.1.nodes
  -- A node has one parent at most, so there are no more links than nodes.
  reach t := t.1.items.size + t.1.items.size

theorem Rank.cmp_eq_lt_iff {a b : Rank} : Rank.cmp a b = .lt ↔
    b.created < a.created ∨ b.created = a.created ∧ a.seq < b.seq := by
  simp only [Rank.cmp, compareLex, compareOn, Ordering.then_eq_lt, Std.compare_eq_lt,
    Std.LawfulEqCmp.compare_eq_iff_eq]

instance : Std.TransCmp Rank.cmp :=
  have : Std.TransCmp fun a b : Rank => compare b.created a.created :=
    @Std.TransCmp.opposite _ (compareOn Rank.created) inferInstance
  inferInstanceAs (Std.TransCmp (compareLex _ _))

instance : Std.LawfulEqCmp Rank.cmp where
  eq_of_compare {a b} h := by
    simp only [Rank.cmp, compareLex, compareOn, Ordering.then_eq_eq,
      Std.LawfulEqCmp.compare_eq_iff_eq] at h
    obtain ⟨hcreated, hseq⟩ := h
    cases a
    cases b
    exact congrArg₂ Rank.mk hcreated.symm hseq

section Maps

variable (s : Ledger) (n : Node)

theorem children_insert (p : Hash) :
    (s.insert n).children p =
      s.children p ++ if n.parent = p ∧ ¬p.isNull then [n.id] else [] := by
  unfold insert
  cases hnull : n.parent.isNull with
  | true =>
    have hother : ¬(n.parent = p ∧ ¬p.isNull) := by
      rintro ⟨rfl, hp⟩
      exact hp hnull
    rw [if_neg hother, List.append_nil]
    rfl
  | false =>
    by_cases hp : n.parent = p
    · subst hp
      simp [children, hnull]
    · simp [children, hp, Std.HashMap.getD_insert]

theorem getElem?_index_insert (kind : NodeKind) (rank : Rank) :
    ((s.insert n).index kind)[rank]? =
      if n.kind = kind ∧ (⟨n.created, s.next⟩ : Rank) = rank then some n.id
      else (s.index kind)[rank]? := by
  by_cases hk : n.kind = kind
  · subst hk
    simp [insert, index, Std.TreeMap.getElem?_insert, Std.LawfulEqCmp.compare_eq_iff_eq]
  · simp [insert, index, hk, Std.HashMap.getD_insert]

variable {s} {e : Item} {id : Hash}

theorem getElem?_items_remove (s : Ledger) (id k : Hash) :
    (s.remove id).items[k]? = if id = k then none else s.items[k]? := by
  unfold remove
  split
  · next hnone => grind
  · simp [Std.HashMap.getElem?_erase]

theorem next_remove (s : Ledger) (id : Hash) : (s.remove id).next = s.next := by
  unfold remove
  split <;> rfl

theorem next_foldl_remove (s : Ledger) (ids : List Hash) :
    (ids.foldl remove s).next = s.next := by
  induction ids generalizing s with
  | nil => rfl
  | cons id ids ih => rw [List.foldl_cons, ih, next_remove]

theorem children_remove_of_none (he : s.items[id]? = none) (p : Hash) :
    (s.remove id).children p = if p = id then [] else s.children p := by
  simp only [remove, he, children, Std.HashMap.getD_erase, beq_iff_eq, eq_comm (a := id)]

theorem index_remove_of_none (he : s.items[id]? = none) (kind : NodeKind) :
    (s.remove id).index kind = s.index kind := by
  simp only [remove, he, index]

theorem children_remove (he : s.items[id]? = some e) (p : Hash) :
    (s.remove id).children p =
      if p = id then []
      else if e.node.parent = p then (s.children p).filter (· ≠ id) else s.children p := by
  have hmap (l : Option (List Hash)) :
      (l.map fun siblings => siblings.filter (· ≠ id)).getD [] = (l.getD []).filter (· ≠ id) := by
    cases l <;> rfl
  simp only [remove, he, children, Std.HashMap.getD_modify, Std.HashMap.getD_erase, hmap,
    Std.HashMap.getElem?_erase, beq_iff_eq, eq_comm (a := id)]
  grind [Std.HashMap.getD_eq_getD_getElem?]

theorem getElem?_index_remove (he : s.items[id]? = some e) (kind : NodeKind) (rank : Rank) :
    ((s.remove id).index kind)[rank]? =
      if e.node.kind = kind ∧ e.rank = rank then none else (s.index kind)[rank]? := by
  have hmap (x : Option Index) :
      ((x.map fun index => index.erase e.rank).getD ∅)[rank]? =
        if e.rank = rank then none else (x.getD ∅)[rank]? := by
    cases x <;> simp [Std.TreeMap.getElem?_erase, Std.LawfulEqCmp.compare_eq_iff_eq]
  simp only [remove, he, index, Std.HashMap.getD_modify, beq_iff_eq]
  grind [Std.HashMap.getD_eq_getD_getElem?]

end Maps

/-- The ledger has these items, in the order of their numbers, and the memory has their nodes. -/
structure Keeps (items : List Item) (s : Ledger) (m : Memory) : Prop where
  linked : m.Linked
  arranged : m.Arranged
  nodes : m.nodes = items.map Item.node
  ordered : items.Pairwise fun a b => a.seq < b.seq
  bounded : ∀ e ∈ items, e.seq < s.next
  item (id : Hash) (e : Item) : s.items[id]? = some e ↔ e ∈ items ∧ e.node.id = id
  children (p : Hash) : s.children p = m.children p
  index (kind : NodeKind) (rank : Rank) (id : Hash) : (s.index kind)[rank]? = some id ↔
    ∃ e ∈ items, e.node.kind = kind ∧ e.rank = rank ∧ e.node.id = id

variable {s : Ledger} {m : Memory} {items : List Item} {n : Node} {id : Hash} {kind : NodeKind}
  {a b e : Item}

theorem keeps_empty : Keeps [] empty .empty where
  linked := Memory.indexed_empty.toLinked
  arranged := Memory.arranged_empty
  nodes := rfl
  ordered := .nil
  bounded _ he := absurd he List.not_mem_nil
  item id e := by simp [empty]
  children p := by simp [empty, Ledger.children, Memory.children, Memory.empty]
  index kind rank id := by simp [empty, Ledger.index]

namespace Keeps

theorem eq_of_id (h : Keeps items s m) (ha : a ∈ items) (hb : b ∈ items)
    (hid : a.node.id = b.node.id) : a = b := by
  have hleft := (h.item b.node.id a).2 ⟨ha, hid⟩
  have hright := (h.item b.node.id b).2 ⟨hb, rfl⟩
  exact Option.some.inj (hleft.symm.trans hright)

theorem nodup (h : Keeps items s m) : items.Nodup :=
  h.ordered.imp fun hlt heq => absurd (heq ▸ hlt) (UInt64.lt_irrefl _)

theorem get? (h : Keeps items s m) (id : Hash) : s.get? id = m.get? id := by
  ext n
  rw [h.linked.get?_eq_some_iff, h.nodes, Ledger.get?, Option.map_eq_some_iff]
  simp only [h.item, List.mem_map]
  grind

theorem contains (h : Keeps items s m) (id : Hash) : s.items.contains id = (m.get? id).isSome := by
  rw [← h.get?, Ledger.get?, Option.isSome_map, Std.HashMap.contains_eq_isSome_getElem?]

theorem toList_perm (h : Keeps items s m) : (s.items.toList.map Prod.snd).Perm items := by
  have hpairs : s.items.toList.Perm (items.map fun e => (e.node.id, e)) := by
    refine (List.perm_ext_iff_of_nodup ?_ ?_).2 fun x => ?_
    · refine Std.HashMap.distinct_keys_toList.imp fun hne heq => ?_
      simp [heq] at hne
    · exact h.nodup.map fun a b heq => congrArg Prod.snd heq
    · obtain ⟨id, e⟩ := x
      rw [Std.HashMap.mem_toList_iff_getElem?_eq_some, h.item, List.mem_map]
      grind
  simpa [Function.comp_def] using hpairs.map Prod.snd

theorem size (h : Keeps items s m) : s.items.size = m.nodes.length := by
  rw [← Std.HashMap.length_toList, ← List.length_map Prod.snd, h.toList_perm.length_eq, h.nodes,
    List.length_map]

theorem eq_of_seq (h : Keeps items s m) (ha : a ∈ items) (hb : b ∈ items)
    (hseq : a.seq = b.seq) : a = b := by
  by_contra hne
  rcases pair_sublist_or ha hb hne with hpair | hpair
  · have hlt := List.pairwise_iff_forall_sublist.1 h.ordered hpair
    exact UInt64.lt_irrefl _ (hseq ▸ hlt)
  · have hlt := List.pairwise_iff_forall_sublist.1 h.ordered hpair
    exact UInt64.lt_irrefl _ (hseq ▸ hlt)

theorem pair_sublist (h : Keeps items s m) (ha : a ∈ items) (hb : b ∈ items)
    (hlt : a.seq < b.seq) : [a, b].Sublist items := by
  have hne : a ≠ b := fun heq => UInt64.lt_irrefl _ (heq ▸ hlt)
  refine (pair_sublist_or ha hb hne).resolve_right fun hswap => ?_
  exact UInt64.lt_asymm hlt (List.pairwise_iff_forall_sublist.1 h.ordered hswap)

theorem nodes_eq (h : Keeps items s m) : s.nodes = m.nodes := by
  have htrans (a b c : Item) (hab : a.notAfter b = true) (hbc : b.notAfter c = true) :
      a.notAfter c = true :=
    decide_eq_true (UInt64.le_trans (of_decide_eq_true hab) (of_decide_eq_true hbc))
  have htotal (a b : Item) : (a.notAfter b || b.notAfter a) = true := by
    simpa [Item.notAfter] using UInt64.le_total a.seq b.seq
  have hsorted := List.pairwise_mergeSort htrans htotal (s.items.toList.map Prod.snd)
  have hordered : items.Pairwise fun a b => a.notAfter b = true :=
    h.ordered.imp fun hlt => decide_eq_true (UInt64.le_of_lt hlt)
  have hperm := (List.mergeSort_perm _ Item.notAfter).trans h.toList_perm
  rw [h.nodes, Ledger.nodes]
  refine congrArg _ (List.Perm.eq_of_pairwise (fun a b ha hb hab hba => ?_) hsorted hordered hperm)
  refine h.eq_of_seq (hperm.mem_iff.1 ha) hb ?_
  exact UInt64.le_antisymm (of_decide_eq_true hab) (of_decide_eq_true hba)

theorem mem_ranked (h : Keeps items s m) :
    e ∈ s.ranked kind ↔ e ∈ items ∧ e.node.kind = kind := by
  simp only [ranked, List.mem_filterMap, Prod.exists, Std.TreeMap.mem_toList_iff_getElem?_eq_some,
    h.index, h.item]
  constructor
  · rintro ⟨_, _, ⟨e', he', hkind, rfl, rfl⟩, he, hid⟩
    rw [h.eq_of_id he he' hid]
    exact ⟨he', hkind⟩
  · rintro ⟨he, hkind⟩
    exact ⟨e.rank, e.node.id, ⟨e, he, hkind, rfl, rfl⟩, he, rfl⟩

theorem pairwise_ranked (h : Keeps items s m) (kind : NodeKind) :
    (s.ranked kind).Pairwise fun a b => Rank.cmp a.rank b.rank = .lt := by
  have hrank : ∀ x ∈ (s.index kind).toList, ∀ e, s.items[x.2]? = some e → e.rank = x.1 := by
    rintro ⟨rank, id⟩ hx e he
    rw [Std.TreeMap.mem_toList_iff_getElem?_eq_some, h.index] at hx
    obtain ⟨e', he', -, rfl, rfl⟩ := hx
    obtain ⟨he, hid⟩ := (h.item _ e).1 he
    rw [h.eq_of_id he he' hid]
  refine List.pairwise_filterMap.2 (Std.TreeMap.ordered_keys_toList.imp_of_mem ?_)
  intro x y hx hy hlt a ha b hb
  rw [hrank x hx a ha, hrank y hy b hb]
  exact hlt

theorem ranked_perm (h : Keeps items s m) (kind : NodeKind) :
    (s.ranked kind).Perm (items.filter fun e => e.node.kind = kind) := by
  refine (List.perm_ext_iff_of_nodup ?_ (h.nodup.filter _)).2 fun e => ?_
  · refine (h.pairwise_ranked kind).imp fun hlt heq => ?_
    subst heq
    rcases Rank.cmp_eq_lt_iff.1 hlt with hlt | ⟨-, hlt⟩ <;> exact UInt64.lt_irrefl _ hlt
  · rw [h.mem_ranked, List.mem_filter, decide_eq_true_iff]

theorem pairwise_stamps (h : Keeps items s m) (kind : NodeKind) :
    ((s.ranked kind).map fun e => e.node.stamp).Pairwise
      (Stamp.Leads ((m.nodes.map Node.stamp).filter fun x => x.kind = kind)) := by
  refine List.pairwise_map.2 ((h.pairwise_ranked kind).imp_of_mem fun {a b} ha hb hlt => ?_)
  obtain ⟨ha, hak⟩ := h.mem_ranked.1 ha
  obtain ⟨hb, hbk⟩ := h.mem_ranked.1 hb
  rcases Rank.cmp_eq_lt_iff.1 hlt with hlt | ⟨heq, hlt⟩
  · exact ⟨UInt64.le_of_lt hlt, fun hge => absurd hlt (UInt64.not_lt.2 hge)⟩
  · refine ⟨UInt64.le_of_eq heq, fun _ => ?_⟩
    have hpair := ((h.pair_sublist ha hb hlt).map fun e => e.node.stamp).filter
      fun x => x.kind = kind
    simpa [h.nodes, Node.stamp, Function.comp_def, hak, hbk] using hpair

/-- The index of a kind has the stamps of the timeline in their order. -/
theorem timeline_eq (h : Keeps items s m) (kind : NodeKind) :
    m.timeline.filter (fun x => x.kind = kind) = (s.ranked kind).map fun e => e.node.stamp := by
  have hperm : ((s.ranked kind).map fun e => e.node.stamp).Perm
      ((m.nodes.map Node.stamp).filter fun x => x.kind = kind) := by
    rw [h.nodes, List.map_map, List.filter_map]
    exact (h.ranked_perm kind).map _
  rw [h.arranged.filter_timeline h.linked]
  exact (Stamp.eq_mergeSort (h.linked.nodup_stamps.filter _) hperm (h.pairwise_stamps kind)).symm

theorem recent_eq (h : Keeps items s m) (kind : NodeKind) (count : Nat) :
    s.recent kind count = m.recent kind count := by
  rw [Ledger.recent, List.map_take]
  refine (h.linked.recent_eq ?_ ?_ count).symm
  · intro n hn
    obtain ⟨e, he, rfl⟩ := List.mem_map.1 hn
    exact h.nodes ▸ List.mem_map_of_mem (h.mem_ranked.1 he).1
  · rw [h.timeline_eq, List.map_map]
    rfl

theorem insert (h : Keeps items s m) (hid : m.get? n.id = none)
    (hnext : s.next.toNat + 1 < 2 ^ 64) :
    Keeps (items ++ [⟨n, s.next⟩]) (s.insert n) (m.insert n) where
  linked := h.linked.insert hid
  arranged := h.arranged.insert n
  nodes := by simp [Memory.insert, h.nodes]
  ordered := by
    refine List.pairwise_append.2 ⟨h.ordered, List.pairwise_singleton .., fun a ha b hb => ?_⟩
    rw [List.mem_singleton.1 hb]
    exact h.bounded a ha
  bounded e he := by
    have hlt : s.next < s.next + 1 := by
      rw [UInt64.lt_iff_toNat_lt, UInt64.toNat_add, UInt64.toNat_one, Nat.mod_eq_of_lt hnext]
      exact Nat.lt_succ_self _
    rcases List.mem_append.1 he with he | he
    · exact UInt64.lt_trans (h.bounded e he) hlt
    · rw [List.mem_singleton.1 he]
      exact hlt
  item id e := by
    have hnew : ∀ e ∈ items, e.node.id ≠ n.id := fun e he =>
      Memory.id_ne_of_get? hid _ (h.nodes ▸ List.mem_map_of_mem he)
    rw [Ledger.insert, Std.HashMap.getElem?_insert, List.mem_append, List.mem_singleton]
    by_cases hne : n.id = id
    · subst hne
      simp
      grind
    · simp [hne, h.item]
      grind
  children p := by
    rw [children_insert, Memory.children_insert, h.children]
  index kind rank id := by
    simp only [getElem?_index_insert, List.mem_append, List.mem_singleton, or_and_right, exists_or,
      exists_eq_left]
    split
    · next hnew =>
      have hother : ¬∃ e ∈ items, e.node.kind = kind ∧ e.rank = rank ∧ e.node.id = id := by
        rintro ⟨e, he, -, hrank, -⟩
        have hseq : e.seq = s.next := congrArg Rank.seq (hrank.trans hnew.2.symm)
        exact absurd (hseq ▸ h.bounded e he) (UInt64.lt_irrefl _)
      rw [or_iff_right hother, Option.some_inj]
      exact ⟨fun hid => ⟨hnew.1, hnew.2, hid⟩, fun hsame => hsame.2.2⟩
    · next hnew =>
      rw [h.index, or_iff_left]
      exact fun hsame => hnew ⟨hsame.1, hsame.2.1⟩

theorem add (h : Keeps items s m) (hnext : s.next.toNat + 1 < 2 ^ 64) (n : Node) :
    ∃ items', Keeps items' (s.add n) (m.add n) := by
  unfold Ledger.add
  rw [h.contains]
  obtain hid | ⟨k, hid⟩ := (m.get? n.id).eq_none_or_eq_some
  · rw [hid, Option.isSome_none, if_neg nofun, Memory.add_of_get? hid]
    exact ⟨_, h.insert hid hnext⟩
  · rw [hid, Option.isSome_some, if_pos rfl, Memory.add_eq_self hid]
    exact ⟨items, h⟩

theorem get?_of_item (h : Keeps items s m) (he : s.items[id]? = some e) :
    m.get? id = some e.node := by
  rw [← h.get?, Ledger.get?, he, Option.map_some]

theorem children_remove (h : Keeps items s m) (id p : Hash) :
    (s.remove id).children p = if p = id then [] else (s.children p).filter (· ≠ id) := by
  cases he : s.items[id]? with
  | none =>
    have hother : ∀ c ∈ s.children p, c ≠ id := by
      rintro c hc rfl
      rw [h.children, Memory.mem_children] at hc
      obtain ⟨k, hk, hlink⟩ := h.linked.links _ hc
      have hnone : m.get? c = none := by rw [← h.get?, Ledger.get?, he, Option.map_none]
      exact Memory.id_ne_of_get? hnone k hk (congrArg Prod.snd hlink)
    rw [children_remove_of_none he, List.filter_eq_self.2 fun c hc => decide_eq_true (hother c hc)]
  | some e =>
    rw [Ledger.children_remove he]
    by_cases hp : e.node.parent = p
    · rw [if_pos hp]
    · have hother : ∀ c ∈ s.children p, c ≠ id := by
        rintro c hc rfl
        rw [h.children, Memory.mem_children] at hc
        exact hp (congrArg Prod.fst (h.linked.eq_of_link (h.get?_of_item he) hc rfl)).symm
      rw [if_neg hp, List.filter_eq_self.2 fun c hc => decide_eq_true (hother c hc)]

theorem getElem?_index_remove (h : Keeps items s m) (id : Hash) (kind : NodeKind) (rank : Rank)
    (k : Hash) : ((s.remove id).index kind)[rank]? = some k ↔
      (s.index kind)[rank]? = some k ∧ k ≠ id := by
  cases he : s.items[id]? with
  | none =>
    rw [index_remove_of_none he, iff_self_and, h.index]
    rintro ⟨e, hmem, -, -, rfl⟩ rfl
    exact absurd (((h.item _ e).2 ⟨hmem, rfl⟩).symm.trans he) nofun
  | some e =>
    obtain ⟨hmem, hid⟩ := (h.item id e).1 he
    rw [Ledger.getElem?_index_remove he]
    split
    · next hsame =>
      have hindex := (h.index kind rank id).2 ⟨e, hmem, hsame.1, hsame.2, hid⟩
      rw [hindex]
      refine iff_of_false nofun ?_
      rintro ⟨⟨⟩, hne⟩
      exact hne rfl
    · next hother =>
      rw [iff_self_and, h.index]
      rintro ⟨e', hmem', hkind, hrank, hid'⟩ rfl
      rw [h.eq_of_id hmem' hmem (hid'.trans hid.symm)] at hkind hrank
      exact hother ⟨hkind, hrank⟩

theorem remove (h : Keeps items s m) (id : Hash) :
    Keeps (items.filter fun e => e.node.id ≠ id) (s.remove id) (m.remove id) where
  linked := h.linked.remove_eq id ▸ h.linked.without [id]
  arranged := h.linked.remove_eq id ▸ h.arranged.without [id]
  nodes := by
    rw [h.linked.remove_eq, Memory.without, h.nodes, List.filter_map]
    simp [Function.comp_def]
  ordered := h.ordered.filter _
  bounded e he := by
    rw [next_remove]
    exact h.bounded e (List.mem_of_mem_filter he)
  item k e := by
    rw [getElem?_items_remove]
    split
    · grind
    · rw [h.item]
      grind
  children p := by
    rw [h.children_remove, h.linked.remove_eq, Memory.children_without_singleton, h.children]
  index kind rank k := by
    rw [h.getElem?_index_remove, h.index]
    grind

theorem foldl_remove (h : Keeps items s m) (ids : List Hash) :
    ∃ items', Keeps items' (ids.foldl Ledger.remove s) (ids.foldl Memory.remove m) := by
  induction ids generalizing items s m with
  | nil => exact ⟨items, h⟩
  | cons id ids ih => exact ih (h.remove id)

theorem subtree?_eq (h : Keeps items s m) (id : Hash) : s.subtree? id = m.subtree? id := by
  simp only [Ledger.subtree?, Memory.subtree?, h.size, h.children]

theorem removeSubtree (h : Keeps items s m) (id : Hash) :
    (∃ s' m' items', s.removeSubtree id = .ok s' ∧ m.removeSubtree id = .ok m' ∧
      Keeps items' s' m' ∧ s'.next = s.next) ∨
    ∃ e, s.removeSubtree id = .error e ∧ m.removeSubtree id = .error e := by
  rw [Ledger.removeSubtree, Memory.removeSubtree, h.contains, h.subtree?_eq, Memory.contains]
  split
  · cases m.subtree? id with
    | some ids =>
      obtain ⟨items', hkeeps⟩ := h.foldl_remove ids.reverse
      exact .inl ⟨_, _, items', rfl, rfl, hkeeps, next_foldl_remove s ids.reverse⟩
    | none => exact .inr ⟨_, rfl, rfl⟩
  · exact .inr ⟨_, rfl, rfl⟩

end Keeps

end Ledger

end Grove
