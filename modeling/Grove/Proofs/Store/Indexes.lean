import Grove.Proofs.Stack.Layering
import Grove.Proofs.Store.Timeline

/-! # Indexes and the order of insertion

A list of nodes in the order of insertion, without any index, says all that a memory answers: the
children of a node are those that name it as their parent, and the latest nodes of a kind are the
first ones once the list is sorted. Nodes are added and subtrees removed in any order, again after a
removal as well, and both indexes of a memory keep to the list. Sorting keeps the order of equals,
which shows in pairs: of two stamps that were created at one time the first on the timeline is the
first in the order of insertion.
-/

namespace Grove

section Pairs

variable {α : Type} {a b : α} {l : List α}

theorem not_sublist_swap (h : l.Nodup) (hab : [a, b].Sublist l) : ¬[b, a].Sublist l := by
  intro hba
  induction l with
  | nil => cases hab
  | cons c l ih =>
    obtain ⟨hc, hl⟩ := List.nodup_cons.1 h
    cases hab with
    | cons _ hab =>
      cases hba with
      | cons _ hba => exact ih hl hab hba
      | cons_cons _ _ => exact hc (hab.subset (by simp))
    | cons_cons _ hb =>
      cases hba with
      | cons _ hba => exact hc (hba.subset (by simp))
      | cons_cons _ _ => exact hc (List.singleton_sublist.1 hb)

theorem pair_sublist_or (ha : a ∈ l) (hb : b ∈ l) (hne : a ≠ b) :
    [a, b].Sublist l ∨ [b, a].Sublist l := by
  obtain ⟨s, t, rfl⟩ := List.append_of_mem ha
  rcases List.mem_append.1 hb with hb | hb
  · exact .inr ((List.singleton_sublist.2 hb).append ((List.nil_sublist t).cons_cons a))
  · have hb : b ∈ t := (List.mem_cons.1 hb).resolve_left (Ne.symm hne)
    exact .inl (((List.singleton_sublist.2 hb).cons_cons a).trans (List.sublist_append_right s _))

end Pairs

def Stamp.notBefore (s t : Stamp) : Bool :=
  t.created ≤ s.created

def Node.notBefore (a b : Node) : Bool :=
  b.created ≤ a.created

/-- The first stamp is the later one, or was inserted first. -/
structure Stamp.Leads (l : List Stamp) (s t : Stamp) : Prop where
  notBefore : t.created ≤ s.created
  tie : s.created ≤ t.created → [s, t].Sublist l

namespace Stamp

variable {l l' : List Stamp} {s t : Stamp}

theorem Leads.mono (h : Leads l s t) (hl : l.Sublist l') : Leads l' s t :=
  ⟨h.notBefore, fun hle => (h.tie hle).trans hl⟩

theorem Leads.filter (h : Leads l s t) {p : Stamp → Bool} (hs : p s = true) (ht : p t = true) :
    Leads (l.filter p) s t := by
  refine ⟨h.notBefore, fun hle => ?_⟩
  have hpair := (h.tie hle).filter p
  rwa [List.filter_cons_of_pos hs, List.filter_cons_of_pos ht, List.filter_nil] at hpair

theorem pairwise_filter (h : l'.Pairwise (Leads l)) (p : Stamp → Bool) :
    (l'.filter p).Pairwise (Leads (l.filter p)) := by
  refine (h.filter p).imp_of_mem fun hs ht hst => ?_
  exact hst.filter (List.mem_filter.1 hs).2 (List.mem_filter.1 ht).2

theorem notBefore_trans (r s t : Stamp) (h : r.notBefore s = true) (h' : s.notBefore t = true) :
    r.notBefore t = true :=
  decide_eq_true (UInt64.le_trans (of_decide_eq_true h') (of_decide_eq_true h))

theorem notBefore_total (s t : Stamp) : (s.notBefore t || t.notBefore s) = true := by
  rcases UInt64.le_total t.created s.created with h | h <;> simp [notBefore, h]

theorem pairwise_mergeSort (hl : l.Nodup) : (l.mergeSort notBefore).Pairwise (Leads l) := by
  have hsorted := List.pairwise_mergeSort notBefore_trans notBefore_total l
  have hperm := l.mergeSort_perm notBefore
  refine List.pairwise_iff_forall_sublist.2 fun {s t} hpair => ?_
  have hle : s.notBefore t = true := List.pairwise_iff_forall_sublist.1 hsorted hpair
  refine ⟨of_decide_eq_true hle, fun hge => ?_⟩
  have hs : s ∈ l := hperm.mem_iff.1 (hpair.subset (by simp))
  have ht : t ∈ l := hperm.mem_iff.1 (hpair.subset (by simp))
  have hnodup := hperm.nodup_iff.2 hl
  have hne : s ≠ t := fun heq => List.nodup_iff_sublist.1 hnodup t (heq ▸ hpair)
  refine (pair_sublist_or hs ht hne).resolve_right fun hswap => ?_
  -- Sorting keeps the order of two stamps of one time, so the pair would stand the other way round.
  have hkept := List.pair_sublist_mergeSort notBefore_trans notBefore_total
    (show t.notBefore s = true from decide_eq_true hge) hswap
  exact not_sublist_swap hnodup hpair hkept

/-- Only the sorted list keeps the latest first, and the order among equals. -/
theorem eq_mergeSort (hl : l.Nodup) (hp : l'.Perm l) (h : l'.Pairwise (Leads l)) :
    l' = l.mergeSort notBefore := by
  refine List.Perm.eq_of_pairwise (fun s t _ _ hst hts => ?_) h (pairwise_mergeSort hl)
    (hp.trans (l.mergeSort_perm notBefore).symm)
  exact absurd (hts.tie hst.notBefore) (not_sublist_swap hl (hst.tie hts.notBefore))

end Stamp

namespace Memory

variable {ω : Type} {w : ω} {m : Memory} {n : Node} {id : Hash} {known : List Node}

theorem pairwise_insertStamp {l stamps : List Stamp} (s : Stamp) (hsub : stamps ⊆ l)
    (h : stamps.Pairwise (Stamp.Leads l)) :
    (insertStamp s stamps).Pairwise (Stamp.Leads (l ++ [s])) := by
  have hmono {t u : Stamp} (htu : Stamp.Leads l t u) : Stamp.Leads (l ++ [s]) t u :=
    htu.mono (List.sublist_append_left ..)
  induction stamps with
  | nil => exact List.pairwise_singleton ..
  | cons t stamps ih =>
    obtain ⟨ht, hstamps⟩ := List.cons_subset.1 hsub
    obtain ⟨hleads, hrest⟩ := List.pairwise_cons.1 h
    unfold insertStamp
    split
    · next hlt =>
      refine .cons (fun u hu => ?_) (h.imp hmono)
      have hle : u.created < s.created := by
        rcases List.mem_cons.1 hu with rfl | hu
        · exact hlt
        · exact UInt64.lt_of_le_of_lt (hleads u hu).notBefore hlt
      exact ⟨UInt64.le_of_lt hle, fun hge => absurd hle (UInt64.not_lt.2 hge)⟩
    · next hlt =>
      refine .cons (fun u hu => ?_) (ih hstamps hrest)
      rcases mem_insertStamp.1 hu with rfl | hu
      · exact ⟨UInt64.not_lt.1 hlt, fun _ => (List.singleton_sublist.2 ht).append (.refl [u])⟩
      · exact hmono (hleads u hu)

/-- The timeline is sorted, with the order of insertion among equals. -/
structure Arranged (m : Memory) : Prop extends Dated m where
  leads : m.timeline.Pairwise (Stamp.Leads (m.nodes.map Node.stamp))

theorem arranged_empty : empty.Arranged :=
  ⟨dated_empty, .nil⟩

theorem Arranged.insert (h : m.Arranged) (n : Node) : (m.insert n).Arranged where
  toDated := h.toDated.insert n
  leads := by
    show (insertStamp n.stamp m.timeline).Pairwise (Stamp.Leads ((m.nodes ++ [n]).map Node.stamp))
    rw [List.map_append]
    exact pairwise_insertStamp n.stamp h.stamps.subset h.leads

theorem Arranged.add (h : m.Arranged) (n : Node) : (m.add n).Arranged := by
  unfold Memory.add
  split
  · exact h
  · exact h.insert n

theorem Arranged.without (h : m.Arranged) (ids : List Hash) : (m.without ids).Arranged where
  toDated := h.toDated.without ids
  leads := by
    have hleads := Stamp.pairwise_filter h.leads fun s => s.id ∉ ids
    rwa [List.filter_map] at hleads

theorem Linked.nodup_stamps (h : m.Linked) : (m.nodes.map Node.stamp).Nodup :=
  List.Nodup.of_map Stamp.id (by rw [List.map_map]; exact h.nodup)

theorem Arranged.filter_timeline (h : m.Arranged) (hl : m.Linked) (p : Stamp → Bool) :
    m.timeline.filter p = ((m.nodes.map Node.stamp).filter p).mergeSort Stamp.notBefore :=
  Stamp.eq_mergeSort (hl.nodup_stamps.filter _) (h.stamps.filter _)
    (Stamp.pairwise_filter h.leads _)

theorem Linked.recent_eq (h : m.Linked) {kind : NodeKind} {l : List Node} (hl : l ⊆ m.nodes)
    (htimeline : m.timeline.filter (fun s => s.kind = kind) = l.map Node.stamp) (count : Nat) :
    m.recent kind count = l.take count := by
  have hfound : ∀ n ∈ l, ((fun s => m.get? s.id) ∘ Node.stamp) n = some n :=
    fun n hn => h.get?_eq_some_iff.2 ⟨hl hn, rfl⟩
  rw [recent, htimeline, List.filterMap_map, List.filterMap_congr hfound, List.filterMap_some]

theorem filter_map_stamp (l : List Node) (kind : NodeKind) :
    (l.map Node.stamp).filter (fun s => s.kind = kind) =
      (l.filter fun n => n.kind = kind).map Node.stamp := by
  rw [List.filter_map]
  rfl

theorem Arranged.recent_eq (h : m.Arranged) (hl : m.Linked) (kind : NodeKind) (count : Nat) :
    m.recent kind count =
      ((m.nodes.filter fun n => n.kind = kind).mergeSort Node.notBefore).take count := by
  have hsort : ∀ a ∈ m.nodes.filter fun n => n.kind = kind,
      ∀ b ∈ m.nodes.filter fun n => n.kind = kind,
        a.notBefore b = a.stamp.notBefore b.stamp := fun _ _ _ _ => rfl
  refine hl.recent_eq ?_ ?_ count
  · exact fun n hn => List.mem_of_mem_filter (List.mem_mergeSort.1 hn)
  · rw [h.filter_timeline hl, filter_map_stamp, List.map_mergeSort hsort]

theorem Indexed.children_eq (h : m.Indexed) {p : Hash} (hp : p.isNull = false) :
    m.children p = (m.nodes.filter fun n => n.parent = p).map (·.id) := by
  rw [children, h.links_eq, List.filterMap_map, List.filterMap_filter, ← List.filterMap_eq_map,
    List.filterMap_filter]
  refine List.filterMap_congr fun n _ => ?_
  by_cases hn : n.parent = p <;> simp [hn, hp]

inductive Change where
  | add (n : Node)
  | removeSubtree (id : Hash)
  deriving DecidableEq, Repr

namespace Change

def added : Change → List Node
  | add n => [n]
  | removeSubtree _ => []

/-- What becomes of a memory by the change, be it refused or not. -/
def perform : Change → Memory × ω → Memory × ω
  | add n, t => ((store.add n).run t).2
  | removeSubtree id, t => ((store.removeSubtree id).run t).2

open Classical in
/-- What becomes of a list of nodes: an absent node comes last, and a stored one takes along all
that hangs below it. -/
noncomputable def onList (l : List Node) : Change → List Node
  | add n => if l.any (·.id = n.id) then l else l ++ [n]
  | removeSubtree id =>
    if l.any (·.id = id) then
      l.filter fun n => ¬Relation.ReflTransGen (Hangs l) id n.id
    else l

end Change

theorem any_nodes_eq : (m.nodes.any fun k => k.id = id) = (m.get? id).isSome :=
  List.isSome_find?.symm

/-- A memory of known nodes whose indexes keep to the order of insertion. -/
structure Kept (known : List Node) (m : Memory) : Prop extends Within known m where
  arranged : m.Arranged

theorem Kept.add (h : m.Kept known) (hn : n ∈ known) : (m.add n).Kept known :=
  ⟨h.toWithin.add hn, h.arranged.add n⟩

theorem Kept.removeSubtree (h : m.Kept known) (ha : Acyclic known) (hn : m.get? id = some n) :
    ∃ ids, m.removeSubtree id = .ok (m.without ids) ∧ (m.without ids).Kept known ∧
      ∀ c, c ∈ ids ↔ Relation.ReflTransGen (Hangs m.nodes) id c := by
  obtain ⟨ids, hids⟩ :=
    h.exists_rows ha (fun _ => List.Subset.refl _) (Nat.lt_succ_self m.nodes.length) id
  refine ⟨ids, h.removeSubtree_of_rows hn hids ha, ⟨h.toWithin.without (rows_closed hids).2,
    h.arranged.without ids⟩, fun c => ?_⟩
  rw [mem_rows_iff hids, h.below_eq]

/-- A change does to the nodes of a memory what it does to a list, and the indexes keep to it. -/
theorem Kept.step {c : Change} (h : m.Kept known) (ha : Acyclic known) (hc : c.added ⊆ known) :
    ∃ m', c.perform (m, w) = (m', w) ∧ m'.nodes = c.onList m.nodes ∧ m'.Kept known := by
  cases c with
  | add n =>
    have hn : n ∈ known := hc List.mem_cons_self
    refine ⟨m.add n, congrArg Prod.snd run_add, ?_, h.add hn⟩
    rw [Change.onList, any_nodes_eq]
    obtain hid | ⟨k, hid⟩ := (m.get? n.id).eq_none_or_eq_some
    · rw [add_of_get? hid, hid]
      rfl
    · rw [add_eq_self hid, hid]
      rfl
  | removeSubtree id =>
    have hrun := run_removeSubtree m w id
    rw [Change.onList, any_nodes_eq]
    obtain hid | ⟨n, hid⟩ := (m.get? id).eq_none_or_eq_some
    · rw [removeSubtree_of_get?_eq_none hid] at hrun
      exact ⟨m, congrArg Prod.snd hrun, by rw [hid]; rfl, h⟩
    · obtain ⟨ids, hremove, hkept, hids⟩ := h.removeSubtree ha hid
      rw [hremove] at hrun
      refine ⟨m.without ids, congrArg Prod.snd hrun, ?_, hkept⟩
      rw [hid, Option.isSome_some, if_pos rfl]
      refine List.filter_congr fun k _ => ?_
      rw [decide_eq_decide, hids]

def perform (changes : List Change) (t : Memory × ω) : Memory × ω :=
  changes.foldl (fun t c => c.perform t) t

theorem Kept.perform {changes : List Change} (h : m.Kept known) (ha : Acyclic known)
    (hadded : changes.flatMap Change.added ⊆ known) :
    ∃ m', perform changes (m, w) = (m', w) ∧ m'.nodes = changes.foldl Change.onList m.nodes ∧
      m'.Kept known := by
  induction changes generalizing m with
  | nil => exact ⟨m, rfl, rfl, h⟩
  | cons c changes ih =>
    rw [List.flatMap_cons, List.append_subset] at hadded
    obtain ⟨m', hc, hnodes, h'⟩ := h.step (w := w) ha hadded.1
    obtain ⟨m'', hrest, hnodes', h''⟩ := ih h' hadded.2
    refine ⟨m'', ?_, ?_, h''⟩
    · rw [Memory.perform, List.foldl_cons, hc]
      exact hrest
    · rw [hnodes', hnodes, List.foldl_cons]

theorem exists_perform {changes : List Change} (ha : Acyclic (changes.flatMap Change.added))
    (w : ω) : ∃ m, perform changes (.empty, w) = (m, w) ∧
      m.Kept (changes.flatMap Change.added) := by
  have hempty : empty.Kept (changes.flatMap Change.added) := ⟨within_empty _, arranged_empty⟩
  obtain ⟨m, hrun, -, h⟩ := hempty.perform (w := w) ha (List.Subset.refl _)
  exact ⟨m, hrun, h⟩

/-- From an empty memory on, whatever is added and removed, the memory answers as the list of the
nodes in the order of insertion says, and its indexes name nothing else, provided that the parents
of the nodes added do not run in a circle. -/
theorem perform_indexes {changes : List Change} (ha : Acyclic (changes.flatMap Change.added)) :
    let t := perform changes (.empty, w)
    let l := changes.foldl Change.onList []
    t.1.nodes = l ∧
    (∀ p : Hash, p.isNull = false →
      (store.children p).run t = (.ok ((l.filter fun n => n.parent = p).map (·.id)), t) ∧
        ((l.filter fun n => n.parent = p).map (·.id)).Nodup) ∧
    (∀ kind count, (store.recent kind count).run t =
      (.ok (((l.filter fun n => n.kind = kind).mergeSort Node.notBefore).take count), t)) ∧
    (∀ link ∈ t.1.links, ∃ n ∈ l, (n.parent, n.id) = link) ∧
    ∀ s ∈ t.1.timeline, ∃ n ∈ l, n.stamp = s := by
  have hempty : empty.Kept (changes.flatMap Change.added) :=
    ⟨within_empty _, arranged_empty⟩
  obtain ⟨m, hrun, hnodes, h⟩ := hempty.perform (w := w) ha (List.Subset.refl _)
  simp only [hrun]
  have hl : changes.foldl Change.onList [] = m.nodes := hnodes.symm
  rw [hl]
  refine ⟨rfl, fun p hp => ?_, fun kind count => ?_, h.links, fun s hs => ?_⟩
  · rw [← h.toIndexed.children_eq hp]
    exact ⟨rfl, h.toIndexed.nodup_children p⟩
  · rw [← h.arranged.recent_eq h.toLinked]
    rfl
  · exact List.mem_map.1 (h.arranged.stamps.subset hs)

/-- The plot is added with its reply first, and again. The place goes with its reply, which is then
sought in vain, and both come back. -/
def reseeding : List Change :=
  (Archive.plot.reverse ++ Archive.plot).map .add ++
    Archive.plot.tail.map (fun n => .removeSubtree n.id) ++ Archive.plot.reverse.map .add

theorem acyclic_reseeding : Acyclic (reseeding.flatMap Change.added) := by
  have hadded : ∀ n ∈ reseeding.flatMap Change.added, n ∈ Archive.plot := by decide +kernel
  exact Acyclic.mono Stack.Layering.consistent_plot.acyclic hadded

/-- The reply came back before the place that it hangs below. -/
theorem perform_indexes_reseeding :
    (reseeding.foldl Change.onList []).map Node.kind = [.identity, .reply, .community] ∧
      ∀ place ∈ Archive.plot, place.kind = .community → ∃ reply ∈ Archive.plot,
        ((store.children place.id).run (perform reseeding (.empty, ()))).1 = .ok [reply.id] ∧
        ((store.recent .reply 1).run (perform reseeding (.empty, ()))).1 = .ok [reply] := by
  have hadded : ∀ n ∈ reseeding.flatMap Change.added, n ∈ Archive.plot := by decide +kernel
  have ha : Acyclic (reseeding.flatMap Change.added) :=
    Acyclic.mono Stack.Layering.consistent_plot.acyclic hadded
  have hall := perform_indexes (w := ()) ha
  have hm : (perform reseeding (.empty, ())).1.nodes.map Node.kind =
        [.identity, .reply, .community] ∧
      ∀ place ∈ Archive.plot, place.kind = .community → place.id.isNull = false ∧
        ∃ reply ∈ Archive.plot,
          ((perform reseeding (.empty, ())).1.nodes.filter fun n => n.parent = place.id).map
            (·.id) = [reply.id] ∧
          ((perform reseeding (.empty, ())).1.nodes.filter fun n => n.kind = .reply) = [reply] := by
    decide +kernel
  generalize perform reseeding (.empty, ()) = t at hall hm
  obtain ⟨hnodes, hchildren, hrecent, -⟩ := hall
  obtain ⟨hkinds, hplaces⟩ := hm
  rw [hnodes] at hkinds hplaces
  refine ⟨hkinds, fun place hplace hk => ?_⟩
  obtain ⟨hnull, reply, hreply, hbelow, hreplies⟩ := hplaces place hplace hk
  refine ⟨reply, hreply, ?_, ?_⟩
  · rw [(hchildren place.id hnull).1, hbelow]
  · rw [hrecent, hreplies, List.mergeSort_singleton]
    rfl

end Memory

end Grove
