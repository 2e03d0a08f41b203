import Grove.Proofs.Store.Memory
import Grove.Store.Folder

/-! # Nodes by time

A memory puts each node on its timeline behind all that were not created earlier, while a folder
sorts its nodes anew for each question. Both list the latest first, and two lists of the same nodes
that do so show the same times at the same places. So they differ at most in nodes that were created
at one time.
-/

namespace Grove

open Std

namespace Qualified

variable {n : Namespace}

theorem compareBytes_eq : compareBytes = List.compareLex (compareOn UInt8.toNat) := by
  funext a b
  induction a generalizing b with
  | nil => cases b <;> rfl
  | cons x a ih =>
    cases b with
    | nil => rfl
    | cons y b =>
      rw [compareBytes, List.compareLex_cons_cons, ih]
      rfl

instance : TransCmp compareBytes :=
  compareBytes_eq ▸ inferInstance

instance : TransCmp fun p q : Qualified n => compareBytes p.payload q.payload where
  eq_swap {p q} := (OrientedCmp.eq_swap : compareBytes p.payload q.payload = _)
  isLE_trans {p q r} (h : (compareBytes p.payload q.payload).isLE)
    (h' : (compareBytes q.payload r.payload).isLE) := TransCmp.isLE_trans h h'

instance : TransOrd (Qualified n) :=
  inferInstanceAs (TransCmp (compareLex
    (compareLex (compareOn fun q : Qualified n => q.kind.tag.toNat)
      (compareOn fun q : Qualified n => q.descriptor.length.toNat))
    fun p q : Qualified n => compareBytes p.payload q.payload))

theorem le_trans {p q r : Qualified n} (h : p.le q = true) (h' : q.le r = true) : p.le r = true :=
  TransCmp.isLE_trans h h'

theorem le_total (p q : Qualified n) : p.le q = true ∨ q.le p = true := by
  unfold le
  rw [OrientedOrd.eq_swap (a := q) (b := p)]
  cases compare p q <;> simp

end Qualified

/-- The latest created come first, in whatever order among equals. -/
def Descending (l : List Node) : Prop :=
  l.Pairwise fun a b => b.created ≤ a.created

section Descending

variable {l l' : List Node}

theorem map_created_eq (hp : l.Perm l') (h : Descending l) (h' : Descending l') :
    l.map (·.created) = l'.map (·.created) := by
  have hl : (l.map (·.created)).Pairwise (· ≥ ·) := List.pairwise_map.2 h
  have hl' : (l'.map (·.created)).Pairwise (· ≥ ·) := List.pairwise_map.2 h'
  exact (hp.map _).eq_of_pairwise (fun s t _ _ hst hts => UInt64.le_antisymm hts hst) hl hl'

/-- Where no two nodes were created at one time, there is one order only. -/
theorem eq_of_descending (hp : l.Perm l') (h : Descending l) (h' : Descending l')
    (hdistinct : ∀ a ∈ l, ∀ b ∈ l, a.created = b.created → a = b) : l = l' := by
  refine hp.eq_of_pairwise (fun a b ha hb hab hba => ?_) h h'
  exact hdistinct a ha b (hp.mem_iff.2 hb) (UInt64.le_antisymm hba hab)

end Descending

namespace Folder

variable {a b c : Node}

theorem newestFirst_iff : newestFirst a b = true ↔
    b.created < a.created ∨ a.created = b.created ∧ a.id.le b.id = true := by
  simp [newestFirst]

theorem created_le_of_newestFirst (h : newestFirst a b = true) : b.created ≤ a.created := by
  rcases newestFirst_iff.1 h with hlt | ⟨heq, -⟩
  · exact UInt64.le_of_lt hlt
  · exact UInt64.le_of_eq heq.symm

theorem newestFirst_trans (h : newestFirst a b = true) (h' : newestFirst b c = true) :
    newestFirst a c = true := by
  rw [newestFirst_iff] at h h' ⊢
  rcases h with hlt | ⟨heq, hid⟩
  · rcases h' with hlt' | ⟨heq', -⟩
    · exact .inl (UInt64.lt_trans hlt' hlt)
    · exact .inl (heq' ▸ hlt)
  · rcases h' with hlt' | ⟨heq', hid'⟩
    · exact .inl (heq ▸ hlt')
    · exact .inr ⟨heq.trans heq', Qualified.le_trans hid hid'⟩

theorem newestFirst_total (a b : Node) : newestFirst a b = true ∨ newestFirst b a = true := by
  rw [newestFirst_iff, newestFirst_iff]
  by_cases heq : a.created = b.created
  · exact (Qualified.le_total a.id b.id).imp (fun h => .inr ⟨heq, h⟩) fun h => .inr ⟨heq.symm, h⟩
  · exact (UInt64.lt_or_lt_of_ne heq).symm.imp .inl .inl

theorem sorted_mergeSort (l : List Node) :
    (l.mergeSort newestFirst).Pairwise fun a b => newestFirst a b = true := by
  have htotal (a b : Node) : (newestFirst a b || newestFirst b a) = true := by
    simpa using newestFirst_total a b
  exact @List.pairwise_mergeSort _ newestFirst (fun _ _ _ => newestFirst_trans) htotal l

theorem descending_mergeSort (l : List Node) : Descending (l.mergeSort newestFirst) :=
  (sorted_mergeSort l).imp created_le_of_newestFirst

end Folder

def Node.stamp (n : Node) : Stamp :=
  ⟨n.kind, n.created, n.id⟩

namespace Memory

variable {m : Memory} {n : Node} {ids : List Hash}

structure Dated (m : Memory) : Prop where
  stamps : m.timeline.Perm (m.nodes.map Node.stamp)
  descending : m.timeline.Pairwise fun s t => t.created ≤ s.created

theorem dated_empty : empty.Dated :=
  ⟨.nil, .nil⟩

theorem insertStamp_perm (s : Stamp) (stamps : List Stamp) :
    (insertStamp s stamps).Perm (s :: stamps) := by
  induction stamps with
  | nil => exact .refl _
  | cons t stamps ih =>
    unfold insertStamp
    split
    · exact .refl _
    · exact (ih.cons t).trans (.swap ..)

theorem descending_insertStamp {stamps : List Stamp} (s : Stamp)
    (h : stamps.Pairwise fun s t => t.created ≤ s.created) :
    (insertStamp s stamps).Pairwise fun s t => t.created ≤ s.created := by
  induction stamps with
  | nil => exact List.pairwise_singleton ..
  | cons t stamps ih =>
    obtain ⟨hle, hrest⟩ := List.pairwise_cons.1 h
    unfold insertStamp
    split
    · next hlt =>
      have hlater : t.created ≤ s.created := UInt64.le_of_lt hlt
      exact .cons (List.forall_mem_cons.2 ⟨hlater, fun u hu => UInt64.le_trans (hle u hu) hlater⟩) h
    · next hlt =>
      refine .cons (fun u hu => ?_) (ih hrest)
      rcases mem_insertStamp.1 hu with rfl | hu
      · exact UInt64.not_lt.1 hlt
      · exact hle u hu

theorem Dated.insert (h : m.Dated) (n : Node) : (m.insert n).Dated where
  stamps := by
    show (insertStamp n.stamp m.timeline).Perm ((m.nodes ++ [n]).map Node.stamp)
    rw [List.map_append]
    exact (insertStamp_perm ..).trans ((h.stamps.cons _).trans (List.perm_append_singleton ..).symm)
  descending := descending_insertStamp n.stamp h.descending

theorem Dated.add (h : m.Dated) (n : Node) : (m.add n).Dated := by
  unfold Memory.add
  split
  · exact h
  · exact h.insert n

theorem Dated.without (h : m.Dated) (ids : List Hash) : (m.without ids).Dated where
  stamps := by
    have hstamps := h.stamps.filter fun s => s.id ∉ ids
    rwa [List.filter_map] at hstamps
  descending := h.descending.filter _

def history (m : Memory) (kind : NodeKind) : List Node :=
  (m.timeline.filter fun s => s.kind = kind).filterMap fun s => m.get? s.id

theorem Dated.history_perm (h : m.Dated) (hl : m.Linked) (kind : NodeKind) :
    (m.history kind).Perm (m.nodes.filter fun n => n.kind = kind) := by
  have hfound : ∀ n ∈ m.nodes, m.get? n.stamp.id = some n :=
    fun n hn => hl.get?_eq_some_iff.2 ⟨hn, rfl⟩
  refine ((h.stamps.filter _).filterMap _).trans (.of_eq ?_)
  rw [List.filter_map, List.filterMap_map]
  exact (List.filterMap_congr fun n hn => hfound n (List.mem_of_mem_filter hn)).trans
    List.filterMap_some

theorem Dated.descending_history (h : m.Dated) (hl : m.Linked) (kind : NodeKind) :
    Descending (m.history kind) := by
  have hcreated : ∀ s ∈ m.timeline, ∀ n, m.get? s.id = some n → n.created = s.created := by
    intro s hs n hn
    obtain ⟨k, hk, rfl⟩ := List.mem_map.1 (h.stamps.mem_iff.1 hs)
    rw [show k = n from Option.some.inj ((hl.get?_eq_some_iff.2 ⟨hk, rfl⟩).symm.trans hn)]
    rfl
  refine List.pairwise_filterMap.2 ((h.descending.filter _).imp_of_mem ?_)
  intro s t hs ht hle a ha b hb
  rw [hcreated s (List.mem_of_mem_filter hs) a ha, hcreated t (List.mem_of_mem_filter ht) b hb]
  exact hle

end Memory

end Grove
