import Grove.Proofs.Store.Memory
import Mathlib.Data.Fintype.EquivFin
import Mathlib.Data.List.Perm.Subperm
import Mathlib.Order.WellFounded

/-! # Consistent nodes

Nodes are consistent when no two of them differ under one identifier and their parents never run in
a circle. Among consistent nodes no search below a node is endless, since a way that is longer than
there are nodes would come back to one of them. So what a memory holds of them can be removed.
-/

namespace Grove

/-- One of the nodes has the second identifier and hangs below the first. -/
def Hangs (nodes : List Node) (p c : Hash) : Prop :=
  p.isNull = false ∧ ∃ n ∈ nodes, n.parent = p ∧ n.id = c

def Acyclic (nodes : List Node) : Prop :=
  ∀ id, ¬Relation.TransGen (Hangs nodes) id id

theorem Acyclic.of_links {nodes nodes' : List Node} (h : Acyclic nodes)
    (hlinks : ∀ n ∈ nodes', ∃ k ∈ nodes, k.parent = n.parent ∧ k.id = n.id) : Acyclic nodes' := by
  have hhangs : ∀ p c, Hangs nodes' p c → Hangs nodes p c := by
    rintro _ _ ⟨hp, n, hn, rfl, rfl⟩
    exact ⟨hp, hlinks n hn⟩
  exact fun id hcirc => h id (Relation.TransGen.mono hhangs id id hcirc)

theorem Acyclic.mono {nodes nodes' : List Node} (h : Acyclic nodes) (hsub : nodes' ⊆ nodes) :
    Acyclic nodes' :=
  h.of_links fun n hn => ⟨n, hsub hn, rfl, rfl⟩

/-- Finitely many nodes leave no endless way up, unless it runs in a circle. -/
theorem Acyclic.wellFounded {nodes : List Node} (h : Acyclic nodes) :
    WellFounded fun a b : { n // n ∈ nodes } =>
      Relation.TransGen (Hangs nodes) a.1.id b.1.id := by
  have htrans : IsTrans { n // n ∈ nodes } fun a b =>
      Relation.TransGen (Hangs nodes) a.1.id b.1.id := ⟨fun _ _ _ => .trans⟩
  have hirrefl : Std.Irrefl fun a b : { n // n ∈ nodes } =>
      Relation.TransGen (Hangs nodes) a.1.id b.1.id := ⟨fun a => h a.1.id⟩
  exact Finite.wellFounded_of_trans_of_irrefl _

structure Consistent (nodes : List Node) : Prop where
  unique : ∀ a ∈ nodes, ∀ b ∈ nodes, a.id = b.id → a = b
  acyclic : ∀ id, ¬Relation.TransGen (Hangs nodes) id id

theorem not_transGen_hangs {nodes : List Node} (height : Hash → Nat)
    (h : ∀ n ∈ nodes, n.parent.isNull = false → height n.parent < height n.id) (id : Hash) :
    ¬Relation.TransGen (Hangs nodes) id id := by
  have hlt : ∀ {p c}, Relation.TransGen (Hangs nodes) p c → height p < height c := by
    intro p c hpc
    induction hpc with
    | single hc =>
      obtain ⟨hp, n, hn, rfl, rfl⟩ := hc
      exact h n hn hp
    | tail _ hc ih =>
      obtain ⟨hp, n, hn, rfl, rfl⟩ := hc
      exact ih.trans (h n hn hp)
  exact fun hcirc => Nat.lt_irrefl _ (hlt hcirc)

namespace Memory

variable {m : Memory} {n : Node} {id : Hash} {ids : List Hash} {nodes : List Node} {bound : Nat}

/-- The memory is indexed and holds none but these nodes. -/
structure Within (nodes : List Node) (m : Memory) : Prop extends Indexed m where
  known : m.nodes ⊆ nodes

theorem within_empty (nodes : List Node) : empty.Within nodes :=
  ⟨indexed_empty, List.nil_subset _⟩

theorem Within.add (h : m.Within nodes) (hn : n ∈ nodes) : (m.add n).Within nodes := by
  refine ⟨h.toIndexed.add n, fun k hk => ?_⟩
  unfold Memory.add at hk
  split at hk
  · exact h.known hk
  · rcases List.mem_append.1 hk with hk | hk
    · exact h.known hk
    · rwa [List.mem_singleton.1 hk]

theorem Within.foldl_add {l : List Node} (h : m.Within nodes) (hl : l ⊆ nodes) :
    (l.foldl Memory.add m).Within nodes := by
  induction l generalizing m with
  | nil => exact h
  | cons n l ih =>
    obtain ⟨hn, hl⟩ := List.cons_subset.1 hl
    exact ih (h.add hn) hl

theorem Within.without (h : m.Within nodes) (hids : ∀ p ∈ ids, m.children p ⊆ ids) :
    (m.without ids).Within nodes :=
  ⟨h.toIndexed.without hids, fun _ hk => h.known (List.mem_of_mem_filter hk)⟩

theorem Within.hangs (h : m.Within nodes) {p c : Hash} (hc : c ∈ m.children p) :
    Hangs nodes p c := by
  obtain ⟨hp, n, hn, hnp, hnc⟩ := h.mem_children.1 hc
  exact ⟨hp, n, h.known hn, hnp, hnc⟩

theorem Indexed.below_eq (h : m.Indexed) : (fun p c => c ∈ m.children p) = Hangs m.nodes := by
  funext p c
  exact propext h.mem_children

theorem Linked.hangs_iff (h : m.Linked) (hn : n ∈ m.nodes) {p : Hash} :
    Hangs m.nodes p n.id ↔ p.isNull = false ∧ n.parent = p := by
  constructor
  · rintro ⟨hp, k, hk, hkp, hid⟩
    obtain rfl := List.inj_on_of_nodup_map h.nodup hk hn hid
    exact ⟨hp, hkp⟩
  · rintro ⟨hp, hnp⟩
    exact ⟨hp, n, hn, hnp, rfl⟩

theorem exists_below (hn : m.get? id = some n) {c : Hash}
    (hc : Relation.ReflTransGen (Hangs m.nodes) id c) : ∃ k ∈ m.nodes, k.id = c := by
  rcases hc.cases_tail with rfl | ⟨_, -, -, k, hk, -, hid⟩
  · exact ⟨n, mem_of_get? hn, id_of_get? hn⟩
  · exact ⟨k, hk, hid⟩

theorem Within.exists_rows (h : m.Within nodes) (ha : Acyclic nodes) {kids : Hash → List Hash}
    (hkids : ∀ p, kids p ⊆ m.children p) (hb : m.nodes.length < bound) (id : Hash) :
    ∃ ids, rows kids bound [id] = some ids := by
  obtain hnone | hsome := (rows kids bound [id]).eq_none_or_eq_some
  · exfalso
    obtain ⟨p, path, -, hlength, hchain⟩ := exists_path_of_rows_eq_none hnone
    have hbelow : List.Pairwise (Relation.TransGen fun p c => c ∈ m.children p) (p :: path) :=
      (hchain.imp fun p _ hk => Relation.TransGen.single (hkids p hk)).pairwise
    obtain ⟨hstored, hpath⟩ := List.pairwise_cons.1 hbelow
    have hnodup : path.Nodup := by
      refine hpath.imp ?_
      rintro a _ hab rfl
      exact ha a (Relation.TransGen.mono (fun _ _ => h.hangs) a a hab)
    have hsub : path ⊆ m.nodes.map (·.id) := by
      intro c hcp
      obtain ⟨q, -, hq⟩ := Relation.TransGen.tail'_iff.1 (hstored c hcp)
      obtain ⟨-, n, hn, -, rfl⟩ := h.mem_children.1 hq
      exact List.mem_map_of_mem hn
    have hle := (hnodup.subperm hsub).length_le
    rw [List.length_map] at hle
    omega
  · exact hsome

theorem Within.rows_eq_some (h : m.Within nodes) (hc : Consistent nodes)
    (hb : m.nodes.length < bound) (id : Hash) : ∃ ids, rows m.children bound [id] = some ids :=
  h.exists_rows hc.acyclic (fun _ => List.Subset.refl _) hb id

theorem Within.removeSubtree_of_rows (h : m.Within nodes) (hn : m.get? id = some n)
    (hids : rows m.children bound [id] = some ids) (ha : Acyclic nodes) :
    m.removeSubtree id = .ok (m.without ids) := by
  obtain ⟨ids', hids'⟩ :=
    h.exists_rows ha (fun _ => List.Subset.refl _) (Nat.lt_succ_self m.nodes.length) id
  obtain rfl := rows_unique hids hids'
  have hsub : m.subtree? id = some ids := hids'
  rw [removeSubtree, if_pos (by simp [contains, hn]), hsub]
  simp only [h.foldl_remove_eq, without_reverse]

theorem Within.removeSubtree_of_below (h : m.Within nodes) (hn : m.get? id = some n)
    (ha : Acyclic nodes)
    (hids : ∀ c, c ∈ ids ↔ Relation.ReflTransGen (fun p c => c ∈ m.children p) id c) :
    m.removeSubtree id = .ok (m.without ids) := by
  obtain ⟨ids', hids'⟩ :=
    h.exists_rows ha (fun _ => List.Subset.refl _) (Nat.lt_succ_self m.nodes.length) id
  rw [h.removeSubtree_of_rows hn hids' ha]
  exact congrArg _ (without_congr fun c => (mem_rows_iff hids').trans (hids c).symm)

theorem removeSubtree_of_get?_eq_none (hn : m.get? id = none) :
    m.removeSubtree id = .error (.notFound id) := by
  rw [removeSubtree, if_neg (by simp [contains, hn])]

end Memory

end Grove
