import Grove.Proofs.Store.Memory
import Grove.Proofs.Tree.Kinship
import Grove.Proofs.Validation.Deep
import Mathlib.Algebra.Group.Nat.Defs
import Mathlib.Data.List.Perm.Subperm
import Mathlib.Logic.Relation

/-! # Forests

A memory is a forest when each of its nodes is grounded: the identities and communities are roots of
depth zero, and every other node has a stored parent, no identity, that is one level above. In a
forest the lineage of a node counts the levels down, so parents never run in a circle, and no node
is deeper than there are nodes. A node that deep validation accepts is grounded, and a forest
remains one when it is inserted or when a subtree is removed.
-/

namespace Grove

/-- A node is a root, or one level below a parent that can be looked up. -/
structure Node.Grounded (lookup : Hash → Option Node) (n : Node) : Prop where
  named : n.id.isNull = false
  root : n.kind = .identity ∨ n.kind = .community → n.parent.isNull = true ∧ n.depth = 0
  below : n.kind = .conversation ∨ n.kind = .reply → n.parent.isNull = false ∧
    ∃ p, lookup n.parent = some p ∧ p.kind ≠ .identity ∧ n.depth.toNat = p.depth.toNat + 1

namespace Node

variable {n : Node} {lookup lookup' : Hash → Option Node} {verify : Verifier}

theorem kind_cases (n : Node) :
    (n.kind = .identity ∨ n.kind = .community) ∨ n.kind = .conversation ∨ n.kind = .reply := by
  cases h : n.body <;> simp [kind, h, Body.kind]

theorem Grounded.mono (h : n.Grounded lookup)
    (hparent : n.parent.isNull = false → ∀ p, lookup n.parent = some p →
      lookup' n.parent = some p) :
    n.Grounded lookup' where
  named := h.named
  root := h.root
  below hk := by
    obtain ⟨hnull, p, hp, hkind, hdepth⟩ := h.below hk
    exact ⟨hnull, p, hparent hnull p hp, hkind, hdepth⟩

theorem isNull_id_of_checkShallow {signer : Option Identity}
    (h : n.checkShallow signer verify = .ok ()) : n.id.isNull = false := by
  rw [id_of_checkShallow h]
  rfl

theorem DeepValid.isNull_parent_iff (h : n.DeepValid lookup verify) :
    n.parent.isNull = true ↔ n.kind = .identity ∨ n.kind = .community := by
  obtain ⟨hf, _⟩ := checkShallow_eq_ok_iff.1 h.shallow
  obtain ⟨_, _, _, _, hbody, _⟩ := checkFields_eq_ok_iff.1 hf
  exact Node.isNull_parent_iff hbody

theorem DeepValid.isNull_parent_eq_false (h : n.DeepValid lookup verify)
    (hk : n.kind = .conversation ∨ n.kind = .reply) : n.parent.isNull = false := by
  rw [← Bool.not_eq_true, h.isNull_parent_iff]
  rcases hk with hk | hk <;> simp [hk]

theorem DeepValid.exists_parent (h : n.DeepValid lookup verify) (hnull : n.parent.isNull = false) :
    ∃ p, lookup n.parent = some p ∧ p.kind ≠ .identity ∧ n.depth = p.depth + 1 ∧
      (n.kind = .conversation → p.kind = .community) := by
  obtain ⟨p, hp, hkind, hd⟩ := h.parent hnull
  unfold otherParentKinds at hkind
  refine ⟨p, hp, ?_, hd, ?_⟩
  · rintro hi
    rw [hi] at hkind
    split at hkind <;> simp at hkind
  · intro hc
    simpa [hc] using hkind

/-- Deep validation accepts grounded nodes only, unless the level below a parent is beyond what a
node can say. -/
theorem DeepValid.grounded (h : n.DeepValid lookup verify)
    (hdepth : ∀ p, lookup n.parent = some p → p.depth.toNat + 1 < 2 ^ 32) : n.Grounded lookup := by
  obtain ⟨hf, _⟩ := checkShallow_eq_ok_iff.1 h.shallow
  obtain ⟨_, _, _, hzero, _⟩ := checkFields_eq_ok_iff.1 hf
  have hroot := h.isNull_parent_iff
  refine ⟨isNull_id_of_checkShallow h.shallow, fun hk => ⟨hroot.2 hk, hzero (hroot.2 hk)⟩, ?_⟩
  intro hk
  have hnull := h.isNull_parent_eq_false hk
  obtain ⟨p, hp, hkind, hd, _⟩ := h.exists_parent hnull
  refine ⟨hnull, p, hp, hkind, ?_⟩
  have hlt := hdepth p hp
  rw [hd, UInt32.toNat_add, UInt32.toNat_one, Nat.mod_eq_of_lt hlt]

end Node

namespace Memory

variable {m : Memory} {n : Node} {id : Hash} {ids : List Hash}

structure Forest (m : Memory) : Prop extends Indexed m where
  grounded : ∀ n ∈ m.nodes, n.Grounded m.get?

theorem forest_empty : empty.Forest :=
  ⟨indexed_empty, fun _ hn => absurd hn List.not_mem_nil⟩

theorem Forest.insert (h : m.Forest) (hid : m.get? n.id = none) (hn : n.Grounded m.get?) :
    (m.insert n).Forest := by
  have hmono : ∀ id p, m.get? id = some p → (m.insert n).get? id = some p :=
    fun _ _ hp => get?_insert_of_get? hp n
  refine ⟨h.toIndexed.insert hid, fun k hk => ?_⟩
  rcases List.mem_append.1 hk with hk | hk
  · exact (h.grounded k hk).mono fun _ => hmono _
  · obtain rfl := List.mem_singleton.1 hk
    exact hn.mono fun _ => hmono _

/-- A node that stays has its parent stay: the parent would not go without it. -/
theorem Forest.without (h : m.Forest) (hids : ∀ p ∈ ids, m.children p ⊆ ids) :
    (m.without ids).Forest := by
  refine ⟨h.toIndexed.without hids, fun n hn => ?_⟩
  obtain ⟨hn, hstay⟩ := List.mem_filter.1 hn
  refine (h.grounded n hn).mono fun hnull p hp => ?_
  have hparent : n.parent ∉ ids := fun hi =>
    of_decide_eq_true hstay (hids _ hi (h.mem_children.2 ⟨hnull, n, hn, rfl, rfl⟩))
  rw [h.get?_without, if_neg hparent, hp]

/-- In a forest the lineage of a node goes up level by level, and to a community unless the node is
a root. -/
theorem Forest.lineage (h : m.Forest) (hn : n ∈ m.nodes) :
    ∃ line, Lineage m.get? n.parent line ∧ line ⊆ m.nodes ∧
      line.map (·.depth.toNat) = (List.range n.depth.toNat).reverse ∧
      (n.kind = .conversation ∨ n.kind = .reply → ∃ r, line.getLast? = some r ∧
        r.kind = .community) := by
  induction hd : n.depth.toNat using Nat.strongRecOn generalizing n with
  | ind d ih =>
    rcases n.kind_cases with hk | hk
    · obtain ⟨hnull, hzero⟩ := (h.grounded n hn).root hk
      refine ⟨[], .root hnull, List.nil_subset _, ?_, ?_⟩
      · rw [← hd, hzero]
        rfl
      · rcases hk with hk | hk <;> simp [hk]
    · obtain ⟨hnull, p, hp, hkind, hdepth⟩ := (h.grounded n hn).below hk
      have hpm := mem_of_get? hp
      obtain ⟨line, hline, hsub, hcount, hlast⟩ := ih p.depth.toNat (by omega) hpm rfl
      refine ⟨p :: line, .step hnull hp hline, List.cons_subset.2 ⟨hpm, hsub⟩, ?_, fun _ => ?_⟩
      · rw [← hd, hdepth, List.range_succ, List.reverse_append, List.map_cons, hcount]
        rfl
      · rcases p.kind_cases with (hi | hc) | hb
        · exact absurd hi hkind
        · have hnil : line = [] := by
            rw [((h.grounded p hpm).root (.inr hc)).2] at hcount
            exact List.map_eq_nil_iff.1 hcount
          exact ⟨p, by rw [hnil]; rfl, hc⟩
        · obtain ⟨r, hr, hc⟩ := hlast hb
          exact ⟨r, by rw [List.getLast?_cons, hr, Option.getD_some], hc⟩

theorem run_ancestry {ω : Type} {w : ω} {line : List Node} (hn : m.get? id = some n)
    (hline : Ascent m.get? n.parent line) (hlength : line.length < m.nodes.length) :
    (store.ancestry id).run (m, w) = (.ok (line.map (·.id)), m, w) := by
  have hbound : line.length < m.nodes.length + m.links.length + 1 := by omega
  exact answers_ancestry (answers_get m w) (fun _ _ => id_of_get?) hn hline hbound

theorem Forest.depth_lt (h : m.Forest) (hn : n ∈ m.nodes) : n.depth.toNat < m.nodes.length := by
  obtain ⟨line, _, hsub, hcount, _⟩ := h.lineage hn
  have hlevels : (n :: line).map (·.depth.toNat) = (List.range (n.depth.toNat + 1)).reverse := by
    rw [List.map_cons, hcount, List.range_succ, List.reverse_append]
    rfl
  have hnodup : (n :: line).Nodup := by
    refine List.Nodup.of_map (·.depth.toNat) ?_
    rw [hlevels]
    exact List.nodup_reverse.2 List.nodup_range
  have hle := (hnodup.subperm (List.cons_subset.2 ⟨hn, hsub⟩)).length_le
  have hlength : (n :: line).length = n.depth.toNat + 1 := by
    rw [← List.length_map (·.depth.toNat), hlevels, List.length_reverse, List.length_range]
  omega

/-- Levels do not run out while fewer nodes are stored than there are levels. -/
theorem Forest.insert_of_deepValid (h : m.Forest) (hsize : m.nodes.length < 2 ^ 32)
    (hid : m.get? n.id = none) {verify : Verifier} (hv : n.DeepValid m.get? verify) :
    (m.insert n).Forest := by
  refine h.insert hid (hv.grounded fun p hp => ?_)
  have hlt := h.depth_lt (mem_of_get? hp)
  omega

theorem Forest.of_removeSubtree (h : m.Forest) {m' : Memory} (hr : m.removeSubtree id = .ok m') :
    m'.Forest := by
  obtain ⟨ids, _, hids, rfl⟩ := h.removeSubtree_eq hr
  exact h.without hids

/-- The parent of a stored node, be it stored or not. -/
def Above (m : Memory) (p c : Hash) : Prop :=
  ∃ n, m.get? c = some n ∧ n.parent = p

theorem Forest.depth_lt_of_above (h : m.Forest) {p c : Hash} (ha : m.Above p c) {k : Node}
    (hk : m.get? p = some k) : ∃ n, m.get? c = some n ∧ k.depth < n.depth := by
  obtain ⟨n, hn, rfl⟩ := ha
  refine ⟨n, hn, ?_⟩
  have hg := h.grounded n (mem_of_get? hn)
  rcases n.kind_cases with hr | hb
  · have hnull : n.parent.isNull = false := by
      rw [← id_of_get? hk]
      exact (h.grounded k (mem_of_get? hk)).named
    exact absurd (hnull.symm.trans (hg.root hr).1) nofun
  · obtain ⟨_, q, hq, _, hd⟩ := hg.below hb
    obtain rfl : k = q := Option.some.inj (hk.symm.trans hq)
    exact UInt32.lt_iff_toNat_lt.2 (by omega)

theorem Forest.depth_lt_of_transGen (h : m.Forest) {p c : Hash}
    (ha : Relation.TransGen m.Above p c) {k : Node} (hk : m.get? p = some k) :
    ∃ n, m.get? c = some n ∧ k.depth < n.depth := by
  induction ha with
  | single ha => exact h.depth_lt_of_above ha hk
  | tail _ ha ih =>
    obtain ⟨b, hb, hlt⟩ := ih
    obtain ⟨n, hn, hlt'⟩ := h.depth_lt_of_above ha hb
    exact ⟨n, hn, UInt32.lt_trans hlt hlt'⟩

theorem Forest.not_above_self (h : m.Forest) (id : Hash) : ¬Relation.TransGen m.Above id id := by
  intro ha
  obtain ⟨k, hk⟩ : ∃ k, m.get? id = some k := by
    cases ha with
    | single ha => exact ha.imp fun _ => And.left
    | tail _ ha => exact ha.imp fun _ => And.left
  obtain ⟨n, hn, hlt⟩ := h.depth_lt_of_transGen ha hk
  obtain rfl := Option.some.inj (hk.symm.trans hn)
  exact UInt32.lt_irrefl _ hlt

end Memory

end Grove
