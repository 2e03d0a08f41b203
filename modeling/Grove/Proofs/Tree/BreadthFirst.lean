import Grove.Tree.Walk
import Mathlib.Data.List.Nodup
import Mathlib.Data.Set.Card
import Mathlib.Logic.Relation
import Mathlib.Order.Lattice.Nat

/-! # Breadth-first orders

What can be reached from a root stands in breadth-first order when nearer identifiers come before
those that are farther away, and those that are equally far away in the order in which their first
parents stand and list them. The order is found by sweeping: it is the root, followed by the
children of the first identifier, those of the second and so on, each one only where it is named for
the first time. Where no more than finitely many identifiers can be reached, the sweep comes to an
end.
-/

namespace Grove

variable {kids : Hash → List Hash} {root a b c p q : Hash} {l front order : List Hash} {d : Nat}

/-- The second identifier is the first one or is below it. -/
abbrev Reaches (kids : Hash → List Hash) : Hash → Hash → Prop :=
  Relation.ReflTransGen fun p c => c ∈ kids p

inductive Steps (kids : Hash → List Hash) (root : Hash) : Nat → Hash → Prop
  | root : Steps kids root 0 root
  | child {d : Nat} {p c : Hash} (parent : Steps kids root d p) (child : c ∈ kids p) :
    Steps kids root (d + 1) c

theorem Steps.reaches (h : Steps kids root d a) : Reaches kids root a := by
  induction h with
  | root => exact .refl
  | child _ hc ih => exact ih.tail hc

noncomputable def distance (kids : Hash → List Hash) (root id : Hash) : Nat :=
  sInf { d | Steps kids root d id }

theorem distance_le (h : Steps kids root d a) : distance kids root a ≤ d :=
  Nat.sInf_le h

theorem steps_distance (h : Reaches kids root a) : Steps kids root (distance kids root a) a := by
  have hsome : { d | Steps kids root d a }.Nonempty := by
    induction h with
    | refl => exact ⟨0, .root⟩
    | tail _ hc ih =>
      obtain ⟨d, hd⟩ := ih
      exact ⟨d + 1, hd.child hc⟩
  exact Nat.sInf_mem hsome

/-- Some front part of the list has the first identifier and not the second. -/
def Precedes (l : List Hash) (a b : Hash) : Prop :=
  ∃ front, front <+: l ∧ a ∈ front ∧ b ∉ front

namespace Precedes

theorem ne (h : Precedes l a b) : a ≠ b := by
  rintro rfl
  obtain ⟨_, _, ha, hb⟩ := h
  exact hb ha

theorem mem_front (h : Precedes l a b) (hfront : front <+: l) (hb : b ∈ front) : a ∈ front := by
  obtain ⟨front', hfront', ha, hb'⟩ := h
  rcases List.prefix_or_prefix_of_prefix hfront hfront' with hle | hle
  · exact absurd (hle.subset hb) hb'
  · exact hle.subset ha

theorem asymm (h : Precedes l a b) : ¬Precedes l b a := by
  rintro ⟨front, hfront, hb, ha⟩
  exact ha (h.mem_front hfront hb)

theorem cons (h : Precedes l a b) (hb : b ≠ c) : Precedes (c :: l) a b := by
  obtain ⟨front, hfront, ha, hb'⟩ := h
  refine ⟨c :: front, List.cons_prefix_cons.2 ⟨rfl, hfront⟩, List.mem_cons_of_mem c ha, ?_⟩
  simp [hb, hb']

theorem total (ha : a ∈ l) (hb : b ∈ l) (hne : a ≠ b) : Precedes l a b ∨ Precedes l b a := by
  induction l with
  | nil => simp at ha
  | cons c l ih =>
    have hhead : [c] <+: c :: l := List.prefix_append [c] l
    by_cases hac : a = c
    · exact .inl ⟨[c], hhead, by simp [hac], by simpa [hac] using hne.symm⟩
    by_cases hbc : b = c
    · exact .inr ⟨[c], hhead, by simp [hbc], by simpa using hac⟩
    · have hmem := ih (List.mem_of_ne_of_mem hac ha) (List.mem_of_ne_of_mem hbc hb)
      exact hmem.imp (·.cons hbc) (·.cons hac)

theorem eraseDups (h : Precedes l a b) : Precedes l.eraseDups a b := by
  obtain ⟨front, ⟨back, rfl⟩, ha, hb⟩ := h
  refine ⟨front.eraseDups, ?_, by simpa using ha, by simpa using hb⟩
  rw [List.eraseDups_append]
  exact List.prefix_append ..

end Precedes

theorem nodup_eraseDups (l : List Hash) : l.eraseDups.Nodup := by
  induction hn : l.length using Nat.strongRecOn generalizing l with
  | ind n ih =>
    cases l with
    | nil => simp
    | cons a l =>
      rw [List.eraseDups_cons, List.nodup_cons]
      constructor
      · simp
      · refine ih _ ?_ _ rfl
        rw [← hn, List.length_cons]
        exact Nat.lt_succ_of_le (List.length_filter_le ..)

/-- All that can be reached, from the nearest to the farthest, with ties broken by first parents:
the one that stands before all others that list an identifier. -/
structure BreadthFirst (kids : Hash → List Hash) (root : Hash) (order : List Hash) : Prop where
  nodup : order.Nodup
  mem_iff : ∀ id, id ∈ order ↔ Reaches kids root id
  head : order.head? = some root
  nearer : ∀ a b, b ∈ order → Precedes order a b → distance kids root a ≤ distance kids root b
  parent : ∀ c ∈ order, c ≠ root → ∃ p, order.find? (fun p => c ∈ kids p) = some p
  ties : ∀ a b p q, a ≠ root → b ≠ root →
    order.find? (fun p => a ∈ kids p) = some p → order.find? (fun p => b ∈ kids p) = some q →
      (Precedes order a b ↔ Precedes order p q ∨ p = q ∧ Precedes (kids p) a b)

/-- Each identifier where the root and the children of each identifier in turn name it first. -/
structure Swept (kids : Hash → List Hash) (root : Hash) (order : List Hash) : Prop where
  order_eq : order = (root :: order.flatMap kids).eraseDups
  reached : ∀ id ∈ order, Reaches kids root id

theorem sweep_step {visited queue : List Hash} {id : Hash}
    (h : visited ++ id :: queue = (root :: visited.flatMap kids).eraseDups) :
    visited ++ id :: queue ++ Walk.unseen (visited ++ id :: queue) (kids id) =
      (root :: (visited ++ [id]).flatMap kids).eraseDups := by
  have hmem : ∀ c, c ∈ visited ++ id :: queue ↔ c ∈ root :: visited.flatMap kids := by
    intro c
    rw [h, List.mem_eraseDups]
  rw [List.flatMap_append, List.flatMap_singleton, ← List.cons_append, List.eraseDups_append, ← h]
  simp only [Walk.unseen, List.removeAll, hmem, decide_not, List.elem_eq_mem]

theorem length_le_ncard_of_reached (hfin : { id | Reaches kids root id }.Finite) (hl : l.Nodup)
    (hreached : ∀ id ∈ l, Reaches kids root id) :
    l.length ≤ { id | Reaches kids root id }.ncard := by
  rw [← List.toFinset_card_of_nodup hl, ← Set.ncard_coe_finset]
  refine Set.ncard_le_ncard (fun id hid => ?_) hfin
  exact hreached id (by simpa using hid)

theorem reaches_of_closed (hroot : root ∈ l) (hclosed : ∀ p ∈ l, kids p ⊆ l) :
    { id | Reaches kids root id }.Finite ∧ { id | Reaches kids root id }.ncard ≤ l.length := by
  have hsub : { id | Reaches kids root id } ⊆ (l.toFinset : Set Hash) := by
    intro id hid
    have hmem : id ∈ l := by
      induction hid with
      | refl => exact hroot
      | tail _ hc ih => exact hclosed _ ih hc
    simpa using hmem
  refine ⟨l.toFinset.finite_toSet.subset hsub, ?_⟩
  calc { id | Reaches kids root id }.ncard
    _ ≤ (l.toFinset : Set Hash).ncard := Set.ncard_le_ncard hsub l.toFinset.finite_toSet
    _ = l.toFinset.card := Set.ncard_coe_finset _
    _ ≤ l.length := l.toFinset_card_le

namespace Swept

theorem nodup (h : Swept kids root order) : order.Nodup :=
  h.order_eq ▸ nodup_eraseDups _

theorem length_le (h : Swept kids root order) (hfin : { id | Reaches kids root id }.Finite) :
    order.length ≤ { id | Reaches kids root id }.ncard :=
  length_le_ncard_of_reached hfin h.nodup h.reached

theorem mem_cases (h : Swept kids root order) (ha : a ∈ order) :
    a = root ∨ ∃ p ∈ order, a ∈ kids p := by
  rw [h.order_eq] at ha
  simpa using ha

theorem mem_of_child (h : Swept kids root order) (hp : p ∈ order) (hc : c ∈ kids p) :
    c ∈ order := by
  rw [h.order_eq]
  simpa using .inr ⟨p, hp, hc⟩

theorem exists_tail (h : Swept kids root order) : ∃ l, order = root :: l := by
  rw [h.order_eq, List.eraseDups_cons]
  exact ⟨_, rfl⟩

theorem mem_iff (h : Swept kids root order) : a ∈ order ↔ Reaches kids root a := by
  refine ⟨h.reached a, fun ha => ?_⟩
  induction ha with
  | refl =>
    obtain ⟨l, hl⟩ := h.exists_tail
    simp [hl]
  | tail _ hc ih => exact h.mem_of_child ih hc

theorem named_prefix (h : Swept kids root order) (hfront : front <+: order) :
    (root :: front.flatMap kids).eraseDups <+: order := by
  obtain ⟨back, hback⟩ := hfront
  have horder := h.order_eq
  rw [← hback, List.flatMap_append, ← List.cons_append, List.eraseDups_append, hback] at horder
  rw [horder]
  exact List.prefix_append ..

/-- A front part that names nothing else is all of the order. -/
theorem eq_of_named_eq (h : Swept kids root order) (hfront : front <+: order)
    (hnamed : front = (root :: front.flatMap kids).eraseDups) : front = order := by
  have hfront' : Swept kids root front := ⟨hnamed, fun id hid => h.reached id (hfront.subset hid)⟩
  refine hfront.eq_of_length (le_antisymm hfront.length_le ?_)
  refine (h.nodup.subperm fun id hid => ?_).length_le
  exact hfront'.mem_iff.2 (h.reached id hid)

/-- What precedes an identifier is not farther away, by induction on the way to the latter. -/
theorem exists_steps_le (h : Swept kids root order) (hb : Steps kids root d b)
    (hab : Precedes order a b) : ∃ d' ≤ d, Steps kids root d' a := by
  induction hb generalizing a with
  | root =>
    obtain ⟨l, hl⟩ := h.exists_tail
    have ha : a ∈ [root] := hab.mem_front (hl ▸ List.prefix_append [root] l) (by simp)
    exact absurd (List.mem_singleton.1 ha) hab.ne
  | @child d p b hp hb ih =>
    obtain ⟨before, after, hsplit⟩ := List.append_of_mem (h.mem_iff.2 hp.reaches)
    have hfront : before ++ [p] <+: order := ⟨after, by simp [hsplit]⟩
    have ha := hab.mem_front (h.named_prefix hfront) (by simp [hb])
    simp only [List.mem_eraseDups, List.mem_cons, List.mem_flatMap] at ha
    rcases ha with rfl | ⟨q, hq, ha⟩
    · exact ⟨0, Nat.zero_le _, .root⟩
    rcases List.mem_append.1 hq with hq | hq
    · have hpb : p ∉ before := fun hmem => by
        have hnodup := h.nodup
        rw [hsplit, List.nodup_append] at hnodup
        exact hnodup.2.2 p hmem p List.mem_cons_self rfl
      obtain ⟨d', hd', hq'⟩ := ih ⟨before, ⟨p :: after, hsplit.symm⟩, hq, hpb⟩
      exact ⟨d' + 1, Nat.succ_le_succ hd', hq'.child ha⟩
    · obtain rfl := List.mem_singleton.1 hq
      exact ⟨d + 1, le_refl _, hp.child ha⟩

theorem distance_le_of_precedes (h : Swept kids root order) (hb : b ∈ order)
    (hab : Precedes order a b) : distance kids root a ≤ distance kids root b := by
  obtain ⟨d, hd, ha⟩ := h.exists_steps_le (steps_distance (h.reached b hb)) hab
  exact (distance_le ha).trans hd

theorem exists_firstParent (h : Swept kids root order) (hc : c ∈ order) (hne : c ≠ root) :
    ∃ p, order.find? (fun p => c ∈ kids p) = some p := by
  obtain ⟨p, hp, hc⟩ := (h.mem_cases hc).resolve_left hne
  refine Option.isSome_iff_exists.1 (List.find?_isSome.2 ⟨p, hp, ?_⟩)
  exact decide_eq_true hc

/-- What is named first stands first. -/
theorem precedes_of_parents (h : Swept kids root order) (hb : b ≠ root)
    (hp : order.find? (fun p => a ∈ kids p) = some p)
    (hq : order.find? (fun p => b ∈ kids p) = some q)
    (hpq : Precedes order p q ∨ p = q ∧ Precedes (kids p) a b) : Precedes order a b := by
  rw [h.order_eq]
  apply Precedes.eraseDups
  obtain ⟨hap, -⟩ := List.find?_eq_some_iff_append.1 hp
  obtain ⟨-, before, after, hsplit, hbefore⟩ := List.find?_eq_some_iff_append.1 hq
  have hlist : order.flatMap kids = before.flatMap kids ++ (kids q ++ after.flatMap kids) := by
    rw [hsplit, List.flatMap_append, List.flatMap_cons]
  have hbefore' : b ∉ root :: before.flatMap kids := by
    simpa [hb] using hbefore
  rcases hpq with hpq | ⟨rfl, front, hfront, ha, hbf⟩
  · have hpb : p ∈ before := by
      have hfront : before ++ [q] <+: order := ⟨after, by simp [hsplit]⟩
      have hmem := hpq.mem_front hfront (by simp)
      simpa [hpq.ne] using hmem
    refine ⟨root :: before.flatMap kids, ?_, ?_, hbefore'⟩
    · rw [hlist, ← List.cons_append]
      exact List.prefix_append ..
    · simp only [List.mem_cons, List.mem_flatMap]
      exact .inr ⟨p, hpb, of_decide_eq_true hap⟩
  · obtain ⟨back, hback⟩ := hfront
    refine ⟨root :: before.flatMap kids ++ front, ?_, by simp [ha], ?_⟩
    · rw [hlist, ← hback]
      exact ⟨back ++ after.flatMap kids, by simp⟩
    · rw [List.mem_append, not_or]
      exact ⟨hbefore', hbf⟩

theorem precedes_iff (h : Swept kids root order) (ha : a ≠ root) (hb : b ≠ root)
    (hp : order.find? (fun p => a ∈ kids p) = some p)
    (hq : order.find? (fun p => b ∈ kids p) = some q) :
    Precedes order a b ↔ Precedes order p q ∨ p = q ∧ Precedes (kids p) a b := by
  refine ⟨fun hab => ?_, h.precedes_of_parents hb hp hq⟩
  have hback : ¬(Precedes order q p ∨ q = p ∧ Precedes (kids q) b a) :=
    fun hqp => hab.asymm (h.precedes_of_parents ha hq hp hqp)
  have hap : a ∈ kids p := by simpa using List.find?_some hp
  have hbq : b ∈ kids q := by simpa using List.find?_some hq
  by_cases hpq : p = q
  · subst hpq
    rcases Precedes.total hap hbq hab.ne with hkids | hkids
    · exact .inr ⟨rfl, hkids⟩
    · exact absurd (.inr ⟨rfl, hkids⟩) hback
  · rcases Precedes.total (List.mem_of_find?_eq_some hp) (List.mem_of_find?_eq_some hq) hpq with
      horder | horder
    · exact .inl horder
    · exact absurd (.inl horder) hback

theorem breadthFirst (h : Swept kids root order) : BreadthFirst kids root order where
  nodup := h.nodup
  mem_iff _ := h.mem_iff
  head := by
    obtain ⟨l, hl⟩ := h.exists_tail
    rw [hl, List.head?_cons]
  nearer _ _ := h.distance_le_of_precedes
  parent _ := h.exists_firstParent
  ties _ _ _ _ := h.precedes_iff

theorem mem_tail_iff (h : Swept kids root order) :
    a ∈ order.tail ↔ a ≠ root ∧ Reaches kids root a := by
  obtain ⟨l, hl⟩ := h.exists_tail
  have hnodup := h.nodup
  rw [hl, List.nodup_cons] at hnodup
  rw [← h.mem_iff, hl, List.tail_cons, List.mem_cons]
  constructor
  · intro ha
    exact ⟨ne_of_mem_of_not_mem ha hnodup.1, .inr ha⟩
  · rintro ⟨hne, ha⟩
    exact ha.resolve_left hne

theorem tail_eq (h : Swept kids root order) : order.filter (· ≠ root) = order.tail := by
  obtain ⟨l, hl⟩ := h.exists_tail
  have hnodup := h.nodup
  rw [hl, List.nodup_cons] at hnodup
  rw [hl, List.filter_cons_of_neg (by simp), List.tail_cons, List.filter_eq_self]
  intro a ha
  simpa using ne_of_mem_of_not_mem ha hnodup.1

end Swept

theorem exists_swept_of_visited (hfin : { id | Reaches kids root id }.Finite) {left : Nat}
    {visited queue : List Hash}
    (hleft : { id | Reaches kids root id }.ncard ≤ visited.length + left)
    (hseen : visited ++ queue = (root :: visited.flatMap kids).eraseDups)
    (hreached : ∀ id ∈ visited ++ queue, Reaches kids root id) :
    ∃ order, Swept kids root order := by
  induction left generalizing visited queue with
  | zero =>
    have hlength := length_le_ncard_of_reached hfin (hseen ▸ nodup_eraseDups _) hreached
    have hqueue : queue = [] := by
      rw [← List.length_eq_zero_iff]
      rw [List.length_append] at hlength
      omega
    rw [hqueue, List.append_nil] at hseen hreached
    exact ⟨visited, hseen, hreached⟩
  | succ left ih =>
    cases queue with
    | nil =>
      rw [List.append_nil] at hseen hreached
      exact ⟨visited, hseen, hreached⟩
    | cons id queue =>
      have hstep := sweep_step hseen
      have hid : Reaches kids root id := hreached id (by simp)
      rw [List.append_cons, List.append_assoc] at hstep
      refine ih ?_ hstep fun c hc => ?_
      · rw [List.length_append, List.length_singleton]
        omega
      · rw [hstep, List.mem_eraseDups, List.flatMap_append, ← List.cons_append] at hc
        rcases List.mem_append.1 hc with hc | hc
        · exact hreached c (by rwa [hseen, List.mem_eraseDups])
        · exact hid.tail (by simpa using hc)

theorem exists_swept (hfin : { id | Reaches kids root id }.Finite) :
    ∃ order, Swept kids root order := by
  have hseen : [] ++ [root] = (root :: [].flatMap kids).eraseDups := rfl
  apply exists_swept_of_visited hfin (Nat.le_add_left _ _) hseen
  intro id hid
  rw [List.mem_singleton.1 hid]

end Grove
