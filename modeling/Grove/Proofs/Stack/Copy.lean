import Grove.Proofs.Stack.Again

/-! # The order of a copy

A copy of a memory hands over its nodes as they were added, and so does a copy of whatever rests on
that memory, until the target refuses one. Nothing looks at parents on the way. So parents come
before their children if the nodes were added in that order, and only the one who adds them can see
to that.
-/

namespace Grove

open Grove.Action

variable {ω τ : Type}

namespace Store

/-- A store that takes down which nodes it is given, whether or not it accepts them. -/
def recorded (s : Store ω τ) : Store ω (τ × List Node) where
  get id := (s.get id).front
  children id := (s.children id).front
  recent kind count := (s.recent kind count).front
  add n := do
    modify fun ((t, given), w) => ((t, given ++ [n]), w)
    (s.add n).front
  removeSubtree id := (s.removeSubtree id).front
  nodes := s.nodes.front
  reach t := s.reach (t.1.1, t.2)

variable {s : Store ω τ} {n : Node} {t u : τ} {w v : ω} {r : Except StoreError Unit}

theorem run_add_recorded (h : (s.add n).run (t, w) = (r, (u, v))) (given : List Node) :
    (s.recorded.add n).run ((t, given), w) = (r, ((u, given ++ [n]), v)) := by
  have hfront : (s.add n).front.run ((t, given ++ [n]), w) = (r, ((u, given ++ [n]), v)) :=
    Cache.run_front (s := ((t, given ++ [n]), w)) (u := (u, v)) h
  exact (run_bind_ok rfl).trans hfront

/-- The record of a copy is a front part of what is to be copied, and all of it if the copy
succeeds. It makes no difference to the target. -/
theorem run_addAll_recorded {l : List Node} (h : (s.addAll l).run (t, w) = (r, (u, v)))
    (before : List Node) :
    ∃ given, (s.recorded.addAll l).run ((t, before), w) = (r, ((u, before ++ given), v)) ∧
      given <+: l ∧ (r = .ok () → given = l) := by
  induction l generalizing t w before with
  | nil =>
    obtain ⟨rfl, hstate⟩ := Prod.mk.inj h
    obtain ⟨rfl, rfl⟩ := Prod.mk.inj hstate
    exact ⟨[], by rw [List.append_nil]; rfl, List.nil_prefix, fun _ => rfl⟩
  | cons n l ih =>
    rcases of_run_bind h with ⟨e, hadd, rfl⟩ | ⟨⟨⟩, ⟨t', w'⟩, hadd, hrest⟩
    · exact ⟨[n], run_bind_error (run_add_recorded hadd before),
        List.cons_prefix_cons.2 ⟨rfl, List.nil_prefix⟩, nofun⟩
    · obtain ⟨given, hgiven, hpart, hall⟩ := ih hrest (before ++ [n])
      refine ⟨n :: given, (run_bind_ok (run_add_recorded hadd before)).trans ?_,
        List.cons_prefix_cons.2 ⟨rfl, hpart⟩, fun hr => congrArg _ (hall hr)⟩
      rw [List.append_cons before n given]
      exact hgiven

end Store

/-- Each node stands behind its parent, if that is one of the stored nodes. -/
def BehindParents (stored l : List Node) : Prop :=
  ∀ before n after, l = before ++ n :: after → n.parent.isNull = false →
    ∀ p ∈ stored, p.id = n.parent → p ∈ before

theorem BehindParents.of_front {stored l l' : List Node} (h : BehindParents stored l)
    (hpart : l' <+: l) : BehindParents stored l' := by
  rintro before n after rfl hparent p hp hid
  obtain ⟨rest, rfl⟩ := hpart
  refine h before n (after ++ rest) ?_ hparent p hp hid
  rw [List.append_assoc, List.cons_append]

/-- Each node is added when its parent was added before, unless that is never added. -/
def ParentsFirst (added : List Node) : Prop :=
  ∀ before n after, added = before ++ n :: after → n.parent.isNull = false →
    n.parent ∈ added.map (·.id) → n.parent ∈ before.map (·.id)

theorem ParentsFirst.of_concat {l : List Node} {n : Node} (h : ParentsFirst (l ++ [n])) :
    ParentsFirst l := by
  rintro before k after rfl hparent hmem
  refine h before k (after ++ [n]) ?_ hparent ?_
  · rw [List.append_assoc, List.cons_append]
  · rw [List.map_append]
    exact List.mem_append_left _ hmem

theorem ParentsFirst.id_mem_of_concat {l : List Node} {n k : Node} (h : ParentsFirst (l ++ [n]))
    (hk : k ∈ l ++ [n]) (hnull : k.parent.isNull = false) (hparent : k.parent = n.id) :
    n.id ∈ l.map (·.id) := by
  obtain ⟨before, after, hsplit, hbefore⟩ :
      ∃ before after, l ++ [n] = before ++ k :: after ∧ before ⊆ l := by
    rcases List.mem_append.1 hk with hk | hk
    · obtain ⟨before, after, rfl⟩ := List.append_of_mem hk
      exact ⟨before, after ++ [n], by simp, List.subset_append_left ..⟩
    · exact ⟨l, [], by rw [List.mem_singleton.1 hk], List.Subset.refl l⟩
  have hmem : k.parent ∈ (l ++ [n]).map (·.id) := by
    rw [hparent, List.map_append]
    exact List.mem_append_right _ List.mem_cons_self
  rw [← hparent]
  exact List.map_subset _ hbefore (h before k after hsplit hnull hmem)

namespace Memory

variable {m : Memory} {n : Node}

theorem run_nodes (m : Memory) (w : ω) : store.nodes.run (m, w) = (.ok m.nodes, m, w) :=
  rfl

theorem ofList_concat (l : List Node) (n : Node) : ofList (l ++ [n]) = (ofList l).add n :=
  List.foldl_append

theorem nodes_ofList_sublist (l : List Node) : (ofList l).nodes.Sublist l := by
  induction l using List.reverseRecOn with
  | nil => exact .slnil
  | append_singleton l n ih =>
    rw [ofList_concat]
    unfold Memory.add
    split
    · exact ih.trans (List.sublist_append_left ..)
    · exact ih.append_right [n]

theorem behindParents_insert (h : BehindParents m.nodes m.nodes)
    (hnew : ∀ k ∈ (m.insert n).nodes, k.parent.isNull = false → k.parent ≠ n.id) :
    BehindParents (m.insert n).nodes (m.insert n).nodes := by
  intro before k after hsplit hnull p hp hid
  have hk : k ∈ (m.insert n).nodes := hsplit ▸ List.mem_append_right _ List.mem_cons_self
  have hpn : p ≠ n := by
    rintro rfl
    exact hnew k hk hnull hid.symm
  have hp : p ∈ m.nodes := (List.mem_append.1 hp).resolve_right (mt List.mem_singleton.1 hpn)
  have hsplit : m.nodes ++ [n] = before ++ k :: after := hsplit
  -- Behind the child there is nothing, so all the others are before it, or there is the new node.
  rcases List.eq_nil_or_concat after with rfl | ⟨after, z, rfl⟩
  · rw [← (List.append_inj' hsplit rfl).1]
    exact hp
  · have hnodes : m.nodes = before ++ k :: after := by
      rw [List.concat_eq_append, ← List.cons_append, ← List.append_assoc] at hsplit
      exact (List.append_inj' hsplit rfl).1
    exact h before k after hnodes hnull p hp hid

/-- What is added parents first is kept parents first. -/
theorem behindParents_ofList {added : List Node} (h : ParentsFirst added) :
    BehindParents (ofList added).nodes (ofList added).nodes := by
  induction added using List.reverseRecOn with
  | nil =>
    intro before n after hsplit
    exact absurd hsplit (by simp [ofList, empty])
  | append_singleton l n ih =>
    rw [ofList_concat]
    -- What is there already is not added again, so only a new node has to be in order.
    obtain hnew | ⟨k, hk⟩ := ((ofList l).get? n.id).eq_none_or_eq_some
    · rw [add_of_get? hnew]
      refine behindParents_insert (ih h.of_concat) fun k hk hnull hparent => ?_
      have hk : k ∈ l ++ [n] := ((nodes_ofList_sublist l).append_right [n]).subset hk
      obtain ⟨p, hp, hid⟩ := List.mem_map.1 (h.id_mem_of_concat hk hnull hparent)
      have hsome : ((ofList l).get? n.id).isSome := isSome_get?_foldl_add.2 (.inr ⟨p, hp, hid⟩)
      rw [hnew] at hsome
      exact absurd hsome nofun
    · rw [add_eq_self hk]
      exact ih h.of_concat

end Memory

namespace Archive

variable {σ : Type} {inner : Store ω σ} {a : Archive σ} {w : ω}

theorem run_nodes {r : Except StoreError (List Node)} (hopen : a.isOpen = true)
    (h : inner.nodes.run (a.inner, w) = (r, a.inner, w)) :
    (store inner).nodes.run (a, w) = (r.map fun l => (Memory.ofList l).nodes, a, w) := by
  refine (run_whileOpen hopen _).trans ?_
  cases r with
  | ok l => exact run_bind_ok (run_within h)
  | error e => exact run_bind_error (run_within h)

theorem run_nodes_of_closed (hclosed : a.isOpen = false) :
    (store inner).nodes.run (a, w) = (.error .closed, a, w) := by
  show (ite (a.isOpen = true) _ (throw StoreError.closed) : Action (Archive σ × ω) _).run (a, w) = _
  rw [hclosed]
  rfl

end Archive

namespace Stack

variable {s : Shape} {x : s.State} {m : Memory}

/-- What a copy of the stack is taken from is this memory, with archives and caches around it. -/
inductive Rests (m : Memory) : (s : Shape) → s.State → Prop
  | memory : Rests m .memory m
  | cached {front back : Shape} {x : front.State} {y : back.State} :
    Rests m back y → Rests m (.cached front back) (x, y)
  | archived {inner : Shape} {a : Archive inner.State} :
    Rests m inner a.inner → Rests m (.archived inner) a

/-- A copy is taken of the nodes in the order of the memory, unless an archive is closed. -/
theorem Rests.run_nodes (h : Rests m s x) (hm : m.Linked) (d : Disk) :
    s.store.nodes.run (x, d) = (.ok m.nodes, x, d) ∨
      s.store.nodes.run (x, d) = (.error .closed, x, d) := by
  induction h with
  | memory => exact .inl (Memory.run_nodes m d)
  | @cached front back x y _ ih =>
    exact ih.imp (fun h => Cache.run_back (s := ((x, y), d)) (u := (y, d)) h)
      fun h => Cache.run_back (s := ((x, y), d)) (u := (y, d)) h
  | @archived inner a _ ih =>
    cases hopen : a.isOpen with
    | false => exact .inr (Archive.run_nodes_of_closed hopen)
    | true =>
      have hkept : (Memory.ofList m.nodes).nodes = m.nodes := Memory.nodes_ofList hm.nodup
      rcases ih with h | h
      · refine .inl ((Archive.run_nodes hopen h).trans ?_)
        rw [Except.map, hkept]
        rfl
      · exact .inr ((Archive.run_nodes hopen h).trans rfl)

/-- A copy hands over the nodes of the memory on which the stack rests, in the order in which they
were added, until the target fails. So it hands over parents before their children if they were
added in that order. -/
theorem Rests.copies {added : List Node} (h : Rests (.ofList added) s x) {τ : Type}
    (target : Store Disk τ) (t : τ) (d : Disk) :
    ∃ r u e given,
      (s.store.copyInto target).run ((x, t), d) = (r, ((x, u), e)) ∧
      (s.store.copyInto target.recorded).run ((x, (t, [])), d) = (r, ((x, (u, given)), e)) ∧
      (Memory.ofList added).nodes.Sublist added ∧ given <+: (Memory.ofList added).nodes ∧
      (r = .ok () → given = (Memory.ofList added).nodes) ∧
      (ParentsFirst added → BehindParents (Memory.ofList added).nodes given) := by
  have hlinked : (Memory.ofList added).Linked :=
    ((Memory.within_empty added).foldl_add (List.Subset.refl _)).toLinked
  have hsublist := Memory.nodes_ofList_sublist added
  have hfirst (hadded : ParentsFirst added) := Memory.behindParents_ofList hadded
  rcases h.run_nodes hlinked d with hnodes | hnodes
  · obtain ⟨r, ⟨u, e⟩, hcopy⟩ : ∃ r v, (target.addAll (Memory.ofList added).nodes).run (t, d) =
        (r, v) := ⟨_, _, rfl⟩
    obtain ⟨given, hgiven, hpart, hall⟩ := Store.run_addAll_recorded hcopy []
    exact ⟨r, u, e, given, Cache.run_copyInto hnodes hcopy, Cache.run_copyInto hnodes hgiven,
      hsublist, hpart, hall, fun hadded => (hfirst hadded).of_front hpart⟩
  · exact ⟨.error .closed, t, d, [], Cache.run_copyInto_error hnodes,
      Cache.run_copyInto_error hnodes, hsublist, List.nil_prefix, nofun,
      fun hadded => (hfirst hadded).of_front List.nil_prefix⟩

open Archive (plot)

theorem plot_eq : ∃ a b c, plot = [a, b, c] ∧ a.parent.isNull = true ∧ b.parent.isNull = true ∧
    c.parent.isNull = false ∧ c.parent = b.id :=
  ⟨_, _, _, rfl, rfl, rfl, rfl, rfl⟩

theorem parentsFirst_plot : ParentsFirst plot := by
  obtain ⟨a, b, c, hplot, ha, hb, -, hc⟩ := plot_eq
  rw [hplot]
  intro before n after hsplit hnull _
  rcases before with _ | ⟨_, _ | ⟨_, _ | ⟨_, before⟩⟩⟩ <;>
    simp only [List.nil_append, List.cons_append, List.cons.injEq] at hsplit
  · obtain ⟨rfl, -⟩ := hsplit
    exact absurd (ha.symm.trans hnull) nofun
  · obtain ⟨-, rfl, -⟩ := hsplit
    exact absurd (hb.symm.trans hnull) nofun
  · obtain ⟨rfl, rfl, rfl, -⟩ := hsplit
    simp [hc]
  · simp at hsplit

theorem nodup_plot : (plot.map (·.id)).Nodup := by
  decide +kernel

/-- An archive over a cache over a memory with the plot hands over all of it, parents first. -/
theorem copies_plot :
    ParentsFirst plot ∧
      ∃ x, Rests (.ofList plot) (.archived (.cached .folder .memory)) x ∧ ∃ u e,
        ((Shape.archived (.cached .folder .memory)).store.copyInto Memory.store.recorded).run
          ((x, (Memory.empty, [])), shed) = (.ok (), ((x, (u, plot)), e)) ∧
        BehindParents (Memory.ofList plot).nodes plot := by
  have hfirst := parentsFirst_plot
  have hnodup := nodup_plot
  generalize plot = added at hfirst hnodup ⊢
  let x : (Shape.archived (.cached .folder .memory)).State := { inner := (pile, .ofList added) }
  have hx : Rests (.ofList added) (.archived (.cached .folder .memory)) x :=
    .archived (.cached .memory)
  obtain ⟨r, u, e, given, hcopy, hrecord, -, -, hall, hbehind⟩ := hx.copies Memory.store .empty shed
  have hback : (Shape.cached .folder .memory).store.nodes.run ((pile, .ofList added), shed) =
      (.ok (Memory.ofList added).nodes, (pile, .ofList added), shed) :=
    Cache.run_back (s := ((pile, Memory.ofList added), shed)) (u := (Memory.ofList added, shed))
      (Memory.run_nodes _ shed)
  have hnodes := Archive.run_nodes (a := x) rfl hback
  have hok := Cache.run_copyInto hnodes (Memory.run_addAll (m := .empty) _)
  obtain ⟨rfl, -⟩ := Prod.mk.inj (hcopy.symm.trans hok)
  obtain rfl : given = added := (hall rfl).trans (Memory.nodes_ofList hnodup)
  exact ⟨hfirst, x, hx, u, e, hrecord, hbehind hfirst⟩

/-- A memory to which the plot was added backwards hands over the reply before its community. -/
theorem not_behindParents_reversed_plot :
    ∃ u given,
      (Memory.store.copyInto Memory.store.recorded).run
        ((Memory.ofList plot.reverse, (Memory.empty, [])), shed) =
          (.ok (), ((Memory.ofList plot.reverse, (u, given)), shed)) ∧
      ¬BehindParents (Memory.ofList plot.reverse).nodes given := by
  obtain ⟨a, b, c, hplot, -, -, hnull, hc⟩ := plot_eq
  have hnodes : (Memory.ofList plot.reverse).nodes = plot.reverse :=
    Memory.nodes_ofList (by simpa using nodup_plot)
  obtain ⟨given, hrecord, -, hall⟩ := Store.run_addAll_recorded
    (Memory.run_addAll (m := .empty) (w := shed) (Memory.ofList plot.reverse).nodes) []
  refine ⟨_, given, Cache.run_copyInto (Memory.run_nodes _ shed) hrecord, ?_⟩
  rw [hall rfl, hnodes, hplot]
  intro hbehind
  have hbefore := hbehind [] c [b, a] rfl hnull b (by simp) hc.symm
  exact absurd hbefore List.not_mem_nil

end Stack

end Grove
