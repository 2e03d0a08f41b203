import Grove.Proofs.Stack.Copy
import Grove.Proofs.Store.Scan

/-! # Interrupted removals

Some files of a folder cannot be removed, so the removal of a subtree may stop on its way. What is
left then is a forest as before: each node that stays has its parent stay, and a second try on the
folder that was opened again finds the rest. The folder itself, while it is open, is not as good:
of the files that are gone it has forgotten the children, but not that they were children.
-/

namespace Grove.Folder

open Grove.Action

variable {f : Folder} {d e : Disk} {p : Path} {q : Place} {id : Hash} {n k : Node} {m : Memory}
  {known : List Node} {locks : List Place} {t : State} {moves : List Move} {shuffle : Shuffle}

/-- The node with the second identifier is shown, and has the first as its parent. -/
def Bears (t : State) (p c : Hash) : Prop :=
  p.isNull = false ∧ ∃ n, Shows t n ∧ n.parent = p ∧ n.id = c

/-- The node itself and all that is shown below it. -/
def Under (t : State) : Hash → Hash → Prop :=
  Relation.ReflTransGen (Bears t)

/-- For every parent the folder answers with the nodes that it shows below it. -/
def Truthful (t : State) : Prop :=
  ∀ p : Hash, p.isNull = false → ∃ ids, (store.answers t).children p = .ok ids ∧ ids.Nodup ∧
    ∀ c, c ∈ ids ↔ Bears t p c

def Lost (t u : State) (id : Hash) : Prop :=
  ∃ k, Shows t k ∧ ¬Shows u k ∧ k.id = id

theorem shows_withLocks : Shows (t.1, t.2.withLocks locks) n ↔ Shows t n := by
  rw [shows_iff, shows_iff]
  rfl

theorem eq_of_mem_locks {c : Hash} (h : q ++ [c.text] ∈ [q ++ [id.text]]) : c = id := by
  have hplaces := List.mem_singleton.1 h
  exact Qualified.text_inj (List.singleton_injective (List.append_cancel_left hplaces))

theorem Shelves.shows_iff (h : Shelves f.path d q m) (hm : m.Linked) :
    Shows (f, d) n ↔ n ∈ m.nodes := by
  rw [Folder.shows_iff]
  constructor
  · intro hload
    have hn := (load_eq_some_iff.1 hload).2.1
    rw [h.load_eq hm hn.wellFormed_id hn.isNull_id] at hload
    exact (hm.get?_eq_some_iff.1 (Except.ok.inj hload)).1
  · intro hn
    have hsealed := h.sealed n hn
    rw [h.load_eq hm hsealed.wellFormed_id hsealed.isNull_id]
    exact congrArg _ (hm.get?_eq_some_iff.2 ⟨hn, rfl⟩)

namespace Mirrors

theorem shows_iff (h : Mirrors known q t m) : Shows t n ↔ n ∈ m.nodes :=
  h.shelves.shows_iff h.within.toLinked

theorem bears_eq (h : Mirrors known q t m) : Bears t = Hangs m.nodes := by
  funext p c
  simp only [Bears, Hangs, h.shows_iff]

theorem truthful_withLocks (h : Mirrors known q t m) (locks : List Place) :
    Truthful (t.1, t.2.withLocks locks) := by
  obtain ⟨f, d⟩ := t
  obtain ⟨x, hx, hchildren⟩ := h.exists_index_withLocks locks
  refine fun p _ => ⟨_, congrArg Prod.fst (hchildren f (.inl rfl) p),
    (children_perm hx f.shuffle p).nodup_iff.2 (h.within.nodup_children p), fun c => ?_⟩
  have hsame (k : Node) : Shows (f, d.withLocks locks) k ↔ k ∈ m.nodes :=
    (shows_withLocks (t := (f, d))).trans h.shows_iff
  rw [(children_perm hx f.shuffle p).mem_iff, h.within.mem_children]
  simp only [Bears, hsame]

theorem of_replay (hopen : (opened p shuffle).run d = (.ok f, e)) (hsite : Site p e q)
    (hempty : e.below q = []) (hfit : ∀ move ∈ moves, move.Fit)
    (ha : Acyclic (moves.flatMap Move.added)) :
    Mirrors (moves.flatMap Move.added) q (Folder.replay moves ((f, e), .empty)).1
      (Folder.replay moves ((f, e), .empty)).2 := by
  obtain rfl := eq_of_opened hopen
  exact (mirrors_empty hsite hempty _ _).replay ha hfit (List.Subset.refl _)

section After

variable {x : ChildIndex} {gone : List Hash} {r : Except StoreError Unit}

theorem shows_after (h : Mirrors known q t m) :
    Shows (left t q locks gone x) k ↔ k ∈ m.nodes ∧ k.id ∉ gone := by
  have hshelves : Shelves (t.1.settle x).path _ q _ := h.shelves.without gone
  have hleft := hshelves.shows_iff (h.within.toLinked.without gone) (n := k)
  rw [Memory.without, List.mem_filter, decide_eq_true_iff] at hleft
  exact shows_withLocks.trans hleft

theorem bears_after (h : Mirrors known q t m) {p c : Hash} :
    Bears (left t q locks gone x) p c ↔ Hangs m.nodes p c ∧ c ∉ gone := by
  simp only [Bears, Hangs, h.shows_after]
  grind

section Gone

variable (h : Mirrors known q t m) (hgone : ∀ c ∈ gone, ∃ k ∈ m.nodes, k.id = c)

include h hgone

theorem lost_after {c : Hash} : Lost t (left t q locks gone x) c ↔ c ∈ gone := by
  simp only [Lost, h.shows_after, h.shows_iff]
  constructor
  · rintro ⟨k, hk, hnot, rfl⟩
    exact by_contra fun hstays => hnot ⟨hk, hstays⟩
  · intro hc
    obtain ⟨k, hk, rfl⟩ := hgone c hc
    exact ⟨k, hk, fun hstays => hstays.2 hc, rfl⟩

theorem kept_after_iff : (∀ k, Shows t k → Shows (left t q locks gone x) k) ↔ gone = [] := by
  simp only [h.shows_after, h.shows_iff]
  constructor
  · refine fun hkept => List.eq_nil_iff_forall_not_mem.2 fun c hc => ?_
    obtain ⟨k, hk, rfl⟩ := hgone c hc
    exact (hkept k hk).2 hc
  · rintro rfl k hk
    exact ⟨hk, List.not_mem_nil⟩

end Gone

theorem children_after (h : Mirrors known q t m) (hx : x.links.Perm m.links)
    (hn : m.get? id = some n) (locks : List Place) (gone : List Hash)
    (r : Except StoreError Unit) (p : Hash) :
    ∃ ids, (store.answers (left t q locks gone (x.after gone n.parent id r))).children p =
        .ok ids ∧ ids.Nodup ∧
      ∀ c, c ∈ ids ↔ Hangs m.nodes p c ∧ p ∉ gone ∧ ¬(r = .ok () ∧ c = id) := by
  have hrun : (children p).run (left t q locks gone (x.after gone n.parent id r)) = _ :=
    run_children_of_indexed rfl p
  have hlinks : (x.after gone n.parent id r).links.Nodup :=
    ChildIndex.nodup_links_after (hx.nodup_iff.2 h.within.nodup_links)
  refine ⟨_, congrArg Prod.fst hrun,
    (t.1.shuffle.perm _).nodup_iff.2 (ChildIndex.nodup_children hlinks p), fun c => ?_⟩
  have hlink : c ∈ x.children p ↔ Hangs m.nodes p c := by
    rw [← h.within.below_eq]
    exact (hx.filterMap _).mem_iff
  refine (t.1.shuffle.perm _).mem_iff.trans ?_
  refine ChildIndex.mem_children_after.trans ?_
  rw [hlink]
  refine and_congr_right fun hc => and_congr_right fun _ => not_congr (and_congr_right fun _ => ?_)
  -- The node is forgotten below its parent only, but there is no other node that it hangs below.
  refine and_iff_right_of_imp fun hcid => ?_
  rw [← h.within.below_eq] at hc
  exact congrArg Prod.fst (h.within.eq_of_link hn (Memory.mem_children.1 hc) hcid)

/-- A removal that stops on its way takes some node away from a parent that stays, and the index
does not notice. -/
theorem truthful_after_iff (h : Mirrors known q t m) (hx : x.links.Perm m.links)
    (hn : m.get? id = some n) {locked : Hash → Prop} (hcut : Cut m id locked gone r) :
    Truthful (left t q locks gone (x.after gone n.parent id r)) ↔ r = .ok () ∨ gone = [] := by
  constructor
  · refine fun htruthful => or_iff_not_imp_left.2 fun hr => ?_
    refine List.eq_nil_iff_forall_not_mem.2 fun g hg => ?_
    obtain ⟨p, c, hc, hp, hgone⟩ := hcut.exists_bereft hr hg
    obtain ⟨ids, hids, -, hmem⟩ := htruthful p hc.1
    obtain ⟨ids', hids', -, hmem'⟩ := h.children_after hx hn locks gone r p
    obtain rfl := Except.ok.inj (hids.symm.trans hids')
    have hlisted : c ∈ ids := (hmem' c).2 ⟨hc, hp, fun h => hr h.1⟩
    exact (h.bears_after.1 ((hmem c).1 hlisted)).2 hgone
  · intro hend p _
    obtain ⟨ids, hids, hnodup, hmem⟩ := h.children_after hx hn locks gone r p
    refine ⟨ids, hids, hnodup, fun c => ?_⟩
    rw [hmem, h.bears_after]
    refine and_congr_right fun hc => ?_
    rcases hend with rfl | rfl
    · rw [hcut.mem_iff_of_hangs h.within.toLinked hc]
      simp
    · have hr : r ≠ .ok () := fun hr => List.not_mem_nil (hcut.mem_iff_ok.2 hr)
      simp [hr]

theorem reopen_after (h : Mirrors known q t m) (shuffle : Shuffle)
    (hclosed : ∀ p ∈ gone, ∀ c, Hangs m.nodes p c → c ∈ gone) :
    Mirrors known q (⟨t.1.path, .empty, false, shuffle⟩,
      t.2.without (Disk.filesIn q (gone.map (·.text)))) (m.without gone) where
  shelves := h.shelves.without gone
  empty _ := rfl
  links := nofun
  within := by
    refine h.within.without fun p hp c hc => hclosed p hp c ?_
    rwa [← h.within.below_eq]
  dated := h.dated.without gone

/-- A second try without locks removes what the first one left. -/
theorem retry (h : Mirrors known q t m) (ha : Acyclic known) (hn : m.get? id = some n)
    {locked : Hash → Prop} (hcut : Cut m id locked gone r) (hstays : id ∉ gone)
    (shuffle : Shuffle) :
    let e := (t.2.without (Disk.filesIn q (gone.map (·.text)))).withLocks []
    ∃ u, (opened t.1.path shuffle).run e = (.ok ⟨t.1.path, .empty, false, shuffle⟩, e) ∧
      (store.removeSubtree id).run (⟨t.1.path, .empty, false, shuffle⟩, e) = (.ok (), u) ∧
      ∀ k, Shows u k ↔ k ∈ m.nodes ∧ ¬Relation.ReflTransGen (Hangs m.nodes) id k.id := by
  intro e
  have hleft := h.reopen_after shuffle hcut.closed
  have hget : (m.without gone).get? id = some n := by
    rw [h.within.get?_without, if_neg hstays, hn]
  obtain ⟨x, rest, r', -, hcut', hrun⟩ := hleft.run_removeSubtree ha hget []
  obtain rfl := hcut'.ok_iff.2 fun c _ => List.not_mem_nil
  refine ⟨_, run_opened_of_houses shuffle (hleft.shelves.directory.withLocks []), hrun, fun k => ?_⟩
  rw [← hcut.mem_or_mem_iff hcut', not_or, ← and_assoc]
  refine hleft.shows_after.trans (and_congr_left fun _ => ?_)
  rw [Memory.without, List.mem_filter, decide_eq_true_iff]

end After

end Mirrors

/-- A removal touches no files but those of the node and of what is below it, and with each node
that stays its parent stays. It fails only at a file that cannot be removed. Then the node itself is
still there, and once nothing is locked any more, a second try on the folder that is opened again
leaves what a removal without any failure would have left. Each file is tried once, so it makes no
difference whether it is locked or that one attempt fails. -/
theorem removeSubtree_interrupted (hopen : (opened p shuffle).run d = (.ok f, e))
    (hsite : Site p e q) (hempty : e.below q = []) (hfit : ∀ move ∈ moves, move.Fit)
    (ha : Acyclic (moves.flatMap Move.added)) (ht : (replay moves ((f, e), .empty)).1 = t)
    (hn : Shows t n) (locks : List Place) :
    ∃ r u, (store.removeSubtree n.id).run (t.1, t.2.withLocks locks) = (r, u) ∧
      u.2.entries.Sublist t.2.entries ∧
      (∀ x ∈ t.2.entries, x ∈ u.2.entries ∨ ∃ c, Under t n.id c ∧ x.1 = q ++ [c.text]) ∧
      (∀ k, Shows u k → ∀ above, Shows t above → k.parent = above.id → Shows u above) ∧
      (r = .ok () ↔ ∀ c, Under t n.id c → q ++ [c.text] ∉ locks) ∧
      (r = .ok () ∧ (∀ k, Shows u k ↔ Shows t k ∧ ¬Under t n.id k.id) ∨
        ∃ c, r = .error (.io "remove" c.text none) ∧ q ++ [c.text] ∈ locks ∧ Under t n.id c ∧
          Shows u n ∧ ∀ other, ∃ g v,
            (opened u.1.path other).run (u.2.withLocks []) = (.ok g, u.2.withLocks []) ∧
            (store.removeSubtree n.id).run (g, u.2.withLocks []) = (.ok (), v) ∧
            ∀ k, Shows v k ↔ Shows t k ∧ ¬Under t n.id k.id) := by
  have h := Mirrors.of_replay hopen hsite hempty hfit ha
  rw [ht] at h
  generalize (replay moves ((f, e), .empty)).2 = m at h
  have hstored := h.shows_iff.1 hn
  have hget : m.get? n.id = some n := h.within.get?_eq_some_iff.2 ⟨hstored, rfl⟩
  obtain ⟨x, gone, r, -, hcut, hrun⟩ := h.run_removeSubtree ha hget locks
  have hshows (k : Node) : Shows (left t q locks gone (x.after gone n.parent n.id r)) k ↔
      k ∈ m.nodes ∧ k.id ∉ gone := h.shows_after
  simp only [Under, h.bears_eq]
  refine ⟨r, _, hrun, List.filter_sublist, fun entry hentry => ?_,
    fun k hk above habove hparent => ?_, hcut.ok_iff, ?_⟩
  · by_cases hgone : entry.1 ∈ Disk.filesIn q (gone.map (·.text))
    · obtain ⟨name, hname, hplace⟩ := List.mem_map.1 hgone
      obtain ⟨c, hc, rfl⟩ := List.mem_map.1 hname
      exact .inr ⟨c, hcut.below c hc, hplace.symm⟩
    · exact .inl (List.mem_filter.2 ⟨hentry, by simpa using hgone⟩)
  · obtain ⟨hk, hkept⟩ := (hshows k).1 hk
    have habove := h.shows_iff.1 habove
    have hnull := (h.shelves.sealed above habove).isNull_id
    refine (hshows above).2 ⟨habove, fun hgone => hkept ?_⟩
    exact hcut.closed _ hgone _ ⟨hnull, k, hk, hparent, rfl⟩
  · rcases hcut.ended with ⟨rfl, -⟩ | ⟨c, rfl, hlocked, hc, -⟩
    · refine .inl ⟨rfl, fun k => ?_⟩
      rw [hshows, h.shows_iff, hcut.mem_iff_of_ok]
    · have hstays : n.id ∉ gone := fun hgone => nomatch hcut.mem_iff_ok.1 hgone
      refine .inr ⟨c, rfl, hlocked, hc, (hshows n).2 ⟨hstored, hstays⟩, fun other => ?_⟩
      obtain ⟨v, hopened, hretry, hv⟩ := h.retry ha hget hcut hstays other
      refine ⟨_, v, hopened, hretry, fun k => ?_⟩
      rw [hv, h.shows_iff]

section Stocked

open Stack (shed pile)
open Archive (plot)

def stocked : State :=
  (replay (plot.map .add) ((pile, shed), .empty)).1

theorem memory_replay_add (l : List Node) (s : State × Memory) :
    (replay (l.map .add) s).2 = l.foldl Memory.add s.2 := by
  induction l generalizing s with
  | nil => rfl
  | cons n l ih =>
    refine (ih _).trans ?_
    rw [List.foldl_cons]
    rfl

theorem added_plot : (plot.map Move.add).flatMap Move.added = plot := by
  simp [List.flatMap_map, Move.added]

theorem fit_plot : ∀ move ∈ plot.map Move.add, move.Fit :=
  List.forall_mem_map.2 Stack.sealed_plot

theorem acyclic_plot : Acyclic ((plot.map Move.add).flatMap Move.added) :=
  added_plot ▸ Stack.Layering.consistent_plot.acyclic

theorem opened_pile : (opened pile.path .byId).run shed = (.ok pile, shed) :=
  run_opened_of_houses .byId site_pile.directory

theorem mirrors_stocked :
    Mirrors ((plot.map Move.add).flatMap Move.added) ["pile"] stocked (.ofList plot) := by
  have h := Mirrors.of_replay opened_pile site_pile rfl fit_plot acyclic_plot
  rwa [memory_replay_add] at h

theorem nodes_ofList_plot : (Memory.ofList plot).nodes = plot :=
  Memory.nodes_ofList Stack.nodup_plot

theorem shows_stocked : Shows stocked n ↔ n ∈ plot := by
  rw [mirrors_stocked.shows_iff, nodes_ofList_plot]

theorem exists_hangs_plot : ∃ place ∈ plot, ∃ reply ∈ plot, reply.parent = place.id ∧
    ∀ p c, Hangs (Memory.ofList plot).nodes p c ↔ p = place.id ∧ c = reply.id := by
  obtain ⟨author, place, reply, hplot, hauthor, hplace, hnull, hparent⟩ := Stack.plot_eq
  refine ⟨place, by simp [hplot], reply, by simp [hplot], hparent, fun p c => ?_⟩
  rw [nodes_ofList_plot, hplot]
  constructor
  · rintro ⟨hp, k, hk, rfl, rfl⟩
    simp only [List.mem_cons, List.not_mem_nil, or_false] at hk
    rcases hk with rfl | rfl | rfl
    · exact absurd (hauthor.symm.trans hp) nofun
    · exact absurd (hplace.symm.trans hp) nofun
    · exact ⟨hparent, rfl⟩
  · rintro ⟨rfl, rfl⟩
    exact ⟨hparent ▸ hnull, reply, by simp, hparent, rfl⟩

theorem get?_ofList_plot (hn : n ∈ plot) : (Memory.ofList plot).get? n.id = some n := by
  rw [mirrors_stocked.within.get?_eq_some_iff, nodes_ofList_plot]
  exact ⟨hn, rfl⟩

/-- The community cannot be removed at first. -/
theorem removeSubtree_interrupted_stocked :
    ∃ place ∈ plot, ∃ reply ∈ plot, reply.parent = place.id ∧
      ∃ u, (store.removeSubtree place.id).run
          (stocked.1, stocked.2.withLocks [["pile"] ++ [place.id.text]]) =
            (.error (.io "remove" place.id.text none), u) ∧ Shows u place ∧
        ∃ g v, (opened u.1.path .byId).run (u.2.withLocks []) = (.ok g, u.2.withLocks []) ∧
          (store.removeSubtree place.id).run (g, u.2.withLocks []) = (.ok (), v) ∧
          ¬Shows v place ∧ ¬Shows v reply := by
  obtain ⟨place, hplace, reply, hreply, hparent, hhangs⟩ := exists_hangs_plot
  have hunder : Under stocked place.id reply.id := by
    rw [Under, mirrors_stocked.bears_eq]
    exact .single ((hhangs _ _).2 ⟨rfl, rfl⟩)
  refine ⟨place, hplace, reply, hreply, hparent, ?_⟩
  obtain ⟨r, u, hrun, -, -, -, hr, hend⟩ := removeSubtree_interrupted opened_pile site_pile rfl
    fit_plot acyclic_plot (t := stocked) rfl (shows_stocked.2 hplace)
    [["pile"] ++ [place.id.text]]
  rcases hend with ⟨hok, -⟩ | ⟨c, rfl, hlocked, -, hkept, hagain⟩
  · exact absurd List.mem_cons_self (hr.1 hok place.id .refl)
  · obtain rfl : c = place.id := eq_of_mem_locks hlocked
    obtain ⟨g, v, hopened, hretry, hv⟩ := hagain .byId
    exact ⟨u, hrun, hkept, g, v, hopened, hretry, fun h => ((hv place).1 h).2 .refl,
      fun h => ((hv reply).1 h).2 hunder⟩

end Stocked

/-- After a removal the children of a node are those that it had before, unless the node itself is
gone, and without the one whose subtree was removed to its end. So if the removal stops on its way,
the folder still answers with children that are gone, unless it had no effect at all. -/
theorem children_interrupted (hopen : (opened p shuffle).run d = (.ok f, e)) (hsite : Site p e q)
    (hempty : e.below q = []) (hfit : ∀ move ∈ moves, move.Fit)
    (ha : Acyclic (moves.flatMap Move.added)) (ht : (replay moves ((f, e), .empty)).1 = t)
    (hid : id.WellFormed) (locks : List Place) :
    ∃ r u, (store.removeSubtree id).run (t.1, t.2.withLocks locks) = (r, u) ∧
      (∀ k, Shows u k → Shows t k) ∧
      (∀ p : Hash, p.isNull = false → ∃ ids, (store.answers u).children p = .ok ids ∧ ids.Nodup ∧
        ∀ c, c ∈ ids ↔ Bears t p c ∧ ¬Lost t u p ∧ ¬(r = .ok () ∧ c = id)) ∧
      (Truthful u ↔ r = .ok () ∨ ∀ k, Shows t k → Shows u k) := by
  have h := Mirrors.of_replay hopen hsite hempty hfit ha
  rw [ht] at h
  generalize (replay moves ((f, e), .empty)).2 = m at h
  cases hget : m.get? id with
  | none =>
    have hrun : (store.removeSubtree id).run (t.1, t.2.withLocks locks) =
        (.error (.notFound id), t.1, t.2.withLocks locks) := by
      have hfind := run_find_withLocks id t.1 t.2 locks
      rw [h.shelves.run_find h.within.toLinked hid, hget] at hfind
      exact run_bind_ok hfind
    have htruthful := h.truthful_withLocks locks
    have hlost (p : Hash) : ¬Lost t (t.1, t.2.withLocks locks) p := by
      rintro ⟨k, hk, hnot, -⟩
      exact hnot (shows_withLocks.2 hk)
    refine ⟨_, _, hrun, fun k => shows_withLocks.1, fun p hp => ?_,
      iff_of_true htruthful (.inr fun k => shows_withLocks.2)⟩
    simpa [hlost, Bears, shows_withLocks] using htruthful p hp
  | some n =>
    obtain ⟨x, gone, r, hx, hcut, hrun⟩ := h.run_removeSubtree ha hget locks
    have hstored : ∀ c ∈ gone, ∃ k ∈ m.nodes, k.id = c :=
      fun c hc => Memory.exists_below hget (hcut.below c hc)
    refine ⟨r, _, hrun, fun k hk => h.shows_iff.2 (h.shows_after.1 hk).1, fun p _ => ?_, ?_⟩
    · simpa only [h.bears_eq, h.lost_after hstored] using h.children_after hx hget locks gone r p
    · rw [h.truthful_after_iff hx hget hcut, h.kept_after_iff hstored]

section Stocked

open Archive (plot)

/-- If the reply cannot be removed, nothing is, and the children are as they were. -/
theorem children_interrupted_stocked :
    ∃ place ∈ plot, ∃ reply ∈ plot, reply.parent = place.id ∧
      ∃ u, (store.removeSubtree place.id).run
          (stocked.1, stocked.2.withLocks [["pile"] ++ [reply.id.text]]) =
            (.error (.io "remove" reply.id.text none), u) ∧ Truthful u := by
  obtain ⟨place, hplace, reply, hreply, hparent, hhangs⟩ := exists_hangs_plot
  have hlink := (hhangs place.id reply.id).2 ⟨rfl, rfl⟩
  refine ⟨place, hplace, reply, hreply, hparent, ?_⟩
  obtain ⟨r, u, hrun, -, -, htruthful⟩ := children_interrupted opened_pile site_pile rfl fit_plot
    acyclic_plot (t := stocked) rfl (Stack.sealed_plot place hplace).wellFormed_id
    [["pile"] ++ [reply.id.text]]
  obtain ⟨x, gone, r', -, hcut, hrun'⟩ := mirrors_stocked.run_removeSubtree acyclic_plot
    (get?_ofList_plot hplace) [["pile"] ++ [reply.id.text]]
  have hfree : reply.id ∉ gone := fun hgone => hcut.free _ hgone List.mem_cons_self
  have hstays : place.id ∉ gone := fun hgone => hfree (hcut.closed _ hgone _ hlink)
  have hnone (c : Hash) : c ∉ gone := by
    intro hgone
    rcases (hcut.below c hgone).cases_tail with rfl | ⟨p, -, hpc⟩
    · exact hstays hgone
    · exact hfree (((hhangs p c).1 hpc).2 ▸ hgone)
  obtain ⟨rfl, rfl⟩ := Prod.mk.inj (hrun'.symm.trans hrun)
  have htold : Truthful _ := htruthful.2 <| .inr fun k hk =>
    mirrors_stocked.shows_after.2 ⟨mirrors_stocked.shows_iff.1 hk, hnone k.id⟩
  rcases hcut.ended with ⟨rfl, hgone⟩ | ⟨c, rfl, hlocked, -⟩
  · exact absurd hgone hstays
  · obtain rfl : c = reply.id := eq_of_mem_locks hlocked
    exact ⟨_, hrun, htold⟩

/-- If only the community cannot be removed, the folder answers with its reply, which is gone. -/
theorem not_truthful_stocked :
    ∃ place ∈ plot, ∃ reply ∈ plot, reply.parent = place.id ∧
      ∃ u ids, (store.removeSubtree place.id).run
          (stocked.1, stocked.2.withLocks [["pile"] ++ [place.id.text]]) =
            (.error (.io "remove" place.id.text none), u) ∧ Shows stocked reply ∧ ¬Shows u reply ∧
        (store.answers u).children place.id = .ok ids ∧ reply.id ∈ ids ∧ ¬Truthful u := by
  obtain ⟨place, hplace, reply, hreply, hparent, hhangs⟩ := exists_hangs_plot
  have hlink := (hhangs place.id reply.id).2 ⟨rfl, rfl⟩
  refine ⟨place, hplace, reply, hreply, hparent, ?_⟩
  obtain ⟨x, gone, r, hx, hcut, hrun⟩ := mirrors_stocked.run_removeSubtree acyclic_plot
    (get?_ofList_plot hplace) [["pile"] ++ [place.id.text]]
  have hstays : place.id ∉ gone := fun hgone => hcut.free _ hgone List.mem_cons_self
  rcases hcut.ended with ⟨rfl, hgone⟩ | ⟨c, rfl, hlocked, -, hbelow⟩
  · exact absurd hgone hstays
  obtain rfl : c = place.id := eq_of_mem_locks hlocked
  have hgone : reply.id ∈ gone := hbelow _ hlink
  obtain ⟨ids, hids, -, hmem⟩ := mirrors_stocked.children_after hx (get?_ofList_plot hplace)
    [["pile"] ++ [place.id.text]] gone (.error (.io "remove" place.id.text none)) place.id
  have hlisted : reply.id ∈ ids := (hmem _).2 ⟨hlink, hstays, nofun⟩
  refine ⟨_, ids, hrun, shows_stocked.2 hreply,
    fun h => (mirrors_stocked.shows_after.1 h).2 hgone, hids, hlisted, fun htold => ?_⟩
  obtain ⟨ids', hids', -, hmem'⟩ := htold place.id hlink.1
  obtain rfl := Except.ok.inj (hids.symm.trans hids')
  obtain ⟨-, k, hk, -, hid⟩ := (hmem' _).1 hlisted
  exact (mirrors_stocked.shows_after.1 hk).2 (hid ▸ hgone)

end Stocked

end Grove.Folder
