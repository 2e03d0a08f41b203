import Grove.Proofs.Store.Cut
import Grove.Proofs.Store.Mirror

/-! # Removals from a folder

A removal takes files away one after another, and with each the children of its node from the index.
It stops at the first file that is locked, and at nothing else. If none is, it leaves a mirror of
what is left of the memory.
-/

namespace Grove

open Grove.Action

namespace ChildIndex

variable {x : ChildIndex}

def without (x : ChildIndex) (ps : List Hash) : ChildIndex where
  known := x.known.filter fun p => p ∉ ps
  links := x.links.filter fun link => link.1 ∉ ps

theorem without_nil : x.without [] = x := by
  simp [without]

theorem without_removeParent (p : Hash) (ps : List Hash) :
    (x.removeParent p).without ps = x.without (p :: ps) := by
  simp [without, removeParent, List.filter_filter, Bool.and_comm]

/-- What the index says once a removal below a parent has ended like this. -/
def after (x : ChildIndex) (gone : List Hash) (parent id : Hash) :
    Except StoreError Unit → ChildIndex
  | .ok () => (x.without gone).removeChild parent id
  | .error _ => x.without gone

section After

variable {gone : List Hash} {parent id p c : Hash} {r : Except StoreError Unit}

theorem mem_children_without : c ∈ (x.without gone).children p ↔ c ∈ x.children p ∧ p ∉ gone := by
  simp [mem_children, without]

theorem mem_children_after : c ∈ (x.after gone parent id r).children p ↔
    c ∈ x.children p ∧ p ∉ gone ∧ ¬(r = .ok () ∧ p = parent ∧ c = id) := by
  cases r with
  | ok => simp [after, mem_children_removeChild, mem_children_without, and_assoc]
  | error e => simp [after, mem_children_without]

theorem nodup_links_after (h : x.links.Nodup) : (x.after gone parent id r).links.Nodup := by
  cases r with
  | ok => exact (h.filter _).filter _
  | error e => exact h.filter _

end After

end ChildIndex

namespace Folder

variable {f : Folder} {d : Disk} {q : Place} {id : Hash} {n : Node} {m : Memory}

section Remove

variable {locks : List Place} (h : Site f.path d q)

include h

theorem Site.run_removeOne_of_locked (hid : id.WellFormed) (hnull : id.isNull = false)
    (hlocked : q ++ [id.text] ∈ locks) (hthere : d.lookup? (q ++ [id.text]) ≠ none) :
    (removeOne id).run (f, d.withLocks locks) =
      (.error (.io "remove" id.text none), f, d.withLocks locks) := by
  have hremove : (d.withLocks locks).removeFile (f.file id) = .error .other :=
    Disk.removeFile_of_locked (h.file hid hnull) hthere hlocked
  refine (run_bind_ok rfl).trans ?_
  dsimp only
  rw [hremove]
  rfl

variable (hflat : ∀ name, d.lookup? (q ++ [name]) ≠ some .directory)

include hflat

theorem Site.without (names : List String) : Site f.path (d.without (Disk.filesIn q names)) q :=
  h.of_within (Disk.within_without h.keyed fun name _ => hflat name) rfl (h.keyed.without _)

theorem Site.run_removeOne_of_free (hid : id.WellFormed) (hnull : id.isNull = false)
    (hfree : q ++ [id.text] ∉ locks) :
    (removeOne id).run (f, d.withLocks locks) =
      (.ok (), { f with index := f.index.removeParent id },
        (d.without (Disk.filesIn q [id.text])).withLocks locks) := by
  have hremove : (d.withLocks locks).removeFile (f.file id) =
        .ok ((d.without (Disk.filesIn q [id.text])).withLocks locks) ∨
      (d.withLocks locks).removeFile (f.file id) = .error .missing ∧
        (d.without (Disk.filesIn q [id.text])).withLocks locks = d.withLocks locks :=
    Disk.removeFile_of_locate (d := d.withLocks locks) (h.file hid hnull) (hflat id.text) hfree
  refine (run_bind_ok rfl).trans ?_
  dsimp only
  rcases hremove with hremove | ⟨hremove, hsame⟩
  · rw [hremove]
    rfl
  · rw [hremove, hsame]
    rfl

/-- Removing one file after another takes them away up to the first one that is locked, if that is
there, and their children from the index. -/
theorem Site.run_forM_removeOne {ids : List Hash}
    (hids : ∀ id ∈ ids, id.WellFormed ∧ id.isNull = false)
    (hthere : ∀ id ∈ ids, d.lookup? (q ++ [id.text]) = none → q ++ [id.text] ∉ locks) :
    (ids.forM removeOne).run (f, d.withLocks locks) =
      (outcome (fun id => q ++ [id.text] ∈ locks) ids,
        { f with index := f.index.without (freed (fun id => q ++ [id.text] ∈ locks) ids) },
        (d.without (Disk.filesIn q
          ((freed (fun id => q ++ [id.text] ∈ locks) ids).map (·.text)))).withLocks locks) := by
  induction ids generalizing f d with
  | nil =>
    rw [freed, List.takeWhile_nil, List.map_nil, Disk.filesIn, List.map_nil, Disk.without_nil,
      ChildIndex.without_nil]
    rfl
  | cons id ids ih =>
    obtain ⟨⟨hid, hnull⟩, hids⟩ := List.forall_mem_cons.1 hids
    obtain ⟨hfirst, hthere⟩ := List.forall_mem_cons.1 hthere
    by_cases hlocked : q ++ [id.text] ∈ locks
    · rw [outcome_cons_of_locked hlocked, freed_cons_of_locked hlocked, List.map_nil, Disk.filesIn,
        List.map_nil, Disk.without_nil, ChildIndex.without_nil]
      exact run_bind_error (h.run_removeOne_of_locked hid hnull hlocked fun hnone =>
        hfirst hnone hlocked)
    · have hlookup (name : String) :
          (d.without (Disk.filesIn q [id.text])).lookup? (q ++ [name]) =
            if name = id.text then none else d.lookup? (q ++ [name]) := by
        simp only [h.keyed.lookup?_without, Disk.mem_filesIn, List.mem_singleton]
      have hflat' : ∀ name,
          (d.without (Disk.filesIn q [id.text])).lookup? (q ++ [name]) ≠ some .directory := by
        intro name hname
        rw [hlookup] at hname
        split at hname
        · cases hname
        · exact hflat name hname
      -- What is locked is not the file that went, so it is as before.
      have hthere' : ∀ c ∈ ids, (d.without (Disk.filesIn q [id.text])).lookup? (q ++ [c.text]) =
          none → q ++ [c.text] ∉ locks := by
        intro c hc hnone
        rw [hlookup] at hnone
        split at hnone
        · next heq => rwa [heq]
        · exact hthere c hc hnone
      refine (run_bind_ok (h.run_removeOne_of_free hflat hid hnull hlocked)).trans ?_
      have hrest := ih (f := { f with index := f.index.removeParent id })
        (h.without hflat [id.text]) hflat' hids hthere'
      rw [hrest, outcome_cons_of_free hlocked, freed_cons_of_free hlocked,
        ChildIndex.without_removeParent, Disk.without_without]
      rfl

end Remove

theorem Shelves.without (h : Shelves f.path d q m) (ids : List Hash) :
    Shelves f.path (d.without (Disk.filesIn q (ids.map (·.text)))) q (m.without ids) where
  toSite := h.toSite.without h.lookup?_ne_directory _
  files := by
    rw [Disk.below_without]
    refine (h.files.filter _).trans (.of_eq ?_)
    rw [List.filter_map]
    refine congrArg _ (List.filter_congr fun n _ => ?_)
    have hname : n.id.text ∈ ids.map (·.text) ↔ n.id ∈ ids := by
      rw [List.mem_map]
      constructor
      · rintro ⟨id, hid, heq⟩
        exact Qualified.text_inj heq ▸ hid
      · exact fun hid => ⟨_, hid, rfl⟩
    simp only [Function.comp_apply, entryOf, Disk.mem_filesIn, hname]
  sealed n hn := h.sealed n (List.mem_of_mem_filter hn)

/-- What is left once the files of these nodes are gone and the index is this one. -/
def left (t : State) (q : Place) (locks : List Place) (gone : List Hash) (x : ChildIndex) : State :=
  (t.1.settle x, (t.2.without (Disk.filesIn q (gone.map (·.text)))).withLocks locks)

theorem run_find_withLocks (id : Hash) (f : Folder) (d : Disk) (locks : List Place) :
    (find id).run (f, d.withLocks locks) = (((find id).run (f, d)).1, f, d.withLocks locks) := by
  rw [run_find, run_find]
  rfl

theorem run_children_withLocks (id : Hash) (f : Folder) (d : Disk) (locks : List Place) :
    (children id).run (f, d.withLocks locks) =
      (((children id).run (f, d)).1, ((children id).run (f, d)).2.1, d.withLocks locks) := by
  by_cases hindexed : f.indexed = true
  · rw [run_children_of_indexed hindexed, run_children_of_indexed hindexed]
  by_cases hknown : f.index.isKnown id = true
  · rw [run_children_of_known hknown, run_children_of_known hknown]
  have hsame : f.scan (d.withLocks locks) = f.scan d := rfl
  cases hscan : f.scan d with
  | ok nodes =>
    rw [run_children_of_unknown hknown hindexed hscan,
      run_children_of_unknown hknown hindexed (hsame.trans hscan)]
  | error e =>
    rw [run_children_of_error hknown hindexed hscan,
      run_children_of_error hknown hindexed (hsame.trans hscan)]

namespace Mirrors

variable {known : List Node} {t : State}

theorem exists_index_withLocks (h : Mirrors known q (f, d) m) (locks : List Place) :
    ∃ x : ChildIndex, x.links.Perm m.links ∧ ∀ f', f' = f ∨ f' = f.settle x → ∀ p,
      (children p).run (f', d.withLocks locks) =
        (.ok (f.shuffle.apply (x.children p)), f.settle x, d.withLocks locks) := by
  obtain ⟨x, hx, hchildren⟩ := h.exists_index
  refine ⟨x, hx, fun f' hf' p => ?_⟩
  rw [run_children_withLocks, hchildren f' hf' p]

theorem without (h : Mirrors known q (f, d) m) (hn : m.get? id = some n) {ids : List Hash}
    (hids : ∀ c, c ∈ ids ↔ Relation.ReflTransGen (fun p c => c ∈ m.children p) id c) :
    Mirrors known q ({ f with index := (f.index.without ids).removeChild n.parent id },
      d.without (Disk.filesIn q (ids.map (·.text)))) (m.without ids) where
  shelves := h.shelves.without ids
  empty hindexed := by
    have hempty : f.index = .empty := h.empty hindexed
    show (f.index.without ids).removeChild n.parent id = .empty
    rw [hempty]
    rfl
  links hindexed := by
    rw [h.within.links_without hn hids]
    exact ((h.links hindexed).filter _).filter _
  within := by
    refine h.within.without fun p hp c hc => ?_
    exact (hids c).2 (((hids p).1 hp).tail hc)
  dated := h.dated.without ids

/-- Whatever files are locked, a removal is cut short by nothing else. -/
theorem run_removeSubtree (h : Mirrors known q t m) (ha : Acyclic known)
    (hn : m.get? id = some n) (locks : List Place) :
    ∃ (x : ChildIndex) (gone : List Hash) (r : Except StoreError Unit), x.links.Perm m.links ∧
      Cut m id (fun c => q ++ [c.text] ∈ locks) gone r ∧
      (Folder.removeSubtree id).run (t.1, t.2.withLocks locks) =
        (r, left t q locks gone (x.after gone n.parent id r)) := by
  obtain ⟨f, d⟩ := t
  obtain ⟨x, hx, hchildren⟩ := h.exists_index_withLocks locks
  have hkids (p : Hash) : (f.shuffle.apply (x.children p)).Perm (m.children p) :=
    children_perm hx f.shuffle p
  obtain ⟨ids, hids⟩ := h.within.exists_rows ha (fun p => (hkids p).subset) h.length_lt_reach id
  -- Its first question fills the index, and the search changes nothing else.
  have hsearch : (subtree children (Folder.reach (f, d) + 1) id).run (f, d.withLocks locks) =
      (.ok ids, f.settle x, d.withLocks locks) := by
    have hfirst := (hchildren f (.inl rfl) id).trans (hchildren (f.settle x) (.inr rfl) id).symm
    have hsettled : Leads (· = (f.settle x, d.withLocks locks))
        (subtree children (Folder.reach (f, d) + 1) id) (.ok ids)
        (· = (f.settle x, d.withLocks locks)) := by
      refine leads_subtree ?_ hids
      rintro p _ rfl
      exact ⟨_, hchildren _ (.inr rfl) p, rfl⟩
    obtain ⟨_, hrun, rfl⟩ := hsettled _ rfl
    exact (run_subtree_congr hfirst _).trans hrun
  have hstored : ∀ c ∈ ids.reverse, ∃ k ∈ m.nodes, k.id = c := by
    intro c hc
    refine Memory.exists_below hn ?_
    rw [← h.within.below_eq]
    simpa only [(hkids _).mem_iff] using (mem_rows_iff hids).1 (List.mem_reverse.1 hc)
  have hnames : ∀ c ∈ ids.reverse, c.WellFormed ∧ c.isNull = false := by
    intro c hc
    obtain ⟨k, hk, rfl⟩ := hstored c hc
    have hsealed := h.shelves.sealed k hk
    exact ⟨hsealed.wellFormed_id, hsealed.isNull_id⟩
  have hthere : ∀ c ∈ ids.reverse, d.lookup? (q ++ [c.text]) = none → q ++ [c.text] ∉ locks := by
    intro c hc hnone
    obtain ⟨k, hk, rfl⟩ := hstored c hc
    exact absurd ((h.shelves.lookup?_of_mem hk).symm.trans hnone) nofun
  have hfind : (find id).run (f, d.withLocks locks) = (.ok (some n), f, d.withLocks locks) := by
    have hid : id.WellFormed := by
      obtain rfl := Memory.id_of_get? hn
      exact (h.shelves.sealed n (Memory.mem_of_get? hn)).wellFormed_id
    rw [run_find_withLocks, h.shelves.run_find h.within.toLinked hid, hn]
  have hshelves := (h.settle hx).shelves
  have hremove : (ids.reverse.forM removeOne).run (f.settle x, d.withLocks locks) = _ :=
    hshelves.run_forM_removeOne hshelves.lookup?_ne_directory hnames hthere
  refine ⟨x, _, _, hx, .of_rows h.within.toIndexed (ha.mono h.within.known) hkids hids, ?_⟩
  refine (run_bind_ok hfind).trans ((run_bind_ok rfl).trans ((run_bind_ok hsearch).trans ?_))
  cases hr : outcome (fun c => q ++ [c.text] ∈ locks) ids.reverse with
  | ok =>
    rw [hr] at hremove
    exact (run_bind_ok hremove).trans rfl
  | error e =>
    rw [hr] at hremove
    exact run_bind_error hremove

theorem removeSubtree (h : Mirrors known q (f, d) m) (ha : Acyclic known)
    (hn : m.get? id = some n) :
    ∃ t ids, (Folder.removeSubtree id).run (f, d) = (.ok (), t) ∧ t.1.path = f.path ∧
      m.removeSubtree id = .ok (m.without ids) ∧ Mirrors known q t (m.without ids) := by
  obtain ⟨x, gone, r, hx, hcut, hrun⟩ := h.run_removeSubtree ha hn d.locked
  obtain rfl := hcut.ok_iff.2 fun c _ => h.shelves.unlocked c.text
  have hbelow : ∀ c, c ∈ gone ↔ Relation.ReflTransGen (fun p c => c ∈ m.children p) id c := by
    intro c
    rw [h.within.below_eq, hcut.mem_iff_of_ok]
  exact ⟨_, gone, hrun, rfl, h.within.removeSubtree_of_below hn ha hbelow,
    (h.settle hx).without hn hbelow⟩

end Mirrors

end Folder

end Grove
