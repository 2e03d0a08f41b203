import Grove.Proofs.Store.Consistent
import Grove.Proofs.Store.Folder
import Grove.Proofs.Store.Listing
import Grove.Proofs.Store.Timeline

/-! # Folders that mirror memories

A folder mirrors a memory when its directory lists one file for each node of the memory and its
index, once it is filled, has the same links. Then it finds the same nodes, scans them in some
order, and has the same children. Adding a sealed node to both keeps it.
-/

namespace Grove

open Grove.Action

namespace ChildIndex

variable {x : ChildIndex} {m : Memory} {n : Node}

def linksOf (nodes : List Node) : List (Hash × Hash) :=
  (nodes.filter (!·.parent.isNull)).map fun n => (n.parent, n.id)

theorem linksOf_append (l l' : List Node) : linksOf (l ++ l') = linksOf l ++ linksOf l' := by
  simp [linksOf]

theorem links_note_perm (h : (x.links ++ linksOf [n]).Nodup) :
    (Folder.note x n).links.Perm (x.links ++ linksOf [n]) := by
  unfold Folder.note
  cases hp : n.parent.isNull with
  | true =>
    have hlink : linksOf [n] = [] := by simp [linksOf, hp]
    rw [hlink, List.append_nil]
    exact .refl x.links
  | false =>
    have hlink : linksOf [n] = [(n.parent, n.id)] := by simp [linksOf, hp]
    rw [hlink] at h ⊢
    have hnew : (n.parent, n.id) ∉ x.links :=
      fun hmem => (List.nodup_append.1 h).2.2 _ hmem _ List.mem_cons_self rfl
    show (x.links.insert (n.parent, n.id)).Perm _
    rw [List.insert_of_not_mem hnew]
    exact (List.perm_append_singleton ..).symm

theorem links_foldl_note {l : List Node} (h : (x.links ++ linksOf l).Nodup) :
    (l.foldl Folder.note x).links.Perm (x.links ++ linksOf l) := by
  induction l generalizing x with
  | nil => simp [linksOf]
  | cons n l ih =>
    rw [← List.singleton_append, linksOf_append, ← List.append_assoc] at h ⊢
    have hnote := links_note_perm (List.nodup_append.1 h).1
    have hrest := hnote.append_right (linksOf l)
    exact (ih (hrest.nodup_iff.2 h)).trans hrest

theorem links_insert : (m.insert n).links = m.links ++ linksOf [n] := by
  unfold Memory.insert linksOf
  cases hp : n.parent.isNull <;> simp [hp]

end ChildIndex

namespace Folder

variable {f : Folder} {d e : Disk} {p : Path} {q : Place} {id : Hash} {n : Node} {m : Memory}
  {ps : List Place}

theorem idOfName?_text (h : id.WellFormed) (hnull : id.isNull = false) :
    idOfName? id.text = some id := by
  obtain ⟨b, -, rfl⟩ := h.exists_digest hnull
  have hmark : ¬(Qualified.ofFixed .sha512_256 b : Hash).text.startsWith stagingMark := by
    rw [String.startsWith_string_iff, Qualified.text_digest, String.toList_append, stagingMark]
    intro hfront
    simp at hfront
  rw [idOfName?, if_neg hmark, Qualified.ofText?_text h]

/-- The path leads to a directory of its own, in which every identifier can be the name of a file
and no file is locked. -/
structure Site (p : Path) (d : Disk) (q : Place) : Prop where
  directory : d.Houses p q
  staging : ∃ r, d.locate (p.child (stagingMark ++ "XXXXXX")) = .ok r
  file {id : Hash} : id.WellFormed → id.isNull = false →
    d.locate (p.child id.text) = .ok (q ++ [id.text])
  unlocked (name : String) : q ++ [name] ∉ d.locked
  keyed : d.Keyed

theorem Site.housed (h : Site f.path d q) : f.Housed d q where
  directory := h.directory
  staging := h.staging
  file hn := h.file hn.wellFormed_id hn.isNull_id

theorem Site.of_within (h : Site p d q) (hw : d.Within ps e) (hlocked : e.locked = d.locked)
    (hkeyed : e.Keyed) : Site p e q where
  directory := hw.houses h.directory
  staging := h.staging.imp fun _ => hw.locate
  file hid hnull := hw.locate (h.file hid hnull)
  unlocked name := hlocked ▸ h.unlocked name
  keyed := hkeyed

theorem run_opened_of_houses (shuffle : Shuffle) (h : d.Houses p q) :
    (opened p shuffle).run d = (.ok ⟨p, .empty, false, shuffle⟩, d) := by
  refine (run_bind_ok rfl).trans ?_
  dsimp only
  rw [h.makeDirectories]
  rfl

def entryOf (n : Node) : String × Entry :=
  (n.id.text, .file n.encode)

/-- The directory lists one file for each node, and nothing else. -/
structure Shelves (p : Path) (d : Disk) (q : Place) (m : Memory) : Prop extends Site p d q where
  files : (d.below q).Perm (m.nodes.map entryOf)
  sealed : ∀ n ∈ m.nodes, n.Sealed

namespace Shelves

variable (h : Shelves f.path d q m) (hm : m.Linked)

include h hm

theorem load_eq (hid : id.WellFormed) (hnull : id.isNull = false) :
    f.load d id = .ok (m.get? id) := by
  have hlocate : d.locate (f.file id) = .ok (q ++ [id.text]) := h.file hid hnull
  have hmem (entry : Entry) : d.lookup? (q ++ [id.text]) = some entry ↔
      ∃ n ∈ m.nodes, entryOf n = (id.text, entry) := by
    rw [h.keyed.lookup?_child, h.files.mem_iff, List.mem_map]
  cases hget : m.get? id with
  | some n =>
    obtain ⟨hn, rfl⟩ := hm.get?_eq_some_iff.1 hget
    have hentry : d.entry (f.file n.id) = .ok (.file n.encode) := by
      rw [Disk.entry_of_locate hlocate, (hmem _).2 ⟨n, hn, rfl⟩]
      rfl
    exact load_eq_some_iff.2 ⟨Disk.read_of_entry hentry, h.sealed n hn, rfl⟩
  | none =>
    have hnone : d.lookup? (q ++ [id.text]) = none := by
      refine Option.eq_none_iff_forall_ne_some.2 fun entry hentry => ?_
      obtain ⟨n, hn, heq⟩ := (hmem entry).1 hentry
      have hname : n.id.text = id.text := congrArg Prod.fst heq
      exact Memory.id_ne_of_get? hget n hn (Qualified.text_inj hname)
    refine load_eq_none_iff.2 ?_
    rw [Disk.read, Disk.entry_of_locate hlocate, hnone]
    rfl

theorem run_find (hid : id.WellFormed) : (find id).run (f, d) = (.ok (m.get? id), f, d) := by
  rw [Folder.run_find]
  cases hnull : id.isNull with
  | true =>
    have hnone : m.get? id = none := by
      refine Option.eq_none_iff_forall_ne_some.2 fun n hget => ?_
      obtain rfl := Memory.id_of_get? hget
      have hfalse := (h.sealed n (Memory.mem_of_get? hget)).isNull_id
      exact absurd (hnull.symm.trans hfalse) nofun
    rw [if_pos rfl, hnone]
  | false => rw [if_neg nofun, h.load_eq hm hid hnull]

theorem exists_scan : ∃ nodes, f.scan d = .ok nodes ∧ nodes.Perm m.nodes := by
  refine ⟨_, by rw [scan, h.directory.list], ?_⟩
  refine (h.files.filterMap _).trans (.of_eq ?_)
  rw [List.filterMap_map]
  refine (List.filterMap_congr fun n hn => ?_).trans List.filterMap_some
  have hsealed := h.sealed n hn
  have hload : f.load d n.id = .ok (some n) :=
    (h.load_eq hm hsealed.wellFormed_id hsealed.isNull_id).trans
      (congrArg _ (hm.get?_eq_some_iff.2 ⟨hn, rfl⟩))
  simp only [Function.comp_apply, entryOf, idOfName?_text hsealed.wellFormed_id hsealed.isNull_id,
    Option.bind_eq_bind, Option.bind_some, hload]
  rfl

omit hm in
theorem lookup?_of_mem (hn : n ∈ m.nodes) :
    d.lookup? (q ++ [n.id.text]) = some (.file n.encode) := by
  rw [h.keyed.lookup?_child, h.files.mem_iff]
  exact List.mem_map_of_mem hn

omit hm in
theorem lookup?_ne_directory (name : String) : d.lookup? (q ++ [name]) ≠ some .directory := by
  rw [Ne, h.keyed.lookup?_child, h.files.mem_iff, List.mem_map]
  rintro ⟨n, -, hn⟩
  exact absurd (congrArg Prod.snd hn) nofun

end Shelves

def settle (f : Folder) (x : ChildIndex) : Folder :=
  { f with index := x, indexed := true }

theorem run_children_of_indexed (hindexed : f.indexed = true) (id : Hash) :
    (children id).run (f, d) = (.ok (f.shuffle.apply (f.index.children id)), f, d) := by
  show ((ite (f.index.isKnown id = true) _ _ : Action State (List Hash)).run (f, d)) = _
  split
  · rfl
  · rw [run_bind_ok (run_ensureIndexed_of_indexed hindexed)]
    rfl

theorem run_children_of_unknown {nodes : List Node} (hunknown : ¬f.index.isKnown id = true)
    (hindexed : ¬f.indexed = true) (hscan : f.scan d = .ok nodes) :
    (children id).run (f, d) =
      (.ok (f.shuffle.apply ((nodes.foldl note f.index).children id)),
        f.settle (nodes.foldl note f.index), d) := by
  show ((ite (f.index.isKnown id = true) _ _ : Action State (List Hash)).run (f, d)) = _
  rw [if_neg hunknown, run_bind_ok (run_ensureIndexed (t := (f, d)) hindexed hscan)]
  rfl

theorem run_children_of_known (h : f.index.isKnown id = true) :
    (children id).run (f, d) = (.ok (f.shuffle.apply (f.index.children id)), f, d) := by
  show ((ite (f.index.isKnown id = true) _ _ : Action State (List Hash)).run (f, d)) = _
  rw [if_pos h]
  rfl

theorem run_children_of_error {e : StoreError} (hunknown : ¬f.index.isKnown id = true)
    (hindexed : ¬f.indexed = true) (hscan : f.scan d = .error e) :
    (children id).run (f, d) = (.error e, f, d) := by
  show ((ite (f.index.isKnown id = true) _ _ : Action State (List Hash)).run (f, d)) = _
  rw [if_neg hunknown, run_bind_error (run_ensureIndexed_error (t := (f, d)) hindexed hscan)]

theorem indexed_filed : (f.filed n).indexed = f.indexed := by
  unfold filed
  split <;> rfl

theorem index_filed : (f.filed n).index = if f.indexed then note f.index n else f.index := by
  unfold filed
  split <;> rfl

/-- The folder holds what the memory holds, of the known nodes, and its index is still empty or has
the links of the memory. -/
structure Mirrors (known : List Node) (q : Place) (t : State) (m : Memory) : Prop where
  shelves : Shelves t.1.path t.2 q m
  empty : t.1.indexed = false → t.1.index = .empty
  links : t.1.indexed = true → t.1.index.links.Perm m.links
  within : m.Within known
  dated : m.Dated

theorem children_perm {x : ChildIndex} (h : x.links.Perm m.links) (shuffle : Shuffle) (p : Hash) :
    (shuffle.apply (x.children p)).Perm (m.children p) :=
  (shuffle.perm _).trans (h.filterMap _)

namespace Mirrors

variable {known : List Node} {t : State}

/-- Whenever children are asked for, it is as if the index had been filled with the links of the
memory. -/
theorem exists_index (h : Mirrors known q (f, d) m) :
    ∃ x : ChildIndex, x.links.Perm m.links ∧ ∀ f', f' = f ∨ f' = f.settle x → ∀ p,
      (children p).run (f', d) = (.ok (f.shuffle.apply (x.children p)), f.settle x, d) := by
  cases hindexed : f.indexed with
  | true =>
    have hsettle : f.settle f.index = f := by rw [settle, ← hindexed]
    refine ⟨f.index, h.links hindexed, fun f' hf' p => ?_⟩
    rw [hsettle, or_self] at hf'
    rw [hsettle, hf', run_children_of_indexed hindexed]
  | false =>
    obtain ⟨nodes, hscan, hperm⟩ := h.shelves.exists_scan h.within.toLinked
    have hempty : f.index = .empty := h.empty hindexed
    refine ⟨nodes.foldl note f.index, ?_, fun f' hf' p => ?_⟩
    · have hlinks : (ChildIndex.linksOf nodes).Perm m.links := by
        rw [h.within.links_eq]
        exact (hperm.filter _).map _
      have hnote := ChildIndex.links_foldl_note (x := f.index) (l := nodes) ?_
      · rw [hempty] at hnote ⊢
        exact hnote.trans hlinks
      · rw [hempty]
        exact hlinks.nodup_iff.2 h.within.nodup_links
    · rcases hf' with rfl | rfl
      · refine run_children_of_unknown ?_ (by simp [hindexed]) hscan
        rw [hempty]
        exact nofun
      · exact run_children_of_indexed rfl p

theorem exists_recent (h : Mirrors known q (f, d) m) (kind : NodeKind) (count : Nat) :
    ∃ l, (store.recent kind count).run (f, d) = (.ok (l.take count), f, d) ∧
      l.Perm (m.history kind) ∧ Descending l := by
  obtain ⟨nodes, hscan, hperm⟩ := h.shelves.exists_scan h.within.toLinked
  refine ⟨(nodes.filter fun n => n.kind = kind).mergeSort newestFirst, ?_, ?_, ?_⟩
  · exact run_bind_ok ((run_scanned (f, d)).trans (by rw [hscan]))
  · refine (List.mergeSort_perm ..).trans ((hperm.filter _).trans ?_)
    exact (h.dated.history_perm h.within.toLinked kind).symm
  · exact descending_mergeSort _

theorem reopen (h : Mirrors known q (f, d) m) (shuffle : Shuffle) :
    Mirrors known q (⟨f.path, .empty, false, shuffle⟩, d) m where
  shelves := h.shelves
  empty _ := rfl
  links := nofun
  within := h.within
  dated := h.dated

theorem reshuffle (h : Mirrors known q (f, d) m) (shuffle : Shuffle) :
    Mirrors known q ({ f with shuffle }, d) m where
  shelves := h.shelves
  empty := h.empty
  links := h.links
  within := h.within
  dated := h.dated

theorem relist (h : Mirrors known q (f, d) m) {order : List (Place × Entry) → List (Place × Entry)}
    (horder : ∀ l, (order l).Perm l) : Mirrors known q (f, d.relisted order) m where
  shelves :=
    { toSite := h.shelves.of_within (Disk.within_relisted horder h.shelves.keyed) rfl
        (h.shelves.keyed.relisted horder)
      files := (Disk.below_relisted horder q).trans h.shelves.files
      sealed := h.shelves.sealed }
  empty := h.empty
  links := h.links
  within := h.within
  dated := h.dated

theorem settle (h : Mirrors known q (f, d) m) {x : ChildIndex} (hx : x.links.Perm m.links) :
    Mirrors known q (f.settle x, d) m where
  shelves := h.shelves
  empty := nofun
  links _ := hx
  within := h.within
  dated := h.dated

theorem length_lt_reach (h : Mirrors known q (f, d) m) :
    m.nodes.length < Folder.reach (f, d) + 1 := by
  have hlength : (d.below q).length = m.nodes.length := by
    rw [h.shelves.files.length_eq, List.length_map]
  have hle : (d.below q).length ≤ d.entries.length := List.length_filterMap_le ..
  show _ < d.entries.length + _ + 1
  omega

theorem add (h : Mirrors known q (f, d) m) (hn : n.Sealed) (hknown : n ∈ known) :
    ∃ t, (store.add n).run (f, d) = (.ok (), t) ∧ t.1.path = f.path ∧
      Mirrors known q t (m.add n) := by
  have hload := h.shelves.load_eq h.within.toLinked hn.wellFormed_id hn.isNull_id
  cases hget : m.get? n.id with
  | some k =>
    have hfind := h.shelves.run_find h.within.toLinked hn.wellFormed_id
    rw [hget] at hfind
    rw [Memory.add_eq_self hget]
    exact ⟨_, run_add_of_find hfind, rfl, h⟩
  | none =>
    rw [hget] at hload
    have hnone := h.shelves.housed.lookup?_eq_none hn hload
    have hw := h.shelves.housed.within_put hn hload
    refine ⟨_, h.shelves.housed.run_add hn hload, path_filed, ?_, ?_, ?_, h.within.add hknown,
      h.dated.add n⟩
    · rw [path_filed, Memory.add_of_get? hget]
      refine ⟨h.shelves.of_within hw rfl (h.shelves.keyed.put hnone _), ?_, ?_⟩
      · show (Disk.below _ q).Perm ((m.nodes ++ [n]).map entryOf)
        rw [Disk.below_put_self hnone, List.map_append]
        exact h.shelves.files.append_right _
      · exact List.forall_mem_append.2 ⟨h.shelves.sealed, List.forall_mem_singleton.2 hn⟩
    · intro hfiled
      have hindexed : f.indexed = false := indexed_filed.symm.trans hfiled
      rw [index_filed, if_neg (by simp [hindexed])]
      exact h.empty hindexed
    · intro hfiled
      have hindexed : f.indexed = true := indexed_filed.symm.trans hfiled
      have hlinks := (h.links hindexed).append_right (ChildIndex.linksOf [n])
      have hinsert := (h.within.toIndexed.insert hget).nodup_links
      rw [ChildIndex.links_insert] at hinsert
      rw [index_filed, if_pos hindexed, Memory.add_of_get? hget, ChildIndex.links_insert]
      exact (ChildIndex.links_note_perm (hlinks.nodup_iff.2 hinsert)).trans hlinks

end Mirrors

end Folder

end Grove
