import Grove.Proofs.Stack.Replay
import Grove.Proofs.Store.Readback

/-! # What a folder shows

A folder shows the nodes that it finds under their own identifiers. A scan goes by the names of the
files instead, whatever they are. It shows the same, since the text of an identifier is read back,
and since every name that spells an identifier leads to the one file that a look-up of it opens.
Children, the nodes of a kind and copies come from a scan, so they are drawn from the nodes shown,
as long as the files are what they were when the folder was first asked for children.
-/

namespace Grove

open Grove.Action

theorem join_toOption_eq_some_iff {ε α : Type} {x : Except ε (Option α)} {v : α} :
    x.toOption.join = some v ↔ x = .ok (some v) := by
  cases x with
  | error e => exact iff_of_false nofun nofun
  | ok found => cases found <;> simp [Except.toOption]

namespace Disk

variable {d : Disk} {p : Path} {q : Place} {name : String} {entry : Entry}

theorem lookup?_of_entry (hq : d.locate p = .ok q) (h : d.entry p = .ok entry) :
    d.lookup? q = some entry := by
  rw [entry_of_locate hq] at h
  cases hlookup : d.lookup? q with
  | none =>
    rw [hlookup] at h
    exact absurd h nofun
  | some found =>
    rw [hlookup] at h
    exact congrArg some (Except.ok.inj h)

theorem houses_of_list {files : List (String × Entry)} (h : d.list p = .ok files) :
    ∃ q, d.Houses p q ∧ files = d.below q := by
  obtain ⟨q, hq, hrest⟩ := bind_eq_ok_iff.1 h
  obtain ⟨entry, hentry, hfiles⟩ := bind_eq_ok_iff.1 hrest
  have hlookup := lookup?_of_entry hq hentry
  cases entry with
  | file content => exact absurd hfiles nofun
  | directory => exact ⟨q, ⟨hq, hlookup⟩, (Except.ok.inj hfiles).symm⟩

theorem Houses.mem_below_of_read {content : Bytes} (h : d.Houses p q) (hname : IsProper name)
    (hread : d.read (p.child name) = .ok content) : (name, .file content) ∈ d.below q := by
  obtain ⟨entry, hentry, hcontent⟩ := bind_eq_ok_iff.1 hread
  cases entry with
  | directory => exact absurd hcontent nofun
  | file bytes =>
    obtain rfl : bytes = content := Except.ok.inj hcontent
    obtain ⟨r, hr, -⟩ := bind_eq_ok_iff.1 hentry
    obtain rfl : q ++ [name] = r := by
      rw [h.locate_child hname] at hr
      split at hr
      · exact Except.ok.inj hr
      · exact absurd hr nofun
    have hlookup : d.entries.lookup (q ++ [name]) = some (.file bytes) :=
      lookup?_of_entry hr hentry
    obtain ⟨before, after, hsplit, -⟩ := List.lookup_eq_some_iff.1 hlookup
    exact mem_below.2 (hsplit ▸ List.mem_append_right _ List.mem_cons_self)

end Disk

namespace ChildIndex

variable {x : ChildIndex}

theorem mem_children_foldl_note {l : List Node} {p c : Hash} :
    c ∈ (l.foldl Folder.note x).children p ↔
      c ∈ x.children p ∨ p.isNull = false ∧ ∃ n ∈ l, n.parent = p ∧ n.id = c := by
  induction l generalizing x with
  | nil => simp
  | cons n l ih =>
    have hnote : c ∈ (Folder.note x n).children p ↔
        c ∈ x.children p ∨ p.isNull = false ∧ n.parent = p ∧ n.id = c := by
      unfold Folder.note
      cases hnull : n.parent.isNull with
      | true =>
        have hnot : ¬(p.isNull = false ∧ n.parent = p ∧ n.id = c) := by
          rintro ⟨hp, rfl, -⟩
          exact absurd (hnull.symm.trans hp) nofun
        simp [mem_children_add, hnot]
      | false =>
        simp only [Bool.false_eq_true, if_false, mem_children_add, List.not_mem_nil, and_false,
          or_false, List.mem_singleton]
        constructor
        · rintro (hc | ⟨rfl, rfl⟩)
          · exact .inl hc
          · exact .inr ⟨hnull, rfl, rfl⟩
        · rintro (hc | ⟨-, rfl, rfl⟩)
          · exact .inl hc
          · exact .inr ⟨rfl, rfl⟩
    rw [List.foldl_cons, ih, hnote, List.exists_mem_cons_iff, or_assoc, and_or_left]

theorem nodup_children (h : x.links.Nodup) (p : Hash) : (x.children p).Nodup := by
  refine List.Nodup.filterMap ?_ h
  rintro ⟨p₁, c₁⟩ ⟨p₂, c₂⟩ c h₁ h₂
  simp only [Option.mem_def, Option.ite_none_right_eq_some, Option.some.injEq] at h₁ h₂
  rw [h₁.1, h₁.2, h₂.1, h₂.2]

theorem nodup_links_foldl_note {l : List Node} (h : x.links.Nodup) :
    (l.foldl Folder.note x).links.Nodup := by
  induction l generalizing x with
  | nil => exact h
  | cons n l ih =>
    refine ih ?_
    unfold Folder.note
    cases n.parent.isNull with
    | true => exact h
    | false => exact h.insert

end ChildIndex

namespace Memory

theorem mem_nodes_ofList {l : List Node} {n : Node}
    (h : ∀ a ∈ l, ∀ b ∈ l, a.id = b.id → a = b) : n ∈ (ofList l).nodes ↔ n ∈ l := by
  have hwithin : (ofList l).Within l := (within_empty l).foldl_add (List.Subset.refl l)
  refine ⟨fun hn => hwithin.known hn, fun hn => ?_⟩
  obtain ⟨k, hk⟩ := Option.isSome_iff_exists.1 (isSome_get?_foldl_add.2 (.inr ⟨n, hn, rfl⟩))
  have hkn := h k (hwithin.known (mem_of_get? hk)) n hn (id_of_get? hk)
  exact hkn ▸ mem_of_get? hk

end Memory

namespace Folder

variable {f : Folder} {d : Disk} {n : Node} {nodes : List Node} {t : State}

/-- The folder finds the node under its own identifier. -/
def Shows (t : State) (n : Node) : Prop :=
  (store.get n.id).run t = (.ok (some n), t)

theorem shows_iff : Shows t n ↔ t.1.load t.2 n.id = .ok (some n) :=
  run_find_eq_some_iff.trans load_eq_some_iff.symm

theorem Shows.eq {a b : Node} (ha : Shows t a) (hb : Shows t b) (hid : a.id = b.id) : a = b := by
  have hload := shows_iff.1 ha
  rw [hid, shows_iff.1 hb] at hload
  exact (Option.some.inj (Except.ok.inj hload)).symm

/-- A scan shows what look-ups show, whatever files there are and in whatever order. -/
theorem mem_of_scan (h : f.scan d = .ok nodes) : n ∈ nodes ↔ Shows (f, d) n := by
  rw [shows_iff]
  cases hlist : d.list f.path with
  | error r =>
    rw [scan, hlist] at h
    cases h
  | ok files =>
    obtain ⟨q, hq, rfl⟩ := Disk.houses_of_list hlist
    rw [scan, hlist] at h
    obtain rfl := Except.ok.inj h
    simp only [List.mem_filterMap, Option.bind_eq_bind, Option.bind_eq_some_iff,
      join_toOption_eq_some_iff]
    constructor
    -- What the name was does not matter, since the file that is opened says its own identifier.
    · rintro ⟨-, -, id, -, hload⟩
      rwa [(load_eq_some_iff.1 hload).2.2]
    · intro hload
      obtain ⟨hread, hn, -⟩ := load_eq_some_iff.1 hload
      exact ⟨_, hq.mem_below_of_read (Qualified.isProper_text n.id) hread, n.id,
        idOfName?_text hn.wellFormed_id hn.isNull_id, hload⟩

def Move.Asks : Move → Prop
  | .get _ | .children _ | .recent .. => True
  | _ => False

/-- The index says nothing yet, or what a scan of these nodes noted. -/
def Asked (nodes : List Node) (f : Folder) : Prop :=
  f.index = .empty ∧ f.indexed = false ∨
    f.index = nodes.foldl note .empty ∧ f.indexed = true

theorem Asked.run_children (h : Asked nodes f) (hscan : f.scan d = .ok nodes) (id : Hash) :
    (children id).run (f, d) = (.ok (f.shuffle.apply ((nodes.foldl note .empty).children id)),
      f.settle (nodes.foldl note .empty), d) := by
  rcases h with ⟨hempty, hindexed⟩ | ⟨hindex, hindexed⟩
  · have hunknown : ¬f.index.isKnown id = true := by
      rw [hempty]
      exact nofun
    rw [run_children_of_unknown hunknown (by simp [hindexed]) hscan, hempty]
  · rw [run_children_of_indexed hindexed, settle, ← hindex, ← hindexed]

/-- A question leaves the files as they are, and the index empty or filled from the scan. -/
theorem Asked.step {move : Move} (h : Asked nodes f) (hscan : f.scan d = .ok nodes)
    (hmove : move.Asks) :
    ∃ g, move.onFolder (f, d) = (g, d) ∧ g.path = f.path ∧ Asked nodes g := by
  cases move with
  | get id =>
    have hrun : (store.get id).run (f, d) = _ := run_find id (f, d)
    exact ⟨f, congrArg Prod.snd hrun, rfl, h⟩
  | children id =>
    have hrun : (store.children id).run (f, d) = _ := h.run_children hscan id
    exact ⟨_, congrArg Prod.snd hrun, rfl, .inr ⟨rfl, rfl⟩⟩
  | recent kind count =>
    have hrun : (store.recent kind count).run (f, d) = _ :=
      run_bind_ok ((run_scanned (f, d)).trans (by rw [hscan]))
    exact ⟨f, congrArg Prod.snd hrun, rfl, h⟩
  | _ => exact hmove.elim

section Path

variable {g : Folder} (h : g.path = f.path)

include h

theorem load_of_path : g.load d = f.load d := by
  funext id
  rw [load, load, file, file, h]

theorem scan_of_path : g.scan d = f.scan d := by
  rw [scan, scan, h, load_of_path h]

theorem shows_of_path : Shows (g, d) n ↔ Shows (f, d) n := by
  rw [shows_iff, shows_iff, load_of_path h]

end Path

theorem Asked.foldl {moves : List Move} (h : Asked nodes f) (hscan : f.scan d = .ok nodes)
    (hmoves : ∀ move ∈ moves, move.Asks) :
    ∃ g, moves.foldl (fun t move => move.onFolder t) (f, d) = (g, d) ∧ g.path = f.path ∧
      Asked nodes g := by
  induction moves generalizing f with
  | nil => exact ⟨f, rfl, rfl, h⟩
  | cons move moves ih =>
    obtain ⟨hmove, hmoves⟩ := List.forall_mem_cons.1 hmoves
    obtain ⟨g, hg, hpath, hasked⟩ := h.step hscan hmove
    obtain ⟨k, hk, hkpath, hk'⟩ := ih hasked ((scan_of_path hpath).trans hscan) hmoves
    exact ⟨k, by rw [List.foldl_cons, hg, hk], hkpath.trans hpath, hk'⟩

theorem exists_scan_of_list {files : List (String × Entry)} (h : d.list f.path = .ok files) :
    ∃ nodes, f.scan d = .ok nodes := by
  rw [scan, h]
  exact ⟨_, rfl⟩

theorem run_copyInto (hscan : f.scan d = .ok nodes) :
    (store.copyInto Memory.store).run ((f, .empty), d) =
      (.ok (), ((f, .ofList (nodes.mergeSort uppermostFirst)), d)) := by
  have hnodes : store.nodes.run (f, d) = (.ok (nodes.mergeSort uppermostFirst), f, d) :=
    run_bind_ok ((run_scanned (f, d)).trans (by rw [hscan]))
  exact Cache.run_copyInto hnodes (Memory.run_addAll _)

/-- Whatever lies in the directory of a folder, a scan finds the nodes that are found by their
identifiers and no others. Since the folder was opened it may have been asked any questions: its
children are the nodes shown below a parent, and recent nodes of a kind and copies are drawn from
the nodes shown. -/
theorem drawn_from_shown {p : Path} {d₀ e : Disk} {shuffle : Shuffle}
    (hopen : (opened p shuffle).run d₀ = (.ok f, e))
    {files : List (String × Entry)} (hlist : d.list p = .ok files) {asked : List Move}
    (hasked : ∀ move ∈ asked, move.Asks)
    (ht : asked.foldl (fun t move => move.onFolder t) (f, d) = t) :
    (∀ g : Folder, g.path = p →
      ∃ nodes, g.scan d = .ok nodes ∧ ∀ n, n ∈ nodes ↔ Shows (g, d) n) ∧
    (∀ id, id.isNull = false → ∃ ids, (store.answers t).children id = .ok ids ∧ ids.Nodup ∧
      ∀ c, c ∈ ids ↔ ∃ n, Shows t n ∧ n.parent = id ∧ n.id = c) ∧
    (∀ kind, ∃ l : List Node, (∀ n, n ∈ l ↔ Shows t n ∧ n.kind = kind) ∧
      ∀ count, (store.answers t).recent kind count = .ok (l.take count)) ∧
    ∃ m, (store.copyInto Memory.store).run ((t.1, .empty), t.2) = (.ok (), ((t.1, m), t.2)) ∧
      ∀ n, n ∈ m.nodes ↔ Shows t n := by
  obtain rfl := eq_of_opened hopen
  obtain ⟨nodes, hscan⟩ := exists_scan_of_list (f := ⟨p, .empty, false, shuffle⟩) hlist
  have hstart : Asked nodes ⟨p, .empty, false, shuffle⟩ := .inl ⟨rfl, rfl⟩
  obtain ⟨g, hg, hpath, hindex⟩ := hstart.foldl hscan hasked
  obtain rfl : (g, d) = t := hg.symm.trans ht
  have hscan : g.scan d = .ok nodes := (scan_of_path hpath).trans hscan
  have hshows (n : Node) : n ∈ nodes ↔ Shows (g, d) n := mem_of_scan hscan
  refine ⟨fun k hk => ?_, fun id hid => ?_, fun kind => ?_, ?_⟩
  · obtain ⟨nodes, hscan⟩ := exists_scan_of_list (f := k) (hk ▸ hlist)
    exact ⟨nodes, hscan, fun n => mem_of_scan hscan⟩
  · refine ⟨_, congrArg Prod.fst (hindex.run_children hscan id), ?_, fun c => ?_⟩
    · have hempty : ChildIndex.empty.links.Nodup := .nil
      exact (g.shuffle.perm _).nodup_iff.2 (ChildIndex.nodup_children
        (ChildIndex.nodup_links_foldl_note hempty) id)
    · rw [(g.shuffle.perm _).mem_iff, ChildIndex.mem_children_foldl_note]
      simp [ChildIndex.empty, ChildIndex.children, hid, hshows]
  · refine ⟨(nodes.filter fun n => n.kind = kind).mergeSort newestFirst, fun n => ?_,
      fun count => ?_⟩
    · rw [List.mem_mergeSort, List.mem_filter, hshows, decide_eq_true_eq]
    · exact (result_recent kind count (g, d)).trans (by rw [hscan]; rfl)
  · refine ⟨_, run_copyInto hscan, fun n => ?_⟩
    rw [Memory.mem_nodes_ofList, List.mem_mergeSort, hshows]
    intro a ha b hb hid
    rw [List.mem_mergeSort, hshows] at ha hb
    exact ha.eq hb hid

open Stack (shed pile)
open Node (unsignedReply)

def shouted (id : Hash) : String :=
  String.ofList (id.text.toList.map Char.toUpper)

/-- A disk with the unsigned reply in its file, and clutter around it: the rest of a file that was
being written, a note, the name of the reply in capitals, and a copy of the reply and the front half
of it under identifiers of others. -/
def cluttered : Disk :=
  { shed with
    entries := shed.entries ++
      [(".staging-000000", unsignedReply.encode), ("notes", junk), (shouted unsignedReply.id, junk),
        (unsignedReply.id.text, unsignedReply.encode),
        (unsignedReply.parent.text, unsignedReply.encode),
        (unsignedReply.signer.text, unsignedReply.encode.take 100)].map fun (name, content) =>
          (["pile", name], .file content) }

theorem houses_cluttered : cluttered.Houses pile.path ["pile"] :=
  ⟨rfl, rfl⟩

theorem shows_cluttered : Shows (pile, cluttered) unsignedReply := by
  have hread : cluttered.read (pile.file unsignedReply.id) = .ok unsignedReply.encode := by
    decide +kernel
  exact shows_iff.2 (load_eq_some_iff.2 ⟨hread, Node.sealed_unsignedReply, rfl⟩)

/-- The cluttered folder shows the reply below its parent, after it was asked for something else. -/
theorem drawn_from_shown_cluttered :
    (opened pile.path .byId).run cluttered = (.ok pile, cluttered) ∧
      (∃ files, cluttered.list pile.path = .ok files) ∧
      ∃ ids, (store.answers ([Move.children .null, .recent .reply 1].foldl
          (fun t move => move.onFolder t) (pile, cluttered))).children unsignedReply.parent =
            .ok ids ∧
        unsignedReply.id ∈ ids := by
  have hopen : (opened pile.path .byId).run cluttered = (.ok pile, cluttered) :=
    run_opened_of_houses .byId houses_cluttered
  have hlist := houses_cluttered.list
  have hasked : ∀ move ∈ [Move.children .null, .recent .reply 1], move.Asks := by
    simp [Move.Asks]
  obtain ⟨-, hchildren, -, -⟩ := drawn_from_shown hopen hlist hasked rfl
  obtain ⟨ids, hids, -, hmem⟩ := hchildren unsignedReply.parent (by decide)
  obtain ⟨nodes, hscan⟩ := exists_scan_of_list (f := pile) hlist
  have hstart : Asked nodes pile := .inl ⟨rfl, rfl⟩
  obtain ⟨g, hg, hpath, -⟩ := hstart.foldl hscan hasked
  have hshows : Shows (g, cluttered) unsignedReply := (shows_of_path hpath).2 shows_cluttered
  rw [hg] at hids hmem ⊢
  exact ⟨hopen, ⟨_, hlist⟩, ids, hids, (hmem _).2 ⟨unsignedReply, hshows, rfl, rfl⟩⟩

end Folder

end Grove
