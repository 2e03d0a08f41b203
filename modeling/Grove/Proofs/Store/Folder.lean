import Grove.Proofs.Store.Action
import Grove.Proofs.Store.Disk
import Grove.Proofs.Validation.Shallow
import Grove.Proofs.Wire.Text
import Grove.Store.Folder

/-! # What a folder does

Looking a node up in a folder changes nothing. Where a file is already, nothing is written, so
adding a node that is found changes nothing either. Where none is, the node is found afterwards, and
what is found in other files is as before.
-/

namespace Grove

open Grove.Action

theorem Disk.exists?_of_read {d : Disk} {p : Path} {content : Bytes}
    (h : d.read p = .ok content) : d.exists? p = true := by
  unfold Disk.read at h
  unfold Disk.exists?
  cases he : d.entry p with
  | ok e => rfl
  | error e =>
    rw [he] at h
    exact absurd h nofun

theorem Qualified.isProper_text (id : Hash) : Disk.IsProper id.text := by
  have hline : '_' ∈ id.text.toList := by
    rw [toList_text]
    exact List.mem_append_right _ List.mem_cons_self
  refine ⟨?_, ?_, ?_⟩ <;> intro h <;> rw [h] at hline <;> exact absurd hline (by decide)

namespace Folder

variable {f : Folder} {d e : Disk} {q : Place} {id : Hash} {n : Node}

theorem load_of_read {content : Bytes} (h : d.read (f.file id) = .ok content) :
    f.load d id = ((Node.ofBytes content).mapError (StoreError.corrupt id) >>= fun n =>
      (n.checkId id).mapError .invalid >>= fun _ => pure (some n)) := by
  rw [load, h]

/-- What is found is sealed under the identifier that names the file, and the file is its wire
form. -/
theorem load_eq_some_iff :
    f.load d id = .ok (some n) ↔
      d.read (f.file id) = .ok n.encode ∧ n.Sealed ∧ n.id = id := by
  cases hread : d.read (f.file id) with
  | error r =>
    refine iff_of_false (fun h => ?_) nofun
    rw [load, hread] at h
    cases r <;> exact absurd h nofun
  | ok content =>
    rw [load_of_read hread]
    simp only [bind_eq_ok_iff, mapError_eq_ok_iff, Node.ofBytes_eq_ok_iff, pure_eq_ok_iff]
    constructor
    · rintro ⟨k, ⟨hk, rfl⟩, ⟨⟩, hid, ⟨⟩⟩
      exact ⟨rfl, hk, hk.id.trans (Node.checkId_eq_ok_iff.1 hid)⟩
    · rintro ⟨⟨⟩, hn, hid⟩
      exact ⟨n, ⟨hn, rfl⟩, (), Node.checkId_eq_ok_iff.2 (hn.id.symm.trans hid), rfl⟩

theorem load_eq_none_iff : f.load d id = .ok none ↔ d.read (f.file id) = .error .missing := by
  cases hread : d.read (f.file id) with
  | error r =>
    rw [load, hread]
    cases r
    · exact iff_of_true rfl rfl
    · exact iff_of_false nofun nofun
  | ok content =>
    rw [load_of_read hread]
    refine iff_of_false (fun h => ?_) nofun
    simp only [bind_eq_ok_iff, pure_eq_ok_iff, reduceCtorEq, and_false, exists_false] at h

theorem exists?_of_load (h : f.load d id = .ok (some n)) : d.exists? (f.file id) = true :=
  Disk.exists?_of_read (load_eq_some_iff.1 h).1

theorem load_congr (h : e.entry (f.file id) = d.entry (f.file id)) : f.load e id = f.load d id := by
  rw [load, load, Disk.read_congr h]

theorem run_find (id : Hash) (t : Folder × Disk) :
    (find id).run t = (if id.isNull then .ok none else t.1.load t.2 id, t) := by
  show (ite (id.isNull = true) (pure none) _ : Action State (Option Node)).run t = _
  split
  · rfl
  · generalize t.1.load t.2 id = found
    cases found <;> rfl

theorem run_scanned (t : Folder × Disk) : scanned.run t = (t.1.scan t.2, t) := by
  obtain ⟨f, d⟩ := t
  refine (run_bind_ok rfl).trans ?_
  dsimp only
  generalize f.scan d = nodes
  cases nodes <;> rfl

theorem result_recent (kind : NodeKind) (count : Nat) (t : Folder × Disk) :
    ((store.recent kind count).run t).1 = (t.1.scan t.2).map fun nodes =>
      ((nodes.filter fun n => n.kind = kind).mergeSort newestFirst).take count := by
  cases hscan : t.1.scan t.2 with
  | error e => exact congrArg Prod.fst (run_bind_error ((run_scanned t).trans (by rw [hscan])))
  | ok nodes => exact congrArg Prod.fst (run_bind_ok ((run_scanned t).trans (by rw [hscan])))

theorem run_ensureIndexed_of_indexed {t : Folder × Disk} (h : t.1.indexed = true) :
    ensureIndexed.run t = (.ok (), t) := by
  show (ite (t.1.indexed = true) (pure ()) _ : Action State Unit).run t = _
  rw [if_pos h]
  rfl

theorem run_ensureIndexed {t : Folder × Disk} {nodes : List Node} (h : ¬t.1.indexed = true)
    (hscan : t.1.scan t.2 = .ok nodes) :
    ensureIndexed.run t =
      (.ok (), { t.1 with index := nodes.foldl note t.1.index, indexed := true }, t.2) := by
  show (ite (t.1.indexed = true) (pure ()) _ : Action State Unit).run t = _
  rw [if_neg h]
  exact run_bind_ok ((run_scanned t).trans (by rw [hscan]))

theorem run_ensureIndexed_error {t : Folder × Disk} {e : StoreError} (h : ¬t.1.indexed = true)
    (hscan : t.1.scan t.2 = .error e) : ensureIndexed.run t = (.error e, t) := by
  show (ite (t.1.indexed = true) (pure ()) _ : Action State Unit).run t = _
  rw [if_neg h]
  exact run_bind_error ((run_scanned t).trans (by rw [hscan]))

theorem result_children (id : Hash) (t : Folder × Disk) :
    ((children id).run t).1 =
      if t.1.index.isKnown id ∨ t.1.indexed then .ok (t.1.shuffle.apply (t.1.index.children id))
      else (t.1.scan t.2).map fun nodes =>
        t.1.shuffle.apply ((nodes.foldl note t.1.index).children id) := by
  show ((ite (t.1.index.isKnown id = true) _ _ : Action State (List Hash)).run t).1 = _
  by_cases hknown : t.1.index.isKnown id = true
  · rw [if_pos hknown, if_pos (.inl hknown)]
    rfl
  · rw [if_neg hknown]
    by_cases hindexed : t.1.indexed = true
    · rw [if_pos (.inr hindexed), run_bind_ok (run_ensureIndexed_of_indexed hindexed)]
      rfl
    · rw [if_neg (not_or.2 ⟨hknown, hindexed⟩)]
      cases hscan : t.1.scan t.2 with
      | error e =>
        rw [run_bind_error (run_ensureIndexed_error hindexed hscan)]
        rfl
      | ok nodes =>
        rw [run_bind_ok (run_ensureIndexed hindexed hscan)]
        rfl

theorem run_writeNew_of_exists? {t : Folder × Disk} (content : Bytes)
    (h : t.2.exists? (t.1.file id) = true) : (writeNew id content).run t = (.ok false, t) := by
  show (ite (t.2.exists? (t.1.file id) = true) (pure false) _ : Action State Bool).run t = _
  rw [if_pos h]
  rfl

theorem run_add_of_exists? {t : Folder × Disk} (h : t.2.exists? (t.1.file n.id) = true) :
    (store.add n).run t = (.ok (), t) :=
  run_bind_ok (run_writeNew_of_exists? n.encode h)

theorem run_add_of_find {t u : Folder × Disk} {found : Node}
    (h : (find n.id).run t = (.ok (some found), u)) : (store.add n).run t = (.ok (), t) := by
  have hload := (Prod.mk.inj ((run_find n.id t).symm.trans h)).1
  split at hload
  · exact absurd hload nofun
  · exact run_add_of_exists? (exists?_of_load hload)

/-- The folder is a directory in the place, and sealed nodes can be filed there. -/
structure Housed (f : Folder) (d : Disk) (q : Place) : Prop where
  directory : d.Houses f.path q
  staging : ∃ r, d.locate f.staging = .ok r
  file {n : Node} : n.Sealed → d.locate (f.file n.id) = .ok (q ++ [n.id.text])

variable {ps : List Place}

theorem Housed.of_within (h : f.Housed d q) (hw : d.Within ps e) : f.Housed e q where
  directory := hw.houses h.directory
  staging := h.staging.imp fun _ => hw.locate
  file hn := hw.locate (h.file hn)

theorem Housed.load_congr (h : f.Housed d q) (hw : d.Within ps e)
    (hlookup : e.lookup? (q ++ [id.text]) = d.lookup? (q ++ [id.text])) :
    f.load e id = f.load d id :=
  Folder.load_congr (h.directory.entry_child_congr (hw.houses h.directory) hw.home
    (Qualified.isProper_text id) hlookup)

theorem Housed.scan_congr (h : f.Housed d q) (hw : d.Within ps e) (hq : q ∉ ps) :
    f.scan e = f.scan d := by
  have hload : f.load e = f.load d := funext fun id => h.load_congr hw (hw.file id.text hq)
  rw [scan, scan, (hw.houses h.directory).list, h.directory.list, hw.below hq, hload]

def filed (f : Folder) (n : Node) : Folder :=
  if f.indexed then { f with index := note f.index n } else f

theorem path_filed : (f.filed n).path = f.path := by
  unfold filed
  split <;> rfl

theorem load_filed : (f.filed n).load d id = f.load d id := by
  rw [load, load, file, file, path_filed]

theorem housed_filed (h : f.Housed d q) : (f.filed n).Housed d q := by
  refine ⟨?_, ?_, fun hk => ?_⟩
  · rw [path_filed]
    exact h.directory
  · rw [staging, path_filed]
    exact h.staging
  · rw [file, path_filed]
    exact h.file hk

theorem run_writeNew_of_locate (hstaging : ∃ r, d.locate f.staging = .ok r)
    (hq : d.locate (f.file id) = .ok q) (hnone : d.lookup? q = none) (content : Bytes) :
    (writeNew id content).run (f, d) = (.ok true, f, d.put q (.file content)) := by
  obtain ⟨r, hr⟩ := hstaging
  have hexists : d.exists? (f.file id) = false := by
    rw [Disk.exists?, Disk.entry_of_locate hq, hnone]
    rfl
  show (ite (d.exists? (f.file id) = true) _ _ : Action State Bool).run (f, d) = _
  rw [hexists, if_neg nofun]
  show (ite ((d.locate f.staging).isOk = true) _ _ : Action State Bool).run (f, d) = _
  rw [hr, if_pos (show (Except.ok r : Except Disk.Refusal Place).isOk = true from rfl)]
  dsimp only
  rw [Disk.write_of_locate hq hnone]
  rfl

theorem run_add_of_locate (hstaging : ∃ r, d.locate f.staging = .ok r)
    (hq : d.locate (f.file n.id) = .ok q) (hnone : d.lookup? q = none) :
    (store.add n).run (f, d) = (.ok (), f.filed n, d.put q (.file n.encode)) :=
  run_bind_ok (run_writeNew_of_locate hstaging hq hnone n.encode)

section Add

variable (h : f.Housed d q) (hn : n.Sealed) (hload : f.load d n.id = .ok none)

include h hn hload

theorem Housed.lookup?_eq_none : d.lookup? (q ++ [n.id.text]) = none :=
  Disk.lookup?_of_read (h.file hn) (load_eq_none_iff.1 hload)

theorem Housed.within_put : d.Within [q] (d.put (q ++ [n.id.text]) (.file n.encode)) :=
  Disk.within_put (h.lookup?_eq_none hn hload) n.encode

theorem Housed.run_add :
    (store.add n).run (f, d) =
      (.ok (), f.filed n, d.put (q ++ [n.id.text]) (.file n.encode)) :=
  run_add_of_locate h.staging (h.file hn) (h.lookup?_eq_none hn hload)

theorem Housed.load_put (id : Hash) :
    f.load (d.put (q ++ [n.id.text]) (.file n.encode)) id =
      if id = n.id then .ok (some n) else f.load d id := by
  have hw := h.within_put hn hload
  split
  · next hid =>
    have hentry := Disk.entry_put (h.file hn) (h.lookup?_eq_none hn hload) n.encode
    rw [hid]
    exact load_eq_some_iff.2 ⟨Disk.read_of_entry hentry, hn, rfl⟩
  · next hid =>
    refine h.load_congr hw ?_
    rw [Disk.lookup?_put, if_neg]
    intro heq
    exact hid (Qualified.text_inj (List.singleton_injective (List.append_cancel_left heq)))

end Add

end Folder

end Grove
