import Grove.Proofs.Stack.Again
import Grove.Proofs.Wire.SignedBytes

/-! # Reading back what was added

An addition to a folder that succeeds has either found a file under the name of the identifier, and
then left all as it was, or written one with the wire form of the node. No look is taken at what the
file holds or what the identifier says, whereas looking up does both. So a node that was added is
found afterwards if it was the first under its name and is sealed, and else if the file that was
there before holds a node under that identifier.
-/

namespace Grove

namespace Disk

variable {d : Disk} {p : Path} {q : Place} {name : String} {content : Bytes}

theorem exists_of_locate_child (hname : IsProper name) (h : d.locate (p.child name) = .ok q) :
    ∃ here, q = here ++ [name] := by
  have hchild : ∃ start names, List.foldlM d.step start (names ++ [name]) = .ok q := by
    rw [locate] at h
    split at h
    · exact ⟨_, _, h⟩
    · cases h
  obtain ⟨start, names, hway⟩ := hchild
  rw [List.foldlM_append] at hway
  obtain ⟨here, -, hlast⟩ := bind_eq_ok_iff.1 hway
  obtain ⟨there, hstep, hend⟩ := bind_eq_ok_iff.1 hlast
  obtain rfl : there = q := pure_eq_ok_iff.1 hend
  obtain ⟨hempty, hdot, hdots⟩ := hname
  simp only [step, hempty, hdot, hdots, or_self, if_false] at hstep
  refine ⟨here, ?_⟩
  split at hstep
  · cases hstep
  · cases hstep
  · split at hstep
    · exact (Except.ok.inj hstep).symm
    · cases hstep

theorem lookup?_of_not_exists (hq : d.locate p = .ok q) (h : d.exists? p = false) :
    d.lookup? q = none := by
  rw [exists?, entry_of_locate hq] at h
  cases hlookup : d.lookup? q with
  | none => rfl
  | some entry =>
    rw [hlookup] at h
    cases h

theorem read_of_write {e : Disk} (hname : IsProper name) (hnew : d.exists? (p.child name) = false)
    (h : d.write (p.child name) content = .ok e) : e.read (p.child name) = .ok content := by
  obtain ⟨q, hq, -⟩ := bind_eq_ok_iff.1 h
  have hnone := lookup?_of_not_exists hq hnew
  obtain ⟨here, rfl⟩ := exists_of_locate_child hname hq
  obtain rfl := Except.ok.inj ((write_of_locate hq hnone content).symm.trans h)
  exact read_of_entry (entry_put hq hnone content)

end Disk

namespace Node

variable {n m : Node}

/-- From its wire form a node is read under the identifier that its bytes have, whatever identifier
it claims. -/
theorem ofBytes_encode (hheader : n.toHeader.Readable) (hvalues : ∀ v ∈ n.values, v.2.WellFormed) :
    ofBytes n.encode = .ok { n with id := n.computeId } := by
  obtain ⟨-, hbody, hsignature⟩ := forall_mem_values.1 hvalues
  exact ofBytes_eq_ok_iff.2 ⟨sealed_iff.2 ⟨hheader, hbody, hsignature, rfl⟩, rfl⟩

theorem eq_of_encode (hvalues : ∀ v ∈ n.values, v.2.WellFormed) (hm : m.Sealed)
    (h : m.encode = n.encode) (hid : m.id = n.id) : m = n := by
  obtain ⟨hheader, -, -⟩ := forall_mem_values.1 hvalues
  obtain ⟨hread, -, -⟩ := sealed_iff.1 hm
  have heq : m.toHeader = n.toHeader := by
    rw [encode, encode, signedBytes, signedBytes, List.append_assoc, List.append_assoc,
      Header.encode_append_inj (fun v hv => (hread.values v hv).delimited)
        fun v hv => (hheader v hv).delimited] at h
    exact h.2.1
  have hbytes := ofBytes_encode (heq ▸ hread) hvalues
  rw [← h, ofBytes_eq_ok_iff.2 ⟨hm, rfl⟩, Except.ok.injEq] at hbytes
  have hown : n.computeId = n.id := (congrArg Node.id hbytes).symm.trans hid
  rw [hbytes, hown]

end Node

namespace Folder

open Grove.Action

variable {f : Folder} {d : Disk} {n m : Node} {t : State}

theorem write_of_writeNew {id : Hash} {content : Bytes} {written : Bool}
    (hnew : d.exists? (f.file id) = false)
    (h : (writeNew id content).run (f, d) = (.ok written, t)) :
    written = true ∧ t.1 = f ∧ d.write (f.file id) content = .ok t.2 := by
  replace h : (ite (d.exists? (f.file id) = true) _ _ : Action State Bool).run (f, d) =
    (.ok written, t) := h
  rw [hnew, if_neg nofun] at h
  replace h : (ite ((d.locate f.staging).isOk = true) _ _ : Action State Bool).run (f, d) =
    (.ok written, t) := h
  split at h
  · cases hd : d.write (f.file id) content with
    | ok e =>
      simp only [hd] at h
      obtain ⟨hb, rfl⟩ := Prod.mk.inj h
      exact ⟨(Except.ok.inj hb).symm, rfl, rfl⟩
    | error e =>
      simp only [hd] at h
      exact absurd (Prod.mk.inj h).1 nofun
  · exact absurd (Prod.mk.inj h).1 nofun

theorem read_of_add (h : (store.add n).run (f, d) = (.ok (), t)) :
    d.exists? (f.file n.id) = true ∧ t = (f, d) ∨
      d.exists? (f.file n.id) = false ∧ t.1.path = f.path ∧
        t.2.read (t.1.file n.id) = .ok n.encode := by
  cases hexists : d.exists? (f.file n.id) with
  | true =>
    have hkept : (store.add n).run (f, d) = (.ok (), f, d) := run_add_of_exists? hexists
    exact .inl ⟨rfl, (Prod.mk.inj (h.symm.trans hkept)).2⟩
  | false =>
    right
    rcases of_run_bind h with ⟨e, -, he⟩ | ⟨written, u, hwrite, hfile⟩
    · exact absurd he nofun
    obtain ⟨rfl, hf, hput⟩ := write_of_writeNew hexists hwrite
    obtain ⟨-, rfl⟩ := Prod.mk.inj hfile
    have hread := Disk.read_of_write (Qualified.isProper_text n.id) hexists hput
    have hpath : (u.1.filed n).path = f.path := path_filed.trans (congrArg Folder.path hf)
    refine ⟨rfl, hpath, ?_⟩
    show u.2.read ((u.1.filed n).path.child n.id.text) = .ok n.encode
    rw [hpath]
    exact hread

theorem run_find_eq_some_iff {id : Hash} :
    (find id).run t = (.ok (some m), t) ↔
      t.2.read (t.1.file id) = .ok m.encode ∧ m.Sealed ∧ m.id = id := by
  rw [run_find, Prod.mk.injEq, and_iff_left rfl]
  split
  · next hnull =>
    refine iff_of_false (by simp) ?_
    rintro ⟨-, hm, rfl⟩
    cases hm.isNull_id.symm.trans hnull
  · exact load_eq_some_iff

theorem load_of_encode (hread : d.read (f.file n.id) = .ok n.encode)
    (hheader : n.toHeader.Readable) (hvalues : ∀ v ∈ n.values, v.2.WellFormed)
    (hother : n.computeId ≠ n.id) :
    f.load d n.id = .error (.invalid (.identityMismatch n.id n.computeId)) := by
  rw [load_of_read hread, Node.ofBytes_encode hheader hvalues]
  show ((if n.computeId = n.id then _ else _ : Except ValidationError Unit).mapError
    StoreError.invalid >>= _) = _
  rw [if_neg hother]
  rfl

theorem result_get {id : Hash} (hnull : id.isNull = false) :
    ((store.get id).run (f, d)).1 = f.load d id := by
  have hrun : (store.get id).run (f, d) = _ := run_find id (f, d)
  rw [hrun, if_neg (by simp [hnull])]

/-- An addition that succeeds keeps the file that was there under the name of the identifier, and
the node found afterwards is the one that this file holds under that identifier, if it holds one. If
no file was there, it now holds the wire form of the node, which is found exactly if it is sealed.
That the values of the node are as long as they say is all that is asked of it. -/
theorem find_of_add (hvalues : ∀ v ∈ n.values, v.2.WellFormed)
    (h : (store.add n).run (f, d) = (.ok (), t)) :
    (d.exists? (f.file n.id) = true → t = (f, d) ∧ ∀ m,
      (store.get n.id).run t = (.ok (some m), t) ↔
        d.read (f.file n.id) = .ok m.encode ∧ m.Sealed ∧ m.id = n.id) ∧
    (d.exists? (f.file n.id) = false → t.2.read (f.file n.id) = .ok n.encode ∧ ∀ m,
      (store.get n.id).run t = (.ok (some m), t) ↔ n.Sealed ∧ m = n) := by
  rcases read_of_add h with ⟨hold, rfl⟩ | ⟨hnew, hpath, hread⟩
  · refine ⟨fun _ => ⟨rfl, fun m => run_find_eq_some_iff⟩, fun hnew => ?_⟩
    exact absurd (hold.symm.trans hnew) nofun
  · refine ⟨fun hold => absurd (hold.symm.trans hnew) nofun, fun _ => ⟨?_, fun m => ?_⟩⟩
    · rw [file, hpath] at hread
      exact hread
    · refine run_find_eq_some_iff.trans ?_
      rw [hread]
      constructor
      · rintro ⟨hbytes, hm, hid⟩
        obtain rfl := Node.eq_of_encode hvalues hm (Except.ok.inj hbytes).symm hid
        exact ⟨hm, rfl⟩
      · rintro ⟨hn, rfl⟩
        exact ⟨rfl, hn, rfl⟩

open Stack (shed pile)

theorem lookup?_pile (name : String) : shed.lookup? (["pile"] ++ [name]) = none :=
  rfl

theorem exists?_pile (hn : n.Sealed) : shed.exists? (pile.file n.id) = false := by
  rw [Disk.exists?, Disk.entry_of_locate (Stack.housed_pile.file hn), lookup?_pile]
  rfl

/-- The first node under its identifier is sealed, so it is found. -/
theorem find_of_add_unsignedReply :
    ∃ t, (store.add Node.unsignedReply).run (pile, shed) = (.ok (), t) ∧
      (store.get Node.unsignedReply.id).run t = (.ok (some Node.unsignedReply), t) := by
  have hn := Node.sealed_unsignedReply
  have hadd := Stack.housed_pile.run_add hn (Stack.load_pile hn)
  obtain ⟨-, hfind⟩ := (find_of_add hn.values hadd).2 (exists?_pile hn)
  exact ⟨_, hadd, (hfind _).2 ⟨hn, rfl⟩⟩

def junk : Bytes :=
  Utf8.encode "junk"

def littered : Disk :=
  shed.put (["pile"] ++ [Node.unsignedReply.id.text]) (.file junk)

/-- The unsigned reply with another time, under the identifier that it had before. -/
def backdated : Node :=
  { Node.unsignedReply with created := 0 }

/-- Additions succeed and nothing is found: the place is taken by what is no node, and a node is
filed that does not have the identifier which it claims. -/
theorem not_found_of_add :
    ((store.add Node.unsignedReply).run (pile, littered) = (.ok (), pile, littered) ∧
      ((store.get Node.unsignedReply.id).run (pile, littered)).1 =
        .error (.corrupt Node.unsignedReply.id (.unsupportedVersion 0x6A75))) ∧
    ∃ t, (store.add backdated).run (pile, shed) = (.ok (), t) ∧
      ((store.get backdated.id).run t).1 =
        .error (.invalid (.identityMismatch backdated.id backdated.computeId)) := by
  have hn := Node.sealed_unsignedReply
  have hfile := Stack.housed_pile.file hn
  have hnone := lookup?_pile Node.unsignedReply.id.text
  constructor
  · have hjunk : littered.entry (pile.file Node.unsignedReply.id) = .ok (.file junk) :=
      Disk.entry_put hfile hnone junk
    have hexists : littered.exists? (pile.file Node.unsignedReply.id) = true := by
      rw [Disk.exists?, hjunk]
      rfl
    have hload : pile.load littered Node.unsignedReply.id =
        .error (.corrupt Node.unsignedReply.id (.unsupportedVersion 0x6A75)) := by
      rw [load_of_read (Disk.read_of_entry hjunk)]
      rfl
    exact ⟨run_add_of_exists? hexists, (result_get hn.isNull_id).trans hload⟩
  · refine ⟨_, run_add_of_locate ⟨_, Stack.locate_staging_pile⟩ hfile hnone, ?_⟩
    refine (result_get hn.isNull_id).trans ?_
    have hread := Disk.read_of_entry (Disk.entry_put hfile hnone backdated.encode)
    have hvalues : ∀ v ∈ backdated.values, v.2.WellFormed := hn.values
    have hid : backdated.id = Node.unsignedReply.id := rfl
    have hheader : backdated.toHeader.Readable :=
      ⟨rfl, hn.idKind, hn.idDescriptor, (Node.forall_mem_values.1 hn.values).1⟩
    have hother : backdated.computeId ≠ backdated.id := by decide +kernel
    rw [load_filed]
    rw [← hid] at hread ⊢
    exact load_of_encode hread hheader hvalues hother

end Folder

end Grove
