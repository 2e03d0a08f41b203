import Grove.Proofs.Store.Disk
import Mathlib.Data.List.Induction
import Mathlib.Data.List.Nodup

/-! # What a directory lists

As long as no place has two entries, what is found under a name is what the directory lists with it.
Writing a new file adds it to the listing, and removing files takes them away. In which order a disk
holds its entries makes no difference to anything but listings.
-/

namespace Grove.Disk

variable {d e : Disk} {p : Path} {q r : Place} {name : String} {names : List String}
  {entry : Entry}

/-- No place has two entries. -/
def Keyed (d : Disk) : Prop :=
  (d.entries.map (·.1)).Nodup

theorem Keyed.lookup?_eq_some_iff (h : d.Keyed) :
    d.lookup? r = some entry ↔ (r, entry) ∈ d.entries := by
  unfold lookup?
  unfold Keyed at h
  generalize d.entries = entries at h
  induction entries with
  | nil => simp
  | cons x entries ih =>
    obtain ⟨s, f⟩ := x
    rw [List.map_cons, List.nodup_cons] at h
    rw [List.lookup_cons, List.mem_cons, Prod.mk.injEq]
    by_cases hr : r = s
    · subst hr
      have hnot : (r, entry) ∉ entries := fun hmem =>
        h.1 (List.mem_map.2 ⟨_, hmem, rfl⟩)
      simp [hnot, eq_comm]
    · simp [beq_false_of_ne hr, hr, ih h.2]

theorem mem_below : (name, entry) ∈ d.below q ↔ (q ++ [name], entry) ∈ d.entries := by
  simp only [below, List.mem_filterMap]
  constructor
  · rintro ⟨⟨r, f⟩, hmem, h⟩
    dsimp only at h
    split at h
    · next last hlast =>
      split at h
      · next hq =>
        obtain ⟨rfl, rfl⟩ := Prod.mk.inj (Option.some.inj h)
        obtain ⟨init, rfl⟩ := List.getLast?_eq_some_iff.1 hlast
        rw [List.dropLast_concat] at hq
        rwa [← hq]
      · cases h
    · cases h
  · intro h
    exact ⟨_, h, by simp⟩

theorem Keyed.lookup?_child (h : d.Keyed) :
    d.lookup? (q ++ [name]) = some entry ↔ (name, entry) ∈ d.below q := by
  rw [h.lookup?_eq_some_iff, mem_below]

theorem ne_of_lookup? (h : d.lookup? r = none) : ∀ x ∈ d.entries, x.1 ≠ r := by
  intro x hx heq
  have hne := List.lookup_eq_none_iff.1 h x hx
  simp [heq] at hne

theorem entries_put (h : d.lookup? r = none) (entry : Entry) :
    (d.put r entry).entries = d.entries ++ [(r, entry)] := by
  rw [put, List.filter_eq_self.2 fun x hx => decide_eq_true (ne_of_lookup? h x hx)]

theorem Keyed.put (h : d.Keyed) (hr : d.lookup? r = none) (entry : Entry) :
    (d.put r entry).Keyed := by
  unfold Keyed
  rw [entries_put hr, List.map_append, List.map_singleton]
  refine h.append (List.nodup_singleton _) (List.disjoint_singleton.2 fun hmem => ?_)
  obtain ⟨x, hx, heq⟩ := List.mem_map.1 hmem
  exact ne_of_lookup? hr x hx heq

theorem below_put_self (h : d.lookup? (q ++ [name]) = none) (entry : Entry) :
    (d.put (q ++ [name]) entry).below q = d.below q ++ [(name, entry)] := by
  unfold below
  rw [entries_put h, List.filterMap_append]
  simp

def without (d : Disk) (qs : List Place) : Disk :=
  { d with entries := d.entries.filter fun x => !qs.contains x.1 }

theorem without_eq (qs : List Place) :
    d.without qs = { d with entries := d.entries.filter fun x => x.1 ∉ qs } := by
  simp [without]

theorem without_nil : d.without [] = d := by
  simp [without_eq]

theorem without_without (qs rs : List Place) :
    (d.without qs).without rs = d.without (qs ++ rs) := by
  simp only [without_eq, List.filter_filter, List.mem_append, not_or, Bool.decide_and, mk.injEq,
    true_and, and_true]
  exact List.filter_congr fun x _ => Bool.and_comm ..

theorem Keyed.without (h : d.Keyed) (qs : List Place) : (d.without qs).Keyed :=
  h.sublist (List.filter_sublist.map _)

theorem Keyed.lookup?_without (h : d.Keyed) (qs : List Place) :
    (d.without qs).lookup? r = if r ∈ qs then none else d.lookup? r := by
  ext entry
  rw [(h.without qs).lookup?_eq_some_iff, without_eq, List.mem_filter]
  split
  · next hr => simp [hr]
  · next hr => simp [hr, h.lookup?_eq_some_iff]

def filesIn (q : Place) (names : List String) : List Place :=
  names.map fun name => q ++ [name]

theorem mem_filesIn : q ++ [name] ∈ filesIn q names ↔ name ∈ names := by
  simp [filesIn]

theorem below_without (qs : List Place) :
    (d.without qs).below q = (d.below q).filter fun x => q ++ [x.1] ∉ qs := by
  simp only [below, without_eq, List.filterMap_filter, List.filter_filterMap]
  refine List.filterMap_congr fun x _ => ?_
  obtain ⟨r, entry⟩ := x
  obtain rfl | ⟨init, name, rfl⟩ := List.eq_nil_or_concat r
  · simp
  · by_cases hq : init = q
    · subst hq
      by_cases hmem : init ++ [name] ∈ qs <;> simp [hmem, Option.filter_some]
    · simp [hq]

theorem within_without (h : d.Keyed)
    (hfile : ∀ name ∈ names, d.lookup? (q ++ [name]) ≠ some .directory) :
    d.Within [q] (d.without (filesIn q names)) where
  home := rfl
  directory r := by
    rw [h.lookup?_without]
    split
    · next hr =>
      obtain ⟨name, hname, rfl⟩ := List.mem_map.1 hr
      exact iff_of_false nofun (hfile name hname)
    · exact Iff.rfl
  file name hq := by
    rw [h.lookup?_without, if_neg]
    intro hmem
    obtain ⟨name', -, heq⟩ := List.mem_map.1 hmem
    exact hq (List.mem_singleton.2 (List.append_inj_left' heq rfl).symm)
  below {r} hr := by
    rw [below_without, List.filter_eq_self]
    rintro x -
    refine decide_eq_true fun hmem => ?_
    obtain ⟨name, -, heq⟩ := List.mem_map.1 hmem
    exact hr (List.mem_singleton.2 (List.append_inj_left' heq rfl).symm)

theorem without_eq_self (h : d.lookup? r = none) : d.without [r] = d := by
  rw [without_eq, List.filter_eq_self.2]
  intro x hx
  simpa using ne_of_lookup? h x hx

theorem removeFile_of_locate (hr : d.locate p = .ok r) (hfile : d.lookup? r ≠ some .directory)
    (hlocked : r ∉ d.locked) :
    d.removeFile p = .ok (d.without [r]) ∨
      d.removeFile p = .error .missing ∧ d.without [r] = d := by
  cases hlookup : d.lookup? r with
  | none =>
    refine .inr ⟨?_, without_eq_self hlookup⟩
    simp [removeFile, hr, hlookup, bind, Except.bind]
  | some entry =>
    cases entry with
    | directory => exact absurd hlookup hfile
    | file content =>
      left
      simp [removeFile, hr, hlookup, hlocked, without_eq, bind, Except.bind]

theorem removeFile_of_locked (hr : d.locate p = .ok r) (hthere : d.lookup? r ≠ none)
    (hlocked : r ∈ d.locked) : d.removeFile p = .error .other := by
  cases hlookup : d.lookup? r with
  | none => exact absurd hlookup hthere
  | some entry => cases entry <;> simp [removeFile, hr, hlookup, hlocked, bind, Except.bind]

def withLocks (d : Disk) (locks : List Place) : Disk :=
  { d with locked := locks }

theorem Houses.withLocks (h : d.Houses p q) (locks : List Place) : (d.withLocks locks).Houses p q :=
  ⟨h.locate, h.directory⟩

section Relisted

def relisted (d : Disk) (order : List (Place × Entry) → List (Place × Entry)) : Disk :=
  { d with entries := order d.entries }

variable {order : List (Place × Entry) → List (Place × Entry)} (horder : ∀ l, (order l).Perm l)

include horder

theorem Keyed.relisted (h : d.Keyed) : (d.relisted order).Keyed :=
  ((horder d.entries).map _).nodup_iff.2 h

theorem Keyed.lookup?_relisted (h : d.Keyed) (r : Place) :
    (d.relisted order).lookup? r = d.lookup? r := by
  ext entry
  rw [(h.relisted horder).lookup?_eq_some_iff, h.lookup?_eq_some_iff]
  exact (horder d.entries).mem_iff

theorem below_relisted (q : Place) : ((d.relisted order).below q).Perm (d.below q) :=
  (horder d.entries).filterMap _

theorem within_relisted (h : d.Keyed) :
    d.Within (d.entries.map fun x => x.1.dropLast) (d.relisted order) where
  home := rfl
  directory r := by rw [h.lookup?_relisted horder]
  file name _ := h.lookup?_relisted horder _
  below {q} hq := by
    have hnone : d.below q = [] := by
      refine List.eq_nil_iff_forall_not_mem.2 fun ⟨name, entry⟩ hmem => hq ?_
      refine List.mem_map.2 ⟨_, mem_below.1 hmem, ?_⟩
      simp
    exact (hnone ▸ below_relisted horder q).eq_nil.trans hnone.symm

end Relisted

theorem foldlM_step_trim {here : Place} {names : List String}
    (h : names.foldlM d.step here = .ok q) :
    (names.reverse.dropWhile (· = "")).reverse.foldlM d.step here = .ok q := by
  induction names using List.reverseRecOn generalizing q with
  | nil => exact h
  | append_singleton names name ih =>
    by_cases hname : name = ""
    · subst hname
      rw [List.foldlM_append] at h
      cases hrest : names.foldlM d.step here with
      | error e => simp [hrest, bind, Except.bind] at h
      | ok there =>
        cases hstep : d.step there "" with
        | error e => simp [hrest, hstep, bind, Except.bind] at h
        | ok last =>
          obtain rfl := eq_of_step_empty hstep
          obtain rfl : there = q := by
            simpa [hrest, hstep, bind, Except.bind, pure, Except.pure] using h
          simpa using ih hrest
    · simpa [hname] using h

theorem locate_trim (h : d.locate p = .ok q) :
    d.locate p.trim = .ok q ∨ d.locate p.trim = .error .other := by
  rw [locate] at h ⊢
  split at h
  · split
    · exact .inl (foldlM_step_trim h)
    · exact .inr rfl
  · cases h

theorem Houses.makeDirectories (h : d.Houses p q) : d.makeDirectories p = (true, d) := by
  have hmake : d.makeDirectory p = .error .other := by
    unfold makeDirectory
    cases d.admits p with
    | false => rfl
    | true =>
      rcases locate_trim h.locate with hq | hq
      · simp [hq, h.directory, bind, Except.bind]
      · simp [hq, bind, Except.bind]
  have hdirectory : d.isDirectory p = true := by
    rw [isDirectory, entry_of_locate h.locate, h.directory]
    rfl
  rw [Disk.makeDirectories, makeFirst, hmake]
  exact Prod.ext hdirectory rfl

end Grove.Disk
