import Grove.Store.Disk
import Mathlib.Data.List.Basic

/-! # Changes in directories

A disk that differs from another one in the files of some directories only leads every path to the
same place, and holds and lists the same in all other directories.
-/

namespace Grove.Disk

variable {d e f : Disk} {p : Path} {q : Place} {ps qs : List Place} {name : String}

/-- The path leads to a directory in the place. -/
structure Houses (d : Disk) (p : Path) (q : Place) : Prop where
  locate : d.locate p = .ok q
  directory : d.lookup? q = some .directory

def below (d : Disk) (q : Place) : List (String × Entry) :=
  d.entries.filterMap fun (r, e) =>
    match r.getLast? with
    | some name => if r.dropLast = q then some (name, e) else none
    | none => none

theorem Houses.list (h : d.Houses p q) : d.list p = .ok (d.below q) := by
  simp only [Disk.list, entry, h.locate, h.directory, bind, Except.bind]
  rfl

/-- A name of an entry, and not a way to stay or to go up. -/
def IsProper (name : String) : Prop :=
  name ≠ "" ∧ name ≠ "." ∧ name ≠ ".."

theorem Houses.step (h : d.Houses p q) (hname : IsProper name) :
    d.step q name =
      if name.utf8ByteSize ≤ longestName then .ok (q ++ [name]) else .error .other := by
  obtain ⟨hempty, hdot, hdots⟩ := hname
  simp only [Disk.step, h.directory, hempty, hdot, hdots, or_self, if_false]

theorem Houses.locate_child (h : d.Houses p q) (hname : IsProper name) :
    d.locate (p.child name) =
      if d.admits (p.child name) ∧ name.utf8ByteSize ≤ longestName then .ok (q ++ [name])
      else .error .other := by
  by_cases ha : d.admits (p.child name) = true
  · rw [Disk.locate_child h.locate ha, h.step hname]
    simp only [ha, true_and]
  · rw [Disk.locate, if_neg ha, if_neg fun h => ha h.1]

theorem entry_of_locate (h : d.locate p = .ok q) :
    d.entry p = (d.lookup? q).elim (.error .missing) .ok := by
  simp only [entry, h, bind, Except.bind]
  cases d.lookup? q <;> rfl

theorem entry_of_locate_error {r : Refusal} (h : d.locate p = .error r) : d.entry p = .error r := by
  simp only [entry, h, bind, Except.bind]

theorem read_congr (h : e.entry p = d.entry p) : e.read p = d.read p := by
  rw [read, read, h]

theorem read_of_entry {content : Bytes} (h : d.entry p = .ok (.file content)) :
    d.read p = .ok content := by
  rw [read, h]
  rfl

theorem lookup?_of_read (hq : d.locate p = .ok q) (h : d.read p = .error .missing) :
    d.lookup? q = none := by
  rw [read, entry_of_locate hq] at h
  cases hentry : d.lookup? q with
  | none => rfl
  | some entry =>
    rw [hentry] at h
    cases entry <;> exact absurd h nofun

theorem write_of_locate (hq : d.locate p = .ok q) (h : d.lookup? q = none) (content : Bytes) :
    d.write p content = .ok (d.put q (.file content)) := by
  rw [write, hq]
  show (if d.lookup? q = some .directory then Except.error Refusal.other else _) = _
  rw [h, if_neg nofun]

theorem Houses.entry_child_congr (hd : d.Houses p q) (he : e.Houses p q) (hhome : e.home = d.home)
    (hname : IsProper name) (h : e.lookup? (q ++ [name]) = d.lookup? (q ++ [name])) :
    e.entry (p.child name) = d.entry (p.child name) := by
  have hadmits : e.admits (p.child name) = d.admits (p.child name) := by
    rw [admits, admits, hhome]
  have hlocate : e.locate (p.child name) = d.locate (p.child name) := by
    rw [he.locate_child hname, hd.locate_child hname, hadmits]
  cases hq : d.locate (p.child name) with
  | error r => rw [entry_of_locate_error hq, entry_of_locate_error (hlocate.trans hq)]
  | ok r =>
    obtain rfl : q ++ [name] = r := by
      rw [hd.locate_child hname] at hq
      split at hq
      · exact Except.ok.inj hq
      · exact absurd hq nofun
    rw [entry_of_locate hq, entry_of_locate (hlocate.trans hq), h]

/-- The second disk differs from the first in the files of these directories only. -/
structure Within (ps : List Place) (d e : Disk) : Prop where
  home : e.home = d.home
  directory (r : Place) : e.lookup? r = some .directory ↔ d.lookup? r = some .directory
  file {q : Place} (name : String) : q ∉ ps → e.lookup? (q ++ [name]) = d.lookup? (q ++ [name])
  below {q : Place} : q ∉ ps → e.below q = d.below q

namespace Within

theorem refl (ps : List Place) (d : Disk) : d.Within ps d :=
  ⟨rfl, fun _ => Iff.rfl, fun _ _ => rfl, fun _ => rfl⟩

theorem trans (h : d.Within ps e) (h' : e.Within ps f) : d.Within ps f where
  home := h'.home.trans h.home
  directory r := (h'.directory r).trans (h.directory r)
  file name hq := (h'.file name hq).trans (h.file name hq)
  below hq := (h'.below hq).trans (h.below hq)

theorem mono (h : d.Within ps e) (hsub : ps ⊆ qs) : d.Within qs e :=
  ⟨h.home, h.directory, fun name hq => h.file name (mt (@hsub _) hq),
    fun hq => h.below (mt (@hsub _) hq)⟩

theorem step {here : Place} (h : d.Within ps e) (hstep : d.step here name = .ok q) :
    e.step here name = .ok q := by
  cases hhere : d.lookup? here with
  | none => simp only [Disk.step, hhere, reduceCtorEq] at hstep
  | some entry =>
    cases entry with
    | file content => simp only [Disk.step, hhere, reduceCtorEq] at hstep
    | directory =>
      simp only [Disk.step, hhere] at hstep
      simpa only [Disk.step, (h.directory here).2 hhere] using hstep

theorem foldlM_step {here : Place} {names : List String} (h : d.Within ps e)
    (hnames : names.foldlM d.step here = .ok q) : names.foldlM e.step here = .ok q := by
  induction names generalizing here with
  | nil => exact hnames
  | cons name names ih =>
    rw [List.foldlM_cons] at hnames ⊢
    cases hstep : d.step here name with
    | error r =>
      rw [hstep] at hnames
      exact absurd hnames nofun
    | ok there =>
      rw [hstep] at hnames
      rw [h.step hstep]
      exact ih hnames

theorem admits (h : d.Within ps e) (p : Path) : e.admits p = d.admits p := by
  rw [Disk.admits, Disk.admits, h.home]

theorem locate (h : d.Within ps e) (hp : d.locate p = .ok q) : e.locate p = .ok q := by
  rw [Disk.locate] at hp ⊢
  rw [h.admits, h.home]
  split at hp
  · next ha =>
    rw [if_pos ha]
    exact h.foldlM_step hp
  · simp only [reduceCtorEq] at hp

theorem houses (h : d.Within ps e) (hd : d.Houses p q) : e.Houses p q :=
  ⟨h.locate hd.locate, (h.directory q).2 hd.directory⟩

end Within

theorem below_put {r : Place} (hr : r ≠ q) (entry : Entry) :
    (d.put (q ++ [name]) entry).below r = d.below r := by
  simp only [below, put, List.filterMap_append, List.filterMap_filter, List.filterMap_cons,
    List.getLast?_concat, List.dropLast_concat, hr.symm, if_false, List.filterMap_nil,
    List.append_nil]
  refine List.filterMap_congr fun x _ => ?_
  split
  · rfl
  · next hx =>
    have hx : x.1 = q ++ [name] := by simpa using hx
    rw [hx, List.getLast?_concat, List.dropLast_concat]
    exact (if_neg hr.symm).symm

theorem within_put (h : d.lookup? (q ++ [name]) = none) (content : Bytes) :
    d.Within [q] (d.put (q ++ [name]) (.file content)) where
  home := rfl
  directory r := by
    rw [lookup?_put]
    split
    · next hr =>
      rw [hr, h]
      exact iff_of_false nofun nofun
    · exact Iff.rfl
  file name' hq := by
    rw [lookup?_put, if_neg]
    intro heq
    exact hq (List.mem_singleton.2 (List.append_inj_left' heq rfl))
  below hq := below_put (fun h => hq (List.mem_singleton.2 h)) _

theorem entry_put (hp : d.locate p = .ok (q ++ [name])) (h : d.lookup? (q ++ [name]) = none)
    (content : Bytes) :
    (d.put (q ++ [name]) (.file content)).entry p = .ok (.file content) := by
  rw [entry_of_locate ((within_put h content).locate hp), lookup?_put, if_pos rfl]
  rfl

end Grove.Disk
