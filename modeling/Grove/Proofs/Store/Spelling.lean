import Grove.Proofs.Store.Scan
import Mathlib.Data.List.Dedup

/-! # Identifiers that are spelled more than once

A scan opens the file of an identifier once for each name that spells it, so a node comes as often
as there are such names. Recent nodes are sorted and cut off, but not compared, so they repeat a
node that often too, and drop others for it. They are the latest of the nodes shown exactly if the
text of an identifier is its only spelling.
-/

namespace Grove

open Std

namespace Qualified

variable {n : Namespace}

theorem eq_of_compareBytes {a b : Bytes} (h : compareBytes a b = .eq) : a = b := by
  induction a generalizing b with
  | nil =>
    cases b with
    | nil => rfl
    | cons y b => exact absurd h nofun
  | cons x a ih =>
    cases b with
    | nil => exact absurd h nofun
    | cons y b =>
      obtain ⟨hhead, htail⟩ := Ordering.then_eq_eq.1 h
      rw [UInt8.toNat_inj.1 (Nat.compare_eq_eq.1 hhead), ih htail]

theorem le_antisymm {p q : Qualified n} (h : p.le q = true) (h' : q.le p = true) : p = q := by
  have hequal : compare p q = .eq := OrientedCmp.isLE_antisymm h h'
  obtain ⟨⟨kind, length⟩, payload⟩ := p
  obtain ⟨⟨kind', length'⟩, payload'⟩ := q
  obtain ⟨hdescriptor, hpayload⟩ := Ordering.then_eq_eq.1 hequal
  obtain ⟨hkind, hlength⟩ := Ordering.then_eq_eq.1 hdescriptor
  obtain rfl : kind = kind' := Kind.tag_inj.1 (UInt8.toNat_inj.1 (Nat.compare_eq_eq.1 hkind))
  obtain rfl : length = length' := UInt16.toNat_inj.1 (Nat.compare_eq_eq.1 hlength)
  obtain rfl : payload = payload' := eq_of_compareBytes hpayload
  rfl

end Qualified

/-- Each entry of a list as often as a number says. -/
def repeated {α : Type} (times : α → Nat) (l : List α) : List α :=
  l.flatMap fun a => List.replicate (times a) a

theorem forall_take_eq_iff {α : Type} {l l' : List α} :
    (∀ count, l.take count = l'.take count) ↔ l = l' := by
  refine ⟨fun h => ?_, fun h count => h ▸ rfl⟩
  have hall := h (max l.length l'.length)
  rwa [List.take_of_length_le (le_max_left ..), List.take_of_length_le (le_max_right ..)] at hall

section Repeated

variable {α : Type} {times : α → Nat} {l : List α} {R : α → α → Prop}

theorem count_repeated [DecidableEq α] (hl : l.Nodup) (a : α) :
    (repeated times l).count a = if a ∈ l then times a else 0 := by
  induction l with
  | nil => rfl
  | cons b l ih =>
    obtain ⟨hb, hl⟩ := List.nodup_cons.1 hl
    rw [repeated, List.flatMap_cons, List.count_append, List.count_replicate, ← repeated, ih hl]
    by_cases hab : b = a
    · subst hab
      simp [hb]
    · simp [hab, Ne.symm hab]

theorem pairwise_repeated (hl : l.Pairwise R) (hrefl : ∀ a ∈ l, R a a) :
    (repeated times l).Pairwise R := by
  refine List.pairwise_flatMap.2 ⟨fun a ha => List.pairwise_replicate.2 (.inr (hrefl a ha)), ?_⟩
  refine hl.imp fun hab x hx y hy => ?_
  rwa [List.eq_of_mem_replicate hx, List.eq_of_mem_replicate hy]

theorem repeated_eq_self [DecidableEq α] (hl : l.Nodup) :
    repeated times l = l ↔ ∀ a ∈ l, times a = 1 := by
  constructor
  · intro h a ha
    have hcount : (repeated times l).count a = _ := count_repeated hl a
    rwa [h, if_pos ha, List.count_eq_one_of_mem hl ha, eq_comm] at hcount
  · intro h
    have hsingle : repeated times l = l.flatMap fun a => [a] :=
      List.flatMap_congr fun a ha => by rw [h a ha, List.replicate_one]
    rw [hsingle, List.flatMap_singleton']

end Repeated

namespace Folder

variable {f : Folder} {d : Disk} {n : Node} {nodes : List Node} {files : List (String × Entry)}

def spellings (files : List (String × Entry)) (id : Hash) : List String :=
  (files.map (·.1)).filter fun name => idOfName? name = some id

/-- A scan finds a node once for each spelling of its identifier. -/
theorem count_scan (hlist : d.list f.path = .ok files) (hscan : f.scan d = .ok nodes)
    (hn : Shows (f, d) n) : nodes.count n = (spellings files n.id).length := by
  have hload := shows_iff.1 hn
  rw [scan, hlist] at hscan
  obtain rfl := Except.ok.inj hscan
  rw [List.count_filterMap, spellings, ← List.countP_eq_length_filter, List.countP_map]
  refine List.countP_congr fun x _ => ?_
  simp only [Option.bind_eq_bind, beq_iff_eq, Option.bind_eq_some_iff,
    join_toOption_eq_some_iff, Function.comp_apply, decide_eq_true_eq]
  constructor
  · rintro ⟨id, hid, hfound⟩
    rw [hid, (load_eq_some_iff.1 hfound).2.2]
  · exact fun hid => ⟨n.id, hid, hload⟩

theorem scan_of_forall₂ (hlist : d.list f.path = .ok files)
    (h : List.Forall₂ (fun x n => idOfName? x.1 = some n.id ∧ f.load d n.id = .ok (some n))
      files nodes) : f.scan d = .ok nodes := by
  rw [scan, hlist]
  refine congrArg Except.ok ?_
  clear hlist
  induction h with
  | nil => rfl
  | cons hx _ ih =>
    refine (List.filterMap_cons_some ?_).trans (congrArg _ ih)
    simp only [hx.1, Option.bind_eq_bind, Option.bind_some, join_toOption_eq_some_iff, hx.2]

theorem newestFirst_refl (n : Node) : newestFirst n n = true :=
  (newestFirst_total n n).elim id id

theorem Shows.eq_of_newestFirst {t : State} {a b : Node} (ha : Shows t a) (hb : Shows t b)
    (hab : newestFirst a b = true) (hba : newestFirst b a = true) : a = b := by
  refine ha.eq hb ?_
  rcases newestFirst_iff.1 hab with hlt | ⟨-, hle⟩
  · exact absurd (created_le_of_newestFirst hba) (UInt64.not_le.2 hlt)
  · rcases newestFirst_iff.1 hba with hlt | ⟨-, hle'⟩
    · exact absurd (created_le_of_newestFirst hab) (UInt64.not_le.2 hlt)
    · exact Qualified.le_antisymm hle hle'

theorem text_mem_spellings (hlist : d.list f.path = .ok files) (hn : Shows (f, d) n) :
    n.id.text ∈ spellings files n.id := by
  obtain ⟨q, hq, rfl⟩ := Disk.houses_of_list hlist
  have hload := shows_iff.1 hn
  obtain ⟨hread, hsealed, -⟩ := load_eq_some_iff.1 hload
  have hfile := hq.mem_below_of_read (Qualified.isProper_text n.id) hread
  have hname := idOfName?_text hsealed.wellFormed_id hsealed.isNull_id
  exact List.mem_filter.2 ⟨List.mem_map_of_mem hfile, decide_eq_true hname⟩

theorem length_spellings_eq_one_iff (hlist : d.list f.path = .ok files) (hn : Shows (f, d) n) :
    (spellings files n.id).length = 1 ↔ spellings files n.id = [n.id.text] := by
  have htext := text_mem_spellings hlist hn
  constructor
  · intro hone
    obtain ⟨name, hname⟩ := List.length_eq_one_iff.1 hone
    rw [hname, List.mem_singleton] at htext
    rw [hname, htext]
  · intro hone
    rw [hone, List.length_singleton]

/-- The list has the nodes of a kind that the folder shows, each once and the latest first. -/
structure Roll (t : State) (kind : NodeKind) (l : List Node) : Prop where
  nodup : l.Nodup
  sorted : l.Pairwise fun a b => newestFirst a b = true
  mem (n : Node) : n ∈ l ↔ Shows t n ∧ n.kind = kind

variable {kind : NodeKind} {l : List Node}

theorem mem_filter_scan (hscan : f.scan d = .ok nodes) :
    n ∈ nodes.filter (fun n => n.kind = kind) ↔ Shows (f, d) n ∧ n.kind = kind := by
  rw [List.mem_filter, mem_of_scan hscan, decide_eq_true_eq]

theorem exists_roll (hscan : f.scan d = .ok nodes) (kind : NodeKind) :
    ∃ l, Roll (f, d) kind l := by
  have hperm := List.mergeSort_perm (nodes.filter fun n => n.kind = kind).dedup newestFirst
  refine ⟨_, hperm.nodup_iff.2 (List.nodup_dedup _), sorted_mergeSort _, fun n => ?_⟩
  rw [hperm.mem_iff, List.mem_dedup, mem_filter_scan hscan]

/-- What is sorted of a scan has each node as often as it is spelled. -/
theorem Roll.mergeSort_eq (h : Roll (f, d) kind l) (hlist : d.list f.path = .ok files)
    (hscan : f.scan d = .ok nodes) :
    (nodes.filter fun n => n.kind = kind).mergeSort newestFirst =
      repeated (fun n => (spellings files n.id).length) l := by
  have hmem (n : Node) : n ∈ (nodes.filter fun n => n.kind = kind).mergeSort newestFirst ↔
      Shows (f, d) n ∧ n.kind = kind := by
    rw [List.mem_mergeSort, mem_filter_scan hscan]
  -- Both are sorted, so it is enough that they have each node equally often.
  have hperm : ((nodes.filter fun n => n.kind = kind).mergeSort newestFirst).Perm
      (repeated (fun n => (spellings files n.id).length) l) := by
    refine List.perm_iff_count.2 fun n => ?_
    rw [count_repeated h.nodup]
    split
    · next hn =>
      obtain ⟨hshows, hkind⟩ := (h.mem n).1 hn
      rw [(List.mergeSort_perm ..).count_eq, List.count_filter (by simpa using hkind),
        count_scan hlist hscan hshows]
    · next hn => exact List.count_eq_zero.2 fun hin => hn ((h.mem n).2 ((hmem n).1 hin))
  refine hperm.eq_of_pairwise (fun a b ha hb => ?_) (sorted_mergeSort _)
    (pairwise_repeated h.sorted fun n _ => newestFirst_refl n)
  exact ((hmem a).1 ha).1.eq_of_newestFirst ((hmem b).1 (hperm.mem_iff.2 hb)).1

/-- Recent nodes of a kind are the latest of those shown, but each as often as its identifier is
spelled in the directory. So they are what was asked for exactly if no identifier has another
spelling beside its text. -/
theorem recent_repeated (hlist : d.list f.path = .ok files) (kind : NodeKind) :
    ∃ l, Roll (f, d) kind l ∧
      (∀ count, (store.answers (f, d)).recent kind count =
        .ok ((repeated (fun n => (spellings files n.id).length) l).take count)) ∧
      ((∀ count, (store.answers (f, d)).recent kind count = .ok (l.take count)) ↔
        ∀ n ∈ l, spellings files n.id = [n.id.text]) := by
  obtain ⟨nodes, hscan⟩ := exists_scan_of_list hlist
  obtain ⟨l, hl⟩ := exists_roll hscan kind
  have hrecent (count : Nat) : (store.answers (f, d)).recent kind count =
      .ok ((repeated (fun n => (spellings files n.id).length) l).take count) := by
    refine (result_recent kind count (f, d)).trans ?_
    rw [hscan, ← hl.mergeSort_eq hlist hscan]
    rfl
  refine ⟨l, hl, hrecent, ?_⟩
  simp only [hrecent, Except.ok.injEq]
  rw [forall_take_eq_iff, repeated_eq_self hl.nodup]
  exact forall₂_congr fun n hn => length_spellings_eq_one_iff hlist ((hl.mem n).1 hn).1

open Stack (shed pile)
open Node (unsignedReply)

/-- In the cluttered folder the reply is spelled twice, so it comes too often. -/
theorem recent_repeated_cluttered :
    (∃ files, cluttered.list pile.path = .ok files) ∧
      ∃ l, Roll (pile, cluttered) .reply l ∧ unsignedReply ∈ l ∧
        ¬∀ count, (store.answers (pile, cluttered)).recent .reply count = .ok (l.take count) := by
  have hspelled :
      spellings (cluttered.below ["pile"]) unsignedReply.id ≠ [unsignedReply.id.text] := by
    decide +kernel
  obtain ⟨l, hl, -, hiff⟩ := recent_repeated houses_cluttered.list .reply
  have hreply : unsignedReply ∈ l := (hl.mem _).2 ⟨shows_cluttered, rfl⟩
  exact ⟨⟨_, houses_cluttered.list⟩, l, hl, hreply, fun h => hspelled (hiff.1 h _ hreply)⟩

def earlierReply : Node :=
  { backdated with id := backdated.computeId }

theorem sealed_earlierReply : earlierReply.Sealed where
  version := rfl
  idKind := by decide
  idDescriptor := by decide
  values := Node.sealed_unsignedReply.values
  id := by
    have hid (n : Node) (id : Hash) : { n with id }.computeId = n.computeId := rfl
    exact (hid backdated backdated.computeId).symm

/-- A disk with both replies, and with an empty file whose name is the identifier of the later one
in capitals. -/
def crowded : Disk :=
  { shed with
    entries := shed.entries ++
      [(unsignedReply.id.text, unsignedReply.encode), (shouted unsignedReply.id, []),
        (earlierReply.id.text, earlierReply.encode)].map fun (name, content) =>
          (["pile", name], .file content) }

/-- The folder shows two replies, but the latest two are twice the same. -/
theorem not_nodup_recent_crowded :
    (∃ files, crowded.list pile.path = .ok files) ∧
      Shows (pile, crowded) unsignedReply ∧ Shows (pile, crowded) earlierReply ∧
      unsignedReply.kind = .reply ∧ earlierReply.kind = .reply ∧
      earlierReply.created < unsignedReply.created ∧
      (store.answers (pile, crowded)).recent .reply 2 = .ok [unsignedReply, unsignedReply] := by
  obtain ⟨hshouted, hread, hread'⟩ :
      idOfName? (shouted unsignedReply.id) = some unsignedReply.id ∧
        crowded.read (pile.file unsignedReply.id) = .ok unsignedReply.encode ∧
          crowded.read (pile.file earlierReply.id) = .ok earlierReply.encode := by
    decide +kernel
  have hsealed := Node.sealed_unsignedReply
  have hsealed' := sealed_earlierReply
  have hname := idOfName?_text hsealed.wellFormed_id hsealed.isNull_id
  have hname' := idOfName?_text hsealed'.wellFormed_id hsealed'.isNull_id
  have hload : pile.load crowded unsignedReply.id = .ok (some unsignedReply) :=
    load_eq_some_iff.2 ⟨hread, hsealed, rfl⟩
  have hload' : pile.load crowded earlierReply.id = .ok (some earlierReply) :=
    load_eq_some_iff.2 ⟨hread', hsealed', rfl⟩
  have hlist : crowded.list pile.path = .ok [(unsignedReply.id.text, .file unsignedReply.encode),
      (shouted unsignedReply.id, .file []), (earlierReply.id.text, .file earlierReply.encode)] :=
    rfl
  have hscan : pile.scan crowded = .ok [unsignedReply, unsignedReply, earlierReply] :=
    scan_of_forall₂ hlist
      (.cons ⟨hname, hload⟩ (.cons ⟨hshouted, hload⟩ (.cons ⟨hname', hload'⟩ .nil)))
  have hsorted : [unsignedReply, unsignedReply, earlierReply].Pairwise
      fun a b => newestFirst a b = true := by
    have hlater : newestFirst unsignedReply earlierReply = true := rfl
    simp [hlater, newestFirst_refl]
  refine ⟨⟨_, hlist⟩, shows_iff.2 hload, shows_iff.2 hload', rfl, rfl, by decide, ?_⟩
  refine (result_recent .reply 2 (pile, crowded)).trans ?_
  rw [hscan]
  show Except.ok (([unsignedReply, unsignedReply, earlierReply].mergeSort newestFirst).take 2) = _
  rw [List.mergeSort_of_pairwise hsorted]
  rfl

end Folder

end Grove
