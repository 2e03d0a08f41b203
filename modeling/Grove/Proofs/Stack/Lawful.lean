import Grove.Proofs.Archive.Run
import Grove.Proofs.Store.Cache
import Grove.Proofs.Store.Folder
import Grove.Store.Stack

/-! # What stores answer

Looking a node up may bring nodes from one tier to another, and so write files. Still the answers of
a store stay as they are when a node is looked up, and when files are written in directories that
are not its own. When a sealed node is added that was not found, it is found from then on, and all
others as before. Memories and folders obey these laws, and so do caches of two stores that do, in
different directories, and archives of one.
-/

namespace Grove

open Grove.Action

variable {ω σ κ β : Type} {d e : Disk} {ps qs fs bs : List Place} {id : Hash} {n : Node}

structure Answers where
  node? : Hash → Except StoreError (Option Node)
  children : Hash → Except StoreError (List Hash)
  recent : NodeKind → Nat → Except StoreError (List Node)

namespace Store

def answers (s : Store ω σ) (t : σ × ω) : Answers where
  node? id := ((s.get id).run t).1
  children id := ((s.children id).run t).1
  recent kind count := ((s.recent kind count).run t).1

/-- The laws of a store that says of its states in which directories they have files. -/
structure Lawful (s : Store Disk σ) (At : List Place → σ × Disk → Prop) : Prop where
  frame {ps qs : List Place} {t : σ × Disk} {e : Disk} : At ps t → t.2.Within qs e →
    ps.Disjoint qs → At ps (t.1, e) ∧ s.answers (t.1, e) = s.answers t
  get {ps : List Place} {t : σ × Disk} (id : Hash) : At ps t →
    ∃ u, (s.get id).run t = ((s.answers t).node? id, u) ∧ At ps u ∧ t.2.Within ps u.2 ∧
      s.answers u = s.answers t
  found {ps : List Place} {t : σ × Disk} {id : Hash} {n : Node} : At ps t →
    (s.answers t).node? id = .ok (some n) → n.Sealed ∧ n.id = id
  add {ps : List Place} {t : σ × Disk} {n : Node} : At ps t → n.Sealed →
    (s.answers t).node? n.id = .ok none →
      ∃ u, (s.add n).run t = (.ok (), u) ∧ At ps u ∧ t.2.Within ps u.2 ∧
        ∀ id, (s.answers u).node? id =
          if id = n.id then .ok (some n) else (s.answers t).node? id

end Store

namespace Memory

def At (_ : List Place) (t : Memory × Disk) : Prop :=
  ∀ n ∈ t.1.nodes, n.Sealed

theorem lawful : Memory.store.Lawful At where
  frame ht _ _ := ⟨ht, rfl⟩
  get id ht := ⟨_, rfl, ht, .refl .., rfl⟩
  found ht h := by
    have hn := Except.ok.inj h
    exact ⟨ht _ (mem_of_get? hn), id_of_get? hn⟩
  add {ps t n} ht hn hnone := by
    obtain ⟨m, d⟩ := t
    have hnone : m.get? n.id = none := Except.ok.inj hnone
    refine ⟨_, run_add, ?_, .refl .., fun id => ?_⟩
    · rw [add_of_get? hnone]
      exact List.forall_mem_append.2 ⟨ht, List.forall_mem_singleton.2 hn⟩
    · show Except.ok ((m.add n).get? id) = _
      rw [get?_add]
      split
      · next hid => rw [← hid, hnone, if_pos rfl, Option.none_or]
      · next hid =>
        rw [if_neg (Ne.symm hid), Option.or_none]
        rfl

end Memory

namespace Folder

def At (ps : List Place) (t : Folder × Disk) : Prop :=
  ∃ q, ps = [q] ∧ t.1.Housed t.2 q

theorem node?_answers (id : Hash) (t : Folder × Disk) :
    (store.answers t).node? id = if id.isNull then .ok none else t.1.load t.2 id :=
  congrArg Prod.fst (run_find id t)

theorem answers_congr {f : Folder} (hload : f.load e = f.load d) (hscan : f.scan e = f.scan d) :
    store.answers (f, e) = store.answers (f, d) := by
  have hnode (id : Hash) :
      (store.answers (f, e)).node? id = (store.answers (f, d)).node? id := by
    rw [node?_answers, node?_answers, hload]
  have hchildren (id : Hash) : ((children id).run (f, e)).1 = ((children id).run (f, d)).1 := by
    rw [result_children, result_children, hscan]
  have hrecent (kind : NodeKind) (count : Nat) :
      ((store.recent kind count).run (f, e)).1 = ((store.recent kind count).run (f, d)).1 := by
    rw [result_recent, result_recent, hscan]
  exact Answers.mk.injEq .. ▸ ⟨funext hnode, funext hchildren, funext₂ hrecent⟩

theorem lawful : Folder.store.Lawful At where
  frame {ps qs t e} ht hw hdisjoint := by
    obtain ⟨q, rfl, hq⟩ := ht
    have hnot : q ∉ qs := List.singleton_disjoint.1 hdisjoint
    refine ⟨⟨q, rfl, hq.of_within hw⟩, answers_congr (funext fun id => ?_) ?_⟩
    · exact hq.load_congr hw (hw.file id.text hnot)
    · exact hq.scan_congr hw hnot
  get {ps t} id ht :=
    ⟨t, (run_find id t).trans (by rw [node?_answers]), ht, .refl .., rfl⟩
  found {ps t id n} _ h := by
    rw [node?_answers] at h
    split at h
    · simp only [Except.ok.injEq, reduceCtorEq] at h
    · exact (load_eq_some_iff.1 h).2
  add {ps t n} ht hn hnone := by
    obtain ⟨f, d⟩ := t
    obtain ⟨q, rfl, hq⟩ := ht
    rw [node?_answers, hn.isNull_id, if_neg Bool.false_ne_true] at hnone
    have hw := hq.within_put hn hnone
    refine ⟨_, hq.run_add hn hnone, ⟨q, rfl, housed_filed (hq.of_within hw)⟩, hw, fun id => ?_⟩
    rw [node?_answers, node?_answers, load_filed, hq.load_put hn hnone]
    split
    · next hnull =>
      rw [if_neg]
      rintro rfl
      exact Bool.false_ne_true (hn.isNull_id.symm.trans hnull)
    · rfl

end Folder

namespace Cache

/-- The answers of a cache: the front goes first for nodes, and the back knows all else. -/
def overlay (a b : Answers) : Answers where
  node? id :=
    match a.node? id with
    | .ok none => b.node? id
    | r => r
  children := b.children
  recent := b.recent

theorem node?_overlay_of_miss {a b : Answers} (h : a.node? id = .ok none) :
    (overlay a b).node? id = b.node? id := by
  simp only [overlay, h]

theorem node?_overlay_of_ne {a b : Answers} (h : a.node? id ≠ .ok none) :
    (overlay a b).node? id = a.node? id := by
  simp only [overlay]

theorem miss_of_overlay {a b : Answers} (h : (overlay a b).node? id = .ok none) :
    a.node? id = .ok none ∧ b.node? id = .ok none := by
  by_cases ha : a.node? id = .ok none
  · exact ⟨ha, (node?_overlay_of_miss ha).symm.trans h⟩
  · exact absurd ((node?_overlay_of_ne ha).symm.trans h) ha

theorem overlay_eq_overlay {a a' b : Answers} (hnone : a.node? n.id = .ok none)
    (hnode : b.node? n.id = .ok (some n))
    (h : ∀ id, a'.node? id = if id = n.id then .ok (some n) else a.node? id) :
    overlay a' b = overlay a b := by
  have hover (id : Hash) : (overlay a' b).node? id = (overlay a b).node? id := by
    by_cases hid : id = n.id
    · rw [hid, node?_overlay_of_miss hnone, hnode, node?_overlay_of_ne] <;> rw [h, if_pos rfl]
      exact nofun
    · simp only [overlay, h, if_neg hid]
  exact Answers.mk.injEq .. ▸ ⟨funext hover, rfl, rfl⟩

variable {front : Store Disk κ} {back : Store Disk β} {AtF : List Place → κ × Disk → Prop}
  {AtB : List Place → β × Disk → Prop} {t : (κ × β) × Disk}

structure Apart (AtF : List Place → κ × Disk → Prop) (AtB : List Place → β × Disk → Prop)
    (fs bs : List Place) (t : (κ × β) × Disk) : Prop where
  disjoint : fs.Disjoint bs
  front : AtF fs (t.1.1, t.2)
  back : AtB bs (t.1.2, t.2)

def At (AtF : List Place → κ × Disk → Prop) (AtB : List Place → β × Disk → Prop)
    (ps : List Place) (t : (κ × β) × Disk) : Prop :=
  ∃ fs bs, ps = fs ++ bs ∧ Apart AtF AtB fs bs t

def both (front : Store Disk κ) (back : Store Disk β) (t : (κ × β) × Disk) : Answers :=
  overlay (front.answers (t.1.1, t.2)) (back.answers (t.1.2, t.2))

theorem Apart.move_front (h : Apart AtF AtB fs bs t) (hb : back.Lawful AtB) {u : κ × Disk}
    (hu : AtF fs u) (hw : t.2.Within fs u.2) :
    Apart AtF AtB fs bs ((u.1, t.1.2), u.2) ∧
      back.answers (t.1.2, u.2) = back.answers (t.1.2, t.2) := by
  obtain ⟨hback, hanswers⟩ := hb.frame h.back hw (List.disjoint_comm.1 h.disjoint)
  exact ⟨⟨h.disjoint, hu, hback⟩, hanswers⟩

theorem Apart.move_back (h : Apart AtF AtB fs bs t) (hf : front.Lawful AtF) {u : β × Disk}
    (hu : AtB bs u) (hw : t.2.Within bs u.2) :
    Apart AtF AtB fs bs ((t.1.1, u.1), u.2) ∧
      front.answers (t.1.1, u.2) = front.answers (t.1.1, t.2) := by
  obtain ⟨hfront, hanswers⟩ := hf.frame h.front hw h.disjoint
  exact ⟨⟨h.disjoint, hfront, hu⟩, hanswers⟩

/-- An addition goes to the back and then to the front, and the back cannot tell. -/
theorem Apart.run_add (h : Apart AtF AtB fs bs t) (hf : front.Lawful AtF) (hb : back.Lawful AtB)
    {u : β × Disk} {v : κ × Disk}
    (hback : (back.add n).run (t.1.2, t.2) = (.ok (), u) ∧ AtB bs u ∧ t.2.Within bs u.2)
    (hfront : (front.add n).run (t.1.1, u.2) = (.ok (), v) ∧ AtF fs v ∧ u.2.Within fs v.2) :
    (add front back n).run t = (.ok (), ((v.1, u.1), v.2)) ∧
      Apart AtF AtB fs bs ((v.1, u.1), v.2) ∧ t.2.Within (fs ++ bs) v.2 ∧
        back.answers (u.1, v.2) = back.answers u := by
  obtain ⟨hadd, hu, hw⟩ := hback
  obtain ⟨hadd', hv, hw'⟩ := hfront
  obtain ⟨hapart, -⟩ := h.move_back hf hu hw
  obtain ⟨hapart', hanswers⟩ := hapart.move_front hb hv hw'
  exact ⟨(run_bind_ok (run_back hadd)).trans (run_front hadd'), hapart',
    (hw.mono (List.subset_append_right ..)).trans (hw'.mono (List.subset_append_left ..)), hanswers⟩

theorem Apart.run_promote (h : Apart AtF AtB fs bs t) (hf : front.Lawful AtF)
    (hb : back.Lawful AtB) (hnone : (front.answers (t.1.1, t.2)).node? id = .ok none) :
    ∃ u, (promote front back id).run t = ((back.answers (t.1.2, t.2)).node? id, u) ∧
      Apart AtF AtB fs bs u ∧ t.2.Within (fs ++ bs) u.2 ∧
        both front back u = both front back t := by
  obtain ⟨u, hget, hu, hw, hanswers⟩ := hb.get id h.back
  obtain ⟨hapart, hfanswers⟩ := h.move_back hf hu hw
  have hboth : both front back ((t.1.1, u.1), u.2) = both front back t := by
    rw [both, both, hanswers, hfanswers]
  have hw : t.2.Within (fs ++ bs) u.2 := hw.mono (List.subset_append_right ..)
  cases hfound : (back.answers (t.1.2, t.2)).node? id with
  | error e =>
    rw [hfound] at hget
    exact ⟨_, run_bind_error (run_back hget), hapart, hw, hboth⟩
  | ok found =>
    rw [hfound] at hget
    rw [promote, run_bind_ok (run_back hget)]
    cases found with
    | none => exact ⟨_, rfl, hapart, hw, hboth⟩
    | some n =>
      obtain ⟨hn, rfl⟩ := hb.found h.back hfound
      have hnone' : (front.answers (t.1.1, u.2)).node? n.id = .ok none := hfanswers ▸ hnone
      obtain ⟨v, hadd, hv, hw', hnode⟩ := hf.add hapart.front hn hnone'
      obtain ⟨hapart', hbanswers⟩ := hapart.move_front hb hv hw'
      refine ⟨_, run_bind_ok (run_front hadd), hapart',
        hw.trans (hw'.mono (List.subset_append_left ..)), ?_⟩
      have hbehind : (back.answers u).node? n.id = .ok (some n) := hanswers ▸ hfound
      rw [← hboth, both, both, hbanswers]
      exact overlay_eq_overlay hnone' hbehind hnode

theorem Apart.run_get (h : Apart AtF AtB fs bs t) (hf : front.Lawful AtF) (hb : back.Lawful AtB)
    (id : Hash) :
    ∃ u, (get front back id).run t = ((both front back t).node? id, u) ∧ Apart AtF AtB fs bs u ∧
      t.2.Within (fs ++ bs) u.2 ∧ both front back u = both front back t := by
  obtain ⟨u, hget, hu, hw, hanswers⟩ := hf.get id h.front
  obtain ⟨hapart, hbanswers⟩ := h.move_front hb hu hw
  have hboth : both front back ((u.1, t.1.2), u.2) = both front back t := by
    rw [both, both, hanswers, hbanswers]
  have hw : t.2.Within (fs ++ bs) u.2 := hw.mono (List.subset_append_left ..)
  rw [get_eq]
  cases hfound : (front.answers (t.1.1, t.2)).node? id with
  | error e =>
    have hresult : (both front back t).node? id = .error e :=
      (node?_overlay_of_ne (hfound ▸ nofun)).trans hfound
    rw [hfound] at hget
    exact ⟨_, hresult ▸ run_bind_error (run_front hget), hapart, hw, hboth⟩
  | ok found =>
    rw [hfound] at hget
    rw [run_bind_ok (run_front hget)]
    cases found with
    | none =>
      have hresult : (both front back t).node? id = (back.answers (t.1.2, u.2)).node? id := by
        rw [both, node?_overlay_of_miss hfound, hbanswers]
      have hnone : (front.answers u).node? id = .ok none := hanswers ▸ hfound
      obtain ⟨v, hpromote, hv, hw', hboth'⟩ := hapart.run_promote hf hb hnone
      exact ⟨v, hresult ▸ hpromote, hv, hw.trans hw', hboth'.trans hboth⟩
    | some n =>
      have hresult : (both front back t).node? id = .ok (some n) :=
        (node?_overlay_of_ne (hfound ▸ nofun)).trans hfound
      exact ⟨_, hresult ▸ rfl, hapart, hw, hboth⟩

theorem Apart.answers_eq (h : Apart AtF AtB fs bs t) (hf : front.Lawful AtF)
    (hb : back.Lawful AtB) : (store front back).answers t = both front back t := by
  have hnode (id : Hash) :
      ((store front back).answers t).node? id = (both front back t).node? id := by
    obtain ⟨u, hget, -⟩ := h.run_get hf hb id
    exact congrArg Prod.fst hget
  exact Answers.mk.injEq .. ▸ ⟨funext hnode, rfl, rfl⟩

theorem lawful (hf : front.Lawful AtF) (hb : back.Lawful AtB) :
    (store front back).Lawful (At AtF AtB) where
  frame {ps qs t e} ht hw hdisjoint := by
    obtain ⟨fs, bs, rfl, h⟩ := ht
    rw [List.disjoint_append_left] at hdisjoint
    obtain ⟨hfront, hfanswers⟩ := hf.frame h.front hw hdisjoint.1
    obtain ⟨hback, hbanswers⟩ := hb.frame h.back hw hdisjoint.2
    have h' : Apart AtF AtB fs bs (t.1, e) := ⟨h.disjoint, hfront, hback⟩
    refine ⟨⟨fs, bs, rfl, h'⟩, ?_⟩
    rw [h'.answers_eq hf hb, h.answers_eq hf hb, both, both, hfanswers, hbanswers]
  get {ps t} id ht := by
    obtain ⟨fs, bs, rfl, h⟩ := ht
    obtain ⟨u, hget, hu, hw, hboth⟩ := h.run_get hf hb id
    rw [h.answers_eq hf hb]
    exact ⟨u, hget, ⟨fs, bs, rfl, hu⟩, hw, (hu.answers_eq hf hb).trans hboth⟩
  found {ps t id n} ht hn := by
    obtain ⟨fs, bs, rfl, h⟩ := ht
    rw [h.answers_eq hf hb] at hn
    by_cases hnone : (front.answers (t.1.1, t.2)).node? id = .ok none
    · exact hb.found h.back ((node?_overlay_of_miss hnone).symm.trans hn)
    · exact hf.found h.front ((node?_overlay_of_ne hnone).symm.trans hn)
  add {ps t n} ht hn hmiss := by
    obtain ⟨fs, bs, rfl, h⟩ := ht
    rw [h.answers_eq hf hb] at hmiss
    obtain ⟨hfmiss, hbmiss⟩ := miss_of_overlay hmiss
    obtain ⟨u, hadd, hu, hw, hnode⟩ := hb.add h.back hn hbmiss
    obtain ⟨hapart, hfanswers⟩ := h.move_back hf hu hw
    obtain ⟨v, hadd', hv, hw', hnode'⟩ := hf.add hapart.front hn (hfanswers ▸ hfmiss)
    obtain ⟨hrun, hapart', hw, hbanswers⟩ := h.run_add hf hb ⟨hadd, hu, hw⟩ ⟨hadd', hv, hw'⟩
    refine ⟨_, hrun, ⟨fs, bs, rfl, hapart'⟩, hw, fun id => ?_⟩
    rw [hapart'.answers_eq hf hb, h.answers_eq hf hb]
    by_cases hid : id = n.id
    · rw [if_pos hid, both, node?_overlay_of_ne] <;> rw [hnode', if_pos hid]
      exact nofun
    · simp only [both, overlay, hnode', hbanswers, hnode, if_neg hid, hfanswers]

end Cache

namespace Archive

variable {inner : Store Disk σ} {AtI : List Place → σ × Disk → Prop} {t : Archive σ × Disk}

def At (AtI : List Place → σ × Disk → Prop) (ps : List Place) (t : Archive σ × Disk) : Prop :=
  t.1.Steady ∧ AtI ps (t.1.inner, t.2)

theorem answers_eq (h : t.1.isOpen = true) :
    (store inner).answers t = inner.answers (t.1.inner, t.2) := by
  have hresult {α : Type} (x : Action (σ × Disk) α) :
      ((whileOpen (within x)).run t).1 = (x.run (t.1.inner, t.2)).1 := by
    rw [run_whileOpen h]
    rfl
  exact Answers.mk.injEq .. ▸
    ⟨funext fun _ => hresult _, funext fun _ => hresult _, funext₂ fun _ _ => hresult _⟩

theorem run_get_within {ps : List Place} (hi : inner.Lawful AtI) (h : At AtI ps t) (id : Hash) :
    ∃ x e, (within (inner.get id)).run t =
        (((store inner).answers t).node? id, { t.1 with inner := x }, e) ∧
      At AtI ps ({ t.1 with inner := x }, e) ∧ t.2.Within ps e ∧
        (store inner).answers ({ t.1 with inner := x }, e) = (store inner).answers t := by
  obtain ⟨⟨x, e⟩, hget, hx, hw, hanswers⟩ := hi.get id h.2
  rw [answers_eq h.1.isOpen]
  exact ⟨x, e, run_within hget, ⟨h.1.withInner x, hx⟩, hw,
    (answers_eq (t := ({ t.1 with inner := x }, e)) h.1.isOpen).trans hanswers⟩

theorem lawful (hi : inner.Lawful AtI) : (store inner).Lawful (At AtI) where
  frame {ps qs t e} ht hw hdisjoint := by
    obtain ⟨hinner, hanswers⟩ := hi.frame ht.2 hw hdisjoint
    refine ⟨⟨ht.1, hinner⟩, ?_⟩
    rw [answers_eq ht.1.isOpen, ← hanswers]
    exact answers_eq ht.1.isOpen
  get {ps t} id ht := by
    obtain ⟨x, e, hget, hrest⟩ := run_get_within hi ht id
    exact ⟨_, (run_whileOpen ht.1.isOpen _).trans hget, hrest⟩
  found {ps t id n} ht hn := hi.found ht.2 ((congrArg (Answers.node? · id)
    (answers_eq ht.1.isOpen)).symm.trans hn)
  add {ps t n} ht hn hmiss := by
    obtain ⟨x, e, hget, hx, hw, hanswers⟩ := run_get_within hi ht n.id
    rw [hmiss] at hget
    have hinner : inner.answers (x, e) = (store inner).answers t :=
      (answers_eq hx.1.isOpen).symm.trans hanswers
    obtain ⟨⟨y, e'⟩, hadd, hy, hw', hnode⟩ := hi.add hx.2 hn (hinner ▸ hmiss)
    have hsteady := (hx.1.tell .preAdd n.id .none).withInner y
    have hwithin : (within (inner.add n)).run
        (({ t.1 with inner := x } : Archive σ).tell .preAdd n.id .none, e) = (.ok (), _, e') :=
      run_within hadd
    have hrun : (accept inner n .none).run t = _ :=
      (run_bind_ok hget).trans ((run_bind_ok (hx.1.run_notify .preAdd .none)).trans
        ((run_bind_ok hwithin).trans (hsteady.run_notify .postAdd .none)))
    refine ⟨_, (run_whileOpen ht.1.isOpen _).trans hrun,
      ⟨hsteady.tell .postAdd n.id .none, hy⟩, hw.trans hw', fun id => ?_⟩
    rw [← hinner, ← hnode]
    exact congrArg (Answers.node? · id) (answers_eq hx.1.isOpen)

end Archive

namespace Stack

/-- The states of a stack in which it has its files in these directories. -/
def Shape.At : (s : Shape) → List Place → s.State × Disk → Prop
  | .memory => Memory.At
  | .folder => Folder.At
  | .cached front back => Cache.At front.At back.At
  | .faulty _ => fun _ _ => False
  | .archived inner => Archive.At inner.At

theorem Shape.lawful : (s : Shape) → s.store.Lawful s.At
  | .memory => Memory.lawful
  | .folder => Folder.lawful
  | .cached front back => Cache.lawful front.lawful back.lawful
  | .faulty _ => ⟨nofun, nofun, nofun, nofun⟩
  | .archived inner => Archive.lawful inner.lawful

end Stack

end Grove
