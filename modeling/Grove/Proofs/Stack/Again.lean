import Grove.Proofs.Stack.Lawful
import Grove.Proofs.Stack.Layering
import Grove.Proofs.Store.Tier

/-! # Adding a node again

Adding a node under an identifier that is found makes no difference to what a stack answers,
whichever node it is, where each cache has the identifier in both tiers. A cache that has it only
behind puts the new node in front, and so it has to be the one that is behind. It is wherever no two
nodes differ under one identifier, and then no run of calls can tell that a node was added again.
-/

namespace Grove

open Grove.Action

section Ignores

variable {σ κ β : Type} {n : Node}

/-- Adding the node succeeds and changes no answer. -/
def Store.Ignores (s : Store Disk σ) (At : List Place → σ × Disk → Prop) (n : Node)
    (ps : List Place) (t : σ × Disk) : Prop :=
  ∃ u, (s.add n).run t = (.ok (), u) ∧ At ps u ∧ t.2.Within ps u.2 ∧ s.answers u = s.answers t

theorem Store.finds_congr {s : Store Disk σ} {t u : σ × Disk} {id : Hash}
    (h : s.answers u = s.answers t) : s.Finds u id ↔ s.Finds t id := by
  show (∃ n, (s.answers u).node? id = .ok (some n)) ↔ ∃ n, (s.answers t).node? id = .ok (some n)
  rw [h]

theorem Memory.ignores {ps : List Place} {t : Memory × Disk} (ht : At ps t)
    (h : Memory.store.Finds t n.id) : Memory.store.Ignores At n ps t := by
  obtain ⟨k, hk⟩ := h
  refine ⟨t, Memory.run_add.trans ?_, ht, .refl .., rfl⟩
  rw [add_eq_self (Except.ok.inj hk)]

theorem Folder.ignores {ps : List Place} {t : Folder × Disk} (ht : At ps t)
    (h : Folder.store.Finds t n.id) : Folder.store.Ignores At n ps t := by
  obtain ⟨k, hk⟩ := h
  exact ⟨t, run_add_of_find (Prod.ext hk rfl), ht, .refl .., rfl⟩

theorem Archive.ignores {inner : Store Disk σ} {AtI : List Place → σ × Disk → Prop}
    (hi : inner.Lawful AtI) {ps : List Place} {t : Archive σ × Disk} (ht : At AtI ps t)
    (h : (store inner).Finds t n.id) : (store inner).Ignores (At AtI) n ps t := by
  obtain ⟨k, hk⟩ := h
  obtain ⟨x, e, hget, hrest⟩ := run_get_within hi ht n.id
  have hk : ((store inner).answers t).node? n.id = .ok (some k) := hk
  rw [hk] at hget
  exact ⟨_, (run_whileOpen ht.1.isOpen _).trans (run_bind_ok hget), hrest⟩

namespace Cache

variable {front : Store Disk κ} {back : Store Disk β} {AtF : List Place → κ × Disk → Prop}
  {AtB : List Place → β × Disk → Prop} {fs bs : List Place} {t : (κ × β) × Disk}
  (hf : front.Lawful AtF) (hb : back.Lawful AtB)

include hf hb

theorem Apart.ignores_of_front (h : Apart AtF AtB fs bs t)
    (hback : back.Ignores AtB n bs (t.1.2, t.2))
    (hfront : ∀ e, t.2.Within bs e → front.Ignores AtF n fs (t.1.1, e)) :
    (store front back).Ignores (At AtF AtB) n (fs ++ bs) t := by
  obtain ⟨u, hadd, hu, hw, hbanswers⟩ := hback
  obtain ⟨-, hfanswers⟩ := h.move_back hf hu hw
  obtain ⟨v, hadd', hv, hw', hfanswers'⟩ := hfront u.2 hw
  obtain ⟨hrun, h', hw, hbanswers'⟩ := h.run_add hf hb ⟨hadd, hu, hw⟩ ⟨hadd', hv, hw'⟩
  refine ⟨_, hrun, ⟨fs, bs, rfl, h'⟩, hw, ?_⟩
  rw [h'.answers_eq hf hb, h.answers_eq hf hb, both, both, hbanswers', hbanswers, hfanswers',
    hfanswers]

theorem Apart.ignores_of_miss (h : Apart AtF AtB fs bs t)
    (hback : back.Ignores AtB n bs (t.1.2, t.2))
    (hbehind : (back.answers (t.1.2, t.2)).node? n.id = .ok (some n))
    (hmiss : (front.answers (t.1.1, t.2)).node? n.id = .ok none) :
    (store front back).Ignores (At AtF AtB) n (fs ++ bs) t := by
  obtain ⟨u, hadd, hu, hw, hbanswers⟩ := hback
  obtain ⟨hapart, hfanswers⟩ := h.move_back hf hu hw
  obtain ⟨hn, -⟩ := hb.found h.back hbehind
  obtain ⟨v, hadd', hv, hw', hnode⟩ := hf.add hapart.front hn (hfanswers ▸ hmiss)
  obtain ⟨hrun, h', hw, hbanswers'⟩ := h.run_add hf hb ⟨hadd, hu, hw⟩ ⟨hadd', hv, hw'⟩
  refine ⟨_, hrun, ⟨fs, bs, rfl, h'⟩, hw, ?_⟩
  rw [h'.answers_eq hf hb, h.answers_eq hf hb, both, both, hbanswers', hbanswers]
  exact overlay_eq_overlay hmiss hbehind (hfanswers ▸ hnode)

end Cache

end Ignores

namespace Stack

open Store

/-- Each cache to which an addition comes has the identifier behind if it has it in front, and if
not, then it has no other node behind than this one. -/
def Shape.Unrivalled : (s : Shape) → s.State × Disk → Node → Prop
  | .cached front back, t, n =>
    (front.Unrivalled (t.1.1, t.2) n ∧ back.Unrivalled (t.1.2, t.2) n) ∧
      (front.store.Finds (t.1.1, t.2) n.id → back.store.Finds (t.1.2, t.2) n.id) ∧
        (¬front.store.Finds (t.1.1, t.2) n.id →
          ∀ k, (back.store.answers (t.1.2, t.2)).node? n.id = .ok (some k) → k = n)
  | _, _, _ => True

variable {ps qs : List Place} {n : Node} {e : Disk}

theorem Shape.unrivalled_frame (s : Shape) {t : s.State × Disk} (ht : s.At ps t)
    (hw : t.2.Within qs e) (hdisjoint : ps.Disjoint qs) (h : s.Unrivalled t n) :
    s.Unrivalled (t.1, e) n := by
  induction s generalizing ps with
  | memory | folder | faulty | archived => trivial
  | cached front back ihf ihb =>
    obtain ⟨fs, bs, rfl, hapart⟩ := ht
    obtain ⟨⟨hf, hb⟩, hcover, hrival⟩ := h
    rw [List.disjoint_append_left] at hdisjoint
    obtain ⟨-, hfanswers⟩ := front.lawful.frame hapart.front hw hdisjoint.1
    obtain ⟨-, hbanswers⟩ := back.lawful.frame hapart.back hw hdisjoint.2
    refine ⟨⟨ihf hapart.front hw hdisjoint.1 hf, ihb hapart.back hw hdisjoint.2 hb⟩, ?_, ?_⟩
    · rwa [finds_congr hfanswers, finds_congr hbanswers]
    · rwa [finds_congr hfanswers, hbanswers]

theorem Shape.ignores (s : Shape) {t : s.State × Disk} (ht : s.At ps t)
    (hfound : s.store.Finds t n.id) (h : s.Unrivalled t n) : s.store.Ignores s.At n ps t := by
  induction s generalizing ps with
  | memory => exact Memory.ignores ht hfound
  | folder => exact Folder.ignores ht hfound
  | cached front back ihf ihb =>
    obtain ⟨fs, bs, rfl, hapart⟩ := ht
    obtain ⟨⟨hf, hb⟩, hcover, hrival⟩ := h
    obtain ⟨k, hk⟩ := hfound
    have hk : (Cache.both front.store back.store t).node? n.id = .ok (some k) :=
      hapart.answers_eq front.lawful back.lawful ▸ hk
    by_cases hfront : front.store.Finds (t.1.1, t.2) n.id
    · refine hapart.ignores_of_front front.lawful back.lawful
        (ihb hapart.back (hcover hfront) hb) fun e hw => ?_
      obtain ⟨hat, hanswers⟩ := front.lawful.frame hapart.front hw hapart.disjoint
      exact ihf hat ((finds_congr hanswers).2 hfront)
        (front.unrivalled_frame hapart.front hw hapart.disjoint hf)
    · have hmiss : (front.store.answers (t.1.1, t.2)).node? n.id = .ok none :=
        of_not_not fun hne => hfront ⟨k, (Cache.node?_overlay_of_ne hne).symm.trans hk⟩
      have hbehind := (Cache.node?_overlay_of_miss hmiss).symm.trans hk
      obtain rfl := hrival hfront k hbehind
      exact hapart.ignores_of_miss front.lawful back.lawful (ihb hapart.back ⟨k, hbehind⟩ hb)
        hbehind hmiss
  | faulty => exact ht.elim
  | archived inner => exact Archive.ignores inner.lawful ht hfound

/-- In every stack whose folders are in directories of their own, adding a node under an identifier
that is found succeeds and changes no answer, whichever node it is, unless some cache has the
identifier in front only, or another node behind while none is in front. -/
theorem Shape.answers_add (s : Shape) {t : s.State × Disk} (ht : s.At ps t)
    (hfound : s.store.Finds t n.id) (h : s.Unrivalled t n) :
    ∃ u, (s.store.add n).run t = (.ok (), u) ∧ s.store.answers u = s.store.answers t := by
  obtain ⟨u, hrun, -, -, hanswers⟩ := s.ignores ht hfound h
  exact ⟨u, hrun, hanswers⟩

def shed : Disk :=
  ⟨[], "", [([], .directory), (["pile"], .directory)], []⟩

def pile : Folder :=
  ⟨⟨true, ["pile"]⟩, .empty, false, .byId⟩

theorem houses_pile : shed.Houses pile.path ["pile"] :=
  ⟨rfl, rfl⟩

theorem locate_pile {name : String} (hname : Disk.IsProper name) (hsize : name.utf8ByteSize ≤ 255)
    (hnul : '\x00' ∉ name.toList) :
    shed.locate (pile.path.child name) = .ok (["pile"] ++ [name]) := by
  have htext : (Path.join ⟨true, []⟩ (pile.path.child name)).text = "/pile/" ++ name := rfl
  refine (houses_pile.locate_child hname).trans (if_pos ⟨?_, hsize⟩)
  show (decide ((Path.join ⟨true, []⟩ (pile.path.child name)).text.utf8ByteSize ≤ 4095) &&
    !(Path.join ⟨true, []⟩ (pile.path.child name)).text.toList.contains '\x00') = true
  rw [htext, String.utf8ByteSize_append, String.toList_append]
  have hshort : "/pile/".utf8ByteSize + name.utf8ByteSize ≤ 4095 :=
    Nat.le_trans (Nat.add_le_add_left hsize _) (by decide)
  simp [hshort, hnul]

theorem locate_file_pile {id : Hash} (h : id.WellFormed) (hnull : id.isNull = false) :
    shed.locate (pile.file id) = .ok (["pile"] ++ [id.text]) := by
  refine locate_pile (Qualified.isProper_text id) ?_ (h.not_mem_text hnull)
  rw [h.utf8ByteSize_text hnull]
  decide

theorem locate_staging_pile : shed.locate pile.staging = .ok (["pile"] ++ [".staging-XXXXXX"]) :=
  locate_pile ⟨by decide, by decide, by decide⟩ (by decide) (by decide)

theorem housed_pile : pile.Housed shed ["pile"] where
  directory := houses_pile
  staging := ⟨_, locate_staging_pile⟩
  file hn := locate_file_pile hn.wellFormed_id hn.isNull_id

theorem load_pile {n : Node} (hn : n.Sealed) : pile.load shed n.id = .ok none := by
  have hentry : shed.entry (pile.file n.id) = .error .missing := by
    rw [Disk.entry_of_locate (housed_pile.file hn)]
    rfl
  rw [Folder.load_eq_none_iff, Disk.read, hentry]
  rfl

def overgrown (m : Memory) : (Shape.cached .folder .memory).State × Disk :=
  ((pile, m), shed)

theorem at_overgrown {m : Memory} (hm : ∀ n ∈ m.nodes, n.Sealed) :
    (Shape.cached .folder .memory).At [["pile"]] (overgrown m) :=
  ⟨_, _, rfl, List.disjoint_nil_right _, ⟨_, rfl, housed_pile⟩, hm⟩

theorem finds_overgrown {m : Memory} (hm : ∀ n ∈ m.nodes, n.Sealed) {n : Node}
    (hn : m.get? n.id = some n) :
    (Shape.cached .folder .memory).store.Finds (overgrown m) n.id ∧
      (Shape.cached .folder .memory).Unrivalled (overgrown m) n := by
  have hapart : Cache.Apart Folder.At Memory.At [["pile"]] [] (overgrown m) :=
    ⟨List.disjoint_nil_right _, ⟨_, rfl, housed_pile⟩, hm⟩
  have hsealed := hm n (Memory.mem_of_get? hn)
  have hfront : (Folder.store.answers (pile, shed)).node? n.id = .ok none := by
    rw [Folder.node?_answers, hsealed.isNull_id, if_neg Bool.false_ne_true,
      load_pile hsealed]
  have hback : (Memory.store.answers (m, shed)).node? n.id = .ok (some n) :=
    congrArg Except.ok hn
  have hfound := (congrArg (Answers.node? · n.id)
    (hapart.answers_eq Folder.lawful Memory.lawful)).trans
      ((Cache.node?_overlay_of_miss hfront).trans hback)
  have hnot : ¬Folder.store.Finds (pile, shed) n.id := by
    rintro ⟨k, hk⟩
    exact Option.some_ne_none k (Except.ok.inj (hk.symm.trans hfront))
  exact ⟨⟨n, hfound⟩, ⟨trivial, trivial⟩, fun h => absurd h hnot, fun _ k hk =>
    Option.some.inj (Except.ok.inj (hk.symm.trans hback))⟩

theorem sealed_plot : ∀ n ∈ Archive.plot, n.Sealed := by
  have hread : ∀ n ∈ Archive.plot, (Node.ofBytes n.encode).toOption = some n := by
    decide +kernel
  exact fun n hn => (Node.ofBytes_eq_ok_iff.1 (Node.eq_ok_of_mem_toOption (hread n hn))).1

/-- Whichever node of the plot is added again, the folder takes it, and the answers are the same. -/
theorem answers_add_plot :
    (Shape.cached .folder .memory).At [["pile"]] (overgrown (.ofList Archive.plot)) ∧
      ∀ n ∈ Archive.plot,
        (Shape.cached .folder .memory).store.Finds (overgrown (.ofList Archive.plot)) n.id ∧
          (Shape.cached .folder .memory).Unrivalled (overgrown (.ofList Archive.plot)) n ∧
            ∃ u, ((Shape.cached .folder .memory).store.add n).run
                (overgrown (.ofList Archive.plot)) = (.ok (), u) ∧
              (Shape.cached .folder .memory).store.answers u =
                (Shape.cached .folder .memory).store.answers
                  (overgrown (.ofList Archive.plot)) := by
  have hplot : (∀ n ∈ (Memory.ofList Archive.plot).nodes, n ∈ Archive.plot) ∧
      ∀ n ∈ Archive.plot, (Memory.ofList Archive.plot).get? n.id = some n := by
    decide +kernel
  generalize Memory.ofList Archive.plot = m at hplot
  have hm : ∀ n ∈ m.nodes, n.Sealed := fun n hn => sealed_plot n (hplot.1 n hn)
  refine ⟨at_overgrown hm, fun n hn => ?_⟩
  obtain ⟨hfound, hsole⟩ := finds_overgrown hm (hplot.2 n hn)
  exact ⟨hfound, hsole, Shape.answers_add _ (at_overgrown hm) hfound hsole⟩

/-- Archives and caches over memories, stacked at will and in whatever state some calls have left
them that added known nodes. -/
inductive Grown (known : List Node) : Stack → Prop
  | memory : Grown known (.memory .empty)
  | archived {s : Stack} : Grown known s → Grown known s.archived
  | cached {front back s : Stack} {d e : Disk} : Grown known front → Grown known back →
    (Stack.cached front back).run d = (.ok s, e) → Grown known s
  | perform {s : Stack} {τ : Type} {c : Call Disk τ} {t u : τ} {d e : Disk} {x : s.shape.State}
    {r : Except StoreError Answer} : Grown known s → c.added ⊆ known →
    (c.perform s.shape.store).run ((s.state, t), d) = (r, ((x, u), e)) →
    Grown known ⟨s.shape, x⟩

variable {known : List Node} {s : Stack}

theorem Grown.exists_mimics (h : Grown known s) (hc : Consistent known) :
    ∃ (rel : s.shape.State → Memory → Prop) (m : Memory), s.shape.store.Mimics known rel ∧
      rel s.state m := by
  induction h with
  | memory => exact ⟨_, .empty, Memory.mimics hc, rfl, Memory.within_empty known⟩
  | archived _ ih =>
    obtain ⟨rel, m, hs, hm⟩ := ih
    exact ⟨_, m, Archive.mimics hs, Archive.steady_new _, hm⟩
  | @cached front back s d e _ _ hrun ihf ihb =>
    obtain ⟨rf, mf, hf, hmf⟩ := ihf
    obtain ⟨rb, mb, hb, hmb⟩ := ihb
    have hopening : Leads (Cache.Tiers (rf · mf) (rb · mb) d) (Cache.opening _ _) (.ok ()) _ :=
      (Cache.leads_front (hf.nodes mf d)).bind
        (Cache.leads_back (hb.leads_addAll mb d (hf.within hmf).known))
    obtain ⟨⟨⟨x, y⟩, _⟩, hopen, hx, hy, rfl⟩ :=
      hopening ((front.state, back.state), d) ⟨hmf, hmb, rfl⟩
    obtain rfl := Except.ok.inj (Prod.mk.inj ((run_cached hopen).symm.trans hrun)).1
    exact ⟨_, _, Cache.mimics hf hb hc, mf,
      Cache.part_foldl_add hc (hf.within hmf) (hb.within hmb), hx, hy⟩
  | @perform s τ c t u d e x r _ hadded hrun ih =>
    obtain ⟨rel, m, hs, hm⟩ := ih
    obtain ⟨r', m', t', w', hcall⟩ := c.exists_leads hc hadded (hs.within hm) t d
    obtain ⟨v, hrun', hm', -⟩ := hcall _ _ _ hs ((s.state, t), d) ⟨hm, rfl, rfl⟩
    obtain ⟨-, rfl⟩ := Prod.mk.inj (hrun.symm.trans hrun')
    exact ⟨rel, m', hs, hm'⟩

/-- In every reached state, adding a node under an identifier that is found succeeds and makes no
difference to what any later calls show, provided that the nodes ever added are consistent. -/
theorem Grown.observe_again (h : Grown known s) (hc : Consistent known) {n : Node} (hn : n ∈ known)
    {d : Disk} (hfound : s.shape.store.Finds (s.state, d) n.id) :
    ∃ x, (s.shape.store.add n).run (s.state, d) = (.ok (), (x, d)) ∧
      ∀ (τ : Type) (t : τ) (after : List (Call Disk τ)), after.flatMap Call.added ⊆ known →
        s.shape.store.observe after x t d = s.shape.store.observe after s.state t d := by
  obtain ⟨rel, m, hs, hm⟩ := h.exists_mimics hc
  obtain ⟨k, hk⟩ := hfound
  have hget : m.get? n.id = some k := by
    obtain ⟨_, hget, -⟩ := hs.get m d n.id (s.state, d) ⟨hm, rfl⟩
    exact Except.ok.inj ((congrArg Prod.fst hget).symm.trans hk)
  obtain ⟨⟨x, _⟩, hadd, hx, rfl⟩ := hs.add m d hn (s.state, d) ⟨hm, rfl⟩
  rw [Memory.add_eq_self hget] at hx
  exact ⟨x, hadd, fun _ t _ hadded => hs.observe_eq hs hc hadded hx hm t _⟩

end Stack

namespace Cache

variable {ω : Type} {front back : Memory} {w : ω}

theorem run_add_memories (n : Node) :
    (add Memory.store Memory.store n).run ((front, back), w) =
      (.ok (), ((front.add n, back.add n), w)) :=
  rfl

theorem result_get_memories (id : Hash) :
    ((get Memory.store Memory.store id).run ((front, back), w)).1 =
      .ok ((front.get? id).or (back.get? id)) := by
  have hfront := run_front (s := ((front, back), w)) (Memory.answers_get front w id)
  have hback := run_back (s := ((front, back), w)) (Memory.answers_get back w id)
  rw [get_eq, run_bind_ok hfront]
  cases front.get? id with
  | some n => rfl
  | none =>
    show ((promote Memory.store Memory.store id).run ((front, back), w)).1 = _
    rw [promote, run_bind_ok hback]
    cases back.get? id <;> rfl

theorem result_get_add_memories {n other : Node} (hid : other.id = n.id)
    (hfront : front.get? n.id = none) (hback : back.get? n.id = some n) :
    ((get Memory.store Memory.store n.id).run ((front, back), w)).1 = .ok (some n) ∧
      ∃ t, (add Memory.store Memory.store other).run ((front, back), w) = (.ok (), t) ∧
        ((get Memory.store Memory.store n.id).run t).1 = .ok (some other) := by
  refine ⟨?_, _, run_add_memories other, ?_⟩
  · rw [result_get_memories, hfront, hback, Option.none_or]
  · rw [result_get_memories, Memory.get?_add, hfront, if_pos hid, Option.none_or, Option.some_or]

/-- The author of the plot is added again with another signature. -/
theorem get_ne_of_other_signature :
    ∃ n ∈ Archive.plot, ∃ other : Node, other.signedBytes = n.signedBytes ∧ other.id = n.id ∧
      other ≠ n ∧
      ((get Memory.store Memory.store n.id).run ((.empty, .ofList Archive.plot), ())).1 =
        .ok (some n) ∧
      ∃ t, (add Memory.store Memory.store other).run ((.empty, .ofList Archive.plot), ()) =
          (.ok (), t) ∧
        ((get Memory.store Memory.store n.id).run t).1 = .ok (some other) := by
  have hplot : ∃ n ∈ Archive.plot, (Memory.ofList Archive.plot).get? n.id = some n ∧
      n.signature ≠ .ofFixed .ed25519 (List.replicate 64 0x11) := by
    decide +kernel
  obtain ⟨n, hn, hback, hne⟩ := hplot
  refine ⟨n, hn, { n with signature := .ofFixed .ed25519 (List.replicate 64 0x11) }, rfl, rfl,
    fun h => hne (congrArg Node.signature h).symm, ?_⟩
  exact result_get_add_memories rfl rfl hback

end Cache

end Grove
