import Grove.Proofs.Archive.Run
import Grove.Proofs.Store.Cache
import Grove.Proofs.Store.Consistent

/-! # Stores that mimic a memory

A store mimics a memory when its state can stand for one and each of its operations has the result
that it has on that memory and leads to a state that stands for what the memory becomes. Memories do
so themselves. So does an archive of a store that does, and a cache of two: its back stands for the
memory, and its front for any part of it. Everywhere the nodes that are added are consistent.
-/

namespace Grove

open Grove.Action

variable {ω σ κ β α : Type} {known : List Node} {m m' : Memory} {w : ω}

/-- The state stands for the memory, beside something shared. -/
def StandsFor (rel : σ → Memory → Prop) (m : Memory) (w : ω) (s : σ × ω) : Prop :=
  rel s.1 m ∧ s.2 = w

/-- Whatever memory of known nodes a state of the store stands for, the store acts like it. -/
structure Store.Mimics (s : Store ω σ) (known : List Node) (rel : σ → Memory → Prop) : Prop where
  within {t : σ} {m : Memory} : rel t m → m.Within known
  reach {t : σ} {m : Memory} (w : ω) : rel t m → m.nodes.length ≤ s.reach (t, w)
  get (m : Memory) (w : ω) (id : Hash) :
    Leads (StandsFor rel m w) (s.get id) (.ok (m.get? id)) (StandsFor rel m w)
  children (m : Memory) (w : ω) (id : Hash) :
    Leads (StandsFor rel m w) (s.children id) (.ok (m.children id)) (StandsFor rel m w)
  recent (m : Memory) (w : ω) (kind : NodeKind) (count : Nat) :
    Leads (StandsFor rel m w) (s.recent kind count) (.ok (m.recent kind count)) (StandsFor rel m w)
  nodes (m : Memory) (w : ω) : Leads (StandsFor rel m w) s.nodes (.ok m.nodes) (StandsFor rel m w)
  add (m : Memory) (w : ω) {n : Node} (hn : n ∈ known) :
    Leads (StandsFor rel m w) (s.add n) (.ok ()) (StandsFor rel (m.add n) w)
  removeSubtree_of_absent (m : Memory) (w : ω) {id : Hash} (hid : m.get? id = none) :
    Leads (StandsFor rel m w) (s.removeSubtree id) (.error (.notFound id)) (StandsFor rel m w)
  removeSubtree_of_rows (m : Memory) (w : ω) {id : Hash} {n : Node} {bound : Nat}
    {ids : List Hash} (hn : m.get? id = some n) (hids : rows m.children bound [id] = some ids) :
    Leads (StandsFor rel m w) (s.removeSubtree id) (.ok ()) (StandsFor rel (m.without ids) w)

theorem Store.Mimics.leads_addAll {s : Store ω σ} {rel : σ → Memory → Prop}
    (h : s.Mimics known rel) (m : Memory) (w : ω) {l : List Node} (hl : l ⊆ known) :
    Leads (StandsFor rel m w) (s.addAll l) (.ok ()) (StandsFor rel (l.foldl Memory.add m) w) := by
  induction l generalizing m with
  | nil => exact leads_pure ()
  | cons n l ih =>
    obtain ⟨hn, hl⟩ := List.cons_subset.1 hl
    exact (h.add m w hn).bind (ih (m.add n) hl)

namespace Memory

def Itself (known : List Node) (t m : Memory) : Prop :=
  t = m ∧ m.Within known

theorem leads_read (f : Memory → α) :
    Leads (StandsFor (Itself known) m w) (.read fun t => f t.1) (.ok (f m))
      (StandsFor (Itself known) m w) := by
  rintro ⟨_, _⟩ ⟨⟨rfl, hm⟩, rfl⟩
  exact ⟨_, rfl, ⟨rfl, hm⟩, rfl⟩

theorem mimics (hc : Consistent known) :
    (Memory.store (ω := ω)).Mimics known (Itself known) where
  within h := h.2
  reach _ h := h.1 ▸ Nat.le_add_right ..
  get _ _ id := leads_read fun m => m.get? id
  children _ _ id := leads_read fun m => m.children id
  recent _ _ kind count := leads_read fun m => m.recent kind count
  nodes _ _ := leads_read fun m => m.nodes
  add m w n hn := by
    rintro ⟨_, _⟩ ⟨⟨rfl, hm⟩, rfl⟩
    exact ⟨_, run_add, ⟨rfl, hm.add hn⟩, rfl⟩
  removeSubtree_of_absent m w id hid := by
    rintro ⟨_, _⟩ ⟨⟨rfl, hm⟩, rfl⟩
    refine ⟨_, ?_, ⟨rfl, hm⟩, rfl⟩
    rw [run_removeSubtree, removeSubtree_of_get?_eq_none hid]
  removeSubtree_of_rows m w id n bound ids hn hids := by
    rintro ⟨t, _⟩ ⟨⟨rfl, hm⟩, rfl⟩
    refine ⟨(t.without ids, _), ?_, ⟨rfl, hm.without (rows_closed hids).2⟩, rfl⟩
    rw [run_removeSubtree, hm.removeSubtree_of_rows hn hids hc.acyclic]

end Memory

namespace Archive

variable {rel : σ → Memory → Prop} {inner : Store ω σ} {r : Except StoreError α}

/-- A steady archive stands for what the wrapped store stands for. -/
def Around (rel : σ → Memory → Prop) (a : Archive σ) (m : Memory) : Prop :=
  a.Steady ∧ rel a.inner m

theorem leads_within {x : Action (σ × ω) α}
    (hx : Leads (StandsFor rel m w) x r (StandsFor rel m' w)) :
    Leads (StandsFor (Around rel) m w) (within x) r (StandsFor (Around rel) m' w) := by
  refine hx.on (fun _ ha => ⟨ha.1.2, ha.2⟩) ?_
  rintro ⟨t, _⟩ ⟨a, _⟩ ⟨ht, rfl⟩ ⟨⟨ha, _⟩, _⟩
  exact ⟨⟨ha.withInner t, ht⟩, rfl⟩

theorem leads_whileOpen {x : Action (Archive σ × ω) α} {Q : Archive σ × ω → Prop}
    (hx : Leads (StandsFor (Around rel) m w) x r Q) :
    Leads (StandsFor (Around rel) m w) (whileOpen x) r Q := by
  rintro ⟨a, _⟩ ⟨⟨ha, hm⟩, rfl⟩
  rw [ha.run_whileOpen]
  exact hx _ ⟨⟨ha, hm⟩, rfl⟩

theorem leads_notify (phase : Phase) (node : Hash) (excluded : Subscription) :
    Leads (StandsFor (Around rel) m w) (notify phase node excluded) (.ok ())
      (StandsFor (Around rel) m w) := by
  rintro ⟨a, _⟩ ⟨⟨ha, hm⟩, rfl⟩
  exact ⟨_, ha.run_notify phase excluded, ⟨ha.tell .., hm⟩, rfl⟩

theorem mimics (h : inner.Mimics known rel) : (Archive.store inner).Mimics known (Around rel) where
  within ha := h.within ha.2
  reach w ha := h.reach w ha.2
  get m w id := leads_whileOpen (leads_within (h.get m w id))
  children m w id := leads_whileOpen (leads_within (h.children m w id))
  recent m w kind count := leads_whileOpen (leads_within (h.recent m w kind count))
  nodes m w := by
    intro s hs
    have hcopy : Leads (StandsFor (Around rel) m w)
        (pure (Memory.ofList m.nodes).nodes : Action (Archive σ × ω) (List Node)) (.ok m.nodes)
        (StandsFor (Around rel) m w) := by
      rw [Memory.nodes_ofList (h.within hs.1.2).nodup]
      exact leads_pure _
    exact leads_whileOpen ((leads_within (h.nodes m w)).bind hcopy) s hs
  add m w n hn := by
    refine leads_whileOpen ((leads_within (h.get m w n.id)).bind ?_)
    cases hid : m.get? n.id with
    | some found =>
      rw [Memory.add_eq_self hid]
      exact leads_pure ()
    | none =>
      refine (leads_notify .preAdd n.id .none).bind ?_
      exact (leads_within (h.add m w hn)).bind (leads_notify .postAdd n.id .none)
  removeSubtree_of_absent m w id hid :=
    leads_whileOpen (leads_within (h.removeSubtree_of_absent m w hid))
  removeSubtree_of_rows m w id n bound ids hn hids :=
    leads_whileOpen (leads_within (h.removeSubtree_of_rows m w hn hids))

end Archive

namespace Cache

variable {front : Store ω κ} {back : Store ω β} {rf : κ → Memory → Prop} {rb : β → Memory → Prop}
  {mf mf' mb mb' : Memory} {r : Except StoreError α} {P : κ → Prop} {Q : β → Prop}

def Tiers (P : κ → Prop) (Q : β → Prop) (w : ω) (s : (κ × β) × ω) : Prop :=
  P s.1.1 ∧ Q s.1.2 ∧ s.2 = w

/-- All that the first memory holds is in the second. -/
def Part (mf mb : Memory) : Prop :=
  ∀ id n, mf.get? id = some n → mb.get? id = some n

/-- Two tiers stand for what the back stands for, if the front stands for a part of it. -/
def Both (rf : κ → Memory → Prop) (rb : β → Memory → Prop) (s : κ × β) (mb : Memory) : Prop :=
  ∃ mf, Part mf mb ∧ rf s.1 mf ∧ rb s.2 mb

theorem leads_front {x : Action (κ × ω) α}
    (hx : Leads (StandsFor rf mf w) x r (StandsFor rf mf' w)) :
    Leads (Tiers (rf · mf) Q w) x.front r (Tiers (rf · mf') Q w) :=
  hx.on (fun _ hs => ⟨hs.1, hs.2.2⟩) fun _ _ ht hs => ⟨ht.1, hs.2.1, ht.2⟩

theorem leads_back {x : Action (β × ω) α}
    (hx : Leads (StandsFor rb mb w) x r (StandsFor rb mb' w)) :
    Leads (Tiers P (rb · mb) w) x.back r (Tiers P (rb · mb') w) :=
  hx.on (fun _ hs => ⟨hs.2.1, hs.2.2⟩) fun _ _ ht hs => ⟨hs.1, ht.1, ht.2⟩

/-- Both tiers act like one memory if they do so whatever part of it the front stands for. -/
theorem leads_both (hf : front.Mimics known rf) (hb : back.Mimics known rb)
    {x : Action ((κ × β) × ω) α}
    (hx : ∀ mf, Part mf mb → mf.Within known → mb.Within known → ∃ mf', Part mf' mb' ∧
      Leads (Tiers (rf · mf) (rb · mb) w) x r (Tiers (rf · mf') (rb · mb') w)) :
    Leads (StandsFor (Both rf rb) mb w) x r (StandsFor (Both rf rb) mb' w) := by
  rintro s ⟨⟨mf, hpart, hsf, hsb⟩, hw⟩
  obtain ⟨mf', hpart', hx⟩ := hx mf hpart (hf.within hsf) (hb.within hsb)
  obtain ⟨t, ht, hf', hb', hw'⟩ := hx s ⟨hsf, hsb, hw⟩
  exact ⟨t, ht, ⟨mf', hpart', hf', hb'⟩, hw'⟩

theorem leads_both_back (hf : front.Mimics known rf) (hb : back.Mimics known rb)
    {x : Action (β × ω) α} (hx : Leads (StandsFor rb mb w) x r (StandsFor rb mb w)) :
    Leads (StandsFor (Both rf rb) mb w) x.back r (StandsFor (Both rf rb) mb w) :=
  leads_both hf hb fun mf hpart _ _ => ⟨mf, hpart, leads_back hx⟩

theorem Part.add (h : Part mf mb) (hc : Consistent known) (hb : mb.Within known) {n : Node}
    (hn : n ∈ known) : Part (mf.add n) (mb.add n) := by
  intro id k hk
  rw [Memory.get?_add_eq_some_iff] at hk ⊢
  rcases hk with hk | ⟨-, hid, rfl⟩
  · exact .inl (h id k hk)
  · obtain hb' | ⟨k', hb'⟩ := (mb.get? id).eq_none_or_eq_some
    · exact .inr ⟨hb', hid, rfl⟩
    · -- The back had a node of this identifier, which can be no other one.
      have hid' : k'.id = n.id := (Memory.id_of_get? hb').trans hid.symm
      rw [hb', hc.unique k' (hb.known (Memory.mem_of_get? hb')) n hn hid']
      exact .inl rfl

theorem Part.promote (h : Part mf mb) {id : Hash} {n : Node} (hn : mb.get? id = some n) :
    Part (mf.add n) mb := by
  intro id' k hk
  rcases Memory.get?_add_eq_some_iff.1 hk with hk | ⟨-, rfl, rfl⟩
  · exact h id' k hk
  · rwa [Memory.id_of_get? hn]

theorem part_foldl_add (hc : Consistent known) (hf : mf.Within known) (hb : mb.Within known) :
    Part mf (mf.nodes.foldl Memory.add mb) := by
  intro id n hn
  have hmem := Memory.mem_of_get? hn
  have hid := Memory.id_of_get? hn
  have hsome : ((mf.nodes.foldl Memory.add mb).get? id).isSome :=
    Memory.isSome_get?_foldl_add.2 (.inr ⟨n, hmem, hid⟩)
  obtain ⟨k, hk⟩ := Option.isSome_iff_exists.1 hsome
  have hknown : k ∈ known := (hb.foldl_add hf.known).known (Memory.mem_of_get? hk)
  rw [hk, hc.unique k hknown n (hf.known hmem) ((Memory.id_of_get? hk).trans hid.symm)]

theorem leads_unlessNotFound_of_ok {P Q : σ → Prop} {x : Action σ Unit}
    (hx : Leads P x (.ok ()) Q) : Leads P x.unlessNotFound (.ok ()) Q := by
  intro s hs
  obtain ⟨t, ht, hq⟩ := hx s hs
  exact ⟨t, by rw [run_unlessNotFound, ht], hq⟩

theorem leads_unlessNotFound_of_notFound {P Q : σ → Prop} {x : Action σ Unit} {id : Hash}
    (hx : Leads P x (.error (.notFound id)) Q) : Leads P x.unlessNotFound (.ok ()) Q := by
  intro s hs
  obtain ⟨t, ht, hq⟩ := hx s hs
  exact ⟨t, by rw [run_unlessNotFound, ht], hq⟩

theorem leads_purge (hf : front.Mimics known rf) (hc : Consistent known)
    (Q : β → Prop) (w : ω) (ids : List Hash) (hmf : mf.Within known) :
    ∃ mf', (∀ id n, mf'.get? id = some n → mf.get? id = some n ∧ id ∉ ids) ∧
      Leads (Tiers (rf · mf) Q w) (purge front ids) (.ok ()) (Tiers (rf · mf') Q w) := by
  induction ids generalizing mf with
  | nil => exact ⟨mf, fun id n hn => ⟨hn, List.not_mem_nil⟩, leads_pure ()⟩
  | cons id ids ih =>
    obtain hid | ⟨n, hid⟩ := (mf.get? id).eq_none_or_eq_some
    · obtain ⟨mf', hmf', hrest⟩ := ih hmf
      refine ⟨mf', fun k n hn => ?_, Leads.bind (leads_unlessNotFound_of_notFound
        (leads_front (hf.removeSubtree_of_absent mf w hid))) hrest⟩
      obtain ⟨hk, hnot⟩ := hmf' k n hn
      refine ⟨hk, List.not_mem_cons_of_ne_of_not_mem ?_ hnot⟩
      rintro rfl
      exact absurd (hid.symm.trans hk) nofun
    · obtain ⟨below, hbelow⟩ := hmf.rows_eq_some hc (Nat.lt_succ_self _) id
      obtain ⟨hself, hclosed⟩ := rows_closed hbelow
      obtain ⟨mf', hmf', hrest⟩ := ih (hmf.without hclosed)
      refine ⟨mf', fun k n hn => ?_, Leads.bind (leads_unlessNotFound_of_ok
        (leads_front (hf.removeSubtree_of_rows mf w hid hbelow))) hrest⟩
      obtain ⟨hk, hnot⟩ := hmf' k n hn
      rw [hmf.get?_without] at hk
      obtain ⟨hkb, hk⟩ := Option.ite_none_left_eq_some.1 hk
      refine ⟨hk, List.not_mem_cons_of_ne_of_not_mem ?_ hnot⟩
      rintro rfl
      exact hkb (hself List.mem_cons_self)

theorem leads_remove (hf : front.Mimics known rf) (hb : back.Mimics known rb)
    (hc : Consistent known) (w : ω) (hpart : Part mf mb) (hmf : mf.Within known)
    (hmb : mb.Within known) {id : Hash} {n : Node} {bound : Nat} {ids : List Hash}
    (hn : mb.get? id = some n) (hids : rows mb.children bound [id] = some ids) :
    ∃ mf', Part mf' (mb.without ids) ∧
      Leads (Tiers (rf · mf) (rb · mb) w)
        (do (back.removeSubtree id).back; purge front ids.reverse) (.ok ())
        (Tiers (rf · mf') (rb · (mb.without ids)) w) := by
  obtain ⟨mf', hmf', hpurge⟩ := leads_purge hf hc (rb · (mb.without ids)) w ids.reverse hmf
  refine ⟨mf', fun k p hk => ?_, (leads_back (hb.removeSubtree_of_rows mb w hn hids)).bind hpurge⟩
  obtain ⟨hk, hnot⟩ := hmf' k p hk
  rw [hmb.get?_without, if_neg (mt List.mem_reverse.2 hnot)]
  exact hpart k p hk

theorem mimics (hf : front.Mimics known rf) (hb : back.Mimics known rb) (hc : Consistent known) :
    (Cache.store front back).Mimics known (Both rf rb) where
  within h := by
    obtain ⟨_, _, _, h⟩ := h
    exact hb.within h
  reach w h := by
    obtain ⟨_, _, _, h⟩ := h
    exact Nat.le_add_left_of_le (hb.reach w h)
  get m w id := by
    refine leads_both hf hb fun mf hpart _ hm => ?_
    have hfront : Leads (Tiers (rf · mf) (rb · m) w) (front.get id).front (.ok (mf.get? id)) _ :=
      leads_front (hf.get mf w id)
    have hback : Leads (Tiers (rf · mf) (rb · m) w) (back.get id).back (.ok (m.get? id)) _ :=
      leads_back (hb.get m w id)
    cases hfound : mf.get? id with
    | some n =>
      rw [hpart id n hfound]
      rw [hfound] at hfront
      exact ⟨mf, hpart, hfront.bind (leads_pure _)⟩
    | none =>
      rw [hfound] at hfront
      cases hbehind : m.get? id with
      | none =>
        rw [hbehind] at hback
        exact ⟨mf, hpart, hfront.bind (hback.bind (leads_pure _))⟩
      | some n =>
        rw [hbehind] at hback
        have hn : n ∈ known := hm.known (Memory.mem_of_get? hbehind)
        exact ⟨mf.add n, hpart.promote hbehind,
          hfront.bind (hback.bind ((leads_front (hf.add mf w hn)).bind (leads_pure _)))⟩
  children m w id := leads_both_back hf hb (hb.children m w id)
  recent m w kind count := leads_both_back hf hb (hb.recent m w kind count)
  nodes m w := leads_both_back hf hb (hb.nodes m w)
  add m w n hn := leads_both hf hb fun mf hpart _ hm => ⟨mf.add n, hpart.add hc hm hn,
    (leads_back (hb.add m w hn)).bind (leads_front (hf.add mf w hn))⟩
  removeSubtree_of_absent m w id hid := by
    refine leads_both hf hb fun mf hpart _ hm => ⟨mf, hpart, fun s hs => ?_⟩
    obtain ⟨ids, hids⟩ := hm.rows_eq_some hc (Nat.lt_succ_of_le (hb.reach s.2 hs.2.1)) id
    have hsearch : Leads (Tiers (rf · mf) (rb · m) w)
        (subtree back.children _ id).back (.ok ids) _ :=
      leads_back (leads_subtree (hb.children m w) hids)
    have hremove : Leads (Tiers (rf · mf) (rb · m) w) (back.removeSubtree id).back _ _ :=
      leads_back (hb.removeSubtree_of_absent m w hid)
    exact (hsearch.bind hremove.bind_error) s hs
  removeSubtree_of_rows m w id n bound ids hn hids := by
    refine leads_both hf hb fun mf hpart hmf hm => ?_
    obtain ⟨mf', hpart', hremove⟩ := leads_remove hf hb hc w hpart hmf hm hn hids
    refine ⟨mf', hpart', fun s hs => ?_⟩
    obtain ⟨ids', hids'⟩ := hm.rows_eq_some hc (Nat.lt_succ_of_le (hb.reach s.2 hs.2.1)) id
    obtain rfl := rows_unique hids hids'
    have hsearch : Leads (Tiers (rf · mf) (rb · m) w)
        (subtree back.children _ id).back (.ok ids) _ :=
      leads_back (leads_subtree (hb.children m w) hids')
    exact (hsearch.bind hremove) s hs

end Cache

end Grove
