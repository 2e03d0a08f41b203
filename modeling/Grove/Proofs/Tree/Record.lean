import Grove.Proofs.Tree.Walk

/-! # What walks note

A walk that takes notes beside its state goes along the same order as one that does not. So a
visitor whose calls are noted was called for the order, or for the front part of it up to the
failure, and the descendants and the leaves of a node are told in full or not at all.
-/

namespace Grove

open Grove.Action

variable {σ α β ε η : Type}

namespace Trace

variable {P E : σ → Prop} {a : ExceptT ε (StateM σ) α} {s t : σ} {notes : List Hash}

/-- What is done beside something else, such as notes, which it leaves alone. -/
def aside {τ : Type} (a : ExceptT ε (StateM σ) α) : ExceptT ε (StateM (σ × τ)) α :=
  ExceptT.mk fun (s, notes) =>
    let (r, t) := a.run s
    (r, t, notes)

def noting (key : α → Hash) (visit : Visitor σ ε α) : Visitor (σ × List Hash) ε α := fun a => do
  note (key a)
  aside (visit a)

theorem run_aside {τ : Type} {notes : τ} {r : Except ε α} (h : a.run s = (r, t)) :
    (aside a).run (s, notes) = (r, t, notes) := by
  show ((a.run s).1, (a.run s).2, notes) = _
  rw [h]

theorem run_beside {a : Action σ α} {r : Except StoreError α} (h : a.run s = (r, t)) :
    (beside a).run (s, notes) = (r, t, notes) :=
  run_aside h

theorem run_noting {key : α → Hash} {visit : Visitor σ ε α} {x : α} {r : Except ε Unit}
    (h : (visit x).run s = (r, t)) :
    (noting key visit x).run (s, notes) = (r, t, notes ++ [key x]) :=
  run_aside h

theorem of_run_beside {a : Action σ α} {r : Except StoreError α} {t : σ × List Hash}
    (h : (beside a).run (s, notes) = (r, t)) : a.run s = (r, t.1) ∧ t.2 = notes := by
  cases h
  exact ⟨rfl, rfl⟩

theorem gives_beside {a : Action σ α} {v : α} (h : Gives P E a v) :
    Gives (fun t => P t.1) (fun t => E t.1) (beside a) v :=
  fun _ _ _ hrun hs => h (of_run_beside hrun).1 hs

theorem stays_beside {a : Action σ α} (h : Stays P a) : Stays (fun t => P t.1) (beside a) :=
  fun _ _ _ hrun hs => h (of_run_beside hrun).1 hs

theorem stays_noting {key : α → Hash} {visit : Visitor σ ε α} {x : α} (h : Stays P (visit x)) :
    Stays (fun t => P t.1) (noting key visit x) := by
  rintro ⟨s, notes⟩ v t hrun hs
  obtain ⟨⟨r, u⟩, hv⟩ : ∃ y, (visit x).run s = y := ⟨_, rfl⟩
  obtain ⟨rfl, rfl⟩ := Prod.mk.inj ((run_noting hv).symm.trans hrun)
  exact h hv hs

theorem run_eq {walk : ExceptT ε (StateM (σ × List Hash)) Unit} {r : Except ε Unit}
    (h : walk.run (s, []) = (r, t, notes)) : (Trace.run walk).run s = ((r, notes), t) := by
  show (fun x : Except ε Unit × σ × List Hash => ((x.1, x.2.2), x.2.1)) (walk.run (s, [])) = _
  rw [h]

theorem run_notes {walk : ExceptT ε (StateM (σ × List Hash)) Unit} {r : Except ε Unit}
    (h : walk.run (s, []) = (r, t, notes)) :
    (Trace.notes walk).run s = (r.map fun _ => notes, t) := by
  show (fun x : Except ε Unit × σ × List Hash => (x.1.map fun _ => x.2.2, x.2.1))
    (walk.run (s, [])) = _
  rw [h]

end Trace

theorem Ground.Spans.beside {g : Ground σ} {P : σ → Prop} {kids : Hash → List Hash} {root : Hash}
    {order : List Hash} (hg : g.Spans P kids root order) :
    (Trace.ground g).Spans (fun t => P t.1) kids root order :=
  ⟨hg.named, hg.swept, hg.reach, fun id => Trace.gives_beside (hg.tells id)⟩

theorem Tour.noted {station : α → σ → List β → Except η Unit → σ → Prop}
    {station' : α → σ × List Hash → List β → Except η Unit → σ × List Hash → Prop} {key : β → Hash}
    (h : ∀ a s calls r t notes, station a s calls r t →
      station' a (s, notes) calls r (t, notes ++ calls.map key))
    {l : List α} {s t : σ} {calls : List β} {r : Except η Unit} (htour : Tour station l s calls r t)
    (notes : List Hash) : Tour station' l (s, notes) calls r (t, notes ++ calls.map key) := by
  induction htour generalizing notes with
  | done =>
    rw [List.map_nil, List.append_nil]
    exact .done
  | failed here => exact .failed (h _ _ _ _ _ notes here)
  | next here _ ih =>
    rw [List.map_append, ← List.append_assoc]
    exact .next (h _ _ _ _ _ notes here) (ih _)

/-- Stations that leave no choice make tours that leave none. -/
theorem Tour.unique {station : α → σ → List β → Except η Unit → σ → Prop}
    (h : ∀ a s calls calls' r r' t t', station a s calls r t → station a s calls' r' t' →
      calls = calls' ∧ r = r' ∧ t = t')
    {l : List α} {s t t' : σ} {calls calls' : List β} {r r' : Except η Unit}
    (htour : Tour station l s calls r t) (htour' : Tour station l s calls' r' t') :
    calls = calls' ∧ r = r' ∧ t = t' := by
  induction htour generalizing calls' with
  | done =>
    cases htour'
    exact ⟨rfl, rfl, rfl⟩
  | failed here =>
    cases htour' with
    | failed here' => exact h _ _ _ _ _ _ _ _ here here'
    | next here' _ => exact nomatch (h _ _ _ _ _ _ _ _ here here').2.1
  | next here _ ih =>
    cases htour' with
    | failed here' => exact nomatch (h _ _ _ _ _ _ _ _ here here').2.1
    | next here' there' =>
      obtain ⟨rfl, -, rfl⟩ := h _ _ _ _ _ _ _ _ here here'
      obtain ⟨rfl, hrest⟩ := ih there'
      exact ⟨rfl, hrest⟩

namespace Walk

variable {children : Hash → Action σ (List Hash)} {get : Hash → Action σ (Option Node)}
  {kids : Hash → List Hash} {P : σ → Prop} {root c : Hash} {order notes : List Hash} {s t t' : σ}

section Stations

variable {visit : Visitor σ ε Hash} {calls calls' : List Hash} {r r' : Except (WalkError ε) Unit}

theorem Station.unique (h : Station children visit c s calls r t)
    (h' : Station children visit c s calls' r' t') : calls = calls' ∧ r = r' ∧ t = t' := by
  cases h <;> cases h' <;> grind

theorem Station.noted (notes : List Hash) (h : Station children visit c s calls r t) :
    Station (fun id => Trace.beside (children id)) (Trace.noting id visit) c (s, notes) calls r
      (t, notes ++ calls.map id) := by
  cases h with
  | visitor hv => exact .visitor (Trace.run_noting hv)
  | store hv hc => exact .store (Trace.run_noting hv) (Trace.run_beside hc)
  | passed hv hc => exact .passed (Trace.run_noting hv) (Trace.run_beside hc)

end Stations

section NodeStations

variable {visit : Visitor σ ε Node} {calls calls' : List Node} {r r' : Except (WalkError ε) Unit}

theorem NodeStation.unique (h : NodeStation children get visit c s calls r t)
    (h' : NodeStation children get visit c s calls' r' t') : calls = calls' ∧ r = r' ∧ t = t' := by
  cases h <;> cases h' <;> grind

theorem NodeStation.noted (notes : List Hash) (h : NodeStation children get visit c s calls r t) :
    NodeStation (fun id => Trace.beside (children id)) (fun id => Trace.beside (get id))
      (Trace.noting Node.id visit) c (s, notes) calls r (t, notes ++ calls.map Node.id) := by
  cases h with
  | unknown hg =>
    rw [List.map_nil, List.append_nil]
    exact .unknown (Trace.run_beside hg)
  | unresolved hg =>
    rw [List.map_nil, List.append_nil]
    exact .unresolved (Trace.run_beside hg)
  | visitor hg hv => exact .visitor (Trace.run_beside hg) (Trace.run_noting hv)
  | store hg hv hc =>
    exact .store (Trace.run_beside hg) (Trace.run_noting hv) (Trace.run_beside hc)
  | passed hg hv hc =>
    exact .passed (Trace.run_beside hg) (Trace.run_noting hv) (Trace.run_beside hc)

end NodeStations

/-- The calls of a visitor are noted on the way, which changes nothing else. -/
theorem exists_tour {g : Ground σ} (hg : g.Spans P kids root order) (visit : Visitor σ ε Hash)
    (hvisit : ∀ id, Stays P (visit id)) (hs : P s) :
    ∃ calls r t, (run g root visit).run s = (r, t) ∧
      (Trace.run (run (Trace.ground g) root (Trace.noting id visit))).run s = ((r, calls), t) ∧
      Tour (Station g.children visit) order s calls r t := by
  obtain ⟨calls, r, t, hrun, htour⟩ := tour_run hg visit hvisit hs
  refine ⟨calls, r, t, hrun, ?_, htour⟩
  obtain ⟨_, _, _, hrun', htour'⟩ := tour_run hg.beside (Trace.noting id visit) (s := (s, []))
    (fun id => Trace.stays_noting (hvisit id)) hs
  obtain ⟨-, rfl, rfl⟩ := htour'.unique (fun _ _ _ _ _ _ _ _ h h' => h.unique h')
    (htour.noted (fun _ _ _ _ _ notes h => h.noted notes) [])
  rw [List.map_id, List.nil_append] at hrun'
  exact Trace.run_eq hrun'

theorem exists_node_tour {g : Ground σ} (hg : g.Spans P kids root order) {visit : Visitor σ ε Node}
    (hget : ∀ id, Stays P (get id)) (hvisit : ∀ n, Stays P (visit n)) (hs : P s) :
    ∃ calls r t, (runNodes g get root visit).run s = (r, t) ∧
      (Trace.run (runNodes (Trace.ground g) (fun id => Trace.beside (get id)) root
        (Trace.noting Node.id visit))).run s = ((r, calls.map Node.id), t) ∧
      Tour (NodeStation g.children get visit) order s calls r t := by
  obtain ⟨calls, r, t, hrun, htour⟩ := tour_runNodes hg hget hvisit hs
  refine ⟨calls, r, t, hrun, ?_, htour⟩
  obtain ⟨_, _, _, hrun', htour'⟩ := tour_runNodes hg.beside (s := (s, []))
    (fun id => Trace.stays_beside (hget id)) (fun n => Trace.stays_noting (hvisit n)) hs
  obtain ⟨-, rfl, rfl⟩ := htour'.unique (fun _ _ _ _ _ _ _ _ h h' => h.unique h')
    (htour.noted (fun _ _ _ _ _ notes h => h.noted notes) [])
  rw [List.nil_append] at hrun'
  exact Trace.run_eq hrun'

end Walk

namespace Ground

variable {g : Ground σ} {kids : Hash → List Hash} {P : σ → Prop} {root c : Hash}
  {order notes calls : List Hash} {s : σ}

def noteBelow (root : Hash) : Visitor (σ × List Hash) ε Hash := fun visited => do
  if visited ≠ root then Trace.note visited

/-- Notes what a visitor sees below a root if nothing is below it in turn. -/
def noteLeaf (g : Ground σ) (root : Hash) : Visitor (σ × List Hash) (WalkError ε) Hash :=
  fun visited => do
    if visited ≠ root then
      if (← Walk.atNode visited (Trace.beside (g.children visited))).isEmpty then
        Trace.note visited

/-- A visitor that does not leave the states of a kind, and that notes what it is called for where
the test says so. -/
def Notes (P : σ → Prop) (visit : Visitor (σ × List Hash) ε Hash) (test : Hash → Bool) : Prop :=
  ∀ ⦃id s notes t⦄, (visit id).run (s, notes) = (.ok (), t) → P s →
    P t.1 ∧ t.2 = notes ++ [id].filter test

theorem Notes.tour {visit : Visitor (σ × List Hash) ε Hash} {test : Hash → Bool}
    (hvisit : Notes P visit test) (hg : g.Spans P kids root order) (hs : P s) :
    ∃ calls r t notes, (Walk.run (Trace.ground g) root visit).run (s, []) = (r, t, notes) ∧
      Tour (Walk.Station (Trace.ground g).children visit) order (s, []) calls r (t, notes) ∧
      (r = .ok () → notes = order.filter test) := by
  obtain ⟨calls, r, ⟨t, notes⟩, hrun, htour⟩ :=
    Walk.tour_run hg.beside visit (s := (s, [])) (fun _ _ _ _ hv hs => (hvisit hv hs).1) hs
  refine ⟨calls, r, t, notes, hrun, htour, ?_⟩
  rintro rfl
  have hdone : P t ∧ notes = order.filter test := by
    refine htour.induction_on (J := fun done t => P t.1 ∧ t.2 = done.filter test) ?_ ⟨hs, rfl⟩
    rintro done id ⟨s, notes⟩ _ u ⟨hs, rfl⟩ (_ | _ | ⟨hv, hc⟩)
    obtain ⟨ht, hnotes⟩ := hvisit hv hs
    obtain ⟨hlist, heq⟩ := Trace.of_run_beside hc
    rw [List.filter_append, heq]
    exact ⟨(hg.tells id hlist ht).2, hnotes⟩
  exact hdone.2

theorem run_noteBelow : (noteBelow (ε := ε) root c).run (s, notes) =
    (.ok (), s, notes ++ [c].filter (· ≠ root)) := by
  unfold noteBelow
  split
  · next hc =>
    rw [List.filter_cons_of_pos (by simpa using hc)]
    rfl
  · next hc =>
    rw [List.filter_cons_of_neg (by simpa using hc), List.filter_nil, List.append_nil]
    rfl

theorem notes_noteBelow : Notes P (noteBelow (ε := ε) root) (· ≠ root) := by
  intro id s notes t hrun hs
  cases run_noteBelow.symm.trans hrun
  exact ⟨hs, rfl⟩

theorem of_run_noteLeaf {t : σ × List Hash} (hc : c ≠ root)
    (hrun : (noteLeaf (ε := ε) g root c).run (s, notes) = (.ok (), t)) :
    ∃ cs, (g.children c).run s = (.ok cs, t.1) ∧
      t.2 = notes ++ [c].filter fun _ => cs.isEmpty := by
  rw [noteLeaf, if_pos hc] at hrun
  rcases of_run_bind hrun with ⟨e, _, he⟩ | ⟨cs, u, hlist, hrest⟩
  · cases he
  obtain ⟨hcs, rfl⟩ := Trace.of_run_beside (of_run_adapt_ok hlist)
  cases hempty : cs.isEmpty
  all_goals
    rw [hempty] at hrest
    cases hrest
    exact ⟨cs, hcs, by simp [hempty]⟩

theorem of_run_noteLeaf_error {t : σ × List Hash} {e : WalkError ε} (hc : c ≠ root)
    (hrun : (noteLeaf g root c).run (s, notes) = (.error e, t)) :
    ∃ cause, (g.children c).run s = (.error cause, t.1) ∧ e = .store c cause := by
  rw [noteLeaf, if_pos hc] at hrun
  rcases of_run_bind hrun with ⟨e, he, heq⟩ | ⟨cs, u, _, hrest⟩
  · cases heq
    obtain ⟨cause, hlist, rfl⟩ := of_run_adapt_error he
    exact ⟨cause, (Trace.of_run_beside hlist).1, rfl⟩
  · cases hempty : cs.isEmpty <;> rw [hempty] at hrest <;> cases hrest

theorem notes_noteLeaf (hkids : ∀ id, Gives P (fun _ => True) (g.children id) (kids id)) :
    Notes P (noteLeaf (ε := ε) g root) fun id => id ≠ root ∧ (kids id).isEmpty := by
  intro id s notes t hrun hs
  by_cases hid : id = root
  · rw [noteLeaf, if_neg (by simp [hid])] at hrun
    cases hrun
    exact ⟨hs, by simp [hid]⟩
  · obtain ⟨cs, hlist, hnotes⟩ := of_run_noteLeaf hid hrun
    obtain ⟨rfl, ht⟩ := hkids id hlist hs
    exact ⟨ht, by simp [List.filter_cons, hid, hnotes]⟩

/-- What is seen of a station by one who only minds which children are asked for. -/
theorem asking_of_noteBelow {s t : σ × List Hash} {r : Except (WalkError ε) Unit}
    (h : Walk.Station (Trace.ground g).children (noteBelow root) c s calls r t) :
    ∃ calls', Walk.Asking g.children c s.1 calls' (r.mapError id) t.1 := by
  refine ⟨[c], ?_⟩
  cases h with
  | visitor hv => cases run_noteBelow.symm.trans hv
  | store hv hc =>
    cases run_noteBelow.symm.trans hv
    exact .failed (Trace.of_run_beside hc).1
  | passed hv hc =>
    cases run_noteBelow.symm.trans hv
    exact .passed (Trace.of_run_beside hc).1

theorem tour_descendants (hg : g.Spans P kids root order) (hs : P s) :
    ∃ calls r t, (g.descendants (ε := ε) root).run s = (r.map fun _ => order.tail, t) ∧
      Tour (Walk.Asking g.children) order s calls r t := by
  have hnoted : Notes P (noteBelow (ε := ε) root) (· ≠ root) := notes_noteBelow
  obtain ⟨calls, r, t, notes, hrun, htour, hnotes⟩ := hnoted.tour hg hs
  obtain ⟨calls', htour'⟩ := htour.map fun _ _ _ _ _ => asking_of_noteBelow
  rw [show r.mapError id = r by cases r <;> rfl] at htour'
  refine ⟨calls', r, t, (Trace.run_notes hrun).trans ?_, htour'⟩
  cases r with
  | error e => rfl
  | ok _ =>
    rw [hnotes rfl, hg.swept.tail_eq]

/-- The children of the root are asked for once, and those of all others twice. -/
def leafCalls (root : Hash) (visited : Hash) : List Hash :=
  if visited = root then [visited] else [visited, visited]

theorem asking_of_noteLeaf {s t : σ × List Hash} {r : Except (WalkError (WalkError ε)) Unit}
    (h : Walk.Station (Trace.ground g).children (noteLeaf g root) c s calls r t) :
    ∃ calls', Tour (Walk.Asking g.children) (leafCalls root c) s.1 calls'
      (r.mapError Walk.flatten) t.1 := by
  obtain ⟨s, notes⟩ := s
  by_cases hc : c = root
  · have hnote : (noteLeaf (ε := ε) g root c).run (s, notes) = (.ok (), s, notes) := by
      rw [noteLeaf, if_neg (by simp [hc])]
      rfl
    rw [leafCalls, if_pos hc]
    refine ⟨[c], .single ?_⟩
    cases h with
    | visitor hv => cases hnote.symm.trans hv
    | store hv hlist =>
      cases hnote.symm.trans hv
      exact .failed (Trace.of_run_beside hlist).1
    | passed hv hlist =>
      cases hnote.symm.trans hv
      exact .passed (Trace.of_run_beside hlist).1
  · rw [leafCalls, if_neg hc]
    cases h with
    | visitor hv =>
      obtain ⟨cause, hfirst, rfl⟩ := of_run_noteLeaf_error hc hv
      exact ⟨[c], .failed (.failed hfirst)⟩
    | store hv hlist =>
      obtain ⟨cs, hfirst, _⟩ := of_run_noteLeaf hc hv
      exact ⟨_, .next (.passed hfirst) (.single (.failed (Trace.of_run_beside hlist).1))⟩
    | passed hv hlist =>
      obtain ⟨cs, hfirst, _⟩ := of_run_noteLeaf hc hv
      exact ⟨_, .next (.passed hfirst) (.single (.passed (Trace.of_run_beside hlist).1))⟩

theorem tour_leaves (hg : g.Spans P kids root order) (hs : P s) :
    ∃ calls r t, (g.leaves (ε := ε) root).run s =
        (r.map fun _ => order.tail.filter fun id => (kids id).isEmpty, t) ∧
      Tour (Walk.Asking g.children) (order.flatMap (leafCalls root)) s calls r t := by
  obtain ⟨calls, r, t, notes, hrun, htour, hnotes⟩ :=
    (notes_noteLeaf hg.tells).tour hg hs
  obtain ⟨calls', htour'⟩ := htour.map fun _ _ _ _ _ => asking_of_noteLeaf
  refine ⟨calls', r.mapError Walk.flatten, t, ?_, htour'.flatMap⟩
  refine (Trace.run_notes (run_adapt Walk.flatten hrun)).trans ?_
  cases r with
  | error e => rfl
  | ok _ =>
    rw [hnotes rfl, ← hg.swept.tail_eq, List.filter_filter]
    simp only [Bool.decide_and, Bool.and_comm, Bool.decide_eq_true]

theorem run_of_null (g : Ground σ) (hroot : root.isNull = true) (s : σ) :
    (g.descendants (ε := ε) root).run s = (.error .missingRoot, s) ∧
      (g.leaves (ε := ε) root).run s = (.error .missingRoot, s) := by
  unfold descendants leaves
  rw [Walk.run_of_null hroot, Walk.run_of_null hroot]
  exact ⟨rfl, rfl⟩

theorem asking_eq_ok {r : Except (WalkError ε) Unit} {t : σ}
    (hkids : ∀ id, Leads P (g.children id) (.ok (kids id)) P) (hs : P s)
    (h : Walk.Asking g.children c s calls r t) : r = .ok () ∧ P t := by
  obtain ⟨u, hu, hpu⟩ := hkids c s hs
  cases h with
  | failed hc => cases hu.symm.trans hc
  | passed hc =>
    cases hu.symm.trans hc
    exact ⟨rfl, hpu⟩

theorem run_of_leads (hg : g.Spans P kids root order)
    (hkids : ∀ id, Leads P (g.children id) (.ok (kids id)) P) (hs : P s) :
    (∃ t, (g.descendants (ε := ε) root).run s = (.ok order.tail, t) ∧ P t) ∧
      ∃ t, (g.leaves (ε := ε) root).run s =
        (.ok (order.tail.filter fun id => (kids id).isEmpty), t) ∧ P t := by
  constructor
  · obtain ⟨_, r, t, hrun, htour⟩ := tour_descendants hg hs
    obtain ⟨rfl, ht⟩ := htour.eq_ok (fun _ _ _ _ _ hs h => asking_eq_ok hkids hs h) hs
    exact ⟨t, hrun, ht⟩
  · obtain ⟨_, r, t, hrun, htour⟩ := tour_leaves hg hs
    obtain ⟨rfl, ht⟩ := htour.eq_ok (fun _ _ _ _ _ hs h => asking_eq_ok hkids hs h) hs
    exact ⟨t, hrun, ht⟩

end Ground

namespace Walk

variable {g : Ground σ} {kids : Hash → List Hash} {P : σ → Prop} {root : Hash} {order : List Hash}
  {s : σ}

theorem run_of_succeeds (hg : g.Spans P kids root order) (visit : Visitor σ ε Hash)
    (hkids : ∀ id, Leads P (g.children id) (.ok (kids id)) P)
    (hvisit : ∀ id s, P s → ∃ t, (visit id).run s = (.ok (), t) ∧ P t) (hs : P s) :
    ∃ t, (run g root visit).run s = (.ok (), t) ∧
      (Trace.run (run (Trace.ground g) root (Trace.noting id visit))).run s =
        ((.ok (), order), t) := by
  have hstays : ∀ id, Stays P (visit id) := by
    intro id s v t hrun hs
    obtain ⟨u, hu, hpu⟩ := hvisit id s hs
    cases hu.symm.trans hrun
    exact hpu
  obtain ⟨calls, r, t, hrun, hnoted, htour⟩ := exists_tour hg visit hstays hs
  have hpass : ∀ id s calls r t, P s → Station g.children visit id s calls r t →
      r = .ok () ∧ P t := by
    intro id s calls r t hs h
    obtain ⟨u, hu, hpu⟩ := hvisit id s hs
    obtain ⟨w, hw, hpw⟩ := hkids id u hpu
    cases h with
    | visitor hv => cases hu.symm.trans hv
    | store hv hc =>
      cases hu.symm.trans hv
      cases hw.symm.trans hc
    | passed hv hc =>
      cases hu.symm.trans hv
      cases hw.symm.trans hc
      exact ⟨rfl, hpw⟩
  obtain ⟨rfl, -⟩ := htour.eq_ok hpass hs
  obtain rfl : calls = order := (htour.calls_prefix fun _ _ _ _ _ h => h.calls_eq).2 rfl
  exact ⟨t, hrun, hnoted⟩

/-- On a ground that is said to reach over all that can be reached, a walk whose visitor does not
fail comes to an end, and has visited all of it in breadth-first order. -/
theorem run_breadthFirst (visit : Visitor σ ε Hash) (hroot : root.isNull = false)
    (hkids : ∀ id, Leads P (g.children id) (.ok (kids id)) P)
    (hvisit : ∀ id s, P s → ∃ t, (visit id).run s = (.ok (), t) ∧ P t)
    (hfin : { id | Reaches kids root id }.Finite)
    (hreach : { id | Reaches kids root id }.ncard ≤ g.reach + 1) (hs : P s) :
    ∃ order t, BreadthFirst kids root order ∧
      (Plan.run ⟨some g, some root, some visit⟩).run s = (.ok (), t) ∧
      (Trace.run (run (Trace.ground g) root (Trace.noting id visit))).run s =
        ((.ok (), order), t) := by
  obtain ⟨order, hg⟩ := Ground.exists_spans hroot (fun id => (hkids id).gives) hfin hreach
  obtain ⟨t, hrun, hnoted⟩ := run_of_succeeds hg visit hkids hvisit hs
  refine ⟨order, t, hg.swept.breadthFirst, ?_, hnoted⟩
  rw [Plan.run_eq hroot, hrun]

def spot (k : UInt8) : Hash :=
  .ofFixed .sha512_256 (List.replicate 32 k)

/-- Three identifiers that name each other and themselves, one of them twice. -/
def whirl (id : Hash) : List Hash :=
  if id = spot 0 then [spot 1, spot 2, spot 1] else [spot 2, spot 0]

theorem reaches_whirl : { id | Reaches whirl (spot 0) id }.Finite ∧
    { id | Reaches whirl (spot 0) id }.ncard ≤ 3 :=
  reaches_of_closed (l := [spot 0, spot 1, spot 2]) (by decide) (by decide)

/-- A walk gets out of the whirl after each of the three was visited. -/
theorem run_breadthFirst_whirl : BreadthFirst whirl (spot 0) [spot 0, spot 1, spot 2] ∧
    (Plan.run (ε := Empty) ⟨some ⟨fun id => pure (whirl id), 2⟩, some (spot 0),
      some fun _ => pure ()⟩).run () = (.ok (), ()) := by
  have hall := run_breadthFirst (g := ⟨fun id => pure (whirl id), 2⟩) (P := fun _ => True)
    (ε := Empty) (s := ()) (fun _ => pure ()) (by decide) (fun _ => leads_pure _)
    (fun _ s _ => ⟨s, rfl, trivial⟩) reaches_whirl.1 reaches_whirl.2 trivial
  obtain ⟨order, t, horder, hrun, hnoted⟩ := hall
  have hvisited : order = [spot 0, spot 1, spot 2] := by
    refine (congrArg (fun x => x.1.2) hnoted).symm.trans ?_
    decide
  exact ⟨hvisited ▸ horder, hrun⟩

def visits (kids : Hash → List Hash) (reach : Nat) (root : Hash) : List Hash :=
  (Trace.run (run (ε := Empty) (Trace.ground ⟨fun id => pure (kids id), reach⟩) root
    (Trace.noting id fun _ => pure ()))).run () |>.1.2

theorem visits_eq (hg : g.Spans P kids root order) : visits kids g.reach root = order := by
  have hstill : Ground.Spans ⟨fun id => pure (kids id), g.reach⟩ (fun _ : Unit => True) kids root
      order := ⟨hg.named, hg.swept, hg.reach, fun _ => gives_pure _⟩
  obtain ⟨_, -, hnoted⟩ := run_of_succeeds (ε := Empty) (s := ()) hstill (fun _ => pure ())
    (fun _ => leads_pure _) (fun _ s _ => ⟨s, rfl, trivial⟩) trivial
  exact congrArg (fun x => x.1.2) hnoted

/-- A walk stops where the visitor or the store fails for the first time on the way that it would
take otherwise, and says where and why. A list of descendants or leaves is complete, or there is
none. -/
theorem stops_at_first_failure (get : Hash → Action σ (Option Node)) (hroot : root.isNull = false)
    (hkids : ∀ id, Gives P (fun _ => True) (g.children id) (kids id))
    (hget : ∀ id, Stays P (get id)) (hfin : { id | Reaches kids root id }.Finite)
    (hreach : { id | Reaches kids root id }.ncard ≤ g.reach + 1) (hs : P s) :
    let order := visits kids g.reach root
    BreadthFirst kids root order ∧
    (∀ {ε : Type} (visit : Visitor σ ε Hash), (∀ id, Stays P (visit id)) → ∃ calls r t,
      (run g root visit).run s = (r, t) ∧
      (Trace.run (run (Trace.ground g) root (Trace.noting id visit))).run s = ((r, calls), t) ∧
      calls <+: order ∧ Tour (Station g.children visit) order s calls r t) ∧
    (∀ {ε : Type} (visit : Visitor σ ε Node), (∀ n, Stays P (visit n)) → ∃ calls r t,
      (runNodes g get root visit).run s = (r, t) ∧
      (Trace.run (runNodes (Trace.ground g) (fun id => Trace.beside (get id)) root
        (Trace.noting Node.id visit))).run s = ((r, calls.map Node.id), t) ∧
      Tour (NodeStation g.children get visit) order s calls r t) ∧
    (∃ calls r t, (g.descendants (ε := ε) root).run s = (r.map fun _ => order.tail, t) ∧
      Tour (Asking g.children) order s calls r t) ∧
    ∃ calls r t, (g.leaves (ε := ε) root).run s =
        (r.map fun _ => order.tail.filter fun id => (kids id).isEmpty, t) ∧
      Tour (Asking g.children) (order.flatMap (Ground.leafCalls root)) s calls r t := by
  obtain ⟨order, hg⟩ := Ground.exists_spans hroot hkids hfin hreach
  simp only [visits_eq hg]
  refine ⟨hg.swept.breadthFirst, fun visit hvisit => ?_, fun visit hvisit => ?_, ?_, ?_⟩
  · obtain ⟨calls, r, t, hrun, hnoted, htour⟩ := exists_tour hg visit hvisit hs
    have hcalls := htour.calls_prefix fun _ _ _ _ _ h => h.calls_eq
    exact ⟨calls, r, t, hrun, hnoted, hcalls.1, htour⟩
  · exact exists_node_tour hg hget hvisit hs
  · exact Ground.tour_descendants hg hs
  · exact Ground.tour_leaves hg hs

def dimWhirl : Ground Unit :=
  ⟨fun id => if id = spot 1 then throw .closed else pure (whirl id), 2⟩

/-- Out of the dim whirl no list of descendants comes, and each walk ends where nothing is told. -/
theorem stops_at_first_failure_dimWhirl :
    BreadthFirst whirl (spot 0) (visits whirl 2 (spot 0)) ∧
    (dimWhirl.descendants (ε := Empty) (spot 0)).run () =
      (.error (.store (spot 1) .closed), ()) ∧
    Tour (Station (ε := Empty) dimWhirl.children fun _ => pure ()) (visits whirl 2 (spot 0)) ()
      [spot 0, spot 1] (.error (.store (spot 1) .closed)) () := by
  have hkids : ∀ id, Gives (fun _ : Unit => True) (fun _ => True) (dimWhirl.children id)
      (whirl id) := by
    intro id
    show Gives _ _ (if id = spot 1 then throw .closed else pure (whirl id)) _
    split
    · exact gives_throw (fun _ _ => trivial) _ _
    · exact gives_pure _
  obtain ⟨horder, hwalk, -⟩ :=
    stops_at_first_failure (ε := Empty) (s := ()) (fun _ => pure none) (by decide) hkids
      (fun _ _ _ _ _ _ => trivial) reaches_whirl.1 reaches_whirl.2 trivial
  obtain ⟨calls, r, t, -, hnoted, -, htour⟩ :=
    hwalk (ε := Empty) (fun _ => pure ()) fun _ _ _ _ _ _ => trivial
  have hstop : (Trace.run (run (ε := Empty) (Trace.ground dimWhirl) (spot 0)
      (Trace.noting id fun _ => pure ()))).run () =
        ((.error (.store (spot 1) .closed), [spot 0, spot 1]), ()) := rfl
  obtain ⟨⟨rfl, rfl⟩, -⟩ := hstop.symm.trans hnoted
  exact ⟨horder, rfl, htour⟩

end Walk

end Grove
