import Grove.Proofs.Store.Action
import Grove.Proofs.Tree.BreadthFirst
import Grove.Tree.Kinship

/-! # Walks along an order

Where the children of nodes are what they are whenever they are told at all, a walk goes along their
breadth-first order, station by station: at each identifier it calls the visitor and then asks for
the children. It ends with the first station that fails, and says which one that was. Walks that
look up nodes, descendants and leaves have stations of their own, which are read off those of the
walk that they are made of.
-/

namespace Grove

open Grove.Action

variable {σ τ α β γ ε η θ : Type}

section Tour

variable {station : α → σ → List β → Except η Unit → σ → Prop} {l l' : List α} {s t u : σ}
  {calls calls' : List β} {r : Except η Unit} {e : η}

/-- One station after another up to the first that fails, with all that is called on the way. -/
inductive Tour (station : α → σ → List β → Except η Unit → σ → Prop) :
    List α → σ → List β → Except η Unit → σ → Prop
  | done {s : σ} : Tour station [] s [] (.ok ()) s
  | failed {a : α} {l : List α} {s t : σ} {calls : List β} {e : η}
    (here : station a s calls (.error e) t) : Tour station (a :: l) s calls (.error e) t
  | next {a : α} {l : List α} {s t u : σ} {calls calls' : List β} {r : Except η Unit}
    (here : station a s calls (.ok ()) t) (there : Tour station l t calls' r u) :
    Tour station (a :: l) s (calls ++ calls') r u

namespace Tour

theorem single {a : α} (h : station a s calls r t) : Tour station [a] s calls r t := by
  cases r with
  | error e => exact .failed h
  | ok _ =>
    rw [← List.append_nil calls]
    exact .next h .done

theorem append (h : Tour station l s calls (.ok ()) t) (h' : Tour station l' t calls' r u) :
    Tour station (l ++ l') s (calls ++ calls') r u := by
  generalize hr : (.ok () : Except η Unit) = r' at h
  induction h with
  | done => exact h'
  | failed _ => cases hr
  | next here _ ih =>
    rw [List.append_assoc]
    exact .next here (ih h' hr)

theorem append_failed (h : Tour station l s calls (.error e) t) (l' : List α) :
    Tour station (l ++ l') s calls (.error e) t := by
  generalize hr : (.error e : Except η Unit) = r at h
  induction h with
  | done => cases hr
  | failed here => exact .failed here
  | next here _ ih => exact .next here (ih hr)

theorem flatMap {f : γ → List α} {k : List γ}
    (h : Tour (fun c => Tour station (f c)) k s calls r t) :
    Tour station (k.flatMap f) s calls r t := by
  induction h with
  | done => exact .done
  | failed here => exact here.append_failed _
  | next here _ ih => exact here.append ih

theorem map {station' : α → τ → List γ → Except θ Unit → τ → Prop} {f : σ → τ} {g : η → θ}
    (h : ∀ a s calls r t, station a s calls r t →
      ∃ calls', station' a (f s) calls' (r.mapError g) (f t))
    (htour : Tour station l s calls r t) :
    ∃ calls', Tour station' l (f s) calls' (r.mapError g) (f t) := by
  induction htour with
  | done => exact ⟨[], .done⟩
  | failed here =>
    obtain ⟨calls', h'⟩ := h _ _ _ _ _ here
    exact ⟨calls', .failed h'⟩
  | next here _ ih =>
    obtain ⟨calls', h'⟩ := h _ _ _ _ _ here
    obtain ⟨rest, hrest⟩ := ih
    exact ⟨calls' ++ rest, .next h' hrest⟩

theorem induction_on {J : List α → σ → Prop}
    (h : ∀ done a s calls t, J done s → station a s calls (.ok ()) t → J (done ++ [a]) t)
    (htour : Tour station l s calls (.ok ()) t) (hs : J [] s) : J l t := by
  generalize hr : (.ok () : Except η Unit) = r at htour
  induction htour generalizing J with
  | done => exact hs
  | failed _ => cases hr
  | @next a _ _ _ _ _ _ _ here _ ih =>
    cases hr
    exact ih (J := fun done t => J (a :: done) t) (fun done => h (a :: done)) (h [] _ _ _ _ hs here)
      rfl

theorem eq_ok {P : σ → Prop}
    (h : ∀ a s calls r t, P s → station a s calls r t → r = .ok () ∧ P t)
    (htour : Tour station l s calls r t) (hs : P s) : r = .ok () ∧ P t := by
  induction htour with
  | done => exact ⟨rfl, hs⟩
  | failed here => exact h _ _ _ _ _ hs here
  | next here _ ih => exact ih (h _ _ _ _ _ hs here).2

/-- Where each station is one call, the calls are as many as there are stations up to the first
that fails. -/
theorem calls_prefix {station : α → σ → List α → Except η Unit → σ → Prop} {calls : List α}
    (h : ∀ a s calls r t, station a s calls r t → calls = [a])
    (htour : Tour station l s calls r t) : calls <+: l ∧ (r = .ok () → calls = l) := by
  induction htour with
  | done => exact ⟨List.prefix_refl _, fun _ => rfl⟩
  | failed here =>
    rw [h _ _ _ _ _ here]
    exact ⟨List.prefix_append [_] _, nofun⟩
  | next here _ ih =>
    rw [h _ _ _ _ _ here, List.singleton_append, List.cons_prefix_cons]
    exact ⟨⟨rfl, ih.1⟩, fun hr => by rw [ih.2 hr]⟩

end Tour

end Tour

def Stays (P : σ → Prop) (a : ExceptT ε (StateM σ) α) : Prop :=
  ∀ ⦃s v t⦄, a.run s = (.ok v, t) → P s → P t

/-- In states of a kind the ground tells these children of a node, if it tells any, and it reaches
as far as the order below a root goes. -/
structure Ground.Spans (g : Ground σ) (P : σ → Prop) (kids : Hash → List Hash) (root : Hash)
    (order : List Hash) : Prop where
  named : root.isNull = false
  swept : Swept kids root order
  reach : order.length ≤ g.reach + 1
  tells (id : Hash) : Gives P (fun _ => True) (g.children id) (kids id)

theorem Ground.exists_spans {P : σ → Prop} {g : Ground σ} {kids : Hash → List Hash} {root : Hash}
    (hroot : root.isNull = false) (hkids : ∀ id, Gives P (fun _ => True) (g.children id) (kids id))
    (hfin : { id | Reaches kids root id }.Finite)
    (hreach : { id | Reaches kids root id }.ncard ≤ g.reach + 1) :
    ∃ order, g.Spans P kids root order := by
  obtain ⟨order, horder⟩ := exists_swept hfin
  exact ⟨order, hroot, horder, (horder.length_le hfin).trans hreach, hkids⟩

namespace Walk

variable {children : Hash → Action σ (List Hash)} {get : Hash → Action σ (Option Node)}
  {visit : Visitor σ ε Hash} {kids : Hash → List Hash} {P : σ → Prop} {root id : Hash}
  {order : List Hash} {s t : σ}

/-- A walk at an identifier: it is visited, then its children are asked for. -/
inductive Station (children : Hash → Action σ (List Hash)) (visit : Visitor σ ε Hash) (id : Hash)
    (s : σ) : List Hash → Except (WalkError ε) Unit → σ → Prop
  | visitor {t : σ} {e : ε} (visited : (visit id).run s = (.error e, t)) :
    Station children visit id s [id] (.error (.visitor id e)) t
  | store {t u : σ} {e : StoreError} (visited : (visit id).run s = (.ok (), t))
    (listed : (children id).run t = (.error e, u)) :
    Station children visit id s [id] (.error (.store id e)) u
  | passed {t u : σ} {cs : List Hash} (visited : (visit id).run s = (.ok (), t))
    (listed : (children id).run t = (.ok cs, u)) : Station children visit id s [id] (.ok ()) u

inductive NodeStation (children : Hash → Action σ (List Hash))
    (get : Hash → Action σ (Option Node)) (visit : Visitor σ ε Node) (id : Hash) (s : σ) :
    List Node → Except (WalkError ε) Unit → σ → Prop
  | unknown {t : σ} {e : StoreError} (found : (get id).run s = (.error e, t)) :
    NodeStation children get visit id s [] (.error (.store id e)) t
  | unresolved {t : σ} (found : (get id).run s = (.ok none, t)) :
    NodeStation children get visit id s [] (.error (.unresolved id)) t
  | visitor {t u : σ} {n : Node} {e : ε} (found : (get id).run s = (.ok (some n), t))
    (visited : (visit n).run t = (.error e, u)) :
    NodeStation children get visit id s [n] (.error (.visitor id e)) u
  | store {t u v : σ} {n : Node} {e : StoreError} (found : (get id).run s = (.ok (some n), t))
    (visited : (visit n).run t = (.ok (), u)) (listed : (children id).run u = (.error e, v)) :
    NodeStation children get visit id s [n] (.error (.store id e)) v
  | passed {t u v : σ} {n : Node} {cs : List Hash} (found : (get id).run s = (.ok (some n), t))
    (visited : (visit n).run t = (.ok (), u)) (listed : (children id).run u = (.ok cs, v)) :
    NodeStation children get visit id s [n] (.ok ()) v

inductive Asking (children : Hash → Action σ (List Hash)) (id : Hash) (s : σ) :
    List Hash → Except (WalkError ε) Unit → σ → Prop
  | failed {t : σ} {e : StoreError} (listed : (children id).run s = (.error e, t)) :
    Asking children id s [id] (.error (.store id e)) t
  | passed {t : σ} {cs : List Hash} (listed : (children id).run s = (.ok cs, t)) :
    Asking children id s [id] (.ok ()) t

theorem Station.calls_eq {calls : List Hash} {r : Except (WalkError ε) Unit}
    (h : Station children visit id s calls r t) : calls = [id] := by
  cases h <;> rfl

/-- The identifiers that wait are the next ones of the order, and what was seen is what the visited
ones have named, by induction on how many may still be visited. -/
theorem tour_visitAll (horder : Swept kids root order)
    (hkids : ∀ id, Gives P (fun _ => True) (children id) (kids id))
    (hvisit : ∀ id, Stays P (visit id)) {bound : Nat} {visited queue rest : List Hash}
    (hseen : visited ++ queue = (root :: visited.flatMap kids).eraseDups)
    (hrest : visited ++ rest = order) (hb : order.length ≤ visited.length + bound) (hs : P s) :
    ∃ calls r t, (visitAll children visit bound queue (visited ++ queue)).run s = (r, t) ∧
      Tour (Station children visit) rest s calls r t := by
  induction bound generalizing visited queue rest s with
  | zero =>
    obtain ⟨rfl, rfl⟩ : rest = [] ∧ queue = [] := by
      have hnamed := (horder.named_prefix ⟨rest, hrest⟩).length_le
      rw [← hseen, List.length_append] at hnamed
      rw [← hrest, List.length_append] at hb
      rw [← List.length_eq_zero_iff, ← List.length_eq_zero_iff]
      rw [← hrest, List.length_append] at hnamed
      omega
    exact ⟨[], .ok (), s, rfl, .done⟩
  | succ bound ih =>
    cases queue with
    | nil =>
      rw [List.append_nil] at hseen
      obtain rfl : rest = [] := by
        rw [← horder.eq_of_named_eq ⟨rest, hrest⟩ hseen] at hrest
        simpa using hrest
      exact ⟨[], .ok (), s, rfl, .done⟩
    | cons id queue =>
      obtain ⟨rest, rfl⟩ : ∃ rest', rest = id :: rest' := by
        have hnamed := horder.named_prefix ⟨rest, hrest⟩
        rw [← hseen, ← hrest, List.prefix_append_right_inj] at hnamed
        obtain ⟨more, rfl⟩ := hnamed
        exact ⟨_, List.cons_append⟩
      have hstep := sweep_step hseen
      rw [List.append_cons, List.append_assoc] at hstep
      rw [List.append_cons] at hrest
      obtain ⟨⟨e | _, t⟩, hv⟩ : ∃ x, (visit id).run s = x := ⟨_, rfl⟩
      · exact ⟨[id], _, t, run_bind_error (run_adapt _ hv), .failed (.visitor hv)⟩
      have ht := hvisit id hv hs
      obtain ⟨⟨e | cs, u⟩, hc⟩ : ∃ x, (children id).run t = x := ⟨_, rfl⟩
      · refine ⟨[id], .error (.store id e), u, ?_, .failed (.store hv hc)⟩
        exact (run_bind_ok (run_adapt _ hv)).trans (run_bind_error (run_adapt _ hc))
      obtain ⟨rfl, hu⟩ := hkids id hc ht
      obtain ⟨calls, r, w, hrun, htour⟩ := ih hstep hrest (by simp; omega) hu
      refine ⟨[id] ++ calls, r, w, ?_, .next (.passed hv hc) htour⟩
      rw [← hrun]
      refine (run_bind_ok (run_adapt _ hv)).trans ((run_bind_ok (run_adapt _ hc)).trans ?_)
      simp

theorem run_of_null {g : Ground σ} (hroot : root.isNull = true) :
    run g root visit = throw .missingRoot := by
  unfold run
  rw [if_pos hroot]
  rfl

theorem run_eq {g : Ground σ} (hroot : root.isNull = false) :
    run g root visit = visitAll g.children visit (g.reach + 1) [root] [root] := by
  unfold run
  rw [if_neg (by simp [hroot])]

theorem Plan.run_eq {g : Ground σ} (hroot : root.isNull = false) :
    Plan.run ⟨some g, some root, some visit⟩ = Walk.run g root visit := by
  unfold Plan.run
  simp only [Option.filter_some, hroot, Bool.not_false, if_true]

/-- A walk goes along the order that its ground spans. -/
theorem tour_run {g : Ground σ} (hg : g.Spans P kids root order) (visit : Visitor σ ε Hash)
    (hvisit : ∀ id, Stays P (visit id)) (hs : P s) :
    ∃ calls r t, (run g root visit).run s = (r, t) ∧
      Tour (Station g.children visit) order s calls r t := by
  have hseen : [] ++ [root] = (root :: [].flatMap kids).eraseDups := rfl
  rw [run_eq hg.named]
  apply tour_visitAll hg.swept hg.tells hvisit hseen (List.nil_append order) _ hs
  rw [List.length_nil, Nat.zero_add]
  exact hg.reach

section Nodes

variable {visit : Visitor σ ε Node}

theorem of_run_resolving (h : (resolving get visit id).run s = (.ok (), t)) :
    ∃ n u, (get id).run s = (.ok (some n), u) ∧ (visit n).run u = (.ok (), t) := by
  rcases of_run_bind h with ⟨e, _, he⟩ | ⟨found, u, hg, hrest⟩
  · cases he
  cases found with
  | none => cases hrest
  | some n => exact ⟨n, u, of_run_adapt_ok hg, of_run_adapt_ok hrest⟩

theorem stays_resolving (hget : ∀ id, Stays P (get id)) (hvisit : ∀ n, Stays P (visit n))
    (id : Hash) : Stays P (resolving get visit id) := by
  intro s v t hrun hs
  obtain ⟨n, u, hg, hn⟩ := of_run_resolving hrun
  exact hvisit n hn (hget id hg hs)

theorem Station.resolve {calls : List Hash} {r : Except (WalkError (WalkError ε)) Unit}
    (h : Station children (resolving get visit) id s calls r t) :
    ∃ nodes, NodeStation children get visit id s nodes (r.mapError flatten) t := by
  cases h with
  | visitor hv =>
    rcases of_run_bind hv with ⟨e, he, heq⟩ | ⟨found, u, hg, hrest⟩
    · obtain ⟨e, hg, rfl⟩ := of_run_adapt_error he
      cases heq
      exact ⟨[], .unknown hg⟩
    have hg := of_run_adapt_ok hg
    cases found with
    | none =>
      cases hrest
      exact ⟨[], .unresolved hg⟩
    | some n =>
      obtain ⟨e, hn, rfl⟩ := of_run_adapt_error hrest
      exact ⟨[n], .visitor hg hn⟩
  | store hv hc =>
    obtain ⟨n, u, hg, hn⟩ := of_run_resolving hv
    exact ⟨[n], .store hg hn hc⟩
  | passed hv hc =>
    obtain ⟨n, u, hg, hn⟩ := of_run_resolving hv
    exact ⟨[n], .passed hg hn hc⟩

theorem tour_runNodes {g : Ground σ} (hg : g.Spans P kids root order)
    (hget : ∀ id, Stays P (get id)) (hvisit : ∀ n, Stays P (visit n)) (hs : P s) :
    ∃ calls r t, (runNodes g get root visit).run s = (r, t) ∧
      Tour (NodeStation g.children get visit) order s calls r t := by
  obtain ⟨_, r, t, hrun, htour⟩ :=
    tour_run hg (resolving get visit) (stays_resolving hget hvisit) hs
  obtain ⟨calls, htour⟩ := htour.map (f := id) fun _ _ _ _ _ h => h.resolve
  exact ⟨calls, r.mapError flatten, t, run_adapt flatten hrun, htour⟩

end Nodes

end Walk

end Grove
