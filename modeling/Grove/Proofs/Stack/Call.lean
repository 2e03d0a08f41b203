import Grove.Proofs.Stack.Mimic

/-! # Calls of a store

What can be asked of any store, with what it answers. A store that mimics a memory answers each call
as the memory does, and copies the same nodes to the same effect, so a run of calls that add known
nodes cannot tell them apart.
-/

namespace Grove

open Grove.Action Cache

namespace Store

variable {ω σ τ : Type}

/-- A call of a store. Copies go to stores that share a state `τ`. -/
inductive Call (ω τ : Type) where
  | get (id : Hash)
  | identity (id : Hash)
  | community (id : Hash)
  | conversation (place id : Hash)
  | reply (place thread id : Hash)
  | children (id : Hash)
  | recent (kind : NodeKind) (count : Nat)
  | add (n : Node)
  | removeSubtree (id : Hash)
  | copyInto (target : Store ω τ)

inductive Answer where
  | node (found : Option Node)
  | ids (found : List Hash)
  | nodes (found : List Node)
  | done
  deriving DecidableEq, Repr

namespace Call

def added : Call ω τ → List Node
  | add n => [n]
  | _ => []

/-- The call on the store, whose copies go beside it. -/
def perform (s : Store ω σ) : Call ω τ → Action ((σ × τ) × ω) Answer
  | get id => return .node (← (s.get id).front)
  | identity id => return .node (← (s.getIdentity id).front)
  | community id => return .node (← (s.getCommunity id).front)
  | conversation place id => return .node (← (s.getConversation place id).front)
  | reply place thread id => return .node (← (s.getReply place thread id).front)
  | children id => return .ids (← (s.children id).front)
  | recent kind count => return .nodes (← (s.recent kind count).front)
  | add n => do
    (s.add n).front
    return .done
  | removeSubtree id => do
    (s.removeSubtree id).front
    return .done
  | copyInto target => do
    s.copyInto target
    return .done

end Call

def performAll (s : Store ω σ) (calls : List (Call ω τ)) :
    StateM ((σ × τ) × ω) (List (Except StoreError Answer)) :=
  calls.mapM fun c => (c.perform s).run

/-- What a run shows: all that the calls return, what they copied to, and what all stores share. -/
def observe (s : Store ω σ) (calls : List (Call ω τ)) (start : σ) (target : τ) (w : ω) :
    List (Except StoreError Answer) × τ × ω :=
  let (results, t) := (s.performAll calls).run ((start, target), w)
  (results, t.1.2, t.2)

theorem run_performAll_cons {s : Store ω σ} {c : Call ω τ} {x y : (σ × τ) × ω}
    {r : Except StoreError Answer} (h : (c.perform s).run x = (r, y)) (calls : List (Call ω τ)) :
    (s.performAll (c :: calls)).run x =
      (r :: ((s.performAll calls).run y).1, ((s.performAll calls).run y).2) := by
  have h : StateT.run (c.perform s).run x = (r, y) := h
  rw [performAll, List.mapM_cons, StateT.run_bind, h]
  rfl

variable {s : Store ω σ} {known : List Node} {rel : σ → Memory → Prop} {m m' : Memory} {t : τ}
  {w : ω} {α : Type} {r : Except StoreError α}

theorem Mimics.leads_filter (h : s.Mimics known rel) (m : Memory) (w : ω) (id : Hash)
    (p : Node → Bool) :
    Leads (StandsFor rel m w) (s.get id >>= fun found => pure (found.filter p))
      (.ok ((m.get? id).filter p)) (StandsFor rel m w) :=
  (h.get m w id).bind (leads_pure _)

theorem Mimics.leads_copyInto (h : s.Mimics known rel) (target : Store ω τ) (m : Memory) (t : τ)
    (w : ω) :
    Leads (Tiers (rel · m) (· = t) w) (s.copyInto target)
      ((target.addAll m.nodes).run (t, w)).1
      (Tiers (rel · m) (· = ((target.addAll m.nodes).run (t, w)).2.1)
        ((target.addAll m.nodes).run (t, w)).2.2) := by
  refine (leads_front (h.nodes m w)).bind ?_
  rintro ⟨⟨u, _⟩, _⟩ ⟨hu, rfl, rfl⟩
  exact ⟨_, rfl, hu, rfl, rfl⟩

/-- A call has one outcome on all stores whose states stand for one memory. -/
theorem Call.exists_leads (c : Call ω τ) (hc : Consistent known) (hadded : c.added ⊆ known)
    (hm : m.Within known) (t : τ) (w : ω) :
    ∃ r m' t' w', ∀ (σ : Type) (s : Store ω σ) (rel : σ → Memory → Prop), s.Mimics known rel →
      Leads (Tiers (rel · m) (· = t) w) (c.perform s) r (Tiers (rel · m') (· = t') w') := by
  cases c with
  | get id =>
    exact ⟨_, m, t, w, fun _ _ _ h => (leads_front (h.get m w id)).bind (leads_pure _)⟩
  | identity id =>
    exact ⟨_, m, t, w, fun _ _ _ h =>
      (leads_front (h.leads_filter m w id _)).bind (leads_pure _)⟩
  | community id =>
    exact ⟨_, m, t, w, fun _ _ _ h =>
      (leads_front (h.leads_filter m w id _)).bind (leads_pure _)⟩
  | conversation place id =>
    exact ⟨_, m, t, w, fun _ _ _ h =>
      (leads_front (h.leads_filter m w id _)).bind (leads_pure _)⟩
  | reply place thread id =>
    exact ⟨_, m, t, w, fun _ _ _ h =>
      (leads_front (h.leads_filter m w id _)).bind (leads_pure _)⟩
  | children id =>
    exact ⟨_, m, t, w, fun _ _ _ h => (leads_front (h.children m w id)).bind (leads_pure _)⟩
  | recent kind count =>
    exact ⟨_, m, t, w, fun _ _ _ h =>
      (leads_front (h.recent m w kind count)).bind (leads_pure _)⟩
  | add n =>
    have hn : n ∈ known := hadded List.mem_cons_self
    exact ⟨_, m.add n, t, w, fun _ _ _ h => (leads_front (h.add m w hn)).bind (leads_pure _)⟩
  | removeSubtree id =>
    obtain hid | ⟨n, hid⟩ := (m.get? id).eq_none_or_eq_some
    · exact ⟨_, m, t, w, fun _ _ _ h =>
        (leads_front (h.removeSubtree_of_absent m w hid)).bind_error⟩
    · obtain ⟨ids, hids⟩ := hm.rows_eq_some hc (Nat.lt_succ_self _) id
      exact ⟨_, m.without ids, t, w, fun _ _ _ h =>
        (leads_front (h.removeSubtree_of_rows m w hid hids)).bind (leads_pure _)⟩
  | copyInto target =>
    cases hcopy : ((target.addAll m.nodes).run (t, w)).1 with
    | error e =>
      exact ⟨_, m, _, _, fun _ _ _ h => (hcopy ▸ h.leads_copyInto target m t w).bind_error⟩
    | ok =>
      exact ⟨_, m, _, _, fun _ _ _ h =>
        (hcopy ▸ h.leads_copyInto target m t w).bind (leads_pure _)⟩

theorem exists_performAll {calls : List (Call ω τ)} (hc : Consistent known)
    (hadded : calls.flatMap Call.added ⊆ known) (hm : m.Within known) (t : τ) (w : ω) :
    ∃ rs m' t' w', ∀ (σ : Type) (s : Store ω σ) (rel : σ → Memory → Prop), s.Mimics known rel →
      ∀ x, rel x m → ∃ x', (s.performAll calls).run ((x, t), w) = (rs, ((x', t'), w')) ∧
        rel x' m' := by
  induction calls generalizing m t w with
  | nil => exact ⟨[], m, t, w, fun _ _ _ _ x hx => ⟨x, rfl, hx⟩⟩
  | cons c calls ih =>
    rw [List.flatMap_cons, List.append_subset] at hadded
    obtain ⟨r, m', t', w', hcall⟩ := c.exists_leads hc hadded.1 hm t w
    obtain ⟨_, -, hm', -⟩ := hcall _ _ _ (Memory.mimics hc) ((m, t), w) ⟨⟨rfl, hm⟩, rfl, rfl⟩
    obtain ⟨rs, m'', t'', w'', hrest⟩ := ih hadded.2 hm'.2 t' w'
    refine ⟨r :: rs, m'', t'', w'', fun σ s rel h x hx => ?_⟩
    obtain ⟨⟨⟨x', _⟩, _⟩, hrun, hx', rfl, rfl⟩ := hcall _ _ _ h ((x, t), w) ⟨hx, rfl, rfl⟩
    obtain ⟨x'', hruns, hx''⟩ := hrest _ _ _ h x' hx'
    exact ⟨x'', by rw [run_performAll_cons hrun, hruns], hx''⟩

/-- Two stores show the same from states that stand for one memory. -/
theorem Mimics.observe_eq {σ' : Type} {s' : Store ω σ'} {rel' : σ' → Memory → Prop}
    (h : s.Mimics known rel) (h' : s'.Mimics known rel') (hc : Consistent known)
    {calls : List (Call ω τ)} (hadded : calls.flatMap Call.added ⊆ known) {x : σ} {y : σ'}
    (hx : rel x m) (hy : rel' y m) (t : τ) (w : ω) :
    s.observe calls x t w = s'.observe calls y t w := by
  obtain ⟨rs, m', t', w', hall⟩ := exists_performAll hc hadded (h.within hx) t w
  obtain ⟨_, hrun, -⟩ := hall _ _ _ h x hx
  obtain ⟨_, hrun', -⟩ := hall _ _ _ h' y hy
  rw [observe, observe, hrun, hrun']

end Store

end Grove
