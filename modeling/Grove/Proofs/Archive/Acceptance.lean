import Grove.Proofs.Archive.Run
import Grove.Proofs.Store.Tier

/-! # How a node is accepted

A call that adds a node first asks the wrapped store whether the node is wanted: whether it is
absent and, with validation, valid. Only then the subscribers hear of it, those before the store has
the node and, if the store takes it, those after. A hook that does not return closes the archive on
the way.
-/

namespace Grove.Archive

open Grove.Action

variable {ω σ α β : Type} {inner : Store ω σ} {a b : Archive σ} {x y : σ} {w w' w'' : ω}
  {phase : Phase} {node : Hash} {n : Node}

def Call.node? : Call → Option Node
  | addAs n _ | addValidated n _ => some n
  | _ => none

/-- Who does not hear of what a call adds. -/
def Call.excluded : Call → Subscription
  | addAs _ excluded => excluded
  | _ => .none

def ifAbsent (inner : Store ω σ) (n : Node) : Action (σ × ω) (Option Node) := do
  if (← inner.get n.id).isSome then return none
  return some n

/-- Asks the wrapped store whether the node of the call is to be added. -/
def Call.wants (inner : Store ω σ) : Call → Action (σ × ω) (Option Node)
  | addAs n _ => ifAbsent inner n
  | addValidated n verify => do
    if (← inner.get n.id).isSome then return none
    n.checkDeep inner.get verify
    ifAbsent inner n
  | _ => return none

/-- Adds what is wanted, between the notifications. -/
def proclaim (inner : Store ω σ) (excluded : Subscription) :
    Option Node → Action (Archive σ × ω) Unit
  | none => return
  | some n => do
    notify .preAdd n.id excluded
    within (inner.add n)
    notify .postAdd n.id excluded

theorem proclaim_some (excluded : Subscription) (n : Node) :
    proclaim inner excluded (some n) = notify .preAdd n.id excluded >>= fun _ =>
      within (inner.add n) >>= fun _ => notify .postAdd n.id excluded :=
  rfl

theorem within_bind (z : Action (σ × ω) α) (f : α → Action (σ × ω) β) :
    within (z >>= f) = within z >>= fun v => within (f v) := by
  refine ExceptT.ext (StateT.ext fun ⟨a, w⟩ => ?_)
  obtain ⟨⟨e | v, x, w'⟩, hz⟩ : ∃ r, z.run (a.inner, w) = r := ⟨_, rfl⟩
  · exact (run_within (run_bind_error hz)).trans (run_bind_error (run_within hz)).symm
  · have hleft : (within (z >>= f)).run (a, w) = (((f v).run (x, w')).1,
        { a with inner := ((f v).run (x, w')).2.1 }, ((f v).run (x, w')).2.2) :=
      run_within (run_bind_ok hz)
    have hright : (within z >>= fun v => within (f v)).run (a, w) =
        (within (f v)).run ({ a with inner := x }, w') := run_bind_ok (run_within hz)
    exact hleft.trans hright.symm

theorem accept_eq (n : Node) (excluded : Subscription) :
    accept inner n excluded = within (ifAbsent inner n) >>= proclaim inner excluded := by
  rw [ifAbsent, within_bind, bind_assoc]
  refine bind_congr fun found => ?_
  cases found <;> rfl

theorem Call.perform_eq {c : Call} (hc : c.node? = some n) (hopen : a.isOpen = true) :
    c.perform inner (a, w) =
      final (within (c.wants inner) >>= proclaim inner c.excluded) (a, w) := by
  cases c with
  | addAs n excluded =>
    refine congrArg Prod.snd ((run_whileOpen hopen _).trans ?_)
    rw [accept_eq]
    rfl
  | addValidated n verify =>
    refine congrArg Prod.snd ((run_whileOpen hopen _).trans ?_)
    rw [accept_eq, wants, within_bind, bind_assoc]
    refine congrArg (fun z : Action _ _ => z.run (a, w)) (bind_congr fun found => ?_)
    cases found with
    | some _ => rfl
    | none =>
      show _ = within (_ >>= _) >>= _
      rw [within_bind, bind_assoc]
      rfl
  | ask | removeSubtree | subscribe | unsubscribe | destroy => exact absurd hc nofun

theorem Call.perform_of_closed {c : Call} (hc : c.node? = some n) (hclosed : a.isOpen = false) :
    c.perform inner (a, w) = (a, w) := by
  have hrefused : ∀ z : Action (Archive σ × ω) Unit, final (whileOpen z) (a, w) = (a, w) := by
    intro z
    show (ExceptT.run (ite (a.isOpen = true) z _) (a, w)).2 = (a, w)
    rw [if_neg (by simp [hclosed])]
    rfl
  cases c with
  | addAs | addValidated => exact hrefused _
  | ask | removeSubtree | subscribe | unsubscribe | destroy => simp [node?] at hc

/-- What the hooks of a phase are told of a node, unless one does not return. -/
def told (a : Archive σ) (phase : Phase) (node : Hash) (excluded : Subscription) :
    List Notification :=
  ((a.hooks.registry phase).filter fun entry => entry.1 ≠ excluded).map fun entry =>
    ⟨phase, entry.1, entry.2, node⟩

theorem of_mem_told {excluded : Subscription} {e : Notification}
    (h : e ∈ a.told phase node excluded) : e.phase = phase ∧ e.node = node := by
  obtain ⟨entry, -, rfl⟩ := List.mem_map.1 h
  exact ⟨rfl, rfl⟩

/-- The archive was closed by a hook that did not return, after it and those before it were told. -/
structure Stopped (a b : Archive σ) (told : List Notification) : Prop where
  closed : b.isOpen = false
  inner : b.inner = a.inner
  hooks : b.hooks = a.hooks
  log : ∃ heard, heard <+: told ∧ b.log = a.log ++ heard
  broken : ∃ e ∈ told, e.hook.returns = false

theorem run_call_of_not_returns {entry : Subscription × Hook} (hr : entry.2.returns = false) :
    (call phase node entry.1 entry.2).run (a, w) =
      (.error .closed,
        { a with log := a.log ++ [⟨phase, entry.1, entry.2, node⟩], isOpen := false }, w) := by
  have hmodify : (modify fun s => ({ s.1 with
        log := s.1.log ++ [⟨phase, entry.1, entry.2, node⟩], isOpen := entry.2.returns }, s.2) :
      Action (Archive σ × ω) Unit).run (a, w) =
        (.ok (), { a with log := a.log ++ [⟨phase, entry.1, entry.2, node⟩], isOpen := false },
          w) := by
    rw [hr]
    rfl
  refine (run_bind_ok hmodify).trans ?_
  rw [hr]
  rfl

theorem run_calls_or_stop (hopen : a.isOpen = true) (heard : List (Subscription × Hook)) :
    (heard.forM fun (s, hook) => call phase node s hook : Action (Archive σ × ω) Unit).run (a, w) =
        (.ok (), { a with log := a.log ++ heard.map fun entry => ⟨phase, entry.1, entry.2, node⟩ },
          w) ∨
      ∃ e b, (heard.forM fun (s, hook) => call phase node s hook :
          Action (Archive σ × ω) Unit).run (a, w) = (.error e, b, w) ∧
        a.Stopped b (heard.map fun entry => ⟨phase, entry.1, entry.2, node⟩) := by
  induction heard generalizing a with
  | nil => exact .inl (run_calls hopen (by simp))
  | cons entry heard ih =>
    cases hr : entry.2.returns with
    | false =>
      refine .inr ⟨_, _, run_bind_error (run_call_of_not_returns hr), rfl, rfl, rfl, ?_, ?_⟩
      · exact ⟨[_], ⟨_, rfl⟩, rfl⟩
      · exact ⟨_, List.mem_cons_self, hr⟩
    | true =>
      have hcall : (call phase node entry.1 entry.2).run (a, w) =
          (.ok (), { a with log := a.log ++ [⟨phase, entry.1, entry.2, node⟩] }, w) :=
        run_call hopen hr
      rcases ih (a := { a with log := a.log ++ [⟨phase, entry.1, entry.2, node⟩] }) hopen with
        hrest | ⟨e, b, hrest, hb⟩
      · left
        refine (run_bind_ok hcall).trans (hrest.trans ?_)
        rw [List.map_cons, List.append_assoc, List.singleton_append]
      · right
        obtain ⟨heard', hprefix, hlog⟩ := hb.log
        obtain ⟨broken, hb'⟩ := hb.broken
        refine ⟨e, b, (run_bind_ok hcall).trans hrest, hb.closed, hb.inner, hb.hooks, ?_, ?_⟩
        · refine ⟨_ :: heard', List.cons_prefix_cons.2 ⟨rfl, hprefix⟩, ?_⟩
          rw [hlog, List.append_assoc, List.singleton_append]
        · exact ⟨broken, List.mem_cons_of_mem _ hb'.1, hb'.2⟩

/-- Either all hooks are told, or the first that does not return closes the archive. -/
theorem run_notify (hopen : a.isOpen = true) (phase : Phase) (node : Hash)
    (excluded : Subscription) :
    (notify phase node excluded).run (a, w) = (.ok (), a.tell phase node excluded, w) ∨
      ∃ e b, (notify phase node excluded).run (a, w) = (.error e, b, w) ∧
        a.Stopped b (a.told phase node excluded) :=
  run_calls_or_stop hopen _

/-- How a call that adds can end. -/
inductive Course (inner : Store ω σ) (c : Call) (a : Archive σ) (w : ω) : Archive σ × ω → Prop where
  | declined {r : Except StoreError (Option Node)} {x : σ} {w' : ω}
      (asked : (c.wants inner).run (a.inner, w) = (r, x, w')) (unwanted : ∀ n, r ≠ .ok (some n)) :
      Course inner c a w ({ a with inner := x }, w')
  | barred {n : Node} {x : σ} {w' : ω} {b : Archive σ}
      (asked : (c.wants inner).run (a.inner, w) = (.ok (some n), x, w'))
      (stopped : { a with inner := x }.Stopped b (a.told .preAdd n.id c.excluded)) :
      Course inner c a w (b, w')
  | failed {n : Node} {x y : σ} {w' w'' : ω} {e : StoreError}
      (asked : (c.wants inner).run (a.inner, w) = (.ok (some n), x, w'))
      (refused : (inner.add n).run (x, w') = (.error e, y, w'')) :
      Course inner c a w ({ a.tell .preAdd n.id c.excluded with inner := y }, w'')
  | cut {n : Node} {x y : σ} {w' w'' : ω} {b : Archive σ}
      (asked : (c.wants inner).run (a.inner, w) = (.ok (some n), x, w'))
      (added : (inner.add n).run (x, w') = (.ok (), y, w''))
      (stopped : { a.tell .preAdd n.id c.excluded with inner := y }.Stopped b
        (a.told .postAdd n.id c.excluded)) :
      Course inner c a w (b, w'')
  | accepted {n : Node} {x y : σ} {w' w'' : ω}
      (asked : (c.wants inner).run (a.inner, w) = (.ok (some n), x, w'))
      (added : (inner.add n).run (x, w') = (.ok (), y, w'')) :
      Course inner c a w ({ (a.tell .preAdd n.id c.excluded).tell .postAdd n.id c.excluded with
        inner := y }, w'')

theorem final_bind_ok {τ : Type} {z : Action τ α} {f : α → Action τ β} {s t : τ} {v : α}
    (h : z.run s = (.ok v, t)) : final (z >>= f) s = final (f v) t :=
  congrArg Prod.snd (run_bind_ok h)

theorem final_bind_error {τ : Type} {z : Action τ α} {f : α → Action τ β} {s t : τ}
    {e : StoreError} (h : z.run s = (.error e, t)) : final (z >>= f) s = t :=
  congrArg Prod.snd (run_bind_error h)

theorem Call.course {c : Call} (hc : c.node? = some n) (hopen : a.isOpen = true) :
    Course inner c a w (c.perform inner (a, w)) := by
  rw [perform_eq hc hopen]
  obtain ⟨⟨r, x, w'⟩, hasked⟩ : ∃ r, (c.wants inner).run (a.inner, w) = r := ⟨_, rfl⟩
  have hasked' := run_within hasked
  obtain e | _ | n := r
  · rw [final_bind_error hasked']
    exact .declined hasked (by simp)
  · rw [final_bind_ok hasked']
    show Course inner c a w ({ a with inner := x }, w')
    exact .declined hasked (by simp)
  rw [final_bind_ok hasked', proclaim_some]
  rcases run_notify (a := { a with inner := x }) (w := w') hopen .preAdd n.id c.excluded with
    hpre | ⟨e, b, hpre, hb⟩
  · rw [final_bind_ok hpre]
    obtain ⟨⟨e | _, y, w''⟩, hadd⟩ : ∃ r, (inner.add n).run (x, w') = r := ⟨_, rfl⟩ <;>
      have hadd' := run_within (a := { a with inner := x }.tell .preAdd n.id c.excluded) hadd
    · rw [final_bind_error hadd']
      exact .failed hasked hadd
    · rw [final_bind_ok hadd']
      rcases run_notify (w := w'')
        (a := { ({ a with inner := x }.tell .preAdd n.id c.excluded) with inner := y }) hopen
        .postAdd n.id c.excluded with hpost | ⟨e, b, hpost, hb⟩
      · rw [final, hpost]
        exact .accepted hasked hadd
      · rw [final, hpost]
        exact .cut hasked hadd hb
  · rw [final_bind_error hpre]
    exact .barred hasked hb

section Wants

variable {P : σ × ω → Prop} {absent : Hash → Prop} {valid : Node → Verifier → Prop}

theorem ensures_ifAbsent
    (hget : ∀ id, (inner.get id).Ensures P fun found => found = none → absent id) (n : Node) :
    (ifAbsent inner n).Ensures P fun wanted => ∀ k, wanted = some k → n = k ∧ absent k.id := by
  refine (hget n.id).bind fun found hfound => ?_
  split
  · exact ensures_pure (by simp)
  · next hnone =>
    refine ensures_pure ?_
    rintro k ⟨⟩
    exact ⟨rfl, hfound (by simpa using hnone)⟩

theorem ensures_wants
    (hget : ∀ id, (inner.get id).Ensures P fun found => found = none → absent id)
    (hcheck : ∀ n verify, Ensures P (Node.checkDeep inner.get n verify) fun _ => valid n verify)
    (c : Call) : (c.wants inner).Ensures P fun wanted => ∀ k, wanted = some k →
      c.node? = some k ∧ absent k.id ∧ ∀ verify, c = .addValidated k verify → valid k verify := by
  cases c with
  | addAs n excluded =>
    refine (ensures_ifAbsent hget n).imp fun wanted hwanted k hk => ?_
    obtain ⟨rfl, habsent⟩ := hwanted k hk
    exact ⟨rfl, habsent, nofun⟩
  | addValidated n verify =>
    refine (hget n.id).bind fun found _ => ?_
    split
    · exact ensures_pure (by simp)
    refine (hcheck n verify).bind fun _ hvalid => ?_
    refine (ensures_ifAbsent hget n).imp fun wanted hwanted k hk => ?_
    obtain ⟨rfl, habsent⟩ := hwanted k hk
    refine ⟨rfl, habsent, ?_⟩
    rintro _ ⟨⟩
    exact hvalid
  | ask | removeSubtree | subscribe | unsubscribe | destroy => exact ensures_pure (by simp)

theorem ensures_wants_at (T : Tier inner) (held : Contents) (c : Call) :
    (c.wants inner).Ensures (T.At held) fun wanted => ∀ k, wanted = some k →
      c.node? = some k ∧ held.node? k.id = none ∧
        ∀ verify, c = .addValidated k verify → k.DeepValid held.node? verify := by
  have hget := fun id => T.tells_iff.1 (T.get id) held
  have habsent : ∀ id, (inner.get id).Ensures (T.At held) fun found =>
      found = none → held.node? id = none :=
    fun id => (hget id).ensures.imp fun _ hfound hnone => hfound.symm.trans hnone
  exact ensures_wants habsent (fun n verify => Node.ensures_checkDeep hget) c

end Wants

end Grove.Archive
