import Grove.Store.Basic

/-! # Actions that answer

An action answers in a state when it has a result there and leaves the state as it is. Answers
compose, so an action built from answers has the result that the same steps have without a state.
Where the state changes, an action leads from states of one kind to states of another, or gives a
value if it does not fail. Where the result does not matter, an action is said to keep a part of the
state.
-/

namespace Grove.Action

variable {σ α β ε : Type}

/-- In the state, the action has this result and changes nothing. -/
def Answers (a : Action σ α) (s : σ) (result : Except StoreError α) : Prop :=
  a.run s = (result, s)

theorem run_bind_ok {a : ExceptT ε (StateM σ) α} {f : α → ExceptT ε (StateM σ) β} {s t : σ} {v : α}
    (h : a.run s = (.ok v, t)) : (a >>= f).run s = (f v).run t := by
  show ExceptT.bindCont f (a.run s).1 (a.run s).2 = _
  rw [h]
  rfl

theorem run_bind_error {a : ExceptT ε (StateM σ) α} {f : α → ExceptT ε (StateM σ) β} {s t : σ}
    {e : ε} (h : a.run s = (.error e, t)) : (a >>= f).run s = (.error e, t) := by
  show ExceptT.bindCont f (a.run s).1 (a.run s).2 = _
  rw [h]
  rfl

theorem run_bind_congr {a : ExceptT ε (StateM σ) α} {s t : σ} (h : a.run s = a.run t)
    (f : α → ExceptT ε (StateM σ) β) : (a >>= f).run s = (a >>= f).run t := by
  show ExceptT.bindCont f (a.run s).1 (a.run s).2 = ExceptT.bindCont f (a.run t).1 (a.run t).2
  rw [h]

/-- Either the first step fails, or the rest goes on from where it ends. -/
theorem of_run_bind {a : ExceptT ε (StateM σ) α} {f : α → ExceptT ε (StateM σ) β} {s t : σ}
    {r : Except ε β} (h : (a >>= f).run s = (r, t)) :
    (∃ e, a.run s = (.error e, t) ∧ r = .error e) ∨
      ∃ v u, a.run s = (.ok v, u) ∧ (f v).run u = (r, t) := by
  obtain ⟨⟨e | v, u⟩, ha⟩ : ∃ x, a.run s = x := ⟨_, rfl⟩
  · obtain ⟨rfl, rfl⟩ := Prod.mk.inj ((run_bind_error ha).symm.trans h)
    exact .inl ⟨e, ha, rfl⟩
  · exact .inr ⟨v, u, ha, (run_bind_ok ha).symm.trans h⟩

theorem run_adapt {ε' : Type} {a : ExceptT ε (StateM σ) α} {s t : σ} {r : Except ε α} (f : ε → ε')
    (h : a.run s = (r, t)) : (ExceptT.adapt f a).run s = (r.mapError f, t) := by
  show ((a.run s).1.mapError f, (a.run s).2) = _
  rw [h]

theorem of_run_adapt_ok {ε' : Type} {a : ExceptT ε (StateM σ) α} {s t : σ} {v : α} {f : ε → ε'}
    (h : (ExceptT.adapt f a).run s = (.ok v, t)) : a.run s = (.ok v, t) := by
  obtain ⟨⟨e | u, t'⟩, ha⟩ : ∃ x, a.run s = x := ⟨_, rfl⟩
  · cases (run_adapt f ha).symm.trans h
  · cases (run_adapt f ha).symm.trans h
    exact ha

theorem of_run_adapt_error {ε' : Type} {a : ExceptT ε (StateM σ) α} {s t : σ} {e' : ε'}
    {f : ε → ε'} (h : (ExceptT.adapt f a).run s = (.error e', t)) :
    ∃ e, a.run s = (.error e, t) ∧ f e = e' := by
  obtain ⟨⟨e | u, t'⟩, ha⟩ : ∃ x, a.run s = x := ⟨_, rfl⟩
  · cases (run_adapt f ha).symm.trans h
    exact ⟨e, ha, rfl⟩
  · cases (run_adapt f ha).symm.trans h

theorem run_change_on {ω : Type} {f : σ → Except StoreError σ} {s : σ} {w : ω} :
    ((change f).on Prod.fst fun s (t : σ × ω) => (s, t.2)).run (s, w) =
      match f s with
      | .ok t => (.ok (), t, w)
      | .error e => (.error e, s, w) := by
  show (fun r : Except StoreError Unit × σ => (r.1, r.2, w))
    ((change.liftExcept (f s) >>= set).run s) = _
  cases f s <;> rfl

variable {s : σ}

theorem answers_pure (a : α) : Answers (pure a) s (pure a) :=
  rfl

theorem answers_throw (e : StoreError) : Answers (throw e : Action σ α) s (throw e) :=
  rfl

theorem Answers.bind {a : Action σ α} {f : α → Action σ β} {x : Except StoreError α}
    {g : α → Except StoreError β} (ha : a.Answers s x) (hf : ∀ v, (f v).Answers s (g v)) :
    Answers (a >>= f) s (x >>= g) := by
  cases x with
  | error e => exact run_bind_error ha
  | ok v => exact (run_bind_ok ha).trans (hf v)

section Leads

variable {P Q R : σ → Prop} {r : Except StoreError α}

/-- From all states of the first kind, the action ends with this result in one of the second. -/
def Leads (P : σ → Prop) (a : Action σ α) (r : Except StoreError α) (Q : σ → Prop) : Prop :=
  ∀ s, P s → ∃ t, a.run s = (r, t) ∧ Q t

theorem leads_pure (v : α) : Leads P (pure v) (.ok v) P :=
  fun s hs => ⟨s, rfl, hs⟩

theorem Leads.bind {a : Action σ α} {f : α → Action σ β} {v : α} {r : Except StoreError β}
    (ha : Leads P a (.ok v) Q) (hf : Leads Q (f v) r R) : Leads P (a >>= f) r R := by
  intro s hs
  obtain ⟨t, ht, hq⟩ := ha s hs
  obtain ⟨u, hu, hr⟩ := hf t hq
  exact ⟨u, (run_bind_ok ht).trans hu, hr⟩

theorem Leads.bind_error {a : Action σ α} {f : α → Action σ β} {e : StoreError}
    (ha : Leads P a (.error e) Q) : Leads P (a >>= f) (.error e) Q := by
  intro s hs
  obtain ⟨t, ht, hq⟩ := ha s hs
  exact ⟨t, run_bind_error ht, hq⟩

theorem Leads.on {τ : Type} {part : τ → σ} {put : σ → τ → τ} {a : Action σ α} {P' Q' : τ → Prop}
    (ha : Leads P a r Q) (hpart : ∀ t, P' t → P (part t))
    (hput : ∀ s t, Q s → P' t → Q' (put s t)) : Leads P' (a.on part put) r Q' := by
  intro t ht
  obtain ⟨s, hs, hq⟩ := ha (part t) (hpart t ht)
  refine ⟨put s t, ?_, hput s t hq ht⟩
  show ((a.run (part t)).1, put (a.run (part t)).2 t) = _
  rw [hs]

end Leads

section Gives

variable {P E : σ → Prop} {a : Action σ α} {v : α}

/-- From states of the first kind, the action returns this value in such a state, or fails in a
state of the second kind. -/
def Gives (P E : σ → Prop) (a : Action σ α) (v : α) : Prop :=
  ∀ ⦃s r t⦄, a.run s = (r, t) → P s →
    match r with
    | .ok u => u = v ∧ P t
    | .error _ => E t

theorem Leads.gives (h : Leads P a (.ok v) P) : Gives P E a v := by
  intro s r t hrun hs
  obtain ⟨u, hu, hq⟩ := h s hs
  obtain ⟨rfl, rfl⟩ := Prod.mk.inj (hu.symm.trans hrun)
  exact ⟨rfl, hq⟩

theorem Gives.leads (h : Gives P (fun _ => False) a v) : Leads P a (.ok v) P := by
  intro s hs
  obtain ⟨⟨e | u, t⟩, hrun⟩ : ∃ x, a.run s = x := ⟨_, rfl⟩
  · exact (h hrun hs).elim
  · obtain ⟨rfl, ht⟩ := h hrun hs
    exact ⟨t, hrun, ht⟩

theorem gives_pure (v : α) : Gives P E (pure v) v :=
  (leads_pure v).gives

theorem gives_throw (h : ∀ s, P s → E s) (e : StoreError) (v : α) : Gives P E (throw e) v := by
  rintro s _ _ ⟨⟩ hs
  exact h s hs

theorem Gives.bind {f : α → Action σ β} {u : β} (ha : Gives P E a v) (hf : Gives P E (f v) u) :
    Gives P E (a >>= f) u := by
  intro s r t hrun hs
  rcases of_run_bind hrun with ⟨e, he, rfl⟩ | ⟨x, t', hx, hrest⟩
  · exact ha he hs
  · obtain ⟨rfl, ht'⟩ := ha hx hs
    exact hf hrest ht'

theorem Gives.mapM {γ : Type} {f : γ → Action σ α} {g : γ → α} (hf : ∀ x, Gives P E (f x) (g x))
    (l : List γ) : Gives P E (l.mapM f) (l.map g) := by
  induction l with
  | nil => exact gives_pure _
  | cons x l ih =>
    rw [List.mapM_cons]
    exact (hf x).bind (ih.bind (gives_pure _))

end Gives

section Ensures

variable {P : σ → Prop} {Q Q' : α → Prop} {a : Action σ α} {x : Except StoreError α}

/-- From such states the action ends in one, and returns only such values. -/
def Ensures (P : σ → Prop) (a : Action σ α) (Q : α → Prop) : Prop :=
  ∀ ⦃s r t⦄, a.run s = (r, t) → P s → P t ∧ ∀ v, r = .ok v → Q v

theorem ensures_pure {v : α} (h : Q v) : Ensures P (pure v) Q := by
  rintro s _ _ ⟨⟩ hs
  refine ⟨hs, ?_⟩
  rintro _ ⟨⟩
  exact h

theorem ensures_throw (e : StoreError) : Ensures P (throw e) Q := by
  rintro s _ _ ⟨⟩ hs
  exact ⟨hs, nofun⟩

theorem Ensures.bind {f : α → Action σ β} {R : β → Prop} (ha : Ensures P a Q)
    (hf : ∀ v, Q v → Ensures P (f v) R) : Ensures P (a >>= f) R := by
  intro s r t hrun hs
  rcases of_run_bind hrun with ⟨e, he, rfl⟩ | ⟨v, u, hv, hrest⟩
  · exact ⟨(ha he hs).1, nofun⟩
  · obtain ⟨hu, hq⟩ := ha hv hs
    exact hf v (hq v rfl) hrest hu

theorem Ensures.imp (ha : Ensures P a Q) (h : ∀ v, Q v → Q' v) : Ensures P a Q' := by
  intro s r t hrun hs
  obtain ⟨ht, hq⟩ := ha hrun hs
  exact ⟨ht, fun v hv => h v (hq v hv)⟩

theorem Gives.ensures {v : α} (h : Gives P P a v) : Ensures P a (· = v) := by
  rintro s (e | u) t hrun hs
  · exact ⟨h hrun hs, nofun⟩
  · obtain ⟨rfl, ht⟩ := h hrun hs
    refine ⟨ht, ?_⟩
    rintro _ ⟨⟩
    rfl

end Ensures

end Grove.Action

namespace Grove

def lookUp (lookup : Hash → Option Node) (id : Hash) : Except StoreError (Option Node) :=
  .ok (lookup id)

section Keeps

variable {σ τ ε α β : Type} {part : σ → τ}

/-- However the action ends, the part of the state is as it was before. -/
def Keeps (part : σ → τ) (a : ExceptT ε (StateM σ) α) : Prop :=
  ∀ s, part (a.run s).2 = part s

theorem keeps_pure (a : α) : Keeps part (pure a : ExceptT ε (StateM σ) α) :=
  fun _ => rfl

theorem keeps_throw (e : ε) : Keeps part (throw e : ExceptT ε (StateM σ) α) :=
  fun _ => rfl

theorem keeps_get : Keeps part (get : ExceptT ε (StateM σ) σ) :=
  fun _ => rfl

theorem Keeps.bind {a : ExceptT ε (StateM σ) α} {f : α → ExceptT ε (StateM σ) β}
    (ha : Keeps part a) (hf : ∀ v, Keeps part (f v)) : Keeps part (a >>= f) := by
  intro s
  have h := ha s
  show part (ExceptT.bindCont f (a.run s).1 (a.run s).2).2 = part s
  generalize a.run s = r at h
  obtain ⟨e | v, t⟩ := r
  · exact h
  · exact (hf v t).trans h

theorem keeps_ite {c : Prop} [Decidable c] {a b : ExceptT ε (StateM σ) α}
    (ha : Keeps part a) (hb : Keeps part b) : Keeps part (if c then a else b) := by
  split
  · exact ha
  · exact hb

theorem Keeps.adapt {ε' : Type} {a : ExceptT ε (StateM σ) α} (f : ε → ε') (ha : Keeps part a) :
    Keeps part (ExceptT.adapt f a) :=
  fun s => ha s

theorem Action.keeps_read (f : σ → α) : Keeps part (Action.read f) :=
  fun _ => rfl

end Keeps

end Grove
