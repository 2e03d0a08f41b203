import Grove.Proofs.Store.Action
import Grove.Proofs.Validation.Shallow
import Grove.Store.DeepValidation

/-! # Deep validation

Deep validation only looks nodes up. Where looking up neither fails nor changes anything, it comes
down to a check against the nodes that are found, and it accepts a node exactly when every reference
leads to a node of a right kind, the parent is one level above, and the shallow checks pass. With
fewer nodes at hand it comes to the same end or misses a reference.
-/

namespace Grove.Node

section Respects

theorem related_ite {γ δ : Type} {R : γ → δ → Prop} {c : Prop} [Decidable c] {x y : γ} {x' y' : δ}
    (hx : R x x') (hy : R y y') : R (if c then x else y) (if c then x' else y') := by
  split
  · exact hx
  · exact hy

variable {m m' : Type → Type} [Monad m] [MonadExcept StoreError m] [Monad m']
  [MonadExcept StoreError m']

/-- The same results are related, the same failures, and what is composed of related steps. -/
structure Respects (R : (α : Type) → m α → m' α → Prop) : Prop where
  pure {α : Type} (a : α) : R α (Pure.pure a) (Pure.pure a)
  throw {α : Type} (e : StoreError) : R α (MonadExcept.throw e) (MonadExcept.throw e)
  bind {α β : Type} {x : m α} {y : m' α} {f : α → m β} {g : α → m' β} :
    R α x y → (∀ a, R β (f a) (g a)) → R β (x >>= f) (y >>= g)

variable {R : (α : Type) → m α → m' α → Prop} (get : Hash → m (Option Node))
  (get' : Hash → m' (Option Node))

theorem Respects.resolve (hR : Respects R) (hget : ∀ id, R _ (get id) (get' id)) (n : Node)
    (reference : Reference) (target : Hash) :
    R _ (n.resolve get reference target) (n.resolve get' reference target) := by
  apply hR.bind (hget target)
  rintro (_ | found)
  · exact hR.throw _
  · exact hR.pure _

theorem Respects.expectKind (hR : Respects R) (n : Node) (reference : Reference) (found : Node)
    (expected : NodeKind) (others : List NodeKind) :
    R _ (n.expectKind reference found expected others)
      (n.expectKind reference found expected others) :=
  related_ite (hR.pure _) (hR.throw _)

theorem Respects.checkDeep (hR : Respects R) (n : Node) (verify : Verifier)
    (hresolve : ∀ reference target,
      R _ (n.resolve get reference target) (n.resolve get' reference target)) :
    R _ (n.checkDeep get verify) (n.checkDeep get' verify) := by
  have hsigner : R _ (n.resolveSigner get) (n.resolveSigner get') := by
    refine related_ite (hR.pure _) (hR.bind (hresolve _ _) fun found => ?_)
    exact hR.bind (hR.expectKind ..) fun _ => hR.pure _
  have hparent : R _ (n.checkParent get) (n.checkParent get') := by
    refine related_ite (hR.pure _) (hR.bind (hresolve _ _) fun parent => ?_)
    exact hR.bind (hR.expectKind ..) fun _ => related_ite (hR.pure _) (hR.throw _)
  have hplace : R _ (n.checkPlace get) (n.checkPlace get') := by
    unfold checkPlace
    split
    · refine hR.bind (hresolve _ _) fun community => hR.bind (hR.expectKind ..) fun _ => ?_
      exact related_ite (hR.pure _) (hR.bind (hresolve _ _) fun root => hR.expectKind ..)
    · exact hR.pure _
  refine hR.bind hsigner fun signer => hR.bind hparent fun _ => hR.bind hplace fun _ => ?_
  split
  · exact hR.pure _
  · exact hR.throw _

end Respects

section Answers

variable {σ : Type} {get : Hash → Action σ (Option Node)} {lookup : Hash → Option Node} {s : σ}

theorem respects_answers (s : σ) : Respects fun α (a : Action σ α) x => a.Answers s x where
  pure := Action.answers_pure
  throw := Action.answers_throw
  bind := Action.Answers.bind

/-- Where looking up is steady, deep validation is the check against the nodes that are found. -/
theorem answers_checkDeep (hget : ∀ id, (get id).Answers s (lookUp lookup id)) (n : Node)
    (verify : Verifier) :
    (n.checkDeep get verify).Answers s (n.checkDeep (lookUp lookup) verify) :=
  (respects_answers s).checkDeep get _ n verify ((respects_answers s).resolve get _ hget n)

theorem respects_ensures (P : σ → Prop) :
    Respects fun α (a : Action σ α) (x : Except StoreError α) =>
      Action.Ensures P a fun v => x = .ok v where
  pure _ := Action.ensures_pure rfl
  throw e := Action.ensures_throw e
  bind := by
    rintro α β a x f g ha hf
    refine ha.bind fun v hv => ?_
    rw [hv]
    exact hf v

theorem respects_stays (P : σ → Prop) :
    Respects fun α (a : Action σ α) (_ : Except StoreError α) =>
      Action.Ensures P a fun _ => True where
  pure _ := Action.ensures_pure trivial
  throw e := Action.ensures_throw e
  bind ha hf := ha.bind fun v _ => hf v

theorem stays_checkDeep {P : σ → Prop} (hget : ∀ id, Action.Ensures P (get id) fun _ => True)
    (n : Node) (verify : Verifier) :
    Action.Ensures P (n.checkDeep get verify) fun _ => True :=
  let lookup := lookUp fun _ => none
  (respects_stays P).checkDeep get lookup n verify ((respects_stays P).resolve get lookup hget n)

end Answers

variable {n : Node} {lookup : Hash → Option Node} {verify : Verifier}

theorem resolve_eq_ok_iff {reference : Reference} {target : Hash} {found : Node} :
    n.resolve (lookUp lookup) reference target = .ok found ↔ lookup target = some found := by
  simp only [resolve, lookUp, bind_eq_ok_iff, Except.ok.injEq, exists_eq_left']
  cases lookup target with
  | none => simp [refuse, throw_eq_ok_iff]
  | some found => simp [pure_eq_ok_iff]

theorem expectKind_eq_ok_iff {reference : Reference} {found : Node} {expected : NodeKind}
    {others : List NodeKind} :
    (n.expectKind reference found expected others : Except StoreError Unit) = .ok () ↔
      found.kind ∈ expected :: others := by
  unfold expectKind
  split
  · next h => simpa only [pure_eq_ok_iff, true_iff] using h
  · next h => simpa only [refuse, throw_eq_ok_iff, false_iff] using h

def signerIn (n : Node) (lookup : Hash → Option Node) : Option Identity :=
  if n.kind = .identity then none else (lookup n.signer).bind identity?

theorem resolveSigner_eq_ok_iff {signer : Option Identity} :
    n.resolveSigner (lookUp lookup) = .ok signer ↔
      (n.kind ≠ .identity → ∃ found, lookup n.signer = some found ∧ found.kind = .identity) ∧
        n.signerIn lookup = signer := by
  unfold resolveSigner signerIn
  split
  · next hk => simp [hk, pure_eq_ok_iff]
  · next hk =>
    rw [bind_eq_ok_iff]
    simp only [seq_eq_ok_iff, resolve_eq_ok_iff, expectKind_eq_ok_iff, pure_eq_ok_iff,
      List.mem_singleton]
    constructor
    · rintro ⟨found, hf, hi, rfl⟩
      exact ⟨fun _ => ⟨found, hf, hi⟩, by rw [hf, Option.bind_some]⟩
    · rintro ⟨h, rfl⟩
      obtain ⟨found, hf, hi⟩ := h hk
      exact ⟨found, hf, hi, by rw [hf, Option.bind_some]⟩

theorem checkParent_eq_ok_iff :
    n.checkParent (lookUp lookup) = .ok () ↔
      (n.parent.isNull = false → ∃ p, lookup n.parent = some p ∧
        p.kind ∈ .community :: n.otherParentKinds ∧ n.depth = p.depth + 1) := by
  unfold checkParent
  split
  · next hp => simp [hp, pure_eq_ok_iff]
  · next hp =>
    rw [Bool.not_eq_true] at hp
    rw [bind_eq_ok_iff, hp, eq_self_iff_true, true_imp_iff]
    refine exists_congr fun p => ?_
    rw [resolve_eq_ok_iff, seq_eq_ok_iff, expectKind_eq_ok_iff]
    refine and_congr_right fun _ => and_congr_right fun _ => ?_
    split
    · next hd => simp only [pure_eq_ok_iff, hd]
    · next hd => simp only [refuse, throw_eq_ok_iff, hd]

theorem checkPlace_eq_ok_iff :
    n.checkPlace (lookUp lookup) = .ok () ↔
      ∀ place thread content, n.body = .reply place thread content →
        (∃ c, lookup place = some c ∧ c.kind = .community) ∧
          (thread.isNull = false → ∃ r, lookup thread = some r ∧
            r.kind ∈ [.conversation, .reply]) := by
  unfold checkPlace
  split
  · next place thread content hb =>
    rw [bind_eq_ok_iff]
    simp only [seq_eq_ok_iff, resolve_eq_ok_iff, expectKind_eq_ok_iff, List.mem_singleton]
    constructor
    · rintro ⟨c, hc, hk, h⟩ place' thread' content' hb'
      obtain ⟨rfl, rfl, rfl⟩ := Body.reply.inj (hb.symm.trans hb')
      refine ⟨⟨c, hc, hk⟩, fun ht => ?_⟩
      rw [if_neg (by simp [ht]), bind_eq_ok_iff] at h
      obtain ⟨r, hr, hrk⟩ := h
      exact ⟨r, resolve_eq_ok_iff.1 hr, expectKind_eq_ok_iff.1 hrk⟩
    · intro h
      obtain ⟨⟨c, hc, hk⟩, ht⟩ := h place thread content hb
      refine ⟨c, hc, hk, ?_⟩
      split
      · rfl
      · next hn =>
        obtain ⟨r, hr, hrk⟩ := ht ((Bool.not_eq_true _).mp hn)
        exact bind_eq_ok_iff.2 ⟨r, resolve_eq_ok_iff.2 hr, expectKind_eq_ok_iff.2 hrk⟩
  · next hb =>
    refine ⟨fun _ place thread content h => (hb place thread content h).elim, fun _ => rfl⟩

/-- What deep validation demands of a node among the nodes that can be looked up. -/
structure DeepValid (lookup : Hash → Option Node) (verify : Verifier) (n : Node) : Prop where
  signer : n.kind ≠ .identity → ∃ found, lookup n.signer = some found ∧ found.kind = .identity
  parent : n.parent.isNull = false → ∃ p, lookup n.parent = some p ∧
    p.kind ∈ .community :: n.otherParentKinds ∧ n.depth = p.depth + 1
  place : ∀ place thread content, n.body = .reply place thread content →
    (∃ c, lookup place = some c ∧ c.kind = .community) ∧
      (thread.isNull = false → ∃ r, lookup thread = some r ∧ r.kind ∈ [.conversation, .reply])
  shallow : n.checkShallow (n.signerIn lookup) verify = .ok ()

theorem checkDeep_eq_ok_iff :
    n.checkDeep (lookUp lookup) verify = .ok () ↔ n.DeepValid lookup verify := by
  unfold checkDeep
  rw [bind_eq_ok_iff]
  simp only [seq_eq_ok_iff, resolveSigner_eq_ok_iff, checkParent_eq_ok_iff, checkPlace_eq_ok_iff]
  constructor
  · rintro ⟨_, ⟨hs, rfl⟩, hp, hl, h⟩
    split at h
    · next hc => exact ⟨hs, hp, hl, hc⟩
    · exact (throw_eq_ok_iff.1 h).elim
  · intro h
    refine ⟨_, ⟨h.signer, rfl⟩, h.parent, h.place, ?_⟩
    rw [h.shallow]
    rfl

/-- Where looking up may fail, deep validation accepts only what is valid among the nodes that would
be found. -/
theorem ensures_checkDeep {σ : Type} {P : σ → Prop} {get : Hash → Action σ (Option Node)}
    (hget : ∀ id, Action.Gives P P (get id) (lookup id)) :
    Action.Ensures P (n.checkDeep get verify) fun _ => n.DeepValid lookup verify := by
  refine Action.Ensures.imp ?_ fun _ => checkDeep_eq_ok_iff.1
  refine (respects_ensures P).checkDeep get (lookUp lookup) n verify
    ((respects_ensures P).resolve get _ (fun id => ?_) n)
  refine (hget id).ensures.imp ?_
  rintro _ rfl
  rfl

section Partial

variable {part whole : Hash → Option Node}

theorem DeepValid.mono (h : n.DeepValid part verify)
    (hle : ∀ id k, part id = some k → whole id = some k) : n.DeepValid whole verify where
  signer hk := by
    obtain ⟨found, hf, hi⟩ := h.signer hk
    exact ⟨found, hle _ _ hf, hi⟩
  parent hp := by
    obtain ⟨p, hf, hrest⟩ := h.parent hp
    exact ⟨p, hle _ _ hf, hrest⟩
  place place thread content hb := by
    obtain ⟨⟨c, hc, hk⟩, ht⟩ := h.place place thread content hb
    refine ⟨⟨c, hle _ _ hc, hk⟩, fun hn => ?_⟩
    obtain ⟨r, hr, hrk⟩ := ht hn
    exact ⟨r, hle _ _ hr, hrk⟩
  shallow := by
    have hsigner : n.signerIn whole = n.signerIn part := by
      unfold signerIn
      split
      · rfl
      · next hk =>
        obtain ⟨found, hf, _⟩ := h.signer hk
        rw [hf, hle _ _ hf]
    rw [hsigner, h.shallow]

/-- The first check ends like the second, unless it misses a reference of the node. -/
def Defers {α : Type} (n : Node) (x y : Except StoreError α) : Prop :=
  x = y ∨ ∃ reference target, x = .error (.invalid (.referenceMissing n.id reference target))

theorem respects_defers (n : Node) :
    Respects fun α (x y : Except StoreError α) => n.Defers x y where
  pure _ := .inl rfl
  throw _ := .inl rfl
  bind := by
    rintro α β x y f g (rfl | ⟨reference, target, rfl⟩) hf
    · cases x with
      | error e => exact .inl rfl
      | ok a => exact hf a
    · exact .inr ⟨reference, target, rfl⟩

variable (hle : ∀ id k, part id = some k → whole id = some k)
include hle

theorem defers_resolve (reference : Reference) (target : Hash) :
    n.Defers (n.resolve (lookUp part) reference target)
      (n.resolve (lookUp whole) reference target) := by
  cases hp : part target with
  | some k =>
    left
    rw [resolve_eq_ok_iff.2 hp, resolve_eq_ok_iff.2 (hle target k hp)]
  | none =>
    refine .inr ⟨reference, target, ?_⟩
    simp only [resolve, lookUp, hp]
    rfl

/-- Among fewer nodes deep validation comes to the same end, or misses a reference. -/
theorem defers_checkDeep :
    n.Defers (n.checkDeep (lookUp part) verify) (n.checkDeep (lookUp whole) verify) :=
  (respects_defers n).checkDeep _ _ n verify (defers_resolve hle)

end Partial

end Grove.Node
