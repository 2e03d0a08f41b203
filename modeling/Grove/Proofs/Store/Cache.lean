import Grove.Proofs.Store.Action
import Grove.Store.Cache

/-! # What a cache does

An action on one tier leaves the other as it is. A look-up that finds nothing in front promotes what
is behind. Removing is a search in the back, a removal there, and then one removal in front for each
identifier found, lower rows first, in which an absent node is no failure.
-/

namespace Grove

theorem Action.run_unlessNotFound {σ : Type} (x : Action σ Unit) (s : σ) :
    x.unlessNotFound.run s =
      match x.run s with
      | (.error (.notFound _), t) => (.ok (), t)
      | r => r := by
  have hx : x s = x.run s := rfl
  show (ExceptT.tryCatch x _).run s = _
  simp only [ExceptT.tryCatch, ExceptT.run_mk, bind, StateT.bind, hx]
  obtain ⟨e | _, t⟩ := x.run s
  · cases e <;> rfl
  · rfl

theorem Action.of_unlessNotFound {σ : Type} {x : Action σ Unit} {s t : σ}
    {r : Except StoreError Unit}
    (h : x.unlessNotFound.run s = (r, t)) :
    (∃ id, x.run s = (.error (.notFound id), t) ∧ r = .ok ()) ∨ x.run s = (r, t) := by
  rw [run_unlessNotFound] at h
  split at h
  · next id u hx =>
    obtain ⟨rfl, rfl⟩ := Prod.mk.inj h
    exact .inl ⟨id, hx, rfl⟩
  · exact .inr h

namespace Cache

variable {ω κ β α : Type} {front : Store ω κ} {back : Store ω β}

theorem of_run_front {x : Action (κ × ω) α} {s t : (κ × β) × ω} {r : Except StoreError α}
    (h : x.front.run s = (r, t)) : x.run (s.1.1, s.2) = (r, (t.1.1, t.2)) ∧ t.1.2 = s.1.2 := by
  obtain ⟨rfl, rfl⟩ := Prod.mk.inj h
  exact ⟨rfl, rfl⟩

theorem of_run_back {x : Action (β × ω) α} {s t : (κ × β) × ω} {r : Except StoreError α}
    (h : x.back.run s = (r, t)) : x.run (s.1.2, s.2) = (r, (t.1.2, t.2)) ∧ t.1.1 = s.1.1 := by
  obtain ⟨rfl, rfl⟩ := Prod.mk.inj h
  exact ⟨rfl, rfl⟩

theorem run_front {x : Action (κ × ω) α} {s : (κ × β) × ω} {u : κ × ω}
    {r : Except StoreError α} (h : x.run (s.1.1, s.2) = (r, u)) :
    x.front.run s = (r, ((u.1, s.1.2), u.2)) := by
  show ((x.run (s.1.1, s.2)).1, ((x.run (s.1.1, s.2)).2.1, s.1.2), (x.run (s.1.1, s.2)).2.2) = _
  rw [h]

theorem run_back {x : Action (β × ω) α} {s : (κ × β) × ω} {u : β × ω}
    {r : Except StoreError α} (h : x.run (s.1.2, s.2) = (r, u)) :
    x.back.run s = (r, ((s.1.1, u.1), u.2)) := by
  show ((x.run (s.1.2, s.2)).1, (s.1.1, (x.run (s.1.2, s.2)).2.1), (x.run (s.1.2, s.2)).2.2) = _
  rw [h]

section Copying

variable {x : κ} {y u : β} {w v : ω}

theorem run_copyInto {l : List Node} {r : Except StoreError Unit}
    (hlist : front.nodes.run (x, w) = (.ok l, x, w))
    (hadd : (back.addAll l).run (y, w) = (r, u, v)) :
    (front.copyInto back).run ((x, y), w) = (r, (x, u), v) := by
  have hfront : front.nodes.front.run ((x, y), w) = (.ok l, (x, y), w) :=
    run_front (s := ((x, y), w)) (u := (x, w)) hlist
  have hback : (back.addAll l).back.run ((x, y), w) = (r, (x, u), v) :=
    run_back (s := ((x, y), w)) (u := (u, v)) hadd
  exact (Action.run_bind_ok hfront).trans hback

theorem run_copyInto_error {e : StoreError} (hlist : front.nodes.run (x, w) = (.error e, x, w)) :
    (front.copyInto back).run ((x, y), w) = (.error e, (x, y), w) := by
  have hfront : front.nodes.front.run ((x, y), w) = (.error e, (x, y), w) :=
    run_front (s := ((x, y), w)) (u := (x, w)) hlist
  exact Action.run_bind_error hfront

end Copying

/-- Looks behind, and puts in front what is found there. -/
def promote (front : Store ω κ) (back : Store ω β) (id : Hash) :
    Action ((κ × β) × ω) (Option Node) := do
  match ← (back.get id).back with
  | some n =>
    (front.add n).front
    return some n
  | none => return none

theorem get_eq (id : Hash) :
    get front back id = (front.get id).front >>= fun found =>
      match found with
      | some n => pure (some n)
      | none => promote front back id := by
  unfold get promote
  refine bind_congr fun found => ?_
  cases found with
  | some n => rfl
  | none => exact bind_congr fun found => by cases found <;> rfl

/-- Removes from the front whatever is there of what was found behind. -/
def purge (front : Store ω κ) (ids : List Hash) : Action ((κ × β) × ω) Unit :=
  ids.forM fun id => (front.removeSubtree id).front.unlessNotFound

theorem run_removeSubtree (id : Hash) (s : (κ × β) × ω) :
    (removeSubtree front back id).run s =
      ((subtree back.children (back.reach (s.1.2, s.2) + 1) id).back >>= fun ids => do
        (back.removeSubtree id).back
        purge front ids.reverse).run s :=
  rfl

end Cache

end Grove
