import Grove.Proofs.Store.Action
import Grove.Store.Search
import Mathlib.Data.List.Chain
import Mathlib.Logic.Relation

/-! # What a search finds

Where the children of nodes do not change on the way, a search has the same answer as one without a
state. What it finds are the nodes that can be reached from its first row. It fails only if some way
from there is longer than its bound, and a greater bound makes no difference to what was found.
-/

namespace Grove

def rows (children : Hash → List Hash) (bound : Nat) (row : List Hash) : Option (List Hash) :=
  Id.run (rowsBelow (fun p => pure (children p)) bound row)

section Rows

variable {children : Hash → List Hash} {bound : Nat} {row ids : List Hash}

theorem rows_nil : rows children bound [] = some [] := by
  cases bound <;> rfl

theorem rows_succ_cons {id : Hash} :
    rows children (bound + 1) (id :: row) =
      (rows children bound ((id :: row).map children).flatten).map (id :: row ++ ·) := by
  simp only [rows, rowsBelow, List.mapM_pure, pure_bind]
  rfl

/-- An answer is empty, or it goes on behind the row with an answer for the children of the row. -/
theorem rows_induction {motive : List Hash → List Hash → Prop} (nil : motive [] [])
    (step : ∀ row next, motive (row.map children).flatten next → motive row (row ++ next))
    (h : rows children bound row = some ids) : motive row ids := by
  induction bound generalizing row ids with
  | zero =>
    obtain _ | ⟨id, row⟩ := row
    · obtain rfl : [] = ids := Option.some.inj h
      exact nil
    · exact absurd h nofun
  | succ bound ih =>
    obtain _ | ⟨id, row⟩ := row
    · obtain rfl : [] = ids := Option.some.inj h
      exact nil
    · rw [rows_succ_cons] at h
      obtain ⟨next, hnext, rfl⟩ := Option.map_eq_some_iff.1 h
      exact step _ _ (ih hnext)

/-- The row is in the answer, and wherever the answer is cut, what stands behind has the children of
all that it has. -/
theorem rows_suffix (h : rows children bound row = some ids) :
    row ⊆ ids ∧ ∀ below, below <:+ ids → ∀ p ∈ below, children p ⊆ below := by
  refine rows_induction (motive := fun row ids =>
    row ⊆ ids ∧ ∀ below, below <:+ ids → ∀ p ∈ below, children p ⊆ below) ?_ ?_ h
  · refine ⟨List.Subset.refl _, fun below hbelow p hp => ?_⟩
    rw [List.suffix_nil.1 hbelow] at hp
    exact absurd hp List.not_mem_nil
  · rintro row next ⟨hnext, hclosed⟩
    refine ⟨List.subset_append_left .., fun below hbelow => ?_⟩
    rcases List.suffix_or_suffix_of_suffix hbelow (List.suffix_append row next) with hcut | hcut
    · exact hclosed below hcut
    -- The cut goes through the first row, and the rows behind have all its children.
    · obtain ⟨part, rfl⟩ := hcut
      obtain ⟨front, hfront⟩ := hbelow
      rw [← List.append_assoc, List.append_cancel_right_eq] at hfront
      intro p hp c hc
      refine List.mem_append_right _ ?_
      rcases List.mem_append.1 hp with hp | hp
      · have hrow : p ∈ row := hfront ▸ List.mem_append_right _ hp
        exact hnext (List.mem_flatten.2 ⟨_, List.mem_map_of_mem hrow, hc⟩)
      · exact hclosed next (List.suffix_refl next) p hp hc

theorem rows_closed (h : rows children bound row = some ids) :
    row ⊆ ids ∧ ∀ p ∈ ids, children p ⊆ ids :=
  (rows_suffix h).imp_right fun hclosed => hclosed ids (List.suffix_refl ids)

theorem rows_reach (h : rows children bound row = some ids) :
    ∀ c ∈ ids, ∃ p ∈ row, Relation.ReflTransGen (fun p c => c ∈ children p) p c := by
  refine rows_induction (motive := fun row ids =>
    ∀ c ∈ ids, ∃ p ∈ row, Relation.ReflTransGen (fun p c => c ∈ children p) p c) ?_ ?_ h
  · exact fun c hc => absurd hc List.not_mem_nil
  · intro row next ih c hc
    rcases List.mem_append.1 hc with hc | hc
    · exact ⟨c, hc, .refl⟩
    · obtain ⟨q, hq, hreach⟩ := ih c hc
      obtain ⟨_, hl, hq⟩ := List.mem_flatten.1 hq
      obtain ⟨p, hp, rfl⟩ := List.mem_map.1 hl
      exact ⟨p, hp, .head hq hreach⟩

/-- A search that ends finds all that can be reached. -/
theorem mem_rows_iff {id : Hash} (h : rows children bound [id] = some ids) {k : Hash} :
    k ∈ ids ↔ Relation.ReflTransGen (fun p c => c ∈ children p) id k := by
  constructor
  · intro hk
    obtain ⟨p, hp, hreach⟩ := rows_reach h k hk
    rwa [List.mem_singleton.1 hp] at hreach
  · obtain ⟨hrow, hclosed⟩ := rows_closed h
    intro hk
    induction hk with
    | refl => exact hrow List.mem_cons_self
    | tail _ hk ih => exact hclosed _ ih hk

theorem rows_mono (h : rows children bound row = some ids) {bound' : Nat} (hb : bound ≤ bound') :
    rows children bound' row = some ids := by
  induction bound generalizing row ids bound' with
  | zero =>
    obtain _ | ⟨id, row⟩ := row
    · rw [← h, rows_nil, rows_nil]
    · exact absurd h nofun
  | succ bound ih =>
    obtain _ | ⟨id, row⟩ := row
    · rw [← h, rows_nil, rows_nil]
    · obtain _ | bound' := bound'
      · exact absurd hb (Nat.not_succ_le_zero _)
      rw [rows_succ_cons] at h ⊢
      obtain ⟨below, hbelow, rfl⟩ := Option.map_eq_some_iff.1 h
      rw [ih hbelow (Nat.le_of_succ_le_succ hb), Option.map_some]

theorem rows_unique {bound' : Nat} {ids' : List Hash} (h : rows children bound row = some ids)
    (h' : rows children bound' row = some ids') : ids = ids' := by
  have hm := rows_mono h (Nat.le_max_left bound bound')
  exact Option.some.inj (hm.symm.trans (rows_mono h' (Nat.le_max_right bound bound')))

theorem exists_path_of_rows_eq_none (h : rows children bound row = none) :
    ∃ p path, p ∈ row ∧ path.length = bound ∧
      List.IsChain (fun p c => c ∈ children p) (p :: path) := by
  induction bound generalizing row with
  | zero =>
    obtain _ | ⟨id, row⟩ := row
    · exact absurd h nofun
    · exact ⟨id, [], List.mem_cons_self, rfl, .singleton id⟩
  | succ bound ih =>
    obtain _ | ⟨id, row⟩ := row
    · exact absurd h nofun
    · rw [rows_succ_cons, Option.map_eq_none_iff] at h
      obtain ⟨q, path, hq, hlength, hchain⟩ := ih h
      obtain ⟨_, hl, hq⟩ := List.mem_flatten.1 hq
      obtain ⟨p, hp, rfl⟩ := List.mem_map.1 hl
      exact ⟨p, q :: path, hp, by rw [List.length_cons, hlength], .cons_cons hq hchain⟩

end Rows

section Gives

open Grove.Action

variable {σ : Type} {P E : σ → Prop} {children : Hash → Action σ (List Hash)}
  {kids : Hash → List Hash}

theorem gives_rowsBelow (hkids : ∀ p, Gives P E (children p) (kids p)) (bound : Nat)
    (row : List Hash) : Gives P E (rowsBelow children bound row) (rows kids bound row) := by
  induction bound generalizing row with
  | zero =>
    obtain _ | ⟨id, row⟩ := row
    · exact gives_pure _
    · exact gives_pure _
  | succ bound ih =>
    obtain _ | ⟨id, row⟩ := row
    · exact gives_pure _
    · rw [rows_succ_cons]
      exact (Gives.mapM hkids (id :: row)).bind ((ih _).bind (gives_pure _))

theorem leads_subtree (hkids : ∀ p, Leads P (children p) (.ok (kids p)) P) {bound : Nat}
    {id : Hash} {ids : List Hash} (h : rows kids bound [id] = some ids) :
    Leads P (subtree children bound id) (.ok ids) P := by
  refine (gives_rowsBelow (fun p => (hkids p).gives) bound [id]).leads.bind ?_
  rw [h]
  exact leads_pure _

theorem run_subtree_congr {id : Hash} {s t : σ} (h : (children id).run s = (children id).run t)
    (bound : Nat) :
    (subtree children (bound + 1) id).run s = (subtree children (bound + 1) id).run t := by
  unfold subtree rowsBelow
  simp only [List.mapM_cons, bind_assoc]
  exact run_bind_congr h _

end Gives

end Grove
