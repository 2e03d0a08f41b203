import Grove.Proofs.Stack.Call
import Grove.Proofs.Store.Ledger

/-! # Ledgers and memories

A ledger has a number for each node that it takes in, and a memory needs none. As long as there are
numbers, whatever is asked of a ledger has the outcome that it has on a memory.
-/

namespace Grove.Ledger

open Grove.Action Store

variable {ω τ : Type} {s : Ledger} {m : Memory} {spare : Nat} {t : τ} {w : ω}

/-- The ledger keeps what the memory holds, and has numbers for so many more nodes. -/
structure Follows (spare : Nat) (s : Ledger) (m : Memory) : Prop where
  numbers : s.next.toNat + spare < 2 ^ 64
  keeps : ∃ items, Keeps items s m

theorem follows_empty (h : spare < 2 ^ 64) : Follows spare empty .empty where
  numbers := (Nat.zero_add spare).symm ▸ h
  keeps := ⟨[], keeps_empty⟩

theorem run_removeSubtree (id : Hash) :
    (store.removeSubtree id).run (s, w) =
      match s.removeSubtree id with
      | .ok s' => (.ok (), s', w)
      | .error e => (.error e, s, w) := by
  refine (run_change_on (f := fun s : Ledger => s.removeSubtree id)).trans ?_
  cases s.removeSubtree id <;> rfl

namespace Follows

theorem add (h : Follows (1 + spare) s m) (n : Node) : Follows spare (s.add n) (m.add n) := by
  obtain ⟨hnumbers, items, hkeeps⟩ := h
  refine ⟨?_, hkeeps.add (by omega) n⟩
  unfold Ledger.add
  split
  · omega
  · rw [Ledger.insert, UInt64.toNat_add, UInt64.toNat_one, Nat.mod_eq_of_lt (by omega)]
    omega

theorem removeSubtree (h : Follows spare s m) (id : Hash) :
    (∃ s' m', s.removeSubtree id = .ok s' ∧ m.removeSubtree id = .ok m' ∧ Follows spare s' m') ∨
    ∃ e, s.removeSubtree id = .error e ∧ m.removeSubtree id = .error e := by
  obtain ⟨hnumbers, items, hkeeps⟩ := h
  refine (hkeeps.removeSubtree id).imp_left ?_
  rintro ⟨s', m', items', hs, hm, hkeeps', hnext⟩
  exact ⟨s', m', hs, hm, hnext ▸ hnumbers, items', hkeeps'⟩

theorem perform {c : Call ω τ} (h : Follows (c.added.length + spare) s m) (t : τ) (w : ω) :
    ∃ r s' m' t' w', (c.perform store).run ((s, t), w) = (r, ((s', t'), w')) ∧
      (c.perform Memory.store).run ((m, t), w) = (r, ((m', t'), w')) ∧ Follows spare s' m' := by
  obtain ⟨items, hkeeps⟩ := h.keeps
  cases c with
  | get | identity | community | conversation | reply | children | recent =>
    refine ⟨_, s, m, t, w, rfl, ?_, Nat.zero_add spare ▸ h⟩
    simp only [hkeeps.get?, hkeeps.children, hkeeps.recent_eq]
    rfl
  | add n => exact ⟨.ok .done, s.add n, m.add n, t, w, rfl, rfl, h.add n⟩
  | removeSubtree id =>
    have h : Follows spare s m := Nat.zero_add spare ▸ h
    rcases h.removeSubtree id with ⟨s', m', hs, hm, h'⟩ | ⟨e, hs, hm⟩
    · have hs : (store.removeSubtree id).run (s, w) = (.ok (), s', w) := by
        rw [run_removeSubtree, hs]
      have hm : (Memory.store.removeSubtree id).run (m, w) = (.ok (), m', w) := by
        rw [Memory.run_removeSubtree, hm]
      exact ⟨.ok .done, s', m', t, w, run_bind_ok (Cache.run_front (u := (s', w)) hs),
        run_bind_ok (Cache.run_front (u := (m', w)) hm), h'⟩
    · have hs : (store.removeSubtree id).run (s, w) = (.error e, s, w) := by
        rw [run_removeSubtree, hs]
      have hm : (Memory.store.removeSubtree id).run (m, w) = (.error e, m, w) := by
        rw [Memory.run_removeSubtree, hm]
      exact ⟨.error e, s, m, t, w, run_bind_error (Cache.run_front (u := (s, w)) hs),
        run_bind_error (Cache.run_front (u := (m, w)) hm), h⟩
  | copyInto target =>
    have h : Follows spare s m := Nat.zero_add spare ▸ h
    obtain ⟨⟨r, u, v⟩, hadd⟩ : ∃ x, (target.addAll m.nodes).run (t, w) = x := ⟨_, rfl⟩
    have hlist : store.nodes.run (s, w) = (.ok m.nodes, s, w) := by
      rw [← hkeeps.nodes_eq]
      rfl
    have hs := Cache.run_copyInto hlist hadd
    have hm : (Memory.store.copyInto target).run ((m, t), w) = (r, (m, u), v) :=
      Cache.run_copyInto rfl hadd
    cases r with
    | ok => exact ⟨.ok .done, s, m, u, v, run_bind_ok hs, run_bind_ok hm, h⟩
    | error e => exact ⟨.error e, s, m, u, v, run_bind_error hs, run_bind_error hm, h⟩

theorem performAll {calls : List (Call ω τ)}
    (h : Follows (calls.flatMap Call.added).length s m) (t : τ) (w : ω) :
    ∃ rs s' m' t' w', (store.performAll calls).run ((s, t), w) = (rs, ((s', t'), w')) ∧
      (Memory.store.performAll calls).run ((m, t), w) = (rs, ((m', t'), w')) := by
  induction calls generalizing s m t w with
  | nil => exact ⟨[], s, m, t, w, rfl, rfl⟩
  | cons c calls ih =>
    rw [List.flatMap_cons, List.length_append] at h
    obtain ⟨r, s₁, m₁, t₁, w₁, hs, hm, h₁⟩ := h.perform t w
    obtain ⟨rs, s₂, m₂, t₂, w₂, hss, hms⟩ := ih h₁ t₁ w₁
    refine ⟨r :: rs, s₂, m₂, t₂, w₂, ?_, ?_⟩
    · rw [run_performAll_cons hs, hss]
    · rw [run_performAll_cons hm, hms]

end Follows

/-- A ledger shows what a memory shows, if no more is added than it has numbers for. -/
theorem observe_eq {calls : List (Call ω τ)} (h : (calls.flatMap Call.added).length < 2 ^ 64)
    (target : τ) (w : ω) :
    store.observe calls empty target w = Memory.store.observe calls .empty target w := by
  obtain ⟨rs, s, m, t, w', hs, hm⟩ := (follows_empty h).performAll target w
  rw [observe, observe, hs, hm]

end Grove.Ledger
