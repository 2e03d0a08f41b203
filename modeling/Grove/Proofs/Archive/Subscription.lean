import Grove.Store.Archive
import Mathlib.Data.UInt

/-! # Subscriptions

The numbers of both phases are taken from one counter. As long as it does not start again from the
front, the next number is new, so that a new hook comes last in its phase, and the hooks of a phase
stand by ascending number.
-/

namespace Grove.Hooks

variable {h : Hooks} {hook : Hook} {s : Subscription} {phase : Phase}
  {r : List (Subscription × Hook)}

/-- All registered numbers were given, and stand in ascending order. -/
structure Ordered (h : Hooks) : Prop where
  ascending : ∀ phase, (h.registry phase).Pairwise fun e f => e.1.number < f.1.number
  given : ∀ phase, ∀ entry ∈ h.registry phase, entry.1.number ≤ h.last

theorem ordered_empty : ({} : Hooks).Ordered where
  ascending phase := by cases phase <;> exact List.Pairwise.nil
  given phase := by cases phase <;> simp [registry]

theorem registry_setRegistry (h : Hooks) (r : List (Subscription × Hook)) (phase other : Phase) :
    (h.setRegistry r phase).registry other = if phase = other then r else h.registry other := by
  cases phase <;> cases other <;> rfl

@[simp]
theorem last_setRegistry : (h.setRegistry r phase).last = h.last := by
  cases phase <;> rfl

theorem insert_eq_append (hr : ∀ entry ∈ r, entry.1.number < s.number) :
    insert s hook r = r ++ [(s, hook)] := by
  induction r with
  | nil => rfl
  | cons entry r ih =>
    obtain ⟨hlt, hr⟩ := List.forall_mem_cons.1 hr
    rw [insert, if_neg (UInt64.not_lt.2 (UInt64.le_of_lt hlt)), ih hr, List.cons_append]

theorem toNat_succ_last (hlast : h.last.toNat + 1 < 2 ^ 64) :
    (h.last + 1).toNat = h.last.toNat + 1 := by
  rw [UInt64.toNat_add, UInt64.toNat_one, Nat.mod_eq_of_lt hlast]

theorem lt_succ_last (hlast : h.last.toNat + 1 < 2 ^ 64) : h.last < h.last + 1 := by
  rw [UInt64.lt_iff_toNat_lt, toNat_succ_last hlast]
  exact Nat.lt_succ_self _

theorem Ordered.next_eq (ho : h.Ordered) (hlast : h.last.toNat + 1 < 2 ^ 64) :
    h.next = ⟨h.last + 1⟩ := by
  have hlt := lt_succ_last hlast
  have hnone : (⟨h.last + 1⟩ : Subscription) ≠ .none := by
    intro heq
    have hzero : h.last + 1 = 0 := congrArg Subscription.number heq
    rw [hzero] at hlt
    exact UInt64.not_lt_zero hlt
  have hfree : h.inUse ⟨h.last + 1⟩ = false := by
    refine List.any_eq_false.2 fun entry he => ?_
    have hle : entry.1.number ≤ h.last := by
      rcases List.mem_append.1 he with he | he
      · exact ho.given .preAdd entry he
      · exact ho.given .postAdd entry he
    simp only [decide_eq_true_eq]
    rintro heq
    rw [heq] at hle
    exact UInt64.not_lt.2 hle hlt
  simp [next, List.range_succ_eq_map, hnone, hfree]

theorem Ordered.registry_subscribe (ho : h.Ordered) (hlast : h.last.toNat + 1 < 2 ^ 64)
    (other : Phase) :
    (h.subscribe phase hook).2.registry other =
      h.registry other ++ if phase = other then [(⟨h.last + 1⟩, hook)] else [] := by
  have hnew : ∀ entry ∈ h.registry phase, entry.1.number < h.last + 1 :=
    fun entry he => UInt64.lt_of_le_of_lt (ho.given phase entry he) (lt_succ_last hlast)
  simp only [subscribe, ho.next_eq hlast, insert_eq_append hnew, registry_setRegistry]
  split
  · next heq => rw [heq]
  · cases other <;> simp [registry]

theorem Ordered.last_subscribe (ho : h.Ordered) (hlast : h.last.toNat + 1 < 2 ^ 64) :
    (h.subscribe phase hook).2.last = h.last + 1 := by
  simp [subscribe, ho.next_eq hlast]

theorem Ordered.subscribe (ho : h.Ordered) (hlast : h.last.toNat + 1 < 2 ^ 64) (phase : Phase)
    (hook : Hook) : (h.subscribe phase hook).2.Ordered := by
  have hlt := lt_succ_last hlast
  have hgiven : ∀ other, ∀ entry ∈ h.registry other, entry.1.number < h.last + 1 :=
    fun other entry he => UInt64.lt_of_le_of_lt (ho.given other entry he) hlt
  constructor <;> intro other
  · rw [ho.registry_subscribe hlast]
    split
    · exact List.pairwise_append.2 ⟨ho.ascending other, List.pairwise_singleton .., fun e he f hf =>
        List.mem_singleton.1 hf ▸ hgiven other e he⟩
    · simpa using ho.ascending other
  · intro entry he
    rw [ho.last_subscribe hlast]
    rw [ho.registry_subscribe hlast, List.mem_append] at he
    rcases he with he | he
    · exact UInt64.le_of_lt (hgiven other entry he)
    · split at he <;> simp_all

theorem registry_unsubscribe (other : Phase) :
    (h.unsubscribe phase s).2.registry other =
      if phase = other then (h.registry other).filter fun entry => entry.1 ≠ s
      else h.registry other := by
  simp only [unsubscribe, registry_setRegistry]
  split
  · next heq => rw [heq]
  · rfl

theorem Ordered.unsubscribe (ho : h.Ordered) (phase : Phase) (s : Subscription) :
    (h.unsubscribe phase s).2.Ordered := by
  constructor <;> intro other <;> rw [registry_unsubscribe] <;> split
  · exact (ho.ascending other).filter _
  · exact ho.ascending other
  · intro entry he
    simpa [Hooks.unsubscribe] using ho.given other entry (List.mem_of_mem_filter he)
  · simpa [Hooks.unsubscribe] using ho.given other

end Grove.Hooks
