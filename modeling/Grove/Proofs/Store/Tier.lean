import Grove.Proofs.Store.Memory
import Grove.Store.Faulty

/-! # Tiers

Of a tier only that is known which one relies on when stores are stacked: each operation either does
to the contents what it promises, or fails and leaves them as they are. How often and for what
reasons it fails is left open. Memories are tiers, and so is a faulty store around a tier.
-/

namespace Grove

open Grove.Action

/-- The nodes that a store holds, and what it knows directly below them. -/
structure Contents where
  node? : Hash → Option Node
  children : Hash → List Hash
  id_of_node? {id : Hash} {n : Node} : node? id = some n → n.id = id

namespace Contents

def Holds (c : Contents) (id : Hash) : Prop :=
  (c.node? id).isSome

instance (c : Contents) (id : Hash) : Decidable (c.Holds id) :=
  inferInstanceAs (Decidable (_ = true))

theorem not_holds_of_node? {c : Contents} {id : Hash} (h : c.node? id = none) : ¬c.Holds id := by
  rw [Holds, h]
  exact nofun

theorem holds_of_node? {c : Contents} {id : Hash} {n : Node} (h : c.node? id = some n) :
    c.Holds id := by
  rw [Holds, h]
  rfl

/-- The second identifier is the first one or is known to be below it. -/
def Below (c : Contents) : Hash → Hash → Prop :=
  Relation.ReflTransGen fun p k => k ∈ c.children p

end Contents

/-- If there is a value, the contents before and after are as promised with it, and if there is an
error, they are the same. -/
def Fulfils {α : Type} (promise : Contents → α → Contents → Prop) (before : Contents) :
    Except StoreError α → Contents → Prop
  | .ok v, after => promise before v after
  | .error _, after => after = before

/-- How the contents of a store are read off its state, if it is a valid one. -/
structure View (σ : Type) where
  Valid : σ → Prop
  contents : σ → Contents

namespace View

variable {ω σ α : Type} (v : View σ)

/-- From a valid state the action ends in one, and keeps its promise or changes nothing. -/
def Atomic (x : Action (σ × ω) α) (promise : Contents → α → Contents → Prop) : Prop :=
  ∀ ⦃s r t⦄, x.run s = (r, t) → v.Valid s.1 →
    v.Valid t.1 ∧ Fulfils promise (v.contents s.1) r (v.contents t.1)

/-- The action answers from the contents, and changes nothing about them. -/
def Tells (x : Action (σ × ω) α) (answer : Contents → α) : Prop :=
  v.Atomic x fun c u c' => c' = c ∧ u = answer c

def At (c : Contents) (s : σ × ω) : Prop :=
  v.Valid s.1 ∧ v.contents s.1 = c

theorem tells_iff {x : Action (σ × ω) α} {answer : Contents → α} :
    v.Tells x answer ↔ ∀ c, Gives (v.At c) (v.At c) x (answer c) := by
  constructor
  · rintro h c s (_ | _) t hrun ⟨hs, rfl⟩
    · exact h hrun hs
    · obtain ⟨ht, hc, rfl⟩ := h hrun hs
      exact ⟨rfl, ht, hc⟩
  · rintro h s (_ | _) t hrun hs
    · exact h _ hrun ⟨hs, rfl⟩
    · obtain ⟨rfl, ht, hc⟩ := h _ hrun ⟨hs, rfl⟩
      exact ⟨ht, hc, rfl⟩

end View

def Store.Finds {ω σ : Type} (s : Store ω σ) (t : σ × ω) (id : Hash) : Prop :=
  ∃ n, ((s.get id).run t).1 = .ok (some n)

/-- A look-up of the identifier returns without a node. -/
def Store.Misses {ω σ : Type} (s : Store ω σ) (t : σ × ω) (id : Hash) : Prop :=
  ((s.get id).run t).1 = .ok none

instance {ω σ : Type} (s : Store ω σ) (t : σ × ω) (id : Hash) : Decidable (s.Finds t id) :=
  match h : ((s.get id).run t).1 with
  | .ok (some n) => .isTrue ⟨n, h⟩
  | .ok none => .isFalse fun ⟨_, hn⟩ => nomatch h.symm.trans hn
  | .error _ => .isFalse fun ⟨_, hn⟩ => nomatch h.symm.trans hn

instance {ω σ : Type} (s : Store ω σ) (t : σ × ω) (id : Hash) : Decidable (s.Misses t id) :=
  inferInstanceAs (Decidable (_ = _))

/-- Looking up, listing children or listing what is recent brings the identifier forth. -/
def Store.Shows {ω σ : Type} (s : Store ω σ) (t : σ × ω) (id : Hash) : Prop :=
  s.Finds t id ∨ (∃ p l, ((s.children p).run t).1 = .ok l ∧ id ∈ l) ∨
    ∃ kind count l, ((s.recent kind count).run t).1 = .ok l ∧ ∃ n ∈ l, n.id = id

/-- What one relies on from a store on which others are built. -/
structure Tier {ω σ : Type} (s : Store ω σ) extends View σ where
  get (id : Hash) : toView.Tells (s.get id) (·.node? id)
  children (p : Hash) : toView.Tells (s.children p) (·.children p)
  nodes : toView.Atomic s.nodes fun c l c' => c' = c ∧ ∀ id, c.Holds id → ∃ n ∈ l, n.id = id
  add (n : Node) :
    toView.Atomic (s.add n) fun c _ c' => ∀ id, c'.Holds id ↔ c.Holds id ∨ n.id = id
  removeSubtree (id : Hash) :
    toView.Atomic (s.removeSubtree id) fun c _ c' => ∀ k, c'.Holds k ↔ c.Holds k ∧ ¬c.Below id k
  absent_of_notFound {id k : Hash} {t u : σ × ω} : Valid t.1 →
    (s.removeSubtree id).run t = (.error (.notFound k), u) → ¬(contents t.1).Holds id

namespace Tier

variable {ω σ : Type} {s : Store ω σ}

theorem subtree (T : Tier s) (bound : Nat) (id : Hash) :
    T.Atomic (subtree s.children bound id) fun c ids c' =>
      c' = c ∧ ∀ k, k ∈ ids ↔ c.Below id k := by
  intro t r u h ht
  have hrows := gives_rowsBelow (fun p => T.tells_iff.1 (T.children p) (T.contents t.1)) bound [id]
  rcases of_run_bind h with ⟨e, hrun, rfl⟩ | ⟨found, u', hrun, hrest⟩
  · exact hrows hrun ⟨ht, rfl⟩
  · obtain ⟨hfound, hu, hc⟩ := hrows hrun ⟨ht, rfl⟩
    cases found with
    | none =>
      obtain ⟨rfl, rfl⟩ : .error (.endless id) = r ∧ u' = u := Prod.mk.inj hrest
      exact ⟨hu, hc⟩
    | some ids =>
      obtain ⟨rfl, rfl⟩ : .ok ids = r ∧ u' = u := Prod.mk.inj hrest
      exact ⟨hu, hc, fun k => mem_rows_iff hfound.symm⟩

variable {t u : σ × ω} {id : Hash}

theorem holds_of_finds (T : Tier s) (ht : T.Valid t.1) (h : s.Finds t id) :
    (T.contents t.1).Holds id := by
  obtain ⟨n, hrun⟩ := h
  obtain ⟨-, -, hn⟩ := T.get id (Prod.ext hrun rfl) ht
  exact Contents.holds_of_node? hn.symm

theorem not_holds_of_misses (T : Tier s) (ht : T.Valid t.1) (h : s.Misses t id) :
    ¬(T.contents t.1).Holds id := by
  obtain ⟨-, -, hn⟩ := T.get id (Prod.ext h rfl) ht
  exact Contents.not_holds_of_node? hn.symm

theorem of_addAll (T : Tier s) {l : List Node} (h : (s.addAll l).run t = (.ok (), u))
    (ht : T.Valid t.1) :
    T.Valid u.1 ∧ ∀ k, (T.contents u.1).Holds k ↔
      (T.contents t.1).Holds k ∨ ∃ n ∈ l, n.id = k := by
  induction l generalizing t with
  | nil =>
    obtain ⟨-, rfl⟩ : Except.ok () = .ok () ∧ t = u := Prod.mk.inj h
    exact ⟨ht, by simp⟩
  | cons n l ih =>
    rcases of_run_bind h with ⟨e, -, hr⟩ | ⟨_, v, hadd, hrest⟩
    · exact absurd hr nofun
    · obtain ⟨hv, hheld⟩ := T.add n hadd ht
      obtain ⟨hu, hheld'⟩ := ih hrest hv
      refine ⟨hu, fun k => ?_⟩
      rw [hheld' k, hheld k, List.exists_mem_cons_iff, or_assoc]

structure Lists (T : Tier s) : Prop where
  children {v : σ} {p id : Hash} : T.Valid v → id ∈ (T.contents v).children p →
    (T.contents v).Holds id
  recent (kind : NodeKind) (count : Nat) :
    T.Atomic (s.recent kind count) fun c l c' => c' = c ∧ ∀ n ∈ l, c.Holds n.id

end Tier

namespace Memory

variable {ω : Type}

def contents (m : Memory) : Contents where
  node? := m.get?
  children := m.children
  id_of_node? := id_of_get?

def tier : Tier (Memory.store (ω := ω)) where
  Valid := Indexed
  contents := contents
  get id := by
    rintro s _ _ ⟨⟩ hs
    exact ⟨hs, rfl, rfl⟩
  children p := by
    rintro s _ _ ⟨⟩ hs
    exact ⟨hs, rfl, rfl⟩
  nodes := by
    rintro s _ _ ⟨⟩ hs
    refine ⟨hs, rfl, fun id hid => ?_⟩
    obtain ⟨n, hn⟩ := Option.isSome_iff_exists.1 hid
    exact ⟨n, mem_of_get? hn, id_of_get? hn⟩
  add n := by
    rintro ⟨m, w⟩ r t hrun hm
    obtain ⟨rfl, rfl⟩ := Prod.mk.inj (run_add.symm.trans hrun)
    exact ⟨hm.add n, fun id => isSome_get?_add⟩
  removeSubtree id := by
    rintro ⟨m, w⟩ r t hrun hm
    rw [run_removeSubtree] at hrun
    cases hr : m.removeSubtree id with
    | error e =>
      rw [hr] at hrun
      obtain ⟨rfl, rfl⟩ := Prod.mk.inj hrun
      exact ⟨hm, rfl⟩
    | ok m' =>
      rw [hr] at hrun
      obtain ⟨rfl, rfl⟩ := Prod.mk.inj hrun
      obtain ⟨_, ids, hids, rfl⟩ := hm.exists_rows_of_removeSubtree hr
      refine ⟨hm.without (rows_closed hids).2, fun k => ?_⟩
      have hbelow : k ∈ ids ↔ m.contents.Below id k := mem_rows_iff hids
      refine Iff.trans ?_ (and_congr_right' (not_congr hbelow))
      show ((m.without ids).get? k).isSome ↔ (m.get? k).isSome ∧ k ∉ ids
      rw [hm.get?_without]
      by_cases hk : k ∈ ids <;> simp [hk]
  absent_of_notFound := by
    rintro id k ⟨m, w⟩ u hm hrun
    rw [run_removeSubtree] at hrun
    cases hr : m.removeSubtree id with
    | error e =>
      rw [hr] at hrun
      obtain rfl := Except.error.inj (Prod.mk.inj hrun).1
      exact Contents.not_holds_of_node? (c := m.contents) (get?_eq_none_of_notFound hr)
    | ok m' =>
      rw [hr] at hrun
      exact absurd hrun nofun

theorem lists : (tier (ω := ω)).Lists where
  children {m p id} hm hid := by
    obtain ⟨-, n, hn, -, rfl⟩ := Indexed.mem_children hm |>.1 hid
    exact Contents.holds_of_node? (c := m.contents) (hm.get?_eq_some_iff.2 ⟨hn, rfl⟩)
  recent kind count := by
    rintro ⟨m, w⟩ _ _ ⟨⟩ hm
    refine ⟨hm, rfl, fun n hn => ?_⟩
    obtain ⟨stamp, -, hstamp⟩ := List.mem_filterMap.1 (List.mem_of_mem_take hn)
    rw [id_of_get? hstamp]
    exact Contents.holds_of_node? (c := m.contents) hstamp

end Memory

namespace Faulty

variable {ω σ α : Type} {inner : Store ω σ}

def view (v : View σ) : View (Faulty σ) :=
  ⟨fun f => v.Valid f.inner, fun f => v.contents f.inner⟩

def called (f : Faulty σ) (m : Method) : Faulty σ :=
  { f with calls := fun k => if k = m then f.calls m + 1 else f.calls k }

theorem run_guarded (m : Method) (a : Action (σ × ω) α) (f : Faulty σ) (w : ω) :
    (guarded m a).run (f, w) =
      if f.refuses m (f.calls m) then
        (.error (.io m.label "faulty" (some "injected")), (f.called m, w))
      else (within a).run (f.called m, w) := by
  have hrun : (guarded m a).run (f, w) =
      (if f.refuses m (f.calls m) then throw (.io m.label "faulty" (some "injected"))
        else within a : Action (Faulty σ × ω) α).run (f.called m, w) := rfl
  rw [hrun]
  split <;> rfl

theorem atomic_guarded {v : View σ} {a : Action (σ × ω) α}
    {promise : Contents → α → Contents → Prop} (ha : v.Atomic a promise) (m : Method) :
    (view v).Atomic (guarded m a) promise := by
  rintro ⟨f, w⟩ r t hrun hf
  rw [run_guarded] at hrun
  split at hrun
  · obtain ⟨rfl, rfl⟩ := Prod.mk.inj hrun
    exact ⟨hf, rfl⟩
  · obtain ⟨rfl, rfl⟩ := Prod.mk.inj hrun
    exact ha (s := (f.inner, w)) rfl hf

/-- A faulty store around a tier is a tier, whatever it refuses. -/
def tier (T : Tier inner) : Tier (Faulty.store inner) where
  toView := view T.toView
  get id := atomic_guarded (T.get id) .get
  children p := atomic_guarded (T.children p) .children
  nodes := atomic_guarded T.nodes .copyInto
  add n := atomic_guarded (T.add n) .add
  removeSubtree id := atomic_guarded (T.removeSubtree id) .removeSubtree
  absent_of_notFound := by
    rintro id k ⟨f, w⟩ u hf hrun
    have hrun := (run_guarded ..).symm.trans hrun
    split at hrun
    · exact absurd (Prod.mk.inj hrun).1 (fun h => nomatch h)
    · exact T.absent_of_notFound (t := (f.inner, w)) hf (Prod.ext (Prod.mk.inj hrun).1 rfl)

end Faulty

end Grove
