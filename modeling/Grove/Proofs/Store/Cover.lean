import Grove.Proofs.Archive.Forest
import Grove.Proofs.Store.Cache
import Grove.Proofs.Store.Tier

/-! # Covered caches

A cache is covered when all that its front holds is behind too. Opening a cache over two tiers sees
to that, and neither looking up nor adding puts an end to it, whatever the tiers refuse. A removal
does when it fails after the back is done: the front goes on finding what the back has dropped.
-/

namespace Grove

open Grove.Action

variable {ω σ κ β α : Type}

namespace Cache

variable {front : Store ω κ} {back : Store ω β} (F : Tier front) (B : Tier back)

def Sound (s : (κ × β) × ω) : Prop :=
  F.Valid s.1.1 ∧ B.Valid s.1.2

/-- The front holds the identifier and the back does not. -/
def Uncovered (s : (κ × β) × ω) (k : Hash) : Prop :=
  (F.contents s.1.1).Holds k ∧ ¬(B.contents s.1.2).Holds k

variable {F B} {s t : (κ × β) × ω} {id k : Hash}

theorem uncovered_congr (hf : F.contents t.1.1 = F.contents s.1.1)
    (hb : B.contents t.1.2 = B.contents s.1.2) : Uncovered F B t k ↔ Uncovered F B s k := by
  rw [Uncovered, Uncovered, hf, hb]

theorem of_front {x : Action (κ × ω) α} {promise : Contents → α → Contents → Prop}
    {r : Except StoreError α} (hx : F.Atomic x promise) (h : x.front.run s = (r, t))
    (hs : Sound F B s) :
    Sound F B t ∧ B.contents t.1.2 = B.contents s.1.2 ∧
      Fulfils promise (F.contents s.1.1) r (F.contents t.1.1) := by
  obtain ⟨hrun, hback⟩ := of_run_front h
  obtain ⟨hvalid, hr⟩ := hx hrun hs.1
  rw [Sound, hback]
  exact ⟨⟨hvalid, hs.2⟩, rfl, hr⟩

theorem of_back {x : Action (β × ω) α} {promise : Contents → α → Contents → Prop}
    {r : Except StoreError α} (hx : B.Atomic x promise) (h : x.back.run s = (r, t))
    (hs : Sound F B s) :
    Sound F B t ∧ F.contents t.1.1 = F.contents s.1.1 ∧
      Fulfils promise (B.contents s.1.2) r (B.contents t.1.2) := by
  obtain ⟨hrun, hfront⟩ := of_run_back h
  obtain ⟨hvalid, hr⟩ := hx hrun hs.2
  rw [Sound, hfront]
  exact ⟨⟨hs.1, hvalid⟩, rfl, hr⟩

theorem of_promote {r : Except StoreError (Option Node)}
    (h : (promote front back id).run s = (r, t)) (hs : Sound F B s) :
    Sound F B t ∧ (∀ k, Uncovered F B t k → Uncovered F B s k) ∧
      ∀ n, r = .ok (some n) → (B.contents s.1.2).Holds id := by
  rcases of_run_bind h with ⟨e, hback, rfl⟩ | ⟨_ | n, u, hback, hrest⟩
  · obtain ⟨ht, hf, hb⟩ := of_back (B.get id) hback hs
    exact ⟨ht, fun k => (uncovered_congr hf hb).1, fun n hr => absurd hr (by simp)⟩
  · obtain ⟨ht, hf, hb, -⟩ := of_back (B.get id) hback hs
    obtain ⟨rfl, rfl⟩ : .ok none = r ∧ u = t := Prod.mk.inj hrest
    exact ⟨ht, fun k => (uncovered_congr hf hb).1, fun n hr => absurd hr (by simp)⟩
  · obtain ⟨hu, hf, hb, hn⟩ := of_back (B.get id) hback hs
    have hid : n.id = id := Contents.id_of_node? _ hn.symm
    have hheld : (B.contents s.1.2).Holds id := Contents.holds_of_node? hn.symm
    rcases of_run_bind hrest with ⟨e, hadd, rfl⟩ | ⟨_, v, hadd, hrest⟩
    · obtain ⟨ht, hb', hf'⟩ := of_front (F.add n) hadd hu
      refine ⟨ht, fun k => (uncovered_congr (hf'.trans hf) (hb'.trans hb)).1, fun n hr => ?_⟩
      exact absurd hr (by simp)
    · obtain ⟨ht, hb', hf'⟩ := of_front (F.add n) hadd hu
      obtain ⟨rfl, rfl⟩ : .ok (some n) = r ∧ v = t := Prod.mk.inj hrest
      refine ⟨ht, fun k ⟨hk, hnot⟩ => ?_, fun _ _ => hheld⟩
      rw [hb', hb] at hnot
      refine ⟨hf ▸ ((hf' k).1 hk).resolve_right ?_, hnot⟩
      rintro rfl
      exact hnot (hid ▸ hheld)

theorem of_get {r : Except StoreError (Option Node)} (h : (get front back id).run s = (r, t))
    (hs : Sound F B s) :
    Sound F B t ∧ (∀ k, Uncovered F B t k → Uncovered F B s k) ∧
      ∀ n, r = .ok (some n) → (F.contents s.1.1).Holds id ∨ (B.contents s.1.2).Holds id := by
  rw [get_eq] at h
  rcases of_run_bind h with ⟨e, hfront, rfl⟩ | ⟨_ | n, u, hfront, hrest⟩
  · obtain ⟨ht, hb, hf⟩ := of_front (F.get id) hfront hs
    exact ⟨ht, fun k => (uncovered_congr hf hb).1, fun n hr => absurd hr (by simp)⟩
  · obtain ⟨hu, hb, hf, -⟩ := of_front (F.get id) hfront hs
    obtain ⟨ht, hcover, hn⟩ := of_promote hrest hu
    refine ⟨ht, fun k hk => (uncovered_congr hf hb).1 (hcover k hk), fun n hr => .inr ?_⟩
    exact hb ▸ hn n hr
  · obtain ⟨hu, hb, hf, hn⟩ := of_front (F.get id) hfront hs
    obtain ⟨rfl, rfl⟩ : .ok (some n) = r ∧ u = t := Prod.mk.inj hrest
    refine ⟨hu, fun k => (uncovered_congr hf hb).1, fun _ _ => .inl ?_⟩
    exact Contents.holds_of_node? hn.symm

theorem of_add {r : Except StoreError Unit} {n : Node} (h : (add front back n).run s = (r, t))
    (hs : Sound F B s) : Sound F B t ∧ ∀ k, Uncovered F B t k → Uncovered F B s k := by
  rcases of_run_bind h with ⟨e, hback, rfl⟩ | ⟨_, u, hback, hfront⟩
  · obtain ⟨ht, hf, hb⟩ := of_back (B.add n) hback hs
    exact ⟨ht, fun k => (uncovered_congr hf hb).1⟩
  · obtain ⟨hu, hf, hb⟩ := of_back (B.add n) hback hs
    obtain ⟨ht, hb', hf'⟩ := of_front (F.add n) hfront hu
    refine ⟨ht, fun k ⟨hk, hnot⟩ => ?_⟩
    rw [hb', hb k, not_or] at hnot
    cases r with
    | error e => exact ⟨hf ▸ hf' ▸ hk, hnot.1⟩
    | ok => exact ⟨hf ▸ ((hf' k).1 hk).resolve_right hnot.2, hnot.1⟩

theorem of_purge {r : Except StoreError Unit} {ids : List Hash}
    (h : (purge front ids).run s = (r, t)) (hs : Sound F B s) :
    Sound F B t ∧ B.contents t.1.2 = B.contents s.1.2 ∧
      ∀ k, (F.contents t.1.1).Holds k → (F.contents s.1.1).Holds k ∧ (r = .ok () → k ∉ ids) := by
  induction ids generalizing s with
  | nil =>
    obtain ⟨rfl, rfl⟩ : .ok () = r ∧ s = t := Prod.mk.inj h
    exact ⟨hs, rfl, fun k hk => ⟨hk, fun _ => List.not_mem_nil⟩⟩
  | cons id ids ih =>
    rcases of_run_bind h with ⟨e, hone, rfl⟩ | ⟨_, u, hone, hrest⟩
    · rcases of_unlessNotFound hone with ⟨_, _, hr⟩ | hone
      · exact absurd hr nofun
      · obtain ⟨ht, hb, hf⟩ := of_front (F.removeSubtree id) hone hs
        exact ⟨ht, hb, fun k hk => ⟨hf ▸ hk, nofun⟩⟩
    · have hu : Sound F B u ∧ B.contents u.1.2 = B.contents s.1.2 ∧
          ∀ k, (F.contents u.1.1).Holds k → (F.contents s.1.1).Holds k ∧ k ≠ id := by
        rcases of_unlessNotFound hone with ⟨_, hone, -⟩ | hone
        · obtain ⟨hu, hb, hf⟩ := of_front (F.removeSubtree id) hone hs
          have habsent := F.absent_of_notFound hs.1 (of_run_front hone).1
          refine ⟨hu, hb, fun k hk => ⟨hf ▸ hk, ?_⟩⟩
          rintro rfl
          exact habsent (hf ▸ hk)
        · obtain ⟨hu, hb, hf⟩ := of_front (F.removeSubtree id) hone hs
          refine ⟨hu, hb, fun k hk => ⟨((hf k).1 hk).1, ?_⟩⟩
          rintro rfl
          exact ((hf k).1 hk).2 .refl
      obtain ⟨hu, hb, hheld⟩ := hu
      obtain ⟨ht, hb', hheld'⟩ := ih hrest hu
      refine ⟨ht, hb'.trans hb, fun k hk => ?_⟩
      obtain ⟨hk, hnot⟩ := hheld' k hk
      obtain ⟨hk, hne⟩ := hheld k hk
      exact ⟨hk, fun hr => List.not_mem_cons_of_ne_of_not_mem hne (hnot hr)⟩

/-- Removing uncovers something only if it fails, and then only what the back held before. -/
theorem of_removeSubtree {r : Except StoreError Unit}
    (h : (removeSubtree front back id).run s = (r, t)) (hs : Sound F B s) :
    Sound F B t ∧ ∀ k, Uncovered F B t k →
      Uncovered F B s k ∨ (B.contents s.1.2).Holds k ∧ ∃ e, r = .error e := by
  rw [run_removeSubtree] at h
  rcases of_run_bind h with ⟨e, hsearch, rfl⟩ | ⟨ids, u, hsearch, hrest⟩
  · obtain ⟨ht, hf, hb⟩ := of_back (B.subtree _ id) hsearch hs
    exact ⟨ht, fun k hk => .inl ((uncovered_congr hf hb).1 hk)⟩
  · obtain ⟨hu, hf, hb, hids⟩ := of_back (B.subtree _ id) hsearch hs
    rcases of_run_bind hrest with ⟨e, hback, rfl⟩ | ⟨_, v, hback, hpurge⟩
    · obtain ⟨ht, hf', hb'⟩ := of_back (B.removeSubtree id) hback hu
      exact ⟨ht, fun k hk => .inl ((uncovered_congr (hf'.trans hf) (hb'.trans hb)).1 hk)⟩
    · obtain ⟨hv, hf', hb'⟩ := of_back (B.removeSubtree id) hback hu
      obtain ⟨ht, hb'', hheld⟩ := of_purge hpurge hv
      refine ⟨ht, fun k ⟨hk, hnot⟩ => ?_⟩
      obtain ⟨hk, hpurged⟩ := hheld k hk
      rw [hf', hf] at hk
      cases r with
      | error e =>
        by_cases hback : (B.contents s.1.2).Holds k
        · exact .inr ⟨hback, e, rfl⟩
        · exact .inl ⟨hk, hback⟩
      | ok =>
        -- All below is purged, and nothing else has gone from the back.
        have hbelow : ¬(B.contents s.1.2).Below id k :=
          fun hbelow => hpurged rfl (List.mem_reverse.2 ((hids k).2 hbelow))
        rw [hb'', hb' k, hb] at hnot
        exact .inl ⟨hk, fun hback => hnot ⟨hback, hbelow⟩⟩

theorem of_opening (h : (opening front back).run s = (.ok (), t)) (hs : Sound F B s) :
    Sound F B t ∧ ∀ k, ¬Uncovered F B t k := by
  rcases of_run_bind h with ⟨e, -, hr⟩ | ⟨l, u, hnodes, hcopy⟩
  · exact absurd hr nofun
  · obtain ⟨hu, -, hf, hl⟩ := of_front F.nodes hnodes hs
    obtain ⟨hrun, hfront⟩ := of_run_back hcopy
    obtain ⟨hvalid, hheld⟩ := B.of_addAll hrun hu.2
    rw [Sound, hfront]
    refine ⟨⟨hu.1, hvalid⟩, fun k ⟨hk, hnot⟩ => hnot ((hheld k).2 (.inr (hl k ?_)))⟩
    rwa [hfront, hf] at hk

inductive Call where
  | get (id : Hash)
  | add (n : Node)
  | removeSubtree (id : Hash)
  deriving DecidableEq, Repr

def Call.perform (front : Store ω κ) (back : Store ω β) : Call → Action ((κ × β) × ω) Unit
  | get id => do
    let _ ← Cache.get front back id
  | add n => Cache.add front back n
  | removeSubtree id => Cache.removeSubtree front back id

/-- Makes one call after another, also after those that fail. -/
def run (front : Store ω κ) (back : Store ω β) (calls : List Call) (s : (κ × β) × ω) :
    (κ × β) × ω :=
  calls.foldl (fun s c => ((c.perform front back).run s).2) s

theorem run_concat (calls : List Call) (c : Call) (s : (κ × β) × ω) :
    run front back (calls ++ [c]) s = ((c.perform front back).run (run front back calls s)).2 := by
  rw [run, List.foldl_append]
  rfl

theorem Call.of_perform {c : Call} {r : Except StoreError Unit}
    (h : (c.perform front back).run s = (r, t)) (hs : Sound F B s) :
    Sound F B t ∧ ∀ k, Uncovered F B t k → Uncovered F B s k ∨
      (B.contents s.1.2).Holds k ∧ ∃ id e, c = .removeSubtree id ∧ r = .error e := by
  cases c with
  | get id =>
    rcases of_run_bind h with ⟨e, hget, -⟩ | ⟨_, u, hget, hrest⟩
    · obtain ⟨ht, hcover, -⟩ := of_get hget hs
      exact ⟨ht, fun k hk => .inl (hcover k hk)⟩
    · obtain ⟨-, rfl⟩ : .ok () = r ∧ u = t := Prod.mk.inj hrest
      obtain ⟨ht, hcover, -⟩ := of_get hget hs
      exact ⟨ht, fun k hk => .inl (hcover k hk)⟩
  | add n =>
    obtain ⟨ht, hcover⟩ := of_add h hs
    exact ⟨ht, fun k hk => .inl (hcover k hk)⟩
  | removeSubtree id =>
    obtain ⟨ht, hcover⟩ := of_removeSubtree h hs
    refine ⟨ht, fun k hk => (hcover k hk).imp_right ?_⟩
    rintro ⟨hback, e, rfl⟩
    exact ⟨hback, id, e, rfl, rfl⟩

/-- Some removal in the run failed after it had taken the identifier from the back. -/
def Dropped (B : Tier back) (front : Store ω κ) (calls : List Call) (s : (κ × β) × ω) (k : Hash) :
    Prop :=
  ∃ done id e, done ++ [.removeSubtree id] <+: calls ∧
    ((removeSubtree front back id).run (run front back done s)).1 = .error e ∧
    (B.contents (run front back done s).1.2).Holds k ∧
    ¬(B.contents (run front back (done ++ [.removeSubtree id]) s).1.2).Holds k

theorem dropped_of_uncovered_run (hs : Sound F B s) (hcover : ∀ k, ¬Uncovered F B s k)
    (calls : List Call) :
    Sound F B (run front back calls s) ∧
      ∀ k, Uncovered F B (run front back calls s) k → Dropped B front calls s k := by
  induction calls using List.reverseRecOn with
  | nil => exact ⟨hs, fun k hk => absurd hk (hcover k)⟩
  | append_singleton calls c ih =>
    obtain ⟨hs', ih⟩ := ih
    rw [run_concat]
    obtain ⟨ht, hstep⟩ := Call.of_perform (r := _) (t := _) rfl hs'
    refine ⟨ht, fun k hk => ?_⟩
    rcases hstep k hk with hk' | ⟨hback, id, e, rfl, hr⟩
    · obtain ⟨done, id, e, hdone, hrest⟩ := ih k hk'
      exact ⟨done, id, e, hdone.trans (List.prefix_append ..), hrest⟩
    · exact ⟨calls, id, e, List.prefix_refl _, hr, hback, run_concat calls _ s ▸ hk.2⟩

/-- In every run of a cache over two tiers, whatever they refuse, all that is found in front or in
the cache as a whole is also behind, unless a removal that failed has dropped it from there. -/
theorem not_misses_run {x : κ} {y : β} {w : ω} (hx : F.Valid x) (hy : B.Valid y)
    (hopen : (opening front back).run ((x, y), w) = (.ok (), s)) (calls : List Call) (k : Hash) :
    let t := run front back calls s
    front.Finds (t.1.1, t.2) k ∨ (store front back).Finds t k →
      ¬back.Misses (t.1.2, t.2) k ∨ Dropped B front calls s k := by
  obtain ⟨hs, hcover⟩ := of_opening (F := F) (B := B) hopen ⟨hx, hy⟩
  obtain ⟨ht, hrun⟩ := dropped_of_uncovered_run hs hcover calls
  intro t hfind
  by_cases hback : (B.contents t.1.2).Holds k
  · exact .inl fun hmiss => B.not_holds_of_misses ht.2 hmiss hback
  · refine .inr (hrun k ⟨?_, hback⟩)
    rcases hfind with hfind | ⟨n, hget⟩
    · exact F.holds_of_finds ht.1 hfind
    · obtain ⟨-, -, hone⟩ := of_get (Prod.ext hget rfl) ht
      exact (hone n rfl).resolve_right hback

/-- An empty memory in front of another, which refuses a method once it was called so often. -/
def brittle (m : Method) (limit : Nat) : (Faulty Memory × Memory) × Unit :=
  ((Faulty.fresh (Faulty.refusing [(m, limit)]) .empty, .empty), ())

/-- The plot is covered although the front refuses all of it but the author. -/
theorem not_misses_run_plot :
    ∃ s, (opening (Faulty.store Memory.store) Memory.store).run (brittle .add 1) = (.ok (), s) ∧
      ∃ t, t = run (Faulty.store Memory.store) Memory.store (Archive.plot.map .add) s ∧
        ∀ k, (Faulty.store Memory.store).Finds (t.1.1, t.2) k →
          ¬Memory.store.Misses (t.1.2, t.2) k := by
  refine ⟨_, rfl, _, rfl, fun k hk => ?_⟩
  have hrun := not_misses_run (F := Faulty.tier Memory.tier) (B := Memory.tier)
    (x := (brittle .add 1).1.1) (w := ()) Memory.indexed_empty Memory.indexed_empty rfl
    (Archive.plot.map .add) k (.inl hk)
  refine hrun.resolve_right ?_
  rintro ⟨done, id, e, hdone, -⟩
  obtain ⟨_, -, h⟩ := List.mem_map.1 (hdone.subset List.mem_concat_self)
  cases h

/-- When the front refuses to remove the author, the back is already done with it, while the front
and the cache still find it. -/
theorem finds_and_misses_of_refused_removal :
    ∃ s, (opening (Faulty.store Memory.store) Memory.store).run (brittle .removeSubtree 0) =
        (.ok (), s) ∧
      ∃ n ∈ Archive.plot, ∃ t, t = run (Faulty.store Memory.store) Memory.store
          [.add n, .removeSubtree n.id] s ∧
        (Faulty.store Memory.store).Finds (t.1.1, t.2) n.id ∧
        (store (Faulty.store Memory.store) Memory.store).Finds t n.id ∧
        Memory.store.Misses (t.1.2, t.2) n.id := by
  refine ⟨_, rfl, ?_⟩
  simp only [exists_eq_left]
  decide +kernel

end Cache

end Grove
