import Grove.Proofs.Archive.Forest
import Grove.Proofs.Stack.Call
import Grove.Store.Stack

/-! # Layered stacks

Archives and caches layered at will over empty memories. Whatever the layering, such a stack mimics
a memory, at first the empty one, so it shows what one empty memory shows.
-/

namespace Grove.Stack

open Store

theorem run_cached {front back : Stack} {d e : Disk}
    {s : (Shape.cached front.shape back.shape).State}
    (h : (Cache.opening front.shape.store back.shape.store).run ((front.state, back.state), d) =
      (.ok (), s, e)) :
    (Stack.cached front back).run d = (.ok ⟨.cached front.shape back.shape, s⟩, e) := by
  unfold Stack.cached
  rw [ExceptT.run_mk, h]
  rfl

inductive Layering where
  | memory
  | archived (inner : Layering)
  | cached (front back : Layering)
  deriving DecidableEq, Repr

namespace Layering

def raise : Layering → Action Disk Stack
  | memory => return .memory .empty
  | archived inner => return (← inner.raise).archived
  | cached front back => do Stack.cached (← front.raise) (← back.raise)

theorem exists_mimics {known : List Node} (hc : Consistent known) (l : Layering) (d : Disk) :
    ∃ (s : Stack) (rel : s.shape.State → Memory → Prop), l.raise.run d = (.ok s, d) ∧
      s.shape.store.Mimics known rel ∧ rel s.state .empty := by
  induction l with
  | memory => exact ⟨.memory .empty, _, rfl, Memory.mimics hc, rfl, Memory.within_empty known⟩
  | archived inner ih =>
    obtain ⟨s, rel, hrun, hs, hempty⟩ := ih
    exact ⟨s.archived, _, Action.run_bind_ok hrun, Archive.mimics hs, Archive.steady_new _, hempty⟩
  | cached front back ihf ihb =>
    obtain ⟨f, rf, hfrun, hf, hfe⟩ := ihf
    obtain ⟨b, rb, hbrun, hb, hbe⟩ := ihb
    -- Nothing is in front, so opening copies nothing.
    obtain ⟨⟨⟨x, y⟩, e⟩, hopen, hx, hy, he⟩ :=
      hf.leads_copyInto b.shape.store .empty b.state d ((f.state, b.state), d) ⟨hfe, rfl, rfl⟩
    obtain rfl : y = b.state := hy
    obtain rfl : e = d := he
    have hraise : (Layering.cached front back).raise.run e =
        (.ok ⟨.cached f.shape b.shape, (x, b.state)⟩, e) := by
      refine (Action.run_bind_ok hfrun).trans ?_
      exact (Action.run_bind_ok hbrun).trans (run_cached hopen)
    exact ⟨_, _, hraise, Cache.mimics hf hb hc, .empty, fun _ _ h => h, hx, hbe⟩

/-- A layered stack over empty memories shows in every run what one empty memory shows, provided
that the nodes added in the run are consistent: each call returns the same, and copies leave the
same behind. -/
theorem observe_raise {τ : Type} (l : Layering) (calls : List (Call Disk τ))
    (hc : Consistent (calls.flatMap Call.added)) (target : τ) (d : Disk) :
    ∃ s : Stack, l.raise.run d = (.ok s, d) ∧
      s.shape.store.observe calls s.state target d =
        Memory.store.observe calls .empty target d := by
  obtain ⟨s, rel, hrun, hs, hempty⟩ := l.exists_mimics hc d
  refine ⟨s, hrun, hs.observe_eq (Memory.mimics hc) hc (List.Subset.refl _) hempty ?_ target d⟩
  exact ⟨rfl, Memory.within_empty _⟩

theorem consistent_plot : Consistent Archive.plot := by
  have hids : (Archive.plot.map (·.id)).Nodup := by decide +kernel
  have hheight : ∀ n ∈ Archive.plot, n.parent.isNull = false →
      (if ∃ k ∈ Archive.plot, k.id = n.parent ∧ k.depth = 1 then 1 else 0) <
        if ∃ k ∈ Archive.plot, k.id = n.id ∧ k.depth = 1 then 1 else 0 := by
    decide +kernel
  refine ⟨fun _ ha _ hb => List.inj_on_of_nodup_map hids ha hb, ?_⟩
  exact not_transGen_hangs
    (fun id => if ∃ k ∈ Archive.plot, k.id = id ∧ k.depth = 1 then 1 else 0) hheight

/-- Calls that add the plot, copy it, and remove all but the author. -/
def clearing : List (Call Disk Memory) :=
  Archive.plot.map .add ++ .copyInto Memory.store ::
    Archive.plot.tail.map fun n => .removeSubtree n.id

/-- An archive in front of an archive of a cache shows in the clearing what a memory shows. -/
theorem observe_raise_clearing :
    ∃ s : Stack, (cached (archived memory) (archived (cached memory memory))).raise.run
        (.empty "" []) = (.ok s, .empty "" []) ∧
      s.shape.store.observe clearing s.state .empty (.empty "" []) =
        Memory.store.observe clearing .empty .empty (.empty "" []) := by
  have hadded : clearing.flatMap Call.added = Archive.plot := rfl
  have hc : Consistent (clearing.flatMap Call.added) := hadded ▸ consistent_plot
  exact observe_raise _ clearing hc .empty (.empty "" [])

end Layering

end Grove.Stack
