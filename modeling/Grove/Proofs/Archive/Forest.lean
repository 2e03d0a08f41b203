import Grove.Proofs.Archive.Run
import Grove.Proofs.Store.Forest

/-! # Validated archives

An archive over a memory to which nodes come by validation only, and from which they go by subtrees,
holds a forest at all times: whatever is stored hangs from a stored root, level by level, and its
ancestry is the way there. Levels are counted in 32 bits, so this needs that fewer nodes are stored
than there are levels.
-/

namespace Grove.Archive

variable {ω : Type} {a : Archive Memory} {w : ω} {n : Node} {id : Hash} {calls : List Call}

theorem Steady.forest_run (h : a.Steady) (hf : a.inner.Forest)
    (hcalls : ∀ c ∈ calls, c.isValidated = true)
    (hsize : ∀ done, done <+: calls →
      (run Memory.store done (a, w)).1.inner.nodes.length < 2 ^ 32) :
    ∃ a', run Memory.store calls (a, w) = (a', w) ∧ a'.Steady ∧ a'.inner.Forest := by
  apply h.run_induction hf hcalls (G := fun m => m.nodes.length < 2 ^ 32) hsize
  · intro m n verify _ hm hlt hn hv
    exact hm.insert_of_deepValid hlt hn hv
  · intro m m' id _ hm _ hr
    exact hm.of_removeSubtree hr

theorem Steady.run_ancestry (h : a.Steady) (hn : a.inner.get? id = some n)
    {line : List Node} (hline : Lineage a.inner.get? n.parent line)
    (hlength : line.length < a.inner.nodes.length) :
    (ancestry Memory.store id).run (a, w) = (.ok (line.map (·.id)), a, w) :=
  (h.run_whileOpen _).trans (run_within (Memory.run_ancestry hn hline.ascent hlength))

/-- An archive over an initially empty memory that takes in validated nodes only, fewer than there
are levels, stores each conversation and reply one level below its stored parent, and identities and
communities as roots. The ancestry of each node counts the levels down to a root, a community if it
is not a root itself, and parents never run in a circle. -/
theorem Steady.run_validated (h : a.Steady) (hempty : a.inner = .empty)
    (hcalls : ∀ c ∈ calls, c.isValidated = true)
    (hsize : ∀ done, done <+: calls →
      (run Memory.store done (a, w)).1.inner.nodes.length < 2 ^ 32) :
    let t := run Memory.store calls (a, w)
    let lookup := t.1.inner.get?
    (∀ id n, lookup id = some n →
      (n.kind = .conversation ∨ n.kind = .reply →
        ∃ p, lookup n.parent = some p ∧ n.depth.toNat = p.depth.toNat + 1) ∧
      (n.kind = .identity ∨ n.kind = .community → n.parent.isNull = true ∧ n.depth = 0) ∧
      ∃ line : List Node,
        (ancestry Memory.store id).run t = (.ok (line.map (·.id)), t) ∧
        (∀ p ∈ line, lookup p.id = some p) ∧
        line.map (·.depth.toNat) = (List.range n.depth.toNat).reverse ∧
        (n.kind = .conversation ∨ n.kind = .reply →
          ∃ r, line.getLast? = some r ∧ r.kind = .community)) ∧
    ∀ id, ¬Relation.TransGen t.1.inner.Above id id := by
  obtain ⟨b, hb, hs, hf⟩ := h.forest_run (w := w) (hempty ▸ Memory.forest_empty) hcalls hsize
  simp only [hb]
  refine ⟨fun id n hn => ?_, hf.not_above_self⟩
  have hm := Memory.mem_of_get? hn
  have hg := hf.grounded n hm
  obtain ⟨line, hline, hsub, hcount, hlast⟩ := hf.lineage hm
  refine ⟨fun hk => ?_, hg.root, line, hs.run_ancestry hn hline ?_, fun p hp => ?_, hcount,
    hlast⟩
  · obtain ⟨_, p, hp, _, hd⟩ := hg.below hk
    exact ⟨p, hp, hd⟩
  · have hlength := congrArg List.length hcount
    rw [List.length_map, List.length_reverse, List.length_range] at hlength
    exact hlength ▸ hf.depth_lt hm
  · exact hf.get?_eq_some_iff.2 ⟨hsub hp, rfl⟩

/-- An identity, a community of it, and a reply there. -/
def plot : List Node :=
  let name : Content := ⟨⟨.utf8, 2⟩, [0x68, 0x69]⟩
  let author := Node.unsigned .null .null 0
    (.identity name (.ofFixed .ed25519Key (List.replicate 32 0x01)))
  let place := Node.unsigned .null author.id 0 (.community name)
  [author, place, Node.unsigned place.id author.id 1 (.reply place.id .null name)]

def planting : List Call :=
  plot.map fun n => .addValidated n fun _ _ _ => true

/-- After the planting the reply is stored, and its ancestry is a community. -/
theorem run_validated_planting :
    ∃ n ∈ plot, n.kind = .reply ∧
      (run Memory.store planting ({ inner := .empty }, ())).1.inner.get? n.id = some n ∧
      ∃ r : Node, r.kind = .community ∧
        (ancestry Memory.store n.id).run (run Memory.store planting ({ inner := .empty }, ())) =
          (.ok [r.id], run Memory.store planting ({ inner := .empty }, ())) := by
  have hstored : ∃ n ∈ plot, n.kind = .reply ∧ n.depth = 1 ∧
      (run Memory.store planting ({ inner := .empty }, ())).1.inner.get? n.id = some n := by
    decide +kernel
  have hsteady : ({ inner := .empty } : Archive Memory).Steady := steady_new _
  have hcalls : ∀ c ∈ planting, c.isValidated = true := List.forall_mem_map.2 fun _ _ => rfl
  have hsize : ∀ done, done <+: planting →
      (run Memory.store done ({ inner := .empty }, ())).1.inner.nodes.length < 2 ^ 32 := by
    intro done hdone
    have hle := hsteady.length_run_le (w := ()) Memory.indexed_empty.toLinked
      fun c hc => hcalls c (hdone.subset hc)
    have hlength : done.length ≤ 3 := hdone.length_le
    calc
      _ ≤ 0 + done.length := hle
      _ ≤ 0 + 3 := Nat.add_le_add_left hlength 0
      _ < 2 ^ 32 := by decide
  obtain ⟨n, hn, hk, hd, hs⟩ := hstored
  obtain ⟨hall, _⟩ := hsteady.run_validated rfl hcalls hsize
  obtain ⟨_, _, line, hrun, _, hcount, hlast⟩ := hall n.id n hs
  rw [hd] at hcount
  obtain ⟨r, rfl, _⟩ := List.map_eq_singleton_iff.1 hcount
  obtain ⟨_, hr, hc⟩ := hlast (.inr hk)
  obtain rfl := Option.some.inj hr
  exact ⟨n, hn, hk, hs, r, hc, hrun⟩

end Grove.Archive
