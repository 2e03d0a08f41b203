import Grove.Proofs.Store.Action
import Grove.Tree.Kinship

/-! # Ancestries

The lineage of a reference lists what is found by following parents until a null reference, and its
ascent what is found until a reference that is null or leads nowhere. Where looking up is steady,
climbing lists exactly the identifiers on the ascent. Walks below a node only look at the store,
whatever their visitor notes.
-/

namespace Grove

/-- What is found by following parents from a reference up to the null reference, nearest first. -/
inductive Lineage (lookup : Hash → Option Node) : Hash → List Node → Prop where
  | root {id : Hash} (null : id.isNull = true) : Lineage lookup id []
  | step {id : Hash} {p : Node} {line : List Node} (notNull : id.isNull = false)
      (found : lookup id = some p) (above : Lineage lookup p.parent line) :
      Lineage lookup id (p :: line)

namespace Lineage

variable {lookup : Hash → Option Node} {id : Hash} {n : Node} {line : List Node}

theorem mono {more : Hash → Option Node} (h : Lineage lookup id line)
    (hle : ∀ id n, lookup id = some n → more id = some n) : Lineage more id line := by
  induction h with
  | root hn => exact .root hn
  | step hn hp _ ih => exact .step hn (hle _ _ hp) ih

theorem eq_nil (h : Lineage lookup id line) (hn : id.isNull = true) : line = [] := by
  cases h with
  | root _ => rfl
  | step hnot => simp [hn] at hnot

theorem unique {line' : List Node} (h : Lineage lookup id line) (h' : Lineage lookup id line') :
    line = line' := by
  induction h generalizing line' with
  | root hn => exact (h'.eq_nil hn).symm
  | step hn hp _ ih =>
    cases h' with
    | root hnull => simp [hn] at hnull
    | step _ hp' above =>
      obtain rfl := Option.some.inj (hp.symm.trans hp')
      rw [ih above]

theorem exists_lookup (h : Lineage lookup id line) : ∀ p ∈ line, ∃ id, lookup id = some p := by
  induction h with
  | root => simp
  | step _ hp _ ih => exact List.forall_mem_cons.2 ⟨⟨_, hp⟩, ih⟩

theorem of_append {below : List Node} (h : Lineage lookup id (below ++ n :: line)) :
    Lineage lookup n.parent line := by
  induction below generalizing id with
  | nil => cases h with | step _ _ above => exact above
  | cons p below ih => cases h with | step _ _ above => exact ih above

theorem not_mem (h : Lineage lookup n.parent line) : n ∉ line := by
  intro hn
  obtain ⟨below, above, rfl⟩ := List.append_of_mem hn
  have hlength := congrArg List.length (h.unique h.of_append)
  rw [List.length_append, List.length_cons] at hlength
  omega

theorem nodup_cons (h : Lineage lookup n.parent line) : (n :: line).Nodup := by
  refine List.nodup_cons.2 ⟨h.not_mem, ?_⟩
  induction line generalizing n with
  | nil => exact List.nodup_nil
  | cons p line ih =>
    cases h with
    | step _ _ above => exact List.nodup_cons.2 ⟨above.not_mem, ih above⟩

end Lineage

/-- What is found by following parents from a reference as far as they can be looked up, nearest
first. -/
inductive Ascent (lookup : Hash → Option Node) : Hash → List Node → Prop where
  | null {id : Hash} (null : id.isNull = true) : Ascent lookup id []
  | absent {id : Hash} (absent : lookup id = none) : Ascent lookup id []
  | step {id : Hash} {p : Node} {line : List Node} (notNull : id.isNull = false)
      (found : lookup id = some p) (above : Ascent lookup p.parent line) :
      Ascent lookup id (p :: line)

theorem Lineage.ascent {lookup : Hash → Option Node} {id : Hash} {line : List Node}
    (h : Lineage lookup id line) : Ascent lookup id line := by
  induction h with
  | root hn => exact .null hn
  | step hn hp _ ih => exact .step hn hp ih

section Climb

variable {σ : Type} {get : Hash → Action σ (Option Node)} {lookup : Hash → Option Node} {s : σ}

theorem answers_climb (hget : ∀ id, (get id).Answers s (lookUp lookup id))
    (hid : ∀ id n, lookup id = some n → n.id = id) {id : Hash} {line : List Node}
    (h : Ascent lookup id line) {bound : Nat} (hb : line.length < bound) :
    (climb get bound id).Answers s (.ok (line.map (·.id))) := by
  induction h generalizing bound with
  | null hn => cases bound <;> simp only [climb, hn, if_true] <;> rfl
  | @absent id habsent =>
    obtain _ | bound := bound
    · exact absurd hb (Nat.not_lt_zero _)
    have hg : (get id).run s = (.ok none, s) := by
      rw [← habsent]
      exact hget id
    unfold climb
    split
    · rfl
    · exact Action.run_bind_ok hg
  | @step id p line hn hp _ ih =>
    obtain _ | bound := bound
    · exact absurd hb (Nat.not_lt_zero _)
    have hg : (get id).run s = (.ok (some p), s) := by
      rw [← hp]
      exact hget id
    have hc := ih (Nat.lt_of_succ_lt_succ hb)
    unfold climb
    rw [if_neg (by simp [hn]), List.map_cons, hid id p hp]
    exact (Action.run_bind_ok hg).trans (Action.run_bind_ok hc)

theorem answers_ancestry (hget : ∀ id, (get id).Answers s (lookUp lookup id))
    (hid : ∀ id n, lookup id = some n → n.id = id) {id : Hash} {n : Node} {line : List Node}
    (hn : lookup id = some n) (h : Ascent lookup n.parent line) {bound : Nat}
    (hb : line.length < bound) :
    (ancestry get bound id).Answers s (.ok (line.map (·.id))) := by
  have hg : (get id).run s = (.ok (some n), s) := by
    rw [← hn]
    exact hget id
  exact (Action.run_bind_ok hg).trans (answers_climb hget hid h hb)

end Climb

section Keeps

variable {σ τ ε : Type} {part : σ → τ}

theorem keeps_climb {get : Hash → Action σ (Option Node)} (hget : ∀ id, Keeps part (get id))
    (bound : Nat) (id : Hash) : Keeps part (climb get bound id) := by
  induction bound generalizing id with
  | zero => exact keeps_ite (keeps_pure _) (keeps_throw _)
  | succ bound ih =>
    refine keeps_ite (keeps_pure _) ((hget id).bind ?_)
    rintro (_ | n)
    · exact keeps_pure _
    · exact (ih _).bind fun _ => keeps_pure _

theorem keeps_visitAll {children : Hash → Action σ (List Hash)} {visit : Visitor σ ε Hash}
    (hchildren : ∀ id, Keeps part (children id)) (hvisit : ∀ id, Keeps part (visit id))
    (bound : Nat) (queue seen : List Hash) :
    Keeps part (Walk.visitAll children visit bound queue seen) := by
  induction bound generalizing queue seen with
  | zero =>
    obtain _ | ⟨id, queue⟩ := queue
    · exact keeps_pure _
    · exact keeps_throw _
  | succ bound ih =>
    obtain _ | ⟨id, queue⟩ := queue
    · exact keeps_pure _
    · exact ((hvisit id).adapt _).bind fun _ =>
        ((hchildren id).adapt _).bind fun _ => ih _ _

theorem keeps_walk {ground : Ground σ} {visit : Visitor σ ε Hash}
    (hground : ∀ id, Keeps part (ground.children id)) (hvisit : ∀ id, Keeps part (visit id))
    (root : Hash) : Keeps part (Walk.run ground root visit) :=
  keeps_ite ((keeps_throw _).bind fun _ => keeps_visitAll hground hvisit _ _ _)
    (keeps_visitAll hground hvisit _ _ _)

theorem keeps_beside {α : Type} {a : Action σ α} (ha : Keeps part a) :
    Keeps (fun t => part t.1) (Trace.beside a) :=
  fun t => ha t.1

theorem keeps_note (id : Hash) :
    Keeps (fun t => part t.1) (Trace.note id : ExceptT ε (StateM (σ × List Hash)) Unit) :=
  fun _ => rfl

theorem keeps_notes {walk : ExceptT ε (StateM (σ × List Hash)) Unit}
    (hwalk : Keeps (fun t => part t.1) walk) : Keeps part (Trace.notes walk) :=
  fun s => hwalk (s, [])

theorem keeps_descendants {ground : Ground σ} (hground : ∀ id, Keeps part (ground.children id))
    (id : Hash) : Keeps part (ground.descendants (ε := ε) id) :=
  keeps_notes <| keeps_walk (fun p => keeps_beside (hground p))
    (fun _ => keeps_ite (keeps_note _) (keeps_pure _)) id

theorem keeps_leaves {ground : Ground σ} (hground : ∀ id, Keeps part (ground.children id))
    (id : Hash) : Keeps part (ground.leaves (ε := ε) id) := by
  refine keeps_notes (Keeps.adapt _ (keeps_walk (fun p => keeps_beside (hground p)) ?_ id))
  intro visited
  refine keeps_ite (((keeps_beside (hground visited)).adapt _).bind fun below => ?_) (keeps_pure _)
  exact keeps_ite (keeps_note _) (keeps_pure _)

end Keeps

end Grove
