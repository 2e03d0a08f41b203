import Grove.Proofs.Tree.Record

/-! # Failures withheld

A visitor stops a walk with a cause of its own, so one that looks into the store cannot say with it
that the store has failed. It can withhold that failure in a variable and stop the walk with any
cause; in the end what was withheld counts, and not the cause. The walk among nodes and the search
for leaves end as if they were done in that way.
-/

namespace Grove

open Grove.Action

namespace Walk

variable {σ ε α : Type}

def withhold (failure : WalkError ε) (cause : ε) :
    ExceptT ε (StateM (σ × Option (WalkError ε))) Unit := do
  modify fun s => (s.1, some failure)
  throw cause

/-- What was withheld is why a walk failed. -/
def verdict : Except (WalkError ε) Unit → Option (WalkError ε) → Except (WalkError ε) Unit
  | .error _, some failure => .error failure
  | result, _ => result

def settle (walk : ExceptT (WalkError ε) (StateM (σ × Option (WalkError ε))) Unit) :
    ExceptT (WalkError ε) (StateM σ) Unit :=
  ExceptT.mk fun s =>
    let (result, t, failure) := walk.run (s, none)
    (verdict result failure, t)

def groundAside (g : Ground σ) : Ground (σ × Option (WalkError ε)) :=
  ⟨fun id => Trace.aside (g.children id), g.reach⟩

/-- Looks a node up before the visitor sees it, and withholds why it does not see it. -/
def resolvingAside (get : Hash → Action σ (Option Node)) (unresolved refused : ε)
    (visit : Visitor σ ε Node) : Visitor (σ × Option (WalkError ε)) ε Hash := fun id => do
  match ← Trace.aside (ExceptT.lift (get id).run) with
  | .ok (some n) => Trace.aside (visit n)
  | .ok none => withhold (.unresolved id) unresolved
  | .error e => withhold (.store id e) refused

/-- Notes what has nothing below it, and withholds that its children cannot be told. -/
def noteLeafAside (g : Ground σ) (root : Hash) (refused : ε) :
    Visitor ((σ × List Hash) × Option (WalkError ε)) ε Hash := fun visited => do
  if visited ≠ root then
    match ← Trace.aside (ExceptT.lift (Trace.beside (g.children visited)).run) with
    | .ok cs => if cs.isEmpty then Trace.aside (Trace.note visited)
    | .error e => withhold (.store visited e) refused

variable {s t : σ}

theorem run_aside_lift {a : Action σ α} {r : Except StoreError α} (h : a.run s = (r, t)) :
    (Trace.aside (ε := ε) (ExceptT.lift a.run)).run (s, (none : Option (WalkError ε))) =
      (.ok r, t, none) := by
  apply Trace.run_aside
  show (Except.ok (a.run s).1, (a.run s).2) = _
  rw [h]

theorem run_settle {walk : ExceptT (WalkError ε) (StateM (σ × Option (WalkError ε))) Unit}
    {r : Except (WalkError ε) Unit} {failure : Option (WalkError ε)}
    (h : walk.run (s, none) = (r, t, failure)) : (settle walk).run s = (verdict r failure, t) := by
  show (verdict (walk.run (s, none)).1 (walk.run (s, none)).2.2, (walk.run (s, none)).2.1) = _
  rw [h]

/-- How a visitor ends that may fail as a walk does, and how one that withholds such failures. -/
inductive Echoes (id : Hash) :
    Except (WalkError ε) Unit → Except ε Unit → Option (WalkError ε) → Prop
  | passed : Echoes id (.ok ()) (.ok ()) none
  | stopped (cause : ε) : Echoes id (.error (.visitor id cause)) (.error cause) none
  | withheld (failure : WalkError ε) (cause : ε) :
    Echoes id (.error failure) (.error cause) (some failure)

/-- Where nothing was withheld before, the second visitor does what the first one does. -/
def Echo (visit : Visitor σ (WalkError ε) Hash) (echo : Visitor (σ × Option (WalkError ε)) ε Hash) :
    Prop :=
  ∀ id s, ∃ r t r' failure, (visit id).run s = (r, t) ∧
    (echo id).run (s, none) = (r', t, failure) ∧ Echoes id r r' failure

section Echo

variable {visit : Visitor σ (WalkError ε) Hash} {echo : Visitor (σ × Option (WalkError ε)) ε Hash}

/-- Nothing is withheld before the walk fails, by induction on how many may still be visited. -/
theorem Echo.run_visitAll (h : Echo visit echo) (children : Hash → Action σ (List Hash))
    (bound : Nat) (queue seen : List Hash) (s : σ) :
    ∃ r t r' failure, (visitAll children visit bound queue seen).run s = (r, t) ∧
      (visitAll (fun id => Trace.aside (children id)) echo bound queue seen).run (s, none) =
        (r', t, failure) ∧ verdict r' failure = r.mapError flatten := by
  induction bound generalizing queue seen s with
  | zero =>
    cases queue with
    | nil => exact ⟨_, _, _, _, rfl, rfl, rfl⟩
    | cons id queue => exact ⟨_, _, _, _, rfl, rfl, rfl⟩
  | succ bound ih =>
    cases queue with
    | nil => exact ⟨_, _, _, _, rfl, rfl, rfl⟩
    | cons id queue =>
      obtain ⟨r, t, r', failure, hvisit, hecho, hends⟩ := h id s
      have hvisit := run_adapt (WalkError.visitor id) hvisit
      have hecho := run_adapt (WalkError.visitor id) hecho
      cases hends with
      | stopped cause =>
        exact ⟨_, _, _, _, run_bind_error hvisit, run_bind_error hecho, rfl⟩
      | withheld failure cause =>
        exact ⟨_, _, _, _, run_bind_error hvisit, run_bind_error hecho, rfl⟩
      | passed =>
        obtain ⟨⟨e | cs, u⟩, hc⟩ : ∃ y, (children id).run t = y := ⟨_, rfl⟩
        · have haside : (Trace.aside (children id)).run (t, (none : Option (WalkError ε))) =
              (.error e, u, none) := Trace.run_aside hc
          refine ⟨.error (.store id e), u, .error (.store id e), none, ?_, ?_, rfl⟩
          · exact (run_bind_ok hvisit).trans (run_bind_error (run_adapt _ hc))
          · exact (run_bind_ok hecho).trans (run_bind_error (run_adapt _ haside))
        · have haside : (Trace.aside (children id)).run (t, (none : Option (WalkError ε))) =
              (.ok cs, u, none) := Trace.run_aside hc
          obtain ⟨r, v, r', failure, hrun, hrun', hverdict⟩ :=
            ih (queue ++ unseen seen cs) (seen ++ unseen seen cs) u
          refine ⟨r, v, r', failure, ?_, ?_, hverdict⟩
          · exact (run_bind_ok hvisit).trans ((run_bind_ok (run_adapt _ hc)).trans hrun)
          · exact (run_bind_ok hecho).trans ((run_bind_ok (run_adapt _ haside)).trans hrun')

theorem Echo.adapt_run (h : Echo visit echo) (g : Ground σ) (root : Hash) :
    ExceptT.adapt flatten (run g root visit) = settle (run (groundAside g) root echo) := by
  funext s
  unfold run
  split
  · rfl
  · obtain ⟨r, t, r', failure, hrun, hecho, hverdict⟩ :=
      h.run_visitAll g.children (g.reach + 1) [root] [root] s
    have hsettled := run_settle ((run_bind_ok rfl).trans hecho)
    rw [hverdict] at hsettled
    exact (run_adapt flatten ((run_bind_ok rfl).trans hrun)).trans hsettled.symm

end Echo

theorem echo_resolving (get : Hash → Action σ (Option Node)) (unresolved refused : ε)
    (visit : Visitor σ ε Node) :
    Echo (resolving get visit) (resolvingAside get unresolved refused visit) := by
  intro id s
  obtain ⟨⟨e | found, t⟩, hget⟩ : ∃ y, (get id).run s = y := ⟨_, rfl⟩
  · have hlift := run_aside_lift (ε := ε) hget
    exact ⟨_, _, _, _, run_bind_error (run_adapt _ hget), (run_bind_ok hlift).trans rfl,
      .withheld (.store id e) refused⟩
  · have hlift := run_aside_lift (ε := ε) hget
    cases found with
    | none =>
      exact ⟨_, _, _, _, (run_bind_ok (run_adapt _ hget)).trans rfl, (run_bind_ok hlift).trans rfl,
        .withheld (.unresolved id) unresolved⟩
    | some n =>
      obtain ⟨⟨cause | _, u⟩, hvisit⟩ : ∃ y, (visit n).run t = y := ⟨_, rfl⟩
      · exact ⟨_, _, _, _, (run_bind_ok (run_adapt _ hget)).trans (run_adapt _ hvisit),
          (run_bind_ok hlift).trans (Trace.run_aside hvisit), .stopped cause⟩
      · exact ⟨_, _, _, _, (run_bind_ok (run_adapt _ hget)).trans (run_adapt _ hvisit),
          (run_bind_ok hlift).trans (Trace.run_aside hvisit), .passed⟩

/-- A walk among nodes ends as one that withholds why a node was not found. -/
theorem runNodes_eq_settle (g : Ground σ) (get : Hash → Action σ (Option Node)) (root : Hash)
    (unresolved refused : ε) (visit : Visitor σ ε Node) :
    runNodes g get root visit =
      settle (run (groundAside g) root (resolvingAside get unresolved refused visit)) :=
  (echo_resolving get unresolved refused visit).adapt_run g root

theorem echo_noteLeaf (g : Ground σ) (root : Hash) (refused : ε) :
    Echo (g.noteLeaf root) (noteLeafAside g root refused) := by
  rintro id ⟨s, notes⟩
  by_cases hid : id = root
  · refine ⟨.ok (), (s, notes), .ok (), none, ?_, ?_, .passed⟩
    · rw [Ground.noteLeaf, if_neg (by simp [hid])]
      rfl
    · rw [noteLeafAside, if_neg (by simp [hid])]
      rfl
  · rw [Ground.noteLeaf, noteLeafAside, if_pos hid, if_pos hid]
    obtain ⟨⟨e | cs, t⟩, hlist⟩ : ∃ y, (g.children id).run s = y := ⟨_, rfl⟩
    · have hbeside : (Trace.beside (g.children id)).run (s, notes) = (.error e, t, notes) :=
        Trace.run_beside hlist
      have hlift := run_aside_lift (ε := ε) hbeside
      exact ⟨_, _, _, _, run_bind_error (run_adapt _ hbeside), (run_bind_ok hlift).trans rfl,
        .withheld (.store id e) refused⟩
    · have hbeside : (Trace.beside (g.children id)).run (s, notes) = (.ok cs, t, notes) :=
        Trace.run_beside hlist
      have hlift := run_aside_lift (ε := ε) hbeside
      refine ⟨.ok (), (t, if cs.isEmpty then notes ++ [id] else notes), .ok (), none, ?_, ?_,
        .passed⟩
      · refine (run_bind_ok (run_adapt _ hbeside)).trans ?_
        cases cs <;> rfl
      · refine (run_bind_ok hlift).trans ?_
        cases cs <;> rfl

/-- The search for leaves ends as one that withholds that children cannot be told. -/
theorem leaves_eq_settle (g : Ground σ) (id : Hash) (refused : ε) :
    g.leaves id =
      Trace.notes (settle (run (groundAside (Trace.ground g)) id (noteLeafAside g id refused))) :=
  congrArg Trace.notes ((echo_noteLeaf g id refused).adapt_run (Trace.ground g) id)

end Walk

end Grove
