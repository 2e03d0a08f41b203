import Grove.Proofs.Stack.Again
import Grove.Proofs.Store.Removal

/-! # A folder beside a memory

The same is done to an empty folder and to an empty memory, step by step, while the folder is closed
and opened again and its directory is listed in whatever order. They give the same answers
throughout, up to the order of children and of nodes that were created at one time.
-/

namespace Grove.Folder

open Grove.Action

/-- A step of the folder and the memory. -/
inductive Move where
  | get (id : Hash)
  | children (id : Hash)
  | recent (kind : NodeKind) (count : Nat)
  | add (n : Node)
  | removeSubtree (id : Hash)
  /-- The folder is closed and opened again at its path, and hands out children in its own order. -/
  | reopen (shuffle : Shuffle)
  /-- From here on the folder hands out children in another order. -/
  | reshuffle (shuffle : Shuffle)
  /-- From here on the disk lists its entries in another order. -/
  | relist (order : List (Place × Entry) → List (Place × Entry))

namespace Move

def added : Move → List Node
  | add n => [n]
  | _ => []

/-- Identifiers are as long as they say, nodes are sealed, and a listing has the same entries. -/
def Fit : Move → Prop
  | get id | children id | removeSubtree id => id.WellFormed
  | add n => n.Sealed
  | relist order => ∀ l, (order l).Perm l
  | recent .. | reopen _ | reshuffle _ => True

/-- What a move that any store can make does to the state of one. -/
def operate {ω σ : Type} (s : Store ω σ) : Move → σ × ω → σ × ω
  | get id, t => ((s.get id).run t).2
  | children id, t => ((s.children id).run t).2
  | recent kind count, t => ((s.recent kind count).run t).2
  | add n, t => ((s.add n).run t).2
  | removeSubtree id, t => ((s.removeSubtree id).run t).2
  | reopen _, t | reshuffle _, t | relist _, t => t

def onFolder : Move → State → State
  | reopen shuffle, (f, d) =>
    match (opened f.path shuffle).run d with
    | (.ok f, d) => (f, d)
    | (.error _, d) => (f, d)
  | reshuffle shuffle, (f, d) => ({ f with shuffle }, d)
  | relist order, (f, d) => (f, d.relisted order)
  | move, t => move.operate store t

theorem onFolder_reopen {f g : Folder} {d e : Disk} {shuffle : Shuffle}
    (h : (opened f.path shuffle).run d = (.ok g, e)) :
    (reopen shuffle).onFolder (f, d) = (g, e) := by
  simp only [onFolder, h]

def onMemory (move : Move) (m : Memory) : Memory :=
  (move.operate Memory.store (m, ())).1

/-- The folder and the memory return the same, as far as it has an order. -/
def Agrees (t : State) (m : Memory) : Move → Prop
  | get id => (store.answers t).node? id = (Memory.store.answers (m, ())).node? id
  | children id =>
    ∃ l l', (store.answers t).children id = .ok l ∧
      (Memory.store.answers (m, ())).children id = .ok l' ∧ l.Nodup ∧ l'.Nodup ∧ l.Perm l'
  | recent kind count =>
    ∃ l l', (store.answers t).recent kind count = .ok l ∧
      (Memory.store.answers (m, ())).recent kind count = .ok l' ∧
      l.map (·.created) = l'.map (·.created) ∧
      ((∀ a ∈ m.nodes, ∀ b ∈ m.nodes, a.kind = kind → b.kind = kind → a.created = b.created →
        a = b) → l = l') ∧
      (m.nodes.countP (fun n => n.kind = kind) ≤ count → l.Perm l')
  | add n => ((store.add n).run t).1 = .ok () ∧ ((Memory.store.add n).run (m, ())).1 = .ok ()
  | removeSubtree id =>
    ((store.removeSubtree id).run t).1 = ((Memory.store.removeSubtree id).run (m, ())).1 ∧
      (((store.removeSubtree id).run t).1 = .ok () ∨
        ((store.removeSubtree id).run t).1 = .error (.notFound id))
  | reopen shuffle => ∃ f, ((opened t.1.path shuffle).run t.2).1 = .ok f
  | reshuffle _ | relist _ => True

end Move

variable {known : List Node} {q : Place} {f : Folder} {d e : Disk} {m : Memory} {t : State}
  {move : Move} {p : Path} {shuffle : Shuffle}

/-- Each move finds a mirror of the memory, gets the same from both, and leaves a mirror. -/
theorem Mirrors.step (h : Mirrors known q t m) (ha : Acyclic known) (hfit : move.Fit)
    (hadded : move.added ⊆ known) :
    move.Agrees t m ∧ Mirrors known q (move.onFolder t) (move.onMemory m) := by
  obtain ⟨f, d⟩ := t
  cases move with
  | get id =>
    have hrun : (store.get id).run (f, d) = (.ok (m.get? id), f, d) :=
      h.shelves.run_find h.within.toLinked hfit
    refine ⟨congrArg Prod.fst hrun, ?_⟩
    show Mirrors known q ((store.get id).run (f, d)).2 m
    rwa [hrun]
  | children id =>
    obtain ⟨x, hx, hchildren⟩ := h.exists_index
    have hrun : (store.children id).run (f, d) = _ := hchildren f (.inl rfl) id
    have hperm := children_perm hx f.shuffle id
    have hnodup := h.within.nodup_children id
    refine ⟨⟨_, _, congrArg Prod.fst hrun, rfl, hperm.nodup_iff.2 hnodup, hnodup, hperm⟩, ?_⟩
    show Mirrors known q ((store.children id).run (f, d)).2 m
    rw [hrun]
    exact h.settle hx
  | recent kind count =>
    obtain ⟨l, hrun, hperm, hdescending⟩ := h.exists_recent kind count
    have hhistory := h.dated.descending_history h.within.toLinked kind
    have hkind := h.dated.history_perm h.within.toLinked kind
    refine ⟨⟨_, (m.history kind).take count, congrArg Prod.fst hrun, rfl, ?_, ?_, ?_⟩, ?_⟩
    · rw [List.map_take, List.map_take, map_created_eq hperm hdescending hhistory]
    · intro hdistinct
      refine congrArg (List.take count) (eq_of_descending hperm hdescending hhistory ?_)
      intro a ha b hb
      obtain ⟨ha, hak⟩ := List.mem_filter.1 ((hperm.trans hkind).mem_iff.1 ha)
      obtain ⟨hb, hbk⟩ := List.mem_filter.1 ((hperm.trans hkind).mem_iff.1 hb)
      exact hdistinct a ha b hb (of_decide_eq_true hak) (of_decide_eq_true hbk)
    · intro hcount
      have hlength : (m.history kind).length ≤ count := by
        rwa [hkind.length_eq, ← List.countP_eq_length_filter]
      rwa [List.take_of_length_le hlength, List.take_of_length_le (hperm.length_eq ▸ hlength)]
    · show Mirrors known q ((store.recent kind count).run (f, d)).2 m
      rwa [hrun]
  | add n =>
    obtain ⟨t, hrun, -, ht⟩ := h.add hfit (hadded List.mem_cons_self)
    refine ⟨⟨congrArg Prod.fst hrun, congrArg Prod.fst (Memory.run_add (m := m))⟩, ?_⟩
    show Mirrors known q ((store.add n).run (f, d)).2 ((Memory.store.add n).run (m, ())).2.1
    rwa [hrun, Memory.run_add]
  | removeSubtree id =>
    have hmemory := Memory.run_removeSubtree m () id
    show (((store.removeSubtree id).run (f, d)).1 =
        ((Memory.store.removeSubtree id).run (m, ())).1 ∧ _) ∧
      Mirrors known q ((store.removeSubtree id).run (f, d)).2
        ((Memory.store.removeSubtree id).run (m, ())).2.1
    cases hget : m.get? id with
    | some n =>
      obtain ⟨t, ids, hrun, -, hremove, ht⟩ := h.removeSubtree ha hget
      have hrun : (store.removeSubtree id).run (f, d) = (.ok (), t) := hrun
      rw [hremove] at hmemory
      rw [hrun, hmemory]
      exact ⟨⟨rfl, .inl rfl⟩, ht⟩
    | none =>
      have hrun : (store.removeSubtree id).run (f, d) = (.error (.notFound id), f, d) := by
        have hfind := h.shelves.run_find h.within.toLinked hfit
        rw [hget] at hfind
        exact run_bind_ok hfind
      rw [Memory.removeSubtree_of_get?_eq_none hget] at hmemory
      rw [hrun, hmemory]
      exact ⟨⟨rfl, .inr rfl⟩, h⟩
  | reopen shuffle =>
    have hrun := run_opened_of_houses shuffle h.shelves.directory
    refine ⟨⟨_, congrArg Prod.fst hrun⟩, ?_⟩
    rw [Move.onFolder_reopen hrun]
    exact h.reopen shuffle
  | reshuffle shuffle =>
    exact ⟨trivial, h.reshuffle shuffle⟩
  | relist order =>
    exact ⟨trivial, h.relist hfit⟩

def replay (moves : List Move) (s : State × Memory) : State × Memory :=
  moves.foldl (fun s move => (move.onFolder s.1, move.onMemory s.2)) s

theorem Mirrors.replay {moves : List Move} (h : Mirrors known q t m) (ha : Acyclic known)
    (hfit : ∀ move ∈ moves, move.Fit) (hadded : moves.flatMap Move.added ⊆ known) :
    Mirrors known q (replay moves (t, m)).1 (replay moves (t, m)).2 := by
  induction moves generalizing t m with
  | nil => exact h
  | cons move moves ih =>
    obtain ⟨hmove, hfit⟩ := List.forall_mem_cons.1 hfit
    rw [List.flatMap_cons, List.append_subset] at hadded
    exact ih (h.step ha hmove hadded.1).2 hfit hadded.2

theorem eq_of_opened (h : (opened p shuffle).run d = (.ok f, e)) :
    f = ⟨p, .empty, false, shuffle⟩ := by
  have hget : (get : Action Disk Disk).run d = (.ok d, d) := rfl
  have hrun := (run_bind_ok hget).symm.trans h
  generalize d.makeDirectories p = made at hrun
  obtain ⟨made, d'⟩ := made
  cases made with
  | true =>
    have hok : Except.ok ⟨p, .empty, false, shuffle⟩ = Except.ok f := congrArg Prod.fst hrun
    exact (Except.ok.inj hok).symm
  | false => exact absurd (Prod.mk.inj hrun).1 nofun

theorem mirrors_empty (hsite : Site p d q) (hempty : d.below q = []) (known : List Node)
    (shuffle : Shuffle) :
    Mirrors known q (⟨p, .empty, false, shuffle⟩, d) .empty where
  shelves := ⟨hsite, hempty ▸ .nil, fun _ hn => absurd hn List.not_mem_nil⟩
  empty _ := rfl
  links := nofun
  within := Memory.within_empty known
  dated := Memory.dated_empty

/-- From an empty directory and an empty memory on, whatever moves are made, the folder gives the
same answers as the memory, up to the order of children and of nodes that were created at one time,
provided that the parents of the nodes added do not run in a circle. -/
theorem agrees_replay (hopen : (opened p shuffle).run d = (.ok f, e)) (hsite : Site p e q)
    (hempty : e.below q = []) {moves done rest : List Move} (hfit : ∀ move ∈ moves, move.Fit)
    (ha : Acyclic (moves.flatMap Move.added)) (hmoves : moves = done ++ move :: rest) :
    move.Agrees (replay done ((f, e), .empty)).1 (replay done ((f, e), .empty)).2 := by
  obtain rfl := eq_of_opened hopen
  -- Nodes that are added later count as known from the start, so that one list serves all moves.
  have hstart := mirrors_empty hsite hempty (moves.flatMap Move.added) shuffle
  subst hmoves
  rw [List.forall_mem_append, List.forall_mem_cons] at hfit
  have hsub : done.flatMap Move.added ⊆ (done ++ move :: rest).flatMap Move.added ∧
      move.added ⊆ (done ++ move :: rest).flatMap Move.added := by
    simp [List.flatMap_append, List.flatMap_cons]
  have hdone := hstart.replay ha hfit.1 hsub.1
  exact (hdone.step ha hfit.2.1 hsub.2).1

/-- Where no two nodes of the kind were created at one time, the folder lists what the memory
lists. -/
theorem Move.Agrees.recent_eq {kind : NodeKind} {count : Nat}
    (h : (Move.recent kind count).Agrees t m)
    (hdistinct : ∀ a ∈ m.nodes, ∀ b ∈ m.nodes, a.kind = kind → b.kind = kind →
      a.created = b.created → a = b) :
    (store.answers t).recent kind count = .ok (m.recent kind count) := by
  obtain ⟨l, l', hl, hl', -, heq, -⟩ := h
  rw [hl, heq hdistinct]
  exact hl'.symm

open Stack (shed pile)

theorem site_pile : Site pile.path shed ["pile"] where
  directory := Stack.houses_pile
  staging := ⟨_, Stack.locate_staging_pile⟩
  file := Stack.locate_file_pile
  unlocked _ := List.not_mem_nil
  keyed := show (shed.entries.map (·.1)).Nodup by decide

/-- The plot is added, the children of its nodes are asked for, all is removed from the folder that
was opened again, although the reply is gone with its community, and all is added once more. -/
def tending : List Move :=
  Archive.plot.map .add ++ Archive.plot.map (fun n => .children n.id) ++
    [.relist List.reverse, .reopen ⟨List.reverse, List.reverse_perm⟩] ++
      Archive.plot.map (fun n => .removeSubtree n.id) ++ Archive.plot.map .add

/-- After that the folder lists the reply of the plot. -/
theorem agrees_replay_tending :
    (opened pile.path .byId).run shed = (.ok pile, shed) ∧
      ∃ n ∈ Archive.plot, n.kind = .reply ∧
        (store.answers (replay tending ((pile, shed), .empty)).1).recent .reply 1 = .ok [n] := by
  have hopen : (opened pile.path .byId).run shed = (.ok pile, shed) :=
    run_opened_of_houses .byId site_pile.directory
  have hmemory : ∃ n ∈ Archive.plot, n.kind = .reply ∧
      (replay tending ((pile, shed), .empty)).2.recent .reply 1 = [n] ∧
      ∀ a ∈ (replay tending ((pile, shed), .empty)).2.nodes,
        ∀ b ∈ (replay tending ((pile, shed), .empty)).2.nodes,
          a.kind = .reply → b.kind = .reply → a.created = b.created → a = b := by
    decide +kernel
  have hfit : ∀ move ∈ tending ++ [Move.recent .reply 1], move.Fit := by
    intro move hmove
    simp only [tending, List.mem_append, List.mem_map, List.mem_cons, List.not_mem_nil,
      or_false] at hmove
    rcases hmove with
      ((((⟨n, hn, rfl⟩ | ⟨n, hn, rfl⟩) | rfl | rfl) | ⟨n, hn, rfl⟩) | ⟨n, hn, rfl⟩) | rfl
    · exact Stack.sealed_plot n hn
    · exact (Stack.sealed_plot n hn).wellFormed_id
    · exact List.reverse_perm
    · trivial
    · exact (Stack.sealed_plot n hn).wellFormed_id
    · exact Stack.sealed_plot n hn
    · trivial
  have ha : Acyclic ((tending ++ [Move.recent .reply 1]).flatMap Move.added) := by
    refine Acyclic.mono Stack.Layering.consistent_plot.acyclic fun n hn => ?_
    simpa [tending, Move.added, List.flatMap_append, List.flatMap_map] using hn
  obtain ⟨n, hn, hk, hrecent, hdistinct⟩ := hmemory
  have hmoves : tending ++ [Move.recent .reply 1] = tending ++ Move.recent .reply 1 :: [] := rfl
  have hagrees := agrees_replay hopen site_pile rfl hfit ha hmoves
  refine ⟨hopen, n, hn, hk, ?_⟩
  rw [hagrees.recent_eq hdistinct, hrecent]

end Grove.Folder
