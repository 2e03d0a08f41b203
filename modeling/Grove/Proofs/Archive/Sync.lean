import Grove.Proofs.Archive.Forest

/-! # Nodes in any order

Nodes that an archive accepts one after another can be offered to another one in any order. What is
refused then only misses a reference, and no other trace of it remains, so it can be offered again.
In every round the first node of the accepted order that is not stored yet finds all its references,
so there are no more rounds than nodes, and all orders end with the same nodes.
-/

namespace Grove

def Node.among (nodes : List Node) (id : Hash) : Option Node :=
  nodes.find? fun n => n.id = id

theorem Node.among_eq_some_iff {nodes : List Node} (h : (nodes.map (·.id)).Nodup) {id : Hash}
    {n : Node} : among nodes id = some n ↔ n ∈ nodes ∧ n.id = id := by
  constructor
  · intro hn
    exact ⟨List.mem_of_find?_eq_some hn, by simpa using List.find?_some hn⟩
  · rintro ⟨hn, rfl⟩
    obtain ⟨k, hk⟩ : ∃ k, among nodes n.id = some k :=
      Option.isSome_iff_exists.1 (List.find?_isSome.2 ⟨n, hn, decide_eq_true rfl⟩)
    have hid : k.id = n.id := by simpa using List.find?_some hk
    rw [hk, List.inj_on_of_nodup_map h (List.mem_of_find?_eq_some hk) hn hid]

theorem Node.among_mono {nodes nodes' : List Node} (h : (nodes.map (·.id)).Nodup)
    (h' : (nodes'.map (·.id)).Nodup) (hsub : nodes ⊆ nodes') (id : Hash) (n : Node)
    (hn : among nodes id = some n) : among nodes' id = some n := by
  obtain ⟨hmem, hid⟩ := (among_eq_some_iff h).1 hn
  exact (among_eq_some_iff h').2 ⟨hsub hmem, hid⟩

namespace Archive

variable {ω σ : Type}

structure Attempt (σ : Type) where
  node : Node
  before : σ
  result : Except StoreError Unit
  after : σ

def refused (attempts : List (Attempt σ)) : List Node :=
  (attempts.filter fun x => !x.result.isOk).map (·.node)

/-- Offers nodes one after another, to be added if they are valid. -/
def offer (inner : Store ω σ) (verify : Verifier) :
    List Node → Archive σ × ω → List (Attempt (Archive σ × ω)) × (Archive σ × ω)
  | [], s => ([], s)
  | n :: nodes, s =>
    let (result, t) := (addValidated inner n verify).run s
    let (attempts, u) := offer inner verify nodes t
    (⟨n, s, result, t⟩ :: attempts, u)

structure Delivery (σ : Type) where
  attempts : List (Attempt σ)
  /-- The nodes that the last round refused. -/
  left : List Node
  state : σ

/-- Offers nodes in rounds: in each those that the round before refused, in an order of its own. -/
def deliver (inner : Store ω σ) (verify : Verifier) (order : Nat → List Node → List Node) :
    (rounds : Nat) → List Node → Archive σ × ω → Delivery (Archive σ × ω)
  | 0, nodes, s => ⟨[], nodes, s⟩
  | rounds + 1, nodes, s =>
    let (attempts, t) := offer inner verify (order rounds nodes) s
    let later := deliver inner verify order rounds (refused attempts) t
    { later with attempts := attempts ++ later.attempts }

variable {inner : Store ω σ} {verify : Verifier}

theorem refused_cons_ok {n : Node} {s t : Archive σ × ω}
    {attempts : List (Attempt (Archive σ × ω))} :
    refused (⟨n, s, .ok (), t⟩ :: attempts) = refused attempts :=
  rfl

theorem refused_cons_error {n : Node} {s t : Archive σ × ω} {e : StoreError}
    {attempts : List (Attempt (Archive σ × ω))} :
    refused (⟨n, s, .error e, t⟩ :: attempts) = n :: refused attempts :=
  rfl

theorem refused_offer_sublist (inner : Store ω σ) (verify : Verifier) (nodes : List Node)
    (s : Archive σ × ω) :
    (refused (offer inner verify nodes s).1).Sublist nodes := by
  have hnodes : (offer inner verify nodes s).1.map (·.node) = nodes := by
    induction nodes generalizing s with
    | nil => rfl
    | cons n nodes ih => exact congrArg (n :: ·) (ih _)
  exact (List.filter_sublist.map _).trans (by rw [hnodes])

/-- The attempt succeeded, or it missed a reference of the node and left everything as it was. -/
def Attempt.Clean (x : Attempt σ) : Prop :=
  ∀ e, x.result = .error e →
    (∃ reference target, e = .invalid (.referenceMissing x.node.id reference target)) ∧
      x.after = x.before

section Memory

variable {a b : Archive Memory} {w : ω} {n : Node} {nodes whole : List Node}

theorem Steady.run_addValidated_cases (h : a.Steady) (hn : a.inner.get? n.id = none)
    (hle : ∀ id k, a.inner.get? id = some k → Node.among whole id = some k)
    (hv : n.DeepValid (Node.among whole) verify) :
    (addValidated Memory.store n verify).run (a, w) = (.ok (), a.withNode n .none, w) ∨
      ¬n.DeepValid a.inner.get? verify ∧ ∃ e, (addValidated Memory.store n verify).run (a, w) =
        (.error e, a, w) ∧
          ∃ reference target, e = .invalid (.referenceMissing n.id reference target) := by
  have hrun := h.run_addValidated (w := w) hn verify
  have hdefers : n.Defers (n.checkDeep (lookUp a.inner.get?) verify)
      (n.checkDeep (lookUp (Node.among whole)) verify) := Node.defers_checkDeep hle
  rw [Node.checkDeep_eq_ok_iff.2 hv] at hdefers
  rcases hdefers with hok | ⟨reference, target, he⟩
  · rw [hok] at hrun
    exact .inl hrun
  · rw [he] at hrun
    refine .inr ⟨fun hv => ?_, _, hrun, reference, target, rfl⟩
    rw [← Node.checkDeep_eq_ok_iff, he] at hv
    exact absurd hv nofun

/-- One round over a part of some nodes that are valid among each other. All that is offered is
stored or refused in the end, and what was valid from the start is stored. -/
theorem Steady.offer_spec (h : a.Steady) (hwhole : (whole.map (·.id)).Nodup)
    (hvalid : ∀ n ∈ whole, n.DeepValid (Node.among whole) verify)
    (hids : ((a.inner.nodes ++ nodes).map (·.id)).Nodup) (hsub : a.inner.nodes ++ nodes ⊆ whole) :
    ∃ b, (offer Memory.store verify nodes (a, w)).2 = (b, w) ∧ b.Steady ∧
      (∀ x ∈ (offer Memory.store verify nodes (a, w)).1, x.Clean) ∧
      (b.inner.nodes ++ refused (offer Memory.store verify nodes (a, w)).1).Perm
        (a.inner.nodes ++ nodes) ∧
      a.inner.nodes ⊆ b.inner.nodes ∧
      ∀ n ∈ nodes, n.DeepValid a.inner.get? verify → n ∈ b.inner.nodes := by
  induction nodes generalizing a with
  | nil =>
    exact ⟨a, rfl, h, fun _ hx => absurd hx List.not_mem_nil, List.Perm.refl _,
      List.Subset.refl _, fun _ hn => absurd hn List.not_mem_nil⟩
  | cons n nodes ih =>
    have hstored : (a.inner.nodes.map (·.id)).Nodup := by
      rw [List.map_append] at hids
      exact hids.of_append_left
    have hle := Node.among_mono hstored hwhole (List.append_subset.1 hsub).1
    have hn : a.inner.get? n.id = none := Memory.get?_eq_none_of_nodup hids
    have hmem : n ∈ whole := hsub (List.mem_append_right _ List.mem_cons_self)
    rcases h.run_addValidated_cases (w := w) hn hle (hvalid n hmem) with hrun | ⟨hnot, e, hrun, he⟩
    · -- The node is stored: the rest is offered to an archive that has it.
      have hnodes : (a.withNode n .none).inner.nodes ++ nodes = a.inner.nodes ++ n :: nodes :=
        List.append_assoc ..
      obtain ⟨b, hb, hs, hclean, hperm, hkept, hall⟩ :=
        ih (((h.tell ..).withInner _).tell ..) (hnodes ▸ hids) (hnodes ▸ hsub)
      have hgrown : a.inner.nodes ⊆ (a.withNode n .none).inner.nodes := List.subset_append_left ..
      simp only [offer, hrun]
      refine ⟨b, hb, hs, List.forall_mem_cons.2 ⟨nofun, hclean⟩, ?_,
        List.Subset.trans hgrown hkept, ?_⟩
      · rw [refused_cons_ok]
        exact hperm.trans (List.Perm.of_eq hnodes)
      · refine List.forall_mem_cons.2 ⟨fun _ => hkept (List.mem_append_right _
          (List.mem_singleton_self n)), fun k hk hv => hall k hk (hv.mono fun id p hp => ?_)⟩
        exact Memory.get?_insert_of_get? hp n
    · -- The node is refused: nothing has changed for the rest.
      have hperm' : (a.inner.nodes ++ n :: nodes).Perm (n :: (a.inner.nodes ++ nodes)) :=
        List.perm_middle
      have hids' := ((hperm'.map (·.id)).nodup_iff.1 hids).of_cons
      obtain ⟨b, hb, hs, hclean, hperm, hkept, hall⟩ :=
        ih h hids' fun k hk => hsub (hperm'.symm.subset (List.mem_cons_of_mem n hk))
      simp only [offer, hrun]
      refine ⟨b, hb, hs, List.forall_mem_cons.2 ⟨?_, hclean⟩, ?_, hkept, ?_⟩
      · rintro _ ⟨⟩
        exact ⟨he, rfl⟩
      · rw [refused_cons_error]
        exact List.perm_middle.trans ((hperm.cons n).trans hperm'.symm)
      · exact List.forall_mem_cons.2 ⟨fun hv => absurd hv hnot, hall⟩

/-- Every node is valid among those before it. -/
def Sequenced (verify : Verifier) (nodes : List Node) : Prop :=
  ∀ done n rest, nodes = done ++ n :: rest → n.DeepValid (Node.among done) verify

theorem Steady.sequenced_of_offer (h : a.Steady)
    (hids : ((a.inner.nodes ++ nodes).map (·.id)).Nodup)
    (hok : ∀ x ∈ (offer Memory.store verify nodes (a, w)).1, x.result = .ok ())
    {done rest : List Node} (hn : nodes = done ++ n :: rest) :
    n.DeepValid (Node.among (a.inner.nodes ++ done)) verify := by
  induction nodes generalizing a done with
  | nil => exact absurd hn (by simp)
  | cons k nodes ih =>
    have hk : a.inner.get? k.id = none := Memory.get?_eq_none_of_nodup hids
    have hrun := h.run_addValidated (w := w) hk verify
    cases hc : k.checkDeep (lookUp a.inner.get?) verify with
    | error e =>
      rw [hc] at hrun
      simp only [offer, hrun] at hok
      exact absurd ((List.forall_mem_cons.1 hok).1) nofun
    | ok v =>
      rw [hc] at hrun
      simp only [offer, hrun] at hok
      obtain _ | ⟨d, done⟩ := done
      · obtain ⟨rfl, rfl⟩ := List.cons_eq_cons.1 hn
        rw [List.append_nil]
        exact Node.checkDeep_eq_ok_iff.1 hc
      · obtain ⟨rfl, hrest⟩ := List.cons_eq_cons.1 hn
        have hnodes (l : List Node) :
            (a.withNode k .none).inner.nodes ++ l = a.inner.nodes ++ k :: l :=
          List.append_assoc ..
        rw [← hnodes]
        exact ih (((h.tell ..).withInner _).tell ..) (hnodes nodes ▸ hids)
          (List.forall_mem_cons.1 hok).2 hrest

theorem Sequenced.valid (h : Sequenced verify whole) (hwhole : (whole.map (·.id)).Nodup)
    (hn : n ∈ whole) : n.DeepValid (Node.among whole) verify := by
  obtain ⟨done, rest, rfl⟩ := List.append_of_mem hn
  refine (h done n rest rfl).mono (Node.among_mono ?_ hwhole (List.subset_append_left ..))
  rw [List.map_append] at hwhole
  exact hwhole.of_append_left

/-- If anything is offered, the first of it in the sequence finds all nodes before it, and so not
all is refused. -/
theorem Steady.refused_lt (h : a.Steady) (hwhole : (whole.map (·.id)).Nodup)
    (hseq : Sequenced verify whole) (hperm : (a.inner.nodes ++ nodes).Perm whole)
    (hne : nodes ≠ []) :
    (refused (offer Memory.store verify nodes (a, w)).1).length < nodes.length := by
  have hids := (hperm.map (·.id)).nodup_iff.2 hwhole
  obtain ⟨b, -, -, -, hbperm, -, hall⟩ := h.offer_spec (w := w) hwhole
    (fun n hn => hseq.valid hwhole hn) hids hperm.subset
  obtain ⟨k, hk⟩ := List.exists_mem_of_ne_nil nodes hne
  obtain ⟨n, hfind⟩ : ∃ n, whole.find? (· ∈ nodes) = some n :=
    Option.isSome_iff_exists.1 <| List.find?_isSome.2
      ⟨k, hperm.subset (List.mem_append_right _ hk), decide_eq_true hk⟩
  obtain ⟨hn, done, rest, hsplit, hdone⟩ := List.find?_eq_some_iff_append.1 hfind
  have hn : n ∈ nodes := of_decide_eq_true hn
  have hstored : done ⊆ a.inner.nodes := by
    intro p hp
    have hmem : p ∈ whole := hsplit ▸ List.mem_append_left _ hp
    have hnot : p ∉ nodes := by simpa using hdone p hp
    exact (List.mem_append.1 (hperm.symm.subset hmem)).resolve_right hnot
  have hvalid : n.DeepValid a.inner.get? verify := by
    rw [hsplit, List.map_append] at hwhole
    rw [List.map_append] at hids
    exact (hseq done n rest hsplit).mono
      (Node.among_mono hwhole.of_append_left hids.of_append_left hstored)
  have hnot : n ∉ refused (offer Memory.store verify nodes (a, w)).1 := by
    have hnodup := (hbperm.trans hperm).nodup_iff.2 hwhole.of_map
    exact fun hr => (List.nodup_append.1 hnodup).2.2 n (hall n hn hvalid) n hr rfl
  have hsub := refused_offer_sublist Memory.store verify nodes (a, w)
  refine Nat.lt_of_le_of_ne hsub.length_le fun hlength => hnot ?_
  rwa [hsub.eq_of_length hlength]

variable {order : Nat → List Node → List Node}

/-- What is stored and what is left make up the whole, and every round leaves less. -/
theorem Steady.deliver_spec (h : a.Steady) (hwhole : (whole.map (·.id)).Nodup)
    (hseq : Sequenced verify whole) (horder : ∀ round l, (order round l).Perm l)
    (hperm : (a.inner.nodes ++ nodes).Perm whole) (rounds : Nat) :
    ∃ b, (deliver Memory.store verify order rounds nodes (a, w)).state = (b, w) ∧
      (∀ x ∈ (deliver Memory.store verify order rounds nodes (a, w)).attempts, x.Clean) ∧
      (b.inner.nodes ++ (deliver Memory.store verify order rounds nodes (a, w)).left).Perm whole ∧
      (deliver Memory.store verify order rounds nodes (a, w)).left.length ≤
        nodes.length - rounds := by
  induction rounds generalizing a nodes with
  | zero => exact ⟨a, rfl, fun _ hx => absurd hx List.not_mem_nil, hperm, Nat.le_refl _⟩
  | succ rounds ih =>
    have hround : (a.inner.nodes ++ order rounds nodes).Perm whole :=
      ((horder rounds nodes).append_left _).trans hperm
    obtain ⟨b, hb, hs, hclean, hbperm, -⟩ := h.offer_spec (w := w) hwhole
      (fun n hn => hseq.valid hwhole hn) ((hround.map (·.id)).nodup_iff.2 hwhole) hround.subset
    obtain ⟨c, hc, hcclean, hcperm, hlength⟩ := ih hs (hbperm.trans hround)
    have hless : (refused (offer Memory.store verify (order rounds nodes) (a, w)).1).length ≤
        nodes.length - 1 := by
      rw [← (horder rounds nodes).length_eq]
      by_cases hne : order rounds nodes = []
      · rw [hne]
        exact Nat.le_refl _
      · exact Nat.le_sub_one_of_lt (h.refused_lt hwhole hseq hround hne)
    simp only [deliver, hb]
    refine ⟨c, hc, fun x hx => ?_, hcperm, ?_⟩
    · exact (List.mem_append.1 hx).elim (hclean x) (hcclean x)
    · omega

/-- Let an archive over an empty memory accept nodes one after another, no two with one identifier.
Let another archive over an empty memory be offered them in any order, and then again and again, in
any order, those that it refused. Each refused attempt misses a reference and changes nothing, after
no more rounds than there are nodes none is left, and the archive stores these nodes whatever the
orders were. -/
theorem Steady.deliver_accepted {v : ω} (order : Nat → List Node → List Node) (ha : a.Steady)
    (hb : b.Steady) (hae : a.inner = .empty) (hbe : b.inner = .empty)
    {accepted offered : List Node} (hids : (accepted.map (·.id)).Nodup)
    (hok : ∀ x ∈ (offer Memory.store verify accepted (a, v)).1, x.result = .ok ())
    (hoffered : offered.Perm accepted) (horder : ∀ round l, (order round l).Perm l) :
    let d := deliver Memory.store verify order accepted.length offered (b, w)
    (∀ x ∈ d.attempts, ∀ e, x.result = .error e →
      e.isReferenceMissing = true ∧
        (∃ reference target, e = .invalid (.referenceMissing x.node.id reference target)) ∧
          x.after = x.before) ∧
      d.left = [] ∧ d.state.1.inner.nodes.Perm accepted := by
  have hseq : Sequenced verify accepted := by
    intro done n rest hn
    have hvalid := ha.sequenced_of_offer (by rwa [hae]) hok hn
    rwa [hae] at hvalid
  have hperm : (b.inner.nodes ++ offered).Perm accepted := by
    rw [hbe]
    exact hoffered
  obtain ⟨c, hc, hclean, hcperm, hlength⟩ :=
    hb.deliver_spec (w := w) hids hseq horder hperm accepted.length
  rw [hoffered.length_eq, Nat.sub_self, Nat.le_zero, List.length_eq_zero_iff] at hlength
  refine ⟨fun x hx e he => ?_, hlength, ?_⟩
  · obtain ⟨⟨reference, target, rfl⟩, hsame⟩ := hclean x hx e he
    exact ⟨rfl, ⟨reference, target, rfl⟩, hsame⟩
  · rw [hlength, List.append_nil] at hcperm
    rwa [hc]

/-- The plot arrives in full although each round starts with the reply, as far as it is left. -/
theorem deliver_accepted_plot :
    ∃ d, d = deliver Memory.store (fun _ _ _ => true) (fun _ l => l.reverse) plot.length plot
        (({ inner := .empty } : Archive Memory), ()) ∧
      d.left = [] ∧ d.state.1.inner.nodes.Perm plot := by
  have hids : (plot.map (·.id)).Nodup := by decide +kernel
  have hall : ((offer Memory.store (fun _ _ _ => true) plot ({ inner := .empty }, ())).1.all
      fun x => x.result.isOk) = true := by decide +kernel
  have hok : ∀ x ∈ (offer Memory.store (fun _ _ _ => true) plot ({ inner := .empty }, ())).1,
      x.result = .ok () := by
    intro x hx
    have hx := List.all_eq_true.1 hall x hx
    cases hr : x.result with
    | ok => rfl
    | error e => exact absurd (hr ▸ hx) nofun
  have hsteady : ({ inner := .empty } : Archive Memory).Steady := steady_new _
  have h := hsteady.deliver_accepted (w := ()) (fun _ l => l.reverse) hsteady rfl rfl hids hok
    (List.Perm.refl plot) fun _ l => l.reverse_perm
  exact ⟨_, rfl, h.2⟩

end Memory

end Archive

end Grove
