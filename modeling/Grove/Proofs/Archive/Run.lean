import Grove.Proofs.Store.Memory
import Grove.Proofs.Tree.Kinship
import Grove.Proofs.Validation.Deep
import Grove.Store.Archive

/-! # Runs of an archive

A run makes one call after another, whatever the calls return. Over a memory, an open archive whose
hooks all return answers every question without changing, adds a node by telling the subscribers
before and after, and adds with validation the absent nodes that deep validation accepts.
-/

namespace Grove.Archive

variable {ω σ α ε : Type}

inductive Query where
  | get (id : Hash)
  | identity (id : Hash)
  | community (id : Hash)
  | conversation (place id : Hash)
  | reply (place thread id : Hash)
  | children (id : Hash)
  | recent (kind : NodeKind) (count : Nat)
  | nodes
  | ancestry (id : Hash)
  | descendants (id : Hash)
  | leaves (id : Hash)
  deriving DecidableEq, Repr

inductive Call where
  | ask (query : Query)
  | addAs (n : Node) (excluded : Subscription)
  | addValidated (n : Node) (verify : Verifier)
  | removeSubtree (id : Hash)
  | subscribe (phase : Phase) (hook : Hook)
  | unsubscribe (phase : Phase) (s : Subscription)
  | destroy

def final (a : ExceptT ε (StateM σ) α) (s : σ) : σ :=
  (a.run s).2

def Query.perform (inner : Store ω σ) : Query → Archive σ × ω → Archive σ × ω
  | get id => final ((store inner).get id)
  | identity id => final ((store inner).getIdentity id)
  | community id => final ((store inner).getCommunity id)
  | conversation place id => final ((store inner).getConversation place id)
  | reply place thread id => final ((store inner).getReply place thread id)
  | children id => final ((store inner).children id)
  | recent kind count => final ((store inner).recent kind count)
  | nodes => final (store inner).nodes
  | ancestry id => final (Archive.ancestry inner id)
  | descendants id => final (Archive.descendants (ε := Empty) inner id)
  | leaves id => final (Archive.leaves (ε := Empty) inner id)

def Call.perform (inner : Store ω σ) : Call → Archive σ × ω → Archive σ × ω
  | ask query => query.perform inner
  | addAs n excluded => final (Archive.addAs inner n excluded)
  | addValidated n verify => final (Archive.addValidated inner n verify)
  | removeSubtree id => final ((store inner).removeSubtree id)
  | subscribe phase hook => final (Archive.subscribe phase hook)
  | unsubscribe phase s => final (Archive.unsubscribe phase s)
  | destroy => final Archive.destroy

def run (inner : Store ω σ) (calls : List Call) (s : Archive σ × ω) : Archive σ × ω :=
  calls.foldl (fun s c => c.perform inner s) s

theorem run_cons {inner : Store ω σ} {c : Call} {s t : Archive σ × ω} (h : c.perform inner s = t)
    (calls : List Call) : run inner (c :: calls) s = run inner calls t := by
  rw [run, List.foldl_cons, h, run]

/-- The call asks, adds with validation, or removes. -/
def Call.isValidated : Call → Bool
  | ask _ | addValidated .. | removeSubtree _ => true
  | _ => false

section Keeps

theorem keeps_within {a : Action (σ × ω) α} (ha : Keeps id a) :
    Keeps id (within a : Action (Archive σ × ω) α) := by
  rintro ⟨a, w⟩
  exact congrArg (fun t => ({ a with inner := t.1 }, t.2)) (ha (a.inner, w))

theorem keeps_whileOpen {a : Action (Archive σ × ω) α} (ha : Keeps id a) :
    Keeps id (whileOpen a) :=
  keeps_get.bind fun _ => keeps_ite ha (keeps_throw _)

theorem keeps_ask {root : Hash} {question : ExceptT (WalkError ε) (StateM (σ × ω)) α}
    (hq : Keeps id question) : Keeps id (ask root question) := by
  rintro ⟨a, w⟩
  show (ite _ _ _ : Except _ _ × Archive σ × ω).2 = (a, w)
  split
  · exact congrArg (fun t => ({ a with inner := t.1 }, t.2)) (hq (a.inner, w))
  · rfl

variable (q : Query) (s : Archive Memory × ω)

theorem Query.perform_eq : q.perform Memory.store s = s := by
  have hget : ∀ i, Keeps id ((store (Memory.store (ω := ω))).get i) :=
    fun i => keeps_whileOpen (keeps_within (Action.keeps_read _))
  cases q with
  | get i => exact hget i s
  | identity i => exact ((hget i).bind fun _ => keeps_pure _) s
  | community i => exact ((hget i).bind fun _ => keeps_pure _) s
  | conversation place i => exact ((hget i).bind fun _ => keeps_pure _) s
  | reply place thread i => exact ((hget i).bind fun _ => keeps_pure _) s
  | children i => exact keeps_whileOpen (keeps_within (Action.keeps_read _)) s
  | recent kind count => exact keeps_whileOpen (keeps_within (Action.keeps_read _)) s
  | nodes =>
    exact keeps_whileOpen ((keeps_within (Action.keeps_read _)).bind fun _ => keeps_pure _) s
  | ancestry i =>
    refine keeps_whileOpen (keeps_within (keeps_get.bind fun _ => ?_)) s
    refine (Action.keeps_read _).bind ?_
    rintro (_ | n)
    · exact keeps_pure _
    · exact keeps_climb (fun _ => Action.keeps_read _) _ _
  | descendants i =>
    exact keeps_ask (keeps_get.bind fun _ => keeps_descendants (fun _ => Action.keeps_read _) i) s
  | leaves i =>
    exact keeps_ask (keeps_get.bind fun _ => keeps_leaves (fun _ => Action.keeps_read _) i) s

end Keeps

section Steady

/-- The archive is open, and all its hooks return. -/
structure Steady (a : Archive σ) : Prop where
  isOpen : a.isOpen = true
  returns : ∀ phase, ∀ entry ∈ a.hooks.registry phase, entry.2.returns = true

theorem steady_new (inner : σ) : Steady { inner } :=
  ⟨rfl, fun phase _ he => by cases phase <;> exact absurd he List.not_mem_nil⟩

def tell (a : Archive σ) (phase : Phase) (node : Hash) (excluded : Subscription) : Archive σ :=
  let heard := (a.hooks.registry phase).filter fun entry => entry.1 ≠ excluded
  { a with log := a.log ++ heard.map fun entry => ⟨phase, entry.1, entry.2, node⟩ }

theorem Steady.tell {a : Archive σ} (h : a.Steady) (phase : Phase) (node : Hash)
    (excluded : Subscription) : (a.tell phase node excluded).Steady :=
  ⟨h.isOpen, h.returns⟩

theorem Steady.withInner {a : Archive σ} (h : a.Steady) (inner : σ) :
    { a with inner }.Steady :=
  ⟨h.isOpen, h.returns⟩

variable {w : ω} {node : Hash}

theorem run_call {phase : Phase} {a : Archive σ} (hopen : a.isOpen = true)
    {entry : Subscription × Hook} (hr : entry.2.returns = true) :
    (call phase node entry.1 entry.2).run (a, w) =
      (.ok (), { a with log := a.log ++ [⟨phase, entry.1, entry.2, node⟩] }, w) := by
  have hmodify : (modify fun s => ({ s.1 with
        log := s.1.log ++ [⟨phase, entry.1, entry.2, node⟩], isOpen := entry.2.returns }, s.2) :
      Action (Archive σ × ω) Unit).run (a, w) =
        (.ok (), { a with log := a.log ++ [⟨phase, entry.1, entry.2, node⟩] }, w) := by
    rw [hr, ← hopen]
    rfl
  refine (Action.run_bind_ok hmodify).trans ?_
  rw [if_pos hr]
  rfl

theorem run_calls {phase : Phase} {a : Archive σ} (hopen : a.isOpen = true)
    {heard : List (Subscription × Hook)} (hreturns : ∀ entry ∈ heard, entry.2.returns = true) :
    (heard.forM fun (s, hook) => call phase node s hook : Action (Archive σ × ω) Unit).run (a, w) =
      (.ok (), { a with log := a.log ++ heard.map fun entry => ⟨phase, entry.1, entry.2, node⟩ },
        w) := by
  induction heard generalizing a with
  | nil =>
    rw [List.map_nil, List.append_nil]
    rfl
  | cons entry heard ih =>
    obtain ⟨hr, hreturns⟩ := List.forall_mem_cons.1 hreturns
    refine (Action.run_bind_ok (run_call hopen hr)).trans ?_
    refine (ih (a := { a with log := a.log ++ [⟨phase, entry.1, entry.2, node⟩] }) hopen
      hreturns).trans ?_
    rw [List.map_cons, List.append_assoc, List.singleton_append]

theorem Steady.run_notify {a : Archive σ} (h : a.Steady) (phase : Phase)
    (excluded : Subscription) :
    (notify phase node excluded).run (a, w) = (.ok (), a.tell phase node excluded, w) :=
  run_calls h.isOpen fun entry he => h.returns phase entry (List.mem_of_mem_filter he)

theorem run_whileOpen {a : Archive σ} (h : a.isOpen = true) (x : Action (Archive σ × ω) α) :
    (whileOpen x).run (a, w) = x.run (a, w) := by
  show (ite (a.isOpen = true) x _).run (a, w) = x.run (a, w)
  rw [if_pos h]

theorem Steady.run_whileOpen {a : Archive σ} (h : a.Steady) (x : Action (Archive σ × ω) α) :
    (whileOpen x).run (a, w) = x.run (a, w) :=
  Archive.run_whileOpen h.isOpen x

end Steady

section Memory

variable {a : Archive Memory} {w : ω} {n : Node}

/-- The archive after an absent node has been added, and everybody told but the excluded one. -/
def withNode (a : Archive Memory) (n : Node) (excluded : Subscription) : Archive Memory :=
  ({ a.tell .preAdd n.id excluded with inner := a.inner.insert n }).tell .postAdd n.id excluded

theorem run_within {σ α : Type} {x : Action (σ × ω) α} {a : Archive σ} {inner : σ} {w' : ω}
    {r : Except StoreError α} (hx : x.run (a.inner, w) = (r, inner, w')) :
    (within x).run (a, w) = (r, { a with inner }, w') := by
  show ((x.run (a.inner, w)).1, ({ a with inner := (x.run (a.inner, w)).2.1 },
    (x.run (a.inner, w)).2.2)) = _
  rw [hx]

theorem run_get {id : Hash} :
    (within (Memory.store.get id)).run (a, w) = (.ok (a.inner.get? id), a, w) :=
  run_within rfl

theorem Steady.run_accept (h : a.Steady) (hn : a.inner.get? n.id = none)
    (excluded : Subscription) :
    (accept Memory.store n excluded).run (a, w) = (.ok (), a.withNode n excluded, w) := by
  have hget : (within (Memory.store.get n.id)).run (a, w) = (.ok none, a, w) := hn ▸ run_get
  have hadd : (within (Memory.store.add n)).run (a.tell .preAdd n.id excluded, w) =
      (.ok (), { a.tell .preAdd n.id excluded with inner := a.inner.insert n }, w) := by
    rw [← Memory.add_of_get? hn]
    exact run_within Memory.run_add
  refine (Action.run_bind_ok hget).trans ?_
  refine (Action.run_bind_ok (h.run_notify .preAdd excluded)).trans ?_
  exact (Action.run_bind_ok hadd).trans
    (((h.tell ..).withInner _).run_notify .postAdd excluded)

theorem Steady.run_addValidated_of_get? (h : a.Steady) {found : Node}
    (hn : a.inner.get? n.id = some found) (verify : Verifier) :
    (addValidated Memory.store n verify).run (a, w) = (.ok (), a, w) := by
  have hget : (within (Memory.store.get n.id)).run (a, w) = (.ok (some found), a, w) :=
    hn ▸ run_get
  exact (h.run_whileOpen _).trans (Action.run_bind_ok hget)

theorem Steady.run_addValidated (h : a.Steady) (hn : a.inner.get? n.id = none)
    (verify : Verifier) :
    (addValidated Memory.store n verify).run (a, w) =
      match n.checkDeep (lookUp a.inner.get?) verify with
      | .ok _ => (.ok (), a.withNode n .none, w)
      | .error e => (.error e, a, w) := by
  have hget : (within (Memory.store.get n.id)).run (a, w) = (.ok none, a, w) := hn ▸ run_get
  have hcheck := run_within (Node.answers_checkDeep (Memory.answers_get a.inner w) n verify)
  refine (h.run_whileOpen _).trans ((Action.run_bind_ok hget).trans ?_)
  show (within (n.checkDeep Memory.store.get verify) >>= fun _ =>
    accept Memory.store n .none).run (a, w) = _
  cases hc : n.checkDeep (lookUp a.inner.get?) verify with
  | error e =>
    rw [hc] at hcheck
    exact Action.run_bind_error hcheck
  | ok v =>
    rw [hc] at hcheck
    exact (Action.run_bind_ok hcheck).trans (h.run_accept hn .none)

theorem Steady.run_removeSubtree (h : a.Steady) (id : Hash) :
    ((store Memory.store).removeSubtree id).run (a, w) =
      match a.inner.removeSubtree id with
      | .ok inner => (.ok (), { a with inner }, w)
      | .error e => (.error e, a, w) := by
  refine (h.run_whileOpen _).trans ?_
  have hrun := Memory.run_removeSubtree a.inner w id
  cases hr : a.inner.removeSubtree id with
  | error e => exact run_within (hrun.trans (by rw [hr]))
  | ok m => exact run_within (hrun.trans (by rw [hr]))

/-- What a call asks, adds with validation or removes is all that it does. -/
theorem Steady.perform_cases (h : a.Steady) {c : Call} (hc : c.isValidated = true) :
    ∃ a', c.perform Memory.store (a, w) = (a', w) ∧ a'.Steady ∧
      (a' = a ∨
        (∃ n verify, c = .addValidated n verify ∧ a.inner.get? n.id = none ∧
          n.DeepValid a.inner.get? verify ∧ a' = a.withNode n .none) ∨
        ∃ id inner, c = .removeSubtree id ∧ a.inner.removeSubtree id = .ok inner ∧
          a' = { a with inner }) := by
  cases c with
  | ask q => exact ⟨a, q.perform_eq (a, w), h, .inl rfl⟩
  | addValidated n verify =>
    cases hn : a.inner.get? n.id with
    | some found =>
      exact ⟨a, congrArg Prod.snd (h.run_addValidated_of_get? hn verify), h, .inl rfl⟩
    | none =>
      have hrun := h.run_addValidated (w := w) hn verify
      cases hc : n.checkDeep (lookUp a.inner.get?) verify with
      | error e =>
        rw [hc] at hrun
        exact ⟨a, congrArg Prod.snd hrun, h, .inl rfl⟩
      | ok v =>
        rw [hc] at hrun
        exact ⟨_, congrArg Prod.snd hrun, ((h.tell ..).withInner _).tell ..,
          .inr (.inl ⟨n, verify, rfl, hn, Node.checkDeep_eq_ok_iff.1 hc, rfl⟩)⟩
  | removeSubtree id =>
    have hrun := h.run_removeSubtree (w := w) id
    cases hr : a.inner.removeSubtree id with
    | error e =>
      rw [hr] at hrun
      exact ⟨a, congrArg Prod.snd hrun, h, .inl rfl⟩
    | ok inner =>
      rw [hr] at hrun
      exact ⟨_, congrArg Prod.snd hrun, h.withInner inner,
        .inr (.inr ⟨id, inner, rfl, hr, rfl⟩)⟩
  | addAs | subscribe | unsubscribe | destroy => exact absurd hc nofun

/-- What validated insertions and removals keep holds after every run of validated calls. They may
rely on a guard that holds of all states on the way. -/
theorem Steady.run_induction {P G : Memory → Prop} {calls : List Call} (h : a.Steady)
    (hp : P a.inner) (hcalls : ∀ c ∈ calls, c.isValidated = true)
    (hguard : ∀ done, done <+: calls → G (run Memory.store done (a, w)).1.inner)
    (hinsert : ∀ m n verify, .addValidated n verify ∈ calls → P m → G m → m.get? n.id = none →
      n.DeepValid m.get? verify → P (m.insert n))
    (hremove : ∀ m m' id, .removeSubtree id ∈ calls → P m → G m → m.removeSubtree id = .ok m' →
      P m') :
    ∃ a', run Memory.store calls (a, w) = (a', w) ∧ a'.Steady ∧ P a'.inner := by
  induction calls generalizing a with
  | nil => exact ⟨a, rfl, h, hp⟩
  | cons c calls ih =>
    obtain ⟨hc, hcalls⟩ := List.forall_mem_cons.1 hcalls
    have hg : G a.inner := hguard [] List.nil_prefix
    obtain ⟨b, hb, hbs, hcases⟩ := h.perform_cases (w := w) hc
    have hbp : P b.inner := by
      rcases hcases with rfl | ⟨n, verify, rfl, hn, hv, rfl⟩ | ⟨id, inner, rfl, hr, rfl⟩
      · exact hp
      · exact hinsert _ n verify List.mem_cons_self hp hg hn hv
      · exact hremove _ inner id List.mem_cons_self hp hg hr
    rw [run_cons hb]
    refine ih hbs hbp hcalls (fun done hdone => ?_)
      (fun m n verify hm => hinsert m n verify (List.mem_cons_of_mem c hm))
      (fun m m' id hm => hremove m m' id (List.mem_cons_of_mem c hm))
    rw [← run_cons hb]
    exact hguard _ (List.cons_prefix_cons.2 ⟨rfl, hdone⟩)

theorem Steady.length_run_le {calls : List Call} (h : a.Steady) (hl : a.inner.Linked)
    (hcalls : ∀ c ∈ calls, c.isValidated = true) :
    (run Memory.store calls (a, w)).1.inner.nodes.length ≤
      a.inner.nodes.length + calls.length := by
  induction calls generalizing a with
  | nil => exact Nat.le_refl _
  | cons c calls ih =>
    obtain ⟨hc, hcalls⟩ := List.forall_mem_cons.1 hcalls
    obtain ⟨b, hb, hbs, hcases⟩ := h.perform_cases (w := w) hc
    have hstep : b.inner.Linked ∧ b.inner.nodes.length ≤ a.inner.nodes.length + 1 := by
      rcases hcases with rfl | ⟨n, verify, _, hn, _, rfl⟩ | ⟨id, inner, _, hr, rfl⟩
      · exact ⟨hl, Nat.le_succ _⟩
      · exact ⟨hl.insert hn, Nat.le_of_eq List.length_append⟩
      · obtain ⟨ids, _, _, rfl⟩ := hl.removeSubtree_eq hr
        exact ⟨hl.without ids, Nat.le_succ_of_le (List.length_filter_le ..)⟩
    have hrun := ih hbs hstep.1 hcalls
    rw [run_cons hb, List.length_cons]
    omega

end Memory

end Grove.Archive
