import Grove.Proofs.Archive.Acceptance
import Grove.Proofs.Archive.Subscription

/-! # Turns

A run of an archive is told turn by turn, each with the states around it. What a turn that adds may
tell is determined by the hooks before it, and each subscriber hears its node at most once.
-/

namespace Grove.Archive

open Grove.Action

variable {ω σ : Type} {inner : Store ω σ}

/-- One call of a run, with the states around it. -/
structure Turn (ω σ : Type) where
  call : Call
  before : Archive σ × ω
  after : Archive σ × ω

def turns (inner : Store ω σ) : List Call → Archive σ × ω → List (Turn ω σ)
  | [], _ => []
  | c :: calls, s => ⟨c, s, c.perform inner s⟩ :: turns inner calls (c.perform inner s)

namespace Turn

variable (t : Turn ω σ)

def node : Option Hash :=
  t.call.node?.map (·.id)

def events : List Notification :=
  t.after.1.log.drop t.before.1.log.length

/-- The subscribers that a turn can be heard by. -/
def audience (phase : Phase) : List Subscription :=
  ((t.before.1.hooks.registry phase).map (·.1)).filter fun s => s ≠ t.call.excluded

def told (t : Turn ω σ) (phase : Phase) : List Notification :=
  t.call.node?.elim [] fun n => t.before.1.told phase n.id t.call.excluded

/-- What the wrapped store answers to the addition, if the call gets that far. -/
def attempt (inner : Store ω σ) : Option (Except StoreError Unit) :=
  match (t.call.wants inner).run (t.before.1.inner, t.before.2) with
  | (.ok (some n), s) => some ((inner.add n).run s).1
  | _ => none

end Turn

variable {t : Turn ω σ} {n : Node} {phase other : Phase} {s : Subscription}

theorem attempt_of_unwanted {r : Except StoreError (Option Node)} {u : σ × ω}
    (asked : (t.call.wants inner).run (t.before.1.inner, t.before.2) = (r, u))
    (unwanted : ∀ n, r ≠ .ok (some n)) : t.attempt inner = none := by
  unfold Turn.attempt
  rw [asked]
  split
  · next h => exact absurd (congrArg Prod.fst h) (unwanted _)
  · rfl

theorem attempt_of_wanted {u u' : σ × ω} {r : Except StoreError Unit}
    (asked : (t.call.wants inner).run (t.before.1.inner, t.before.2) = (.ok (some n), u))
    (added : (inner.add n).run u = (r, u')) : t.attempt inner = some r := by
  unfold Turn.attempt
  rw [asked]
  simp only [added]

theorem told_of_node (hnode : t.call.node? = some n) (phase : Phase) :
    t.told phase = t.before.1.told phase n.id t.call.excluded := by
  simp [Turn.told, hnode]

theorem phase_of_mem_told {e : Notification} (h : e ∈ t.told phase) :
    e.phase = phase ∧ e.node ∈ t.node := by
  cases hn : t.call.node? with
  | none => simp [Turn.told, hn] at h
  | some n =>
    rw [told_of_node hn] at h
    obtain ⟨hphase, hnode⟩ := of_mem_told h
    exact ⟨hphase, by simp [Turn.node, hn, hnode]⟩

def heard (phase : Phase) (s : Subscription) (log : List Notification) : List Hash :=
  (log.filter fun e => e.phase = phase ∧ e.subscription = s).map (·.node)

theorem mem_heard {log : List Notification} {id : Hash} : id ∈ heard phase s log ↔
    ∃ e ∈ log, e.phase = phase ∧ e.subscription = s ∧ e.node = id := by
  simp [heard, and_assoc]

theorem heard_append (log log' : List Notification) :
    heard phase s (log ++ log') = heard phase s log ++ heard phase s log' := by
  simp [heard]

theorem heard_flatMap (events : Turn ω σ → List Notification) (ts : List (Turn ω σ)) :
    heard phase s (ts.flatMap events) = ts.flatMap fun t => heard phase s (events t) := by
  induction ts with
  | nil => rfl
  | cons t ts ih => rw [List.flatMap_cons, List.flatMap_cons, heard_append, ih]

theorem filter_map_of_ascending {r : List (Subscription × Hook)}
    (h : r.Pairwise fun e f => e.1.number < f.1.number) (node : Hash) :
    ((r.filter fun entry => entry.1 = s).map fun _ => node) =
      if s ∈ r.map (·.1) then [node] else [] := by
  induction r with
  | nil => rfl
  | cons entry r ih =>
    obtain ⟨hlt, h⟩ := List.pairwise_cons.1 h
    by_cases hs : entry.1 = s
    · have hnot : s ∉ r.map (·.1) := by
        rintro hmem
        obtain ⟨f, hf, hfs⟩ := List.mem_map.1 hmem
        have hlt := hlt f hf
        rw [hfs, hs] at hlt
        exact UInt64.lt_irrefl _ hlt
      have ih := ih h
      rw [if_neg hnot] at ih
      simp [hs, ih]
    · have hs' : s ≠ entry.1 := fun heq => hs heq.symm
      simp only [List.filter_cons, decide_eq_true_eq, hs, if_false, ih h, List.map_cons,
        List.mem_cons, hs', false_or]

theorem heard_map (r : List (Subscription × Hook)) (node : Hash) :
    heard phase s (r.map fun entry => ⟨other, entry.1, entry.2, node⟩) =
      if other = phase then (r.filter fun entry => entry.1 = s).map fun _ => node else [] := by
  unfold heard
  rw [List.filter_map, List.map_map]
  by_cases hp : other = phase <;> simp [Function.comp_def, hp]

theorem heard_told (h : t.before.1.hooks.Ordered) :
    heard phase s (t.told other) =
      if other = phase ∧ s ∈ t.audience other then t.node.toList else [] := by
  unfold Turn.told Turn.node Turn.audience
  cases t.call.node? with
  | none => simp [heard]
  | some n =>
    have hascending := (h.ascending other).filter fun entry => entry.1 ≠ t.call.excluded
    rw [Option.elim_some, told, heard_map, filter_map_of_ascending hascending, List.filter_map,
      ← ite_and]
    rfl

/-- Turns of one kind that follow one another. -/
inductive Chain (R : Turn ω σ → Prop) : Archive σ × ω → List (Turn ω σ) → Archive σ × ω → Prop where
  | nil {s : Archive σ × ω} : Chain R s [] s
  | cons {t : Turn ω σ} {ts : List (Turn ω σ)} {s : Archive σ × ω} (turn : R t)
      (rest : Chain R t.after ts s) : Chain R t.before (t :: ts) s

theorem chain_of_step {R : Turn ω σ → Prop} {P : Archive σ × ω → Prop} {calls : List Call}
    {s : Archive σ × ω} (hs : P s)
    (hstep : ∀ c ∈ calls, ∀ s, P s → R ⟨c, s, c.perform inner s⟩ ∧ P (c.perform inner s)) :
    Chain R s (turns inner calls s) (run inner calls s) := by
  induction calls generalizing s with
  | nil => exact .nil
  | cons c calls ih =>
    obtain ⟨hturn, hnext⟩ := hstep c List.mem_cons_self s hs
    exact .cons hturn (ih hnext fun c hc => hstep c (List.mem_cons_of_mem _ hc))

namespace Chain

variable {R : Turn ω σ → Prop} {s s' : Archive σ × ω} {ts ts' : List (Turn ω σ)}

theorem forall_mem (h : Chain R s ts s') : ∀ t ∈ ts, R t := by
  induction h with
  | nil => simp
  | cons turn _ ih => exact List.forall_mem_cons.2 ⟨turn, ih⟩

theorem before_eq (h : Chain R s (t :: ts) s') : t.before = s := by
  cases h
  rfl

theorem split (h : Chain R s (ts ++ ts') s') : ∃ m, Chain R s ts m ∧ Chain R m ts' s' := by
  induction ts generalizing s with
  | nil => exact ⟨s, .nil, h⟩
  | cons t ts ih =>
    cases h with
    | cons turn rest =>
      obtain ⟨m, hts, hts'⟩ := ih rest
      exact ⟨m, .cons turn hts, hts'⟩

theorem induction {P : Archive σ × ω → Prop} (h : Chain R s ts s') (hs : P s)
    (hstep : ∀ t ∈ ts, R t → P t.before → P t.after) : P s' := by
  induction h with
  | nil => exact hs
  | cons turn _ ih =>
    refine ih (hstep _ List.mem_cons_self turn hs) fun t ht => ?_
    exact hstep t (List.mem_cons_of_mem _ ht)

theorem log_eq (h : Chain R s ts s')
    (hlog : ∀ t, R t → t.after.1.log = t.before.1.log ++ t.events) :
    s'.1.log = s.1.log ++ ts.flatMap Turn.events := by
  induction h with
  | nil => simp
  | cons turn _ ih => rw [ih, hlog _ turn, List.flatMap_cons, List.append_assoc]

end Chain

end Grove.Archive
