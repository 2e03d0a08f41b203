import Grove.Proofs.Archive.Forest
import Grove.Proofs.Archive.Turn

/-! # What subscribers hear

A run of an archive over a tier is told turn by turn. Each turn that adds tells its node to the
hooks before, and if the tier takes it to the hooks after, by ascending number. So the log of a
whole run is what its turns told, and each subscriber hears in order of the nodes that came while it
was registered.
-/

namespace Grove.Archive

open Grove.Action

variable {ω σ : Type} {inner : Store ω σ} {T : Tier inner}

def Call.isUpdate : Call → Bool
  | addAs .. | addValidated .. | removeSubtree _ | subscribe .. | unsubscribe .. => true
  | ask _ | destroy => false

def Call.isSubscribe : Call → Bool
  | subscribe .. => true
  | _ => false

namespace Turn

variable (t : Turn ω σ)

def handle? : Option Subscription :=
  match t.call with
  | .subscribe phase hook => ((Archive.subscribe phase hook).run t.before).1.toOption
  | _ => none

def register (phase : Phase) (r : List (Subscription × Hook)) : List (Subscription × Hook) :=
  match t.call with
  | .subscribe p hook => r ++ if p = phase then t.handle?.toList.map (·, hook) else []
  | .unsubscribe p s => if p = phase then r.filter fun entry => entry.1 ≠ s else r
  | _ => r

/-- The node of the call is absent before the turn and present after it. -/
def Adds (T : Tier inner) : Prop :=
  ∃ n ∈ t.call.node?, ¬(T.contents t.before.1.inner).Holds n.id ∧
    (T.contents t.after.1.inner).Holds n.id

instance : Decidable (t.Adds T) :=
  inferInstanceAs (Decidable (∃ n ∈ _, _))

def Fails (inner : Store ω σ) : Prop :=
  ∃ r ∈ t.attempt inner, r.isOk = false

instance : Decidable (t.Fails inner) :=
  inferInstanceAs (Decidable (∃ r ∈ _, _))

/-- What a turn does to the log, the contents and the registries. -/
structure Regular (T : Tier inner) (t : Turn ω σ) : Prop where
  ordered : t.before.1.hooks.Ordered
  log : t.after.1.log = t.before.1.log ++
    ((if t.Adds T ∨ t.Fails inner then t.told .preAdd else []) ++
      if t.Adds T then t.told .postAdd else [])
  wanted : t.Adds T ∨ t.Fails inner → ∃ n, t.call.node? = some n ∧
    (T.contents t.before.1.inner).node? n.id = none ∧
    ∀ verify, t.call = .addValidated n verify →
      n.DeepValid (T.contents t.before.1.inner).node? verify
  keeps {id : Hash} : (T.contents t.before.1.inner).Holds id →
    ¬(T.contents t.after.1.inner).Holds id → ∃ k, t.call = .removeSubtree k
  registry (phase : Phase) :
    t.after.1.hooks.registry phase = t.register phase (t.before.1.hooks.registry phase)
  answered : t.call.isSubscribe = true → t.handle? = some ⟨t.after.1.hooks.last⟩ ∧
    t.after.1.hooks.last.toNat = t.before.1.hooks.last.toNat + 1
  unanswered : t.call.isSubscribe = false → t.after.1.hooks.last = t.before.1.hooks.last

end Turn

variable {a : Archive σ} {w : ω} {c : Call} {n : Node} {u : Archive σ × ω}

/-- The archive is steady over a valid state, with its hooks in order. -/
structure Live (T : Tier inner) (a : Archive σ) : Prop extends Steady a where
  ordered : a.hooks.Ordered
  valid : T.Valid a.inner

theorem Live.congr {b : Archive σ} (h : Live T a) (hopen : b.isOpen = a.isOpen)
    (hhooks : b.hooks = a.hooks) (hvalid : T.Valid b.inner) : Live T b where
  isOpen := hopen.trans h.isOpen
  returns := hhooks ▸ h.returns
  ordered := hhooks ▸ h.ordered
  valid := hvalid

theorem Live.not_stopped (h : Live T a) {b b' : Archive σ} {phase : Phase} {node : Hash}
    {excluded : Subscription} : ¬b.Stopped b' (a.told phase node excluded) := by
  rintro ⟨-, -, -, -, e, he, hbroken⟩
  obtain ⟨entry, hentry, rfl⟩ := List.mem_map.1 he
  have hreturns := h.returns phase entry (List.mem_of_mem_filter hentry)
  exact absurd (hreturns.symm.trans hbroken) nofun

section Course

variable {t : Turn ω σ}

theorem regular_of_hooks_eq (h : t.before.1.hooks.Ordered) (hnode : t.call.node? = some n)
    (hhooks : t.after.1.hooks = t.before.1.hooks)
    (log : t.after.1.log = t.before.1.log ++
      ((if t.Adds T ∨ t.Fails inner then t.told .preAdd else []) ++
        if t.Adds T then t.told .postAdd else []))
    (wanted : t.Adds T ∨ t.Fails inner → (T.contents t.before.1.inner).node? n.id = none ∧
      ∀ verify, t.call = .addValidated n verify →
        n.DeepValid (T.contents t.before.1.inner).node? verify)
    (keeps : ∀ id, (T.contents t.before.1.inner).Holds id →
      (T.contents t.after.1.inner).Holds id) : t.Regular T := by
  obtain ⟨c, ⟨a, w⟩, b, w'⟩ := t
  have hregister : ∀ phase r, (Turn.mk c (a, w) (b, w')).register phase r = r := by
    cases c <;> simp [Call.node?, Turn.register] at hnode ⊢
  have hsubscribe : c.isSubscribe = false := by
    cases c <;> simp [Call.node?, Call.isSubscribe] at hnode ⊢
  refine ⟨h, log, fun hw => ⟨n, hnode, wanted hw⟩, fun hb ha => absurd (keeps _ hb) ha,
    fun phase => ?_, fun hs => ?_, fun _ => congrArg Hooks.last hhooks⟩
  · rw [hregister, hhooks]
  · simp [hsubscribe] at hs

theorem Live.regular_of_course (h : Live T a) (hnode : c.node? = some n)
    (hcourse : Course inner c a w u) : Live T u.1 ∧ Turn.Regular T ⟨c, (a, w), u⟩ := by
  have hasked := fun r s (asked : (c.wants inner).run (a.inner, w) = (r, s)) =>
    ensures_wants_at T (T.contents a.inner) c asked ⟨h.valid, rfl⟩
  have hadds : ∀ u, (Turn.mk c (a, w) u).Adds T ↔ ¬(T.contents a.inner).Holds n.id ∧
      (T.contents u.1.inner).Holds n.id := by
    simp [Turn.Adds, hnode]
  cases hcourse with
  | @declined r x w' asked unwanted =>
    obtain ⟨⟨hx, hheld⟩, -⟩ := hasked _ _ asked
    have hattempt : (Turn.mk c (a, w) ({ a with inner := x }, w')).attempt inner = none :=
      attempt_of_unwanted asked unwanted
    have hnot : ¬(Turn.mk c (a, w) ({ a with inner := x }, w')).Adds T := by
      rw [hadds, hheld]
      exact fun ⟨habsent, hpresent⟩ => habsent hpresent
    refine ⟨h.congr rfl rfl hx, regular_of_hooks_eq h.ordered hnode rfl ?_ ?_ ?_⟩
    · simp [hnot, Turn.Fails, hattempt]
    · simp [hnot, Turn.Fails, hattempt]
    · intro id hid
      rwa [hheld]
  | barred _ stopped => exact absurd stopped h.not_stopped
  | @failed k x y w' w'' e asked refused =>
    obtain ⟨⟨hx, hheld⟩, hk⟩ := hasked _ _ asked
    obtain ⟨hkn, hwanted⟩ := hk _ rfl k rfl
    obtain rfl := Option.some.inj (hkn.symm.trans hnode)
    obtain ⟨hy, hheld'⟩ := T.add k refused hx
    have hattempt : (Turn.mk c (a, w) ({ a.tell .preAdd k.id c.excluded with inner := y },
        w'')).attempt inner = some (.error e) := attempt_of_wanted asked refused
    have hnot : ¬(Turn.mk c (a, w) ({ a.tell .preAdd k.id c.excluded with inner := y },
        w'')).Adds T := by
      rw [hadds, hheld', hheld]
      exact fun ⟨habsent, hpresent⟩ => habsent hpresent
    refine ⟨h.congr rfl rfl hy, regular_of_hooks_eq h.ordered hnode rfl ?_ (fun _ => hwanted) ?_⟩
    · rw [if_pos (.inr ⟨_, hattempt, rfl⟩), if_neg hnot, told_of_node hnode, List.append_nil]
      rfl
    · intro id hid
      rwa [hheld', hheld]
  | cut _ _ stopped => exact absurd stopped h.not_stopped
  | @accepted k x y w' w'' asked added =>
    obtain ⟨⟨hx, hheld⟩, hk⟩ := hasked _ _ asked
    obtain ⟨hkn, hwanted⟩ := hk _ rfl k rfl
    obtain rfl := Option.some.inj (hkn.symm.trans hnode)
    obtain ⟨hy, hheld'⟩ := T.add k added hx
    have hadds : (Turn.mk c (a, w) ({ (a.tell .preAdd k.id c.excluded).tell .postAdd k.id
        c.excluded with inner := y }, w'')).Adds T :=
      (hadds _).2 ⟨Contents.not_holds_of_node? hwanted.1, (hheld' k.id).2 (.inr rfl)⟩
    refine ⟨h.congr rfl rfl hy, regular_of_hooks_eq h.ordered hnode rfl ?_ (fun _ => hwanted) ?_⟩
    · rw [if_pos (.inl hadds), if_pos hadds, told_of_node hnode, told_of_node hnode,
        ← List.append_assoc]
      rfl
    · intro id hid
      exact (hheld' id).2 (.inl (hheld ▸ hid))

theorem regular_of_log_eq (h : t.before.1.hooks.Ordered) (hnode : t.call.node? = none)
    (hlog : t.after.1.log = t.before.1.log)
    (keeps : ∀ id, (T.contents t.before.1.inner).Holds id →
      ¬(T.contents t.after.1.inner).Holds id → ∃ k, t.call = .removeSubtree k)
    (registry : ∀ phase,
      t.after.1.hooks.registry phase = t.register phase (t.before.1.hooks.registry phase))
    (answered : t.call.isSubscribe = true → t.handle? = some ⟨t.after.1.hooks.last⟩ ∧
      t.after.1.hooks.last.toNat = t.before.1.hooks.last.toNat + 1)
    (unanswered : t.call.isSubscribe = false → t.after.1.hooks.last = t.before.1.hooks.last) :
    t.Regular T := by
  have hadds : ¬t.Adds T := by simp [Turn.Adds, hnode]
  have hwants : t.call.wants inner = pure none := by
    cases hcall : t.call <;> simp [hcall, Call.node?] at hnode <;> rfl
  have hfails : ¬t.Fails inner := by
    rintro ⟨r, hr, -⟩
    rw [attempt_of_unwanted (r := .ok none) (by rw [hwants]; rfl) (by simp)] at hr
    cases hr
  refine ⟨h, ?_, ?_, fun hb ha => keeps _ hb ha, registry, answered, unanswered⟩
  · simp [hadds, hfails, hlog]
  · simp [hadds, hfails]

theorem Live.regular_removeSubtree (h : Live T a) (id : Hash)
    (hu : (Call.removeSubtree id).perform inner (a, w) = u) :
    Live T u.1 ∧ Turn.Regular T ⟨.removeSubtree id, (a, w), u⟩ := by
  obtain ⟨⟨r, y, w'⟩, hrun⟩ : ∃ r, (inner.removeSubtree id).run (a.inner, w) = r := ⟨_, rfl⟩
  have hperform : (Call.removeSubtree id).perform inner (a, w) = ({ a with inner := y }, w') :=
    congrArg Prod.snd ((h.run_whileOpen _).trans (run_within hrun))
  obtain rfl := hperform.symm.trans hu
  obtain ⟨hy, -⟩ := T.removeSubtree id hrun h.valid
  refine ⟨h.congr rfl rfl hy, regular_of_log_eq h.ordered rfl rfl ?_ ?_ nofun fun _ => rfl⟩
  · exact fun _ _ _ => ⟨id, rfl⟩
  · exact fun _ => rfl

theorem Live.regular_subscribe (h : Live T a) (phase : Phase) {hook : Hook}
    (hreturns : hook.returns = true) (hlast : a.hooks.last.toNat + 1 < 2 ^ 64)
    (hu : (Call.subscribe phase hook).perform inner (a, w) = u) :
    Live T u.1 ∧ Turn.Regular T ⟨.subscribe phase hook, (a, w), u⟩ := by
  have hrun : (Archive.subscribe phase hook).run (a, w) =
      (.ok a.hooks.next, { a with hooks := (a.hooks.subscribe phase hook).2 }, w) :=
    h.run_whileOpen _
  obtain rfl := (congrArg Prod.snd hrun).symm.trans hu
  have hregistry : ∀ other, (a.hooks.subscribe phase hook).2.registry other =
      a.hooks.registry other ++ if phase = other then [(⟨a.hooks.last + 1⟩, hook)] else [] :=
    h.ordered.registry_subscribe hlast
  have hhandle : (Turn.mk (.subscribe phase hook) (a, w)
      ({ a with hooks := (a.hooks.subscribe phase hook).2 }, w)).handle? =
        some ⟨a.hooks.last + 1⟩ := by
    simp only [Turn.handle?, hrun, h.ordered.next_eq hlast]
    rfl
  have hlast' : (a.hooks.subscribe phase hook).2.last = a.hooks.last + 1 :=
    h.ordered.last_subscribe hlast
  refine ⟨⟨⟨h.isOpen, ?_⟩, h.ordered.subscribe hlast phase hook, h.valid⟩,
    regular_of_log_eq h.ordered rfl rfl ?_ ?_ (fun _ => ⟨?_, ?_⟩) nofun⟩
  · intro other entry hentry
    rw [hregistry other, List.mem_append] at hentry
    rcases hentry with hentry | hentry
    · exact h.returns other entry hentry
    · split at hentry <;> simp_all
  · exact fun _ hb ha => absurd hb ha
  · intro other
    rw [hregistry other, Turn.register, hhandle]
    rfl
  · rw [hhandle, hlast']
  · rw [hlast', Hooks.toNat_succ_last hlast]

theorem Live.regular_unsubscribe (h : Live T a) (phase : Phase) (s : Subscription)
    (hu : (Call.unsubscribe phase s).perform inner (a, w) = u) :
    Live T u.1 ∧ Turn.Regular T ⟨.unsubscribe phase s, (a, w), u⟩ := by
  have hrun : (Archive.unsubscribe phase s).run (a, w) =
      (.ok (a.hooks.unsubscribe phase s).1,
        { a with hooks := (a.hooks.unsubscribe phase s).2 }, w) :=
    h.run_whileOpen _
  obtain rfl := (congrArg Prod.snd hrun).symm.trans hu
  refine ⟨⟨⟨h.isOpen, ?_⟩, h.ordered.unsubscribe phase s, h.valid⟩,
    regular_of_log_eq h.ordered rfl rfl ?_ ?_ nofun fun _ => Hooks.last_setRegistry⟩
  · intro other entry hentry
    rw [Hooks.registry_unsubscribe] at hentry
    split at hentry
    · exact h.returns other entry (List.mem_of_mem_filter hentry)
    · exact h.returns other entry hentry
  · exact fun _ hb ha => absurd hb ha
  · exact Hooks.registry_unsubscribe

/-- Every turn is regular, and leaves the archive as the next one needs it. -/
theorem Live.regular (h : Live T a) (hc : c.isUpdate = true)
    (hreturns : ∀ phase hook, c = .subscribe phase hook → hook.returns = true)
    (hlast : c.isSubscribe = true → a.hooks.last.toNat + 1 < 2 ^ 64) :
    Live T (c.perform inner (a, w)).1 ∧ Turn.Regular T ⟨c, (a, w), c.perform inner (a, w)⟩ := by
  cases c with
  | addAs n excluded => exact h.regular_of_course rfl (Call.course rfl h.isOpen)
  | addValidated n verify => exact h.regular_of_course rfl (Call.course rfl h.isOpen)
  | removeSubtree id => exact h.regular_removeSubtree id rfl
  | subscribe phase hook => exact h.regular_subscribe phase (hreturns _ _ rfl) (hlast rfl) rfl
  | unsubscribe phase s => exact h.regular_unsubscribe phase s rfl
  | ask | destroy => exact absurd hc nofun

end Course

/-- Who is registered in a phase after these turns, by the order of subscription. -/
def subscribers (phase : Phase) (ts : List (Turn ω σ)) : List (Subscription × Hook) :=
  ts.foldl (fun r t => t.register phase r) []

section Heard

variable {t : Turn ω σ} {phase other : Phase} {s : Subscription}

theorem Turn.Regular.events_eq (h : t.Regular T) :
    t.events = (if t.Adds T ∨ t.Fails inner then t.told .preAdd else []) ++
      if t.Adds T then t.told .postAdd else [] := by
  rw [events, h.log, List.drop_left]

theorem Turn.Regular.log_eq (h : t.Regular T) : t.after.1.log = t.before.1.log ++ t.events := by
  rw [h.events_eq, h.log]

theorem Turn.Regular.heard_preAdd (h : t.Regular T) (s : Subscription) :
    heard .preAdd s t.events =
      if (t.Adds T ∨ t.Fails inner) ∧ s ∈ t.audience .preAdd then t.node.toList else [] := by
  rw [h.events_eq, heard_append, apply_ite (heard .preAdd s), apply_ite (heard .preAdd s),
    heard_told h.ordered, heard_told h.ordered]
  simp [heard, ite_and]

theorem Turn.Regular.heard_postAdd (h : t.Regular T) (s : Subscription) :
    heard .postAdd s t.events =
      if t.Adds T ∧ s ∈ t.audience .postAdd then t.node.toList else [] := by
  rw [h.events_eq, heard_append, apply_ite (heard .postAdd s), apply_ite (heard .postAdd s),
    heard_told h.ordered, heard_told h.ordered]
  simp [heard, ite_and]

theorem flatMap_ite (p : Turn ω σ → Prop) [DecidablePred p] (ts : List (Turn ω σ)) :
    (ts.flatMap fun t => if p t then t.node.toList else []) =
      (ts.filter fun t => p t).filterMap Turn.node := by
  induction ts with
  | nil => rfl
  | cons t ts ih =>
    rw [List.flatMap_cons, ih]
    by_cases hp : p t
    · cases hn : t.node <;> simp [hp, hn]
    · simp [hp]

end Heard

section Chain

variable {s s' : Archive σ × ω} {t : Turn ω σ} {ts : List (Turn ω σ)}

theorem Live.chain {calls : List Call} (h : Live T a) (hcalls : ∀ c ∈ calls, c.isUpdate = true)
    (hreturns : ∀ phase hook, .subscribe phase hook ∈ calls → hook.returns = true)
    (hcount : a.hooks.last.toNat + calls.countP Call.isSubscribe < 2 ^ 64) :
    Chain (Turn.Regular T) (a, w) (turns inner calls (a, w)) (run inner calls (a, w)) := by
  induction calls generalizing a w with
  | nil => exact .nil
  | cons c calls ih =>
    obtain ⟨hc, hcalls⟩ := List.forall_mem_cons.1 hcalls
    rw [List.countP_cons] at hcount
    have hlast : c.isSubscribe = true → a.hooks.last.toNat + 1 < 2 ^ 64 := by
      intro hs
      rw [if_pos hs] at hcount
      omega
    obtain ⟨hlive, hregular⟩ := h.regular (w := w) hc
      (fun phase hook heq => hreturns phase hook (by simp [heq])) hlast
    obtain ⟨⟨b, w'⟩, hb⟩ : ∃ u, c.perform inner (a, w) = u := ⟨_, rfl⟩
    rw [run_cons hb, turns]
    rw [hb] at hlive hregular ⊢
    refine .cons hregular (ih hlive hcalls (fun phase hook hm => hreturns phase hook ?_) ?_)
    · exact List.mem_cons_of_mem c hm
    · have hnext := hregular.answered
      have hsame := hregular.unanswered
      cases hs : c.isSubscribe <;> simp_all
      omega

namespace Chain

theorem registry_eq (h : Chain (Turn.Regular T) s ts s') (phase : Phase) :
    s'.1.hooks.registry phase =
      ts.foldl (fun r t => t.register phase r) (s.1.hooks.registry phase) := by
  induction h with
  | nil => rfl
  | cons hregular _ ih => rw [ih, List.foldl_cons, hregular.registry]

theorem handles (h : Chain (Turn.Regular T) s ts s') :
    (∀ k ∈ ts.filterMap Turn.handle?, s.1.hooks.last < k.number) ∧
      (ts.filterMap Turn.handle?).Pairwise fun j k => j.number < k.number := by
  induction h with
  | nil => simp
  | @cons t ts s' hregular _ ih =>
    obtain ⟨hlast, hpairwise⟩ := ih
    cases hs : t.call.isSubscribe with
    | true =>
      obtain ⟨hhandle, hnext⟩ := hregular.answered hs
      have hlt : t.before.1.hooks.last < t.after.1.hooks.last :=
        UInt64.lt_iff_toNat_lt.2 (by omega)
      rw [List.filterMap_cons_some hhandle]
      refine ⟨?_, List.pairwise_cons.2 ⟨hlast, hpairwise⟩⟩
      exact List.forall_mem_cons.2 ⟨hlt, fun k hk => UInt64.lt_trans hlt (hlast k hk)⟩
    | false =>
      have hnone : t.handle? = none := by
        unfold Turn.handle?
        split
        · next heq => simp [heq, Call.isSubscribe] at hs
        · rfl
      rw [List.filterMap_cons_none hnone, ← hregular.unanswered hs]
      exact ⟨hlast, hpairwise⟩

theorem exists_removal (h : Chain (Turn.Regular T) s ts s') {id : Hash}
    (hbefore : (T.contents s.1.inner).Holds id) (hafter : ¬(T.contents s'.1.inner).Holds id) :
    ∃ t ∈ ts, (∃ k, t.call = .removeSubtree k) ∧ (T.contents t.before.1.inner).Holds id ∧
      ¬(T.contents t.after.1.inner).Holds id := by
  induction h with
  | nil => exact absurd hbefore hafter
  | @cons t ts s' hregular _ ih =>
    by_cases hheld : (T.contents t.after.1.inner).Holds id
    · obtain ⟨r, hr, hremoval⟩ := ih hheld hafter
      exact ⟨r, List.mem_cons_of_mem t hr, hremoval⟩
    · exact ⟨t, List.mem_cons_self, hregular.keeps hbefore hheld, hbefore, hheld⟩

end Chain

end Chain

/-- What the turns of a run and its log have to do with each other. -/
structure Chronicle (T : Tier inner) (ts : List (Turn ω σ)) (log : List Notification) : Prop where
  /-- Every subscription is answered, with a handle of its own in both phases together. -/
  answered : ∀ t ∈ ts, t.call.isSubscribe = true → t.handle?.isSome
  handles_nodup : (ts.filterMap Turn.handle?).Nodup
  none_not_mem_handles : .none ∉ ts.filterMap Turn.handle?
  /-- Registered are those that were subscribed and not unsubscribed since. -/
  registry {done rest : List (Turn ω σ)} {t : Turn ω σ} : ts = done ++ t :: rest →
    ∀ phase, t.before.1.hooks.registry phase = subscribers phase done
  log_eq : log = ts.flatMap Turn.events
  /-- The hooks after are told of the nodes that came. -/
  postAdd (s : Subscription) : heard .postAdd s log =
    (ts.filter fun t => t.Adds T ∧ s ∈ t.audience .postAdd).filterMap Turn.node
  /-- The hooks before are told of those, and of the ones that the store refused. -/
  preAdd (s : Subscription) : heard .preAdd s log =
    (ts.filter fun t => (t.Adds T ∨ t.Fails inner) ∧ s ∈ t.audience .preAdd).filterMap Turn.node
  /-- In a turn the hooks before come first, and those of a phase by ascending number. -/
  ascending : ∀ t ∈ ts, ∃ pre post, t.events = pre ++ post ∧
    (∀ e ∈ pre, e.phase = .preAdd) ∧ (∀ e ∈ post, e.phase = .postAdd) ∧
    (pre.Pairwise fun e f => e.subscription.number < f.subscription.number) ∧
    post.Pairwise fun e f => e.subscription.number < f.subscription.number
  /-- Nobody is told of what is present already. -/
  quiet_of_holds : ∀ t ∈ ts, ∀ id ∈ t.node, (T.contents t.before.1.inner).Holds id → t.events = []
  /-- Nobody is told of what deep validation refuses. -/
  quiet_of_invalid : ∀ t ∈ ts, ∀ n verify, t.call = .addValidated n verify →
    ¬n.DeepValid (T.contents t.before.1.inner).node? verify → t.events = []
  /-- To be told of again, a node has to be removed in between. -/
  again {done between rest : List (Turn ω σ)} {t u : Turn ω σ} :
    ts = done ++ t :: (between ++ u :: rest) → ∀ e ∈ t.events, ∀ f ∈ u.events,
      e.phase = .postAdd → f.phase = .postAdd → e.node = f.node →
      ∃ r ∈ between, (∃ k, r.call = .removeSubtree k) ∧
        (T.contents r.before.1.inner).Holds e.node ∧ ¬(T.contents r.after.1.inner).Holds e.node

section Chronicle

variable {t : Turn ω σ}

theorem pairwise_told (h : t.before.1.hooks.Ordered) (phase : Phase) :
    (t.told phase).Pairwise fun e f => e.subscription.number < f.subscription.number := by
  unfold Turn.told
  cases t.call.node? with
  | none => exact .nil
  | some n => exact List.pairwise_map.2 ((h.ascending phase).filter _)

theorem Turn.Regular.ascending (h : t.Regular T) : ∃ pre post, t.events = pre ++ post ∧
    (∀ e ∈ pre, e.phase = .preAdd) ∧ (∀ e ∈ post, e.phase = .postAdd) ∧
    (pre.Pairwise fun e f => e.subscription.number < f.subscription.number) ∧
    post.Pairwise fun e f => e.subscription.number < f.subscription.number := by
  refine ⟨_, _, h.events_eq, ?_, ?_, ?_, ?_⟩ <;> split
  · exact fun e he => (phase_of_mem_told he).1
  · simp
  · exact fun e he => (phase_of_mem_told he).1
  · simp
  · exact pairwise_told h.ordered .preAdd
  · exact .nil
  · exact pairwise_told h.ordered .postAdd
  · exact .nil

theorem Turn.Regular.events_eq_nil (h : t.Regular T) (hnot : ¬(t.Adds T ∨ t.Fails inner)) :
    t.events = [] := by
  rw [h.events_eq, if_neg hnot, if_neg fun hadds => hnot (.inl hadds), List.append_nil]

/-- What the hooks after are told of was absent before the turn, and is present after it. -/
theorem Turn.Regular.of_mem_events (h : t.Regular T) {e : Notification} (he : e ∈ t.events)
    (hphase : e.phase = .postAdd) : ¬(T.contents t.before.1.inner).Holds e.node ∧
      (T.contents t.after.1.inner).Holds e.node := by
  rw [h.events_eq, List.mem_append] at he
  rcases he with he | he
  · split at he
    · have hpre := (phase_of_mem_told he).1
      simp [hphase] at hpre
    · simp at he
  · split at he
    · next hadds =>
      obtain ⟨n, hn, habsent, hpresent⟩ := hadds
      have hnode := (phase_of_mem_told he).2
      have hid : n.id = e.node := by simpa [node, Option.mem_def.1 hn] using hnode
      exact hid ▸ ⟨habsent, hpresent⟩
    · simp at he

/-- A run of updates over a tier, whatever the tier refuses, is told turn by turn, as long as its
hooks return and it has fewer subscriptions than there are numbers. -/
theorem run_chronicle (T : Tier inner) {x : σ} (hx : T.Valid x) (w : ω) {calls : List Call}
    (hcalls : ∀ c ∈ calls, c.isUpdate = true)
    (hreturns : ∀ phase hook, .subscribe phase hook ∈ calls → hook.returns = true)
    (hcount : calls.countP Call.isSubscribe < 2 ^ 64 - 1) :
    Chronicle T (turns inner calls ({ inner := x }, w))
      (run inner calls ({ inner := x }, w)).1.log := by
  have hlive : Live T { inner := x } := ⟨steady_new x, Hooks.ordered_empty, hx⟩
  have hchain := hlive.chain (w := w) hcalls hreturns (by simp; omega)
  have hregular := hchain.forall_mem
  have hlog := hchain.log_eq fun t ht => ht.log_eq
  obtain ⟨hpositive, hpairwise⟩ := hchain.handles
  rw [List.nil_append] at hlog
  constructor
  case answered =>
    intro t ht hs
    simp [((hregular t ht).answered hs).1]
  case handles_nodup =>
    refine List.Pairwise.imp (fun {j k} hlt => ?_) hpairwise
    rintro rfl
    exact UInt64.lt_irrefl _ hlt
  case none_not_mem_handles =>
    exact fun hnone => UInt64.lt_irrefl _ (hpositive _ hnone)
  case registry =>
    intro done rest t hts phase
    rw [hts] at hchain
    obtain ⟨m, hdone, hrest⟩ := hchain.split
    rw [hrest.before_eq, hdone.registry_eq]
    cases phase <;> rfl
  case log_eq => exact hlog
  case postAdd =>
    intro s
    rw [hlog, heard_flatMap, ← flatMap_ite]
    exact List.flatMap_congr fun t ht => (hregular t ht).heard_postAdd s
  case preAdd =>
    intro s
    rw [hlog, heard_flatMap, ← flatMap_ite]
    exact List.flatMap_congr fun t ht => (hregular t ht).heard_preAdd s
  case ascending => exact fun t ht => (hregular t ht).ascending
  case quiet_of_holds =>
    intro t ht id hid hheld
    refine (hregular t ht).events_eq_nil fun hw => ?_
    obtain ⟨n, hn, habsent, -⟩ := (hregular t ht).wanted hw
    obtain rfl : n.id = id := by simpa [Turn.node, hn] using hid
    exact Contents.not_holds_of_node? habsent hheld
  case quiet_of_invalid =>
    intro t ht n verify hcall hinvalid
    refine (hregular t ht).events_eq_nil fun hw => ?_
    obtain ⟨k, hk, -, hvalid⟩ := (hregular t ht).wanted hw
    obtain rfl : n = k := by simpa [hcall, Call.node?] using hk
    exact hinvalid (hvalid verify hcall)
  case again =>
    -- The node is there after `t` and not before `u`, so a turn between has taken it away.
    intro done between rest t u hts e he f hf hpost hpost' hnode
    rw [hts] at hchain
    obtain ⟨m, -, hrest⟩ := hchain.split
    cases hrest with
    | cons ht hrest =>
      obtain ⟨m, hbetween, hrest⟩ := hrest.split
      have hu := hrest.forall_mem u List.mem_cons_self
      have hpresent := (ht.of_mem_events he hpost).2
      have habsent := (hu.of_mem_events hf hpost').1
      rw [hrest.before_eq, ← hnode] at habsent
      exact hbetween.exists_removal hpresent habsent

def attendedPlanting : List Call :=
  .subscribe .postAdd ⟨"after", true⟩ :: .subscribe .preAdd ⟨"before", true⟩ :: planting

/-- The hook before hears of all of the plot, and the hook after not of the refused reply. -/
theorem run_chronicle_attendedPlanting :
    let inner := Faulty.store Memory.store
    let s := ({ inner := Faulty.fresh (Faulty.refusing [(.add, 2)]) .empty }, ())
    let log := (run inner attendedPlanting s).1.log
    Chronicle (Faulty.tier Memory.tier) (turns inner attendedPlanting s) log ∧
      heard .preAdd ⟨2⟩ log = plot.map (·.id) ∧
      heard .postAdd ⟨1⟩ log = (plot.take 2).map (·.id) := by
  refine ⟨run_chronicle _ Memory.indexed_empty () ?_ ?_ ?_, ?_⟩
  · simp [attendedPlanting, planting, Call.isUpdate]
  · rintro phase hook h
    obtain ⟨-, rfl⟩ | ⟨-, rfl⟩ : phase = .postAdd ∧ hook = ⟨"after", true⟩ ∨
        phase = .preAdd ∧ hook = ⟨"before", true⟩ := by
      simpa [attendedPlanting, planting] using h
    · rfl
    · rfl
  · decide
  · decide +kernel

end Chronicle

end Grove.Archive
