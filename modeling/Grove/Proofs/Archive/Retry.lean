import Grove.Proofs.Archive.Turn
import Grove.Proofs.Store.Cover

/-! # Additions that are half done

Over a cache an addition fails when the front refuses the node that the back has taken. From then on
the node is shown, although nobody was told that it came; and since it is present, no later addition
tells anybody either. Whoever adds it once it is shown only hears that all is well. When the front
takes the node too, everybody is told once, in that very turn.
-/

namespace Grove

open Grove.Action

variable {ω κ β : Type} {front : Store ω κ} {back : Store ω β} {F : Tier front} {B : Tier back}

namespace Cache

variable {s t : (κ × β) × ω} {id : Hash} {n : Node}

/-- Both tiers are in valid states, and all that is in front is behind too. -/
structure Covered (F : Tier front) (B : Tier back) (s : (κ × β) × ω) : Prop where
  sound : Sound F B s
  covers (k : Hash) : ¬Uncovered F B s k

theorem Covered.holds_back (h : Covered F B s) (hid : (F.contents s.1.1).Holds id) :
    (B.contents s.1.2).Holds id := by
  by_contra hnot
  exact h.covers id ⟨hid, hnot⟩

theorem back_of_promote {r : Except StoreError (Option Node)}
    (h : (promote front back id).run s = (r, t)) (hs : Sound F B s) :
    B.contents t.1.2 = B.contents s.1.2 ∧ (r = .ok none → ¬(B.contents s.1.2).Holds id) := by
  rcases of_run_bind h with ⟨e, hback, rfl⟩ | ⟨_ | n, u, hback, hrest⟩
  · obtain ⟨-, -, hb⟩ := of_back (B.get id) hback hs
    exact ⟨hb, nofun⟩
  · obtain ⟨-, -, hb, hn⟩ := of_back (B.get id) hback hs
    obtain ⟨rfl, rfl⟩ : .ok none = r ∧ u = t := Prod.mk.inj hrest
    exact ⟨hb, fun _ => Contents.not_holds_of_node? hn.symm⟩
  · obtain ⟨hu, -, hb, -⟩ := of_back (B.get id) hback hs
    rcases of_run_bind hrest with ⟨e, hadd, rfl⟩ | ⟨_, v, hadd, hrest⟩
    · obtain ⟨-, hb', -⟩ := of_front (F.add n) hadd hu
      exact ⟨hb'.trans hb, nofun⟩
    · obtain ⟨-, hb', -⟩ := of_front (F.add n) hadd hu
      obtain ⟨rfl, rfl⟩ : .ok (some n) = r ∧ v = t := Prod.mk.inj hrest
      exact ⟨hb'.trans hb, by simp⟩

theorem back_of_get {r : Except StoreError (Option Node)} (h : (get front back id).run s = (r, t))
    (hs : Sound F B s) :
    B.contents t.1.2 = B.contents s.1.2 ∧ (r = .ok none → ¬(B.contents s.1.2).Holds id) := by
  rw [get_eq] at h
  rcases of_run_bind h with ⟨e, hfront, rfl⟩ | ⟨_ | n, u, hfront, hrest⟩
  · obtain ⟨-, hb, -⟩ := of_front (F.get id) hfront hs
    exact ⟨hb, nofun⟩
  · obtain ⟨hu, hb, -⟩ := of_front (F.get id) hfront hs
    rw [← hb]
    exact back_of_promote hrest hu
  · obtain ⟨-, hb, -⟩ := of_front (F.get id) hfront hs
    obtain ⟨rfl, rfl⟩ : .ok (some n) = r ∧ u = t := Prod.mk.inj hrest
    exact ⟨hb, by simp⟩

def Backed (F : Tier front) (B : Tier back) (held : Contents) (s : (κ × β) × ω) : Prop :=
  Covered F B s ∧ B.contents s.1.2 = held

theorem ensures_get (held : Contents) (id : Hash) :
    (get front back id).Ensures (Backed F B held) fun found => found = none → ¬held.Holds id := by
  rintro s r t hrun ⟨hs, rfl⟩
  obtain ⟨ht, hcover, -⟩ := of_get hrun hs.sound
  obtain ⟨hb, hnone⟩ := back_of_get hrun hs.sound
  refine ⟨⟨⟨ht, fun k hk => hs.covers k (hcover k hk)⟩, hb⟩, ?_⟩
  rintro found rfl rfl
  exact hnone rfl

/-- How an addition to a cache can end: the back refuses it, or takes it and the front refuses it,
or both take it. -/
theorem Covered.of_add {r : Except StoreError Unit} (h : Covered F B s)
    (hrun : (add front back n).run s = (r, t)) : Covered F B t ∧
      ((B.contents t.1.2 = B.contents s.1.2 ∧ ∃ e, r = .error e) ∨
        (∀ k, (B.contents t.1.2).Holds k ↔ (B.contents s.1.2).Holds k ∨ n.id = k) ∧
          (r = .ok () ∨ F.contents t.1.1 = F.contents s.1.1 ∧ ∃ e, r = .error e)) := by
  obtain ⟨ht, hcover⟩ := Cache.of_add hrun h.sound
  refine ⟨⟨ht, fun k hk => h.covers k (hcover k hk)⟩, ?_⟩
  rcases of_run_bind hrun with ⟨e, hback, rfl⟩ | ⟨_, u, hback, hfront⟩
  · obtain ⟨-, -, hb⟩ := of_back (B.add n) hback h.sound
    exact .inl ⟨hb, e, rfl⟩
  · obtain ⟨hu, hf, hb⟩ := of_back (B.add n) hback h.sound
    obtain ⟨-, hb', hf'⟩ := of_front (F.add n) hfront hu
    refine .inr ⟨fun k => by rw [hb', hb k], ?_⟩
    cases r with
    | error e => exact .inr ⟨Eq.trans hf' hf, e, rfl⟩
    | ok => exact .inl rfl

theorem Covered.holds_of_shows (h : Covered F B s) (hlists : B.Lists)
    (hshows : (store front back).Shows s id) : (B.contents s.1.2).Holds id := by
  rcases hshows with ⟨n, hget⟩ | ⟨p, l, hrun, hid⟩ | ⟨kind, count, l, hrun, n, hn, rfl⟩
  · obtain ⟨-, -, hone⟩ := of_get (Prod.ext hget rfl) h.sound
    exact (hone n rfl).elim h.holds_back fun hid => hid
  · obtain ⟨hrun, -⟩ := of_run_back (Prod.ext hrun rfl)
    obtain ⟨-, -, rfl⟩ := B.children p hrun h.sound.2
    exact hlists.children h.sound.2 hid
  · obtain ⟨hrun, -⟩ := of_run_back (Prod.ext hrun rfl)
    obtain ⟨-, -, hl⟩ := hlists.recent kind count hrun h.sound.2
    exact hl n hn

end Cache

namespace Archive

open Cache

variable {a : Archive (κ × β)} {w : ω} {c : Call} {n : Node} {u : Archive (κ × β) × ω}
  {t : Turn ω (κ × β)} {id : Hash}

/-- What a turn that adds does over a covered cache. -/
structure Turn.Tiered (F : Tier front) (B : Tier back) (t : Turn ω (κ × β)) : Prop where
  ordered : t.before.1.hooks.Ordered
  after : Covered F B (t.after.1.inner, t.after.2)
  log : t.after.1.log = t.before.1.log ++ t.events
  grows (id : Hash) : (B.contents t.before.1.inner.2).Holds id →
    (B.contents t.after.1.inner.2).Holds id
  /-- Hooks after are told only of what has come in this turn. -/
  fresh : ∀ e ∈ t.events, e.phase = .postAdd → ¬(B.contents t.before.1.inner.2).Holds e.node ∧
    (B.contents t.after.1.inner.2).Holds e.node
  /-- What comes is the node of the call, and either both tiers have taken it and all are told, or
  the front has refused it and no hook after is, or a hook has closed the archive. -/
  comes (id : Hash) : ¬(B.contents t.before.1.inner.2).Holds id →
    (B.contents t.after.1.inner.2).Holds id → t.node = some id ∧
      (t.attempt (Cache.store front back) = some (.ok ()) ∧
          t.events = t.told .preAdd ++ t.told .postAdd ∨
        (∃ e, t.attempt (Cache.store front back) = some (.error e)) ∧
          ¬(F.contents t.after.1.inner.1).Holds id ∧ t.events = t.told .preAdd ∨
        t.after.1.isOpen = false)

theorem events_eq {es : List Notification} (h : t.after.1.log = t.before.1.log ++ es) :
    t.events = es := by
  rw [Turn.events, h, List.drop_left]

theorem tiered_of_same (ordered : t.before.1.hooks.Ordered)
    (after : Covered F B (t.after.1.inner, t.after.2))
    (same : B.contents t.after.1.inner.2 = B.contents t.before.1.inner.2)
    {es : List Notification} (log : t.after.1.log = t.before.1.log ++ es)
    (silent : ∀ e ∈ es, e.phase = .preAdd) : t.Tiered F B where
  ordered := ordered
  after := after
  log := by rw [events_eq log, log]
  grows id hid := by rwa [same]
  fresh e he hphase := by
    rw [events_eq log] at he
    simp [silent e he] at hphase
  comes id hbefore hafter := by
    rw [same] at hafter
    exact absurd hafter hbefore

theorem tiered_of_taken (ordered : t.before.1.hooks.Ordered)
    (after : Covered F B (t.after.1.inner, t.after.2)) (hnode : t.call.node? = some n)
    (absent : ¬(B.contents t.before.1.inner.2).Holds n.id)
    (taken : ∀ k, (B.contents t.after.1.inner.2).Holds k ↔
      (B.contents t.before.1.inner.2).Holds k ∨ n.id = k)
    {es : List Notification} (log : t.after.1.log = t.before.1.log ++ es)
    (told : ∀ e ∈ es, e.node = n.id)
    (outcome : t.attempt (Cache.store front back) = some (.ok ()) ∧
          es = t.told .preAdd ++ t.told .postAdd ∨
        (∃ e, t.attempt (Cache.store front back) = some (.error e)) ∧
          ¬(F.contents t.after.1.inner.1).Holds n.id ∧ es = t.told .preAdd ∨
        t.after.1.isOpen = false) : t.Tiered F B where
  ordered := ordered
  after := after
  log := by rw [events_eq log, log]
  grows id hid := (taken id).2 (.inl hid)
  fresh e he hphase := by
    rw [events_eq log] at he
    rw [told e he]
    exact ⟨absent, (taken n.id).2 (.inr rfl)⟩
  comes id hbefore hafter := by
    obtain rfl := ((taken id).1 hafter).resolve_left hbefore
    rw [events_eq log]
    exact ⟨by simp [Turn.node, hnode], outcome⟩

theorem ensures_wants_backed (held : Contents) (c : Call) :
    (c.wants (Cache.store front back)).Ensures (Backed F B held) fun wanted =>
      ∀ n, wanted = some n → c.node? = some n ∧ ¬held.Holds n.id := by
  have hget := Cache.ensures_get (F := F) (B := B) held
  have hlook (id : Hash) : Ensures (Backed F B held) ((Cache.store front back).get id)
    fun _ => True := (hget id).imp fun _ _ => trivial
  have hcheck : ∀ n verify, Ensures (Backed F B held)
      (Node.checkDeep (Cache.store front back).get n verify) fun _ => True :=
    fun n verify => Node.stays_checkDeep hlook n verify
  refine (ensures_wants hget hcheck c).imp fun wanted hwanted n hn => ?_
  exact ⟨(hwanted n hn).1, (hwanted n hn).2.1⟩

theorem tiered_of_course (h : Covered F B (a.inner, w)) (ho : a.hooks.Ordered)
    (hcourse : Course (Cache.store front back) c a w u) :
    Turn.Tiered F B ⟨c, (a, w), u⟩ ∧ u.1.hooks = a.hooks := by
  have hback : Backed F B (B.contents a.inner.2) (a.inner, w) := ⟨h, rfl⟩
  have hwants := ensures_wants_backed (F := F) (B := B) (B.contents a.inner.2) c
  cases hcourse with
  | declined asked unwanted =>
    obtain ⟨⟨hx, hb⟩, -⟩ := hwants asked hback
    exact ⟨tiered_of_same ho hx hb (List.append_nil _).symm (by simp), rfl⟩
  | barred asked stopped =>
    obtain ⟨⟨hx, hb⟩, -⟩ := hwants asked hback
    obtain ⟨-, hinner, hhooks, ⟨heard, hpre, hlog⟩, -⟩ := stopped
    refine ⟨tiered_of_same ho (by rwa [hinner]) (by rwa [hinner]) hlog fun e he => ?_, hhooks⟩
    exact (of_mem_told (hpre.subset he)).1
  | failed asked refused =>
    obtain ⟨⟨hx, hb⟩, hn⟩ := hwants asked hback
    obtain ⟨hnode, habsent⟩ := hn _ rfl _ rfl
    obtain ⟨hy, ⟨hsame, -⟩ | ⟨htaken, hok | ⟨hfront, -⟩⟩⟩ := hx.of_add refused
    · exact ⟨tiered_of_same ho hy (hsame.trans hb) rfl fun e he => (of_mem_told he).1, rfl⟩
    · exact absurd hok (by simp)
    · -- The back has the node now; the front, which holds only what was behind, has not.
      simp only [hb] at htaken
      refine ⟨tiered_of_taken ho hy hnode habsent htaken rfl (fun e he => (of_mem_told he).2) ?_,
        rfl⟩
      refine .inr (.inl ⟨⟨_, attempt_of_wanted asked refused⟩, fun hid => habsent ?_, ?_⟩)
      · rw [← hb]
        exact hx.holds_back (hfront ▸ hid)
      · exact (told_of_node (t := ⟨c, (a, w), _⟩) hnode .preAdd).symm
  | cut asked added stopped =>
    obtain ⟨⟨hx, hb⟩, hn⟩ := hwants asked hback
    obtain ⟨hnode, habsent⟩ := hn _ rfl _ rfl
    obtain ⟨hy, ⟨-, _, hfailed⟩ | ⟨htaken, -⟩⟩ := hx.of_add added
    · exact absurd hfailed (by simp)
    obtain ⟨hclosed, hinner, hhooks, ⟨heard, hpre, hlog⟩, -⟩ := stopped
    simp only [hb] at htaken
    refine ⟨tiered_of_taken ho (by rwa [hinner]) hnode habsent (by simpa only [hinner] using htaken)
      (hlog.trans (List.append_assoc ..)) (fun e he => ?_) (.inr (.inr hclosed)), hhooks⟩
    rcases List.mem_append.1 he with he | he
    · exact (of_mem_told he).2
    · exact (of_mem_told (hpre.subset he)).2
  | accepted asked added =>
    obtain ⟨⟨hx, hb⟩, hn⟩ := hwants asked hback
    obtain ⟨hnode, habsent⟩ := hn _ rfl _ rfl
    obtain ⟨hy, ⟨-, _, hfailed⟩ | ⟨htaken, -⟩⟩ := hx.of_add added
    · exact absurd hfailed (by simp)
    simp only [hb] at htaken
    refine ⟨tiered_of_taken ho hy hnode habsent htaken (List.append_assoc ..) (fun e he => ?_)
      (.inl ⟨attempt_of_wanted asked added, ?_⟩), rfl⟩
    · rcases List.mem_append.1 he with he | he
      · exact (of_mem_told he).2
      · exact (of_mem_told he).2
    · rw [told_of_node hnode, told_of_node hnode]
      rfl

theorem chain_tiered (h : Covered F B (a.inner, w)) (ho : a.hooks.Ordered) {calls : List Call}
    (hcalls : ∀ c ∈ calls, c.node?.isSome = true) :
    Chain (Turn.Tiered F B) (a, w) (turns (Cache.store front back) calls (a, w))
      (run (Cache.store front back) calls (a, w)) := by
  refine chain_of_step (P := fun s => Covered F B (s.1.inner, s.2) ∧ s.1.hooks.Ordered) ⟨h, ho⟩ ?_
  rintro c hc ⟨a, w⟩ ⟨h, ho⟩
  obtain ⟨n, hn⟩ := Option.isSome_iff_exists.1 (hcalls c hc)
  cases hopen : a.isOpen with
  | true =>
    obtain ⟨hturn, hhooks⟩ := tiered_of_course h ho (Call.course (w := w) hn hopen)
    refine ⟨hturn, hturn.after, ?_⟩
    rwa [hhooks]
  | false =>
    rw [Call.perform_of_closed hn hopen]
    exact ⟨tiered_of_same ho h rfl (List.append_nil _).symm (by simp), h, ho⟩

namespace Chain

variable {s s' : Archive (κ × β) × ω} {ts : List (Turn ω (κ × β))} {sub : Subscription}

theorem grows (h : Chain (Turn.Tiered F B) s ts s') (hid : (B.contents s.1.inner.2).Holds id) :
    (B.contents s'.1.inner.2).Holds id :=
  h.induction (P := fun s => (B.contents s.1.inner.2).Holds id) hid fun _ _ ht => ht.grows id

theorem not_heard_of_absent (h : Chain (Turn.Tiered F B) s ts s')
    (hid : ¬(B.contents s'.1.inner.2).Holds id) :
    id ∉ heard .postAdd sub (ts.flatMap Turn.events) := by
  induction h with
  | nil => simp [heard]
  | cons turn rest ih =>
    rw [List.flatMap_cons, heard_append, List.mem_append, not_or]
    refine ⟨fun hmem => hid (rest.grows ?_), ih hid⟩
    obtain ⟨e, he, hphase, -, rfl⟩ := mem_heard.1 hmem
    exact (turn.fresh e he hphase).2

theorem not_heard_of_present (h : Chain (Turn.Tiered F B) s ts s')
    (hid : (B.contents s.1.inner.2).Holds id) :
    id ∉ heard .postAdd sub (ts.flatMap Turn.events) := by
  induction h with
  | nil => simp [heard]
  | cons turn rest ih =>
    rw [List.flatMap_cons, heard_append, List.mem_append, not_or]
    refine ⟨fun hmem => ?_, ih (turn.grows id hid)⟩
    obtain ⟨e, he, hphase, -, rfl⟩ := mem_heard.1 hmem
    exact (turn.fresh e he hphase).1 hid

end Chain

/-- In a run of additions over a cache, whatever its tiers refuse, a node that a turn makes visible
is the node of its call. If the wrapped store took it, each subscriber after that is not excluded
hears of it once in the whole run. If the front refused it when the back had it, nobody hears of it
however often it is added again. A hook that does not return leaves a closed archive. -/
theorem told_of_shown {x : κ} {y : β} {w : ω} (hx : F.Valid x) (hy : B.Valid y) (hB : B.Lists)
    {s : (κ × β) × ω} (hopen : (opening front back).run ((x, y), w) = (.ok (), s))
    {hooks : Hooks} (ho : hooks.Ordered) {calls : List Call}
    (hcalls : ∀ c ∈ calls, c.node?.isSome = true) {done rest : List (Turn ω (κ × β))}
    (hturns : turns (Cache.store front back) calls ({ inner := s.1, hooks }, s.2) =
      done ++ t :: rest) (habsent : ¬(B.contents t.before.1.inner.2).Holds id)
    (hshown : (Cache.store front back).Shows (t.after.1.inner, t.after.2) id) :
    let log := (run (Cache.store front back) calls ({ inner := s.1, hooks }, s.2)).1.log
    t.node = some id ∧
      (t.attempt (Cache.store front back) = some (.ok ()) ∧
          (∀ sub, (heard .postAdd sub log).count id =
            if sub ∈ t.audience .postAdd then 1 else 0) ∨
        (∃ e, t.attempt (Cache.store front back) = some (.error e)) ∧
          (B.contents t.after.1.inner.2).Holds id ∧ ¬(F.contents t.after.1.inner.1).Holds id ∧
          (∀ sub, id ∉ heard .postAdd sub log) ∨
        t.after.1.isOpen = false) := by
  intro log
  obtain ⟨hsound, hcover⟩ := of_opening (F := F) (B := B) hopen ⟨hx, hy⟩
  have hchain := chain_tiered (a := { inner := s.1, hooks }) (w := s.2) ⟨hsound, hcover⟩ ho hcalls
  have hlog : log = [] ++ _ := hchain.log_eq fun t ht => ht.log
  rw [hturns] at hchain hlog
  obtain ⟨m, hdone, hrest⟩ := hchain.split
  have hm := hrest.before_eq
  cases hrest with
  | cons ht hrest =>
    have hpresent := ht.after.holds_of_shows hB hshown
    -- The node is not behind before this turn, and is from then on, so no other turn tells of it.
    have hheard (sub : Subscription) :
        (heard .postAdd sub log).count id = (heard .postAdd sub t.events).count id := by
      rw [hlog, List.nil_append, List.flatMap_append, List.flatMap_cons, heard_append,
        heard_append, List.count_append, List.count_append,
        List.count_eq_zero.2 (hdone.not_heard_of_absent habsent),
        List.count_eq_zero.2 (hrest.not_heard_of_present hpresent), Nat.zero_add, Nat.add_zero]
    obtain ⟨hnode, hcomes⟩ := ht.comes id habsent hpresent
    refine ⟨hnode, hcomes.imp ?_ (Or.imp_left ?_)⟩
    · rintro ⟨hok, hevents⟩
      refine ⟨hok, fun sub => ?_⟩
      rw [hheard, hevents, heard_append, heard_told ht.ordered, heard_told ht.ordered, hnode]
      by_cases hsub : sub ∈ t.audience .postAdd <;> simp [hsub]
    · rintro ⟨hfailed, hfront, hevents⟩
      refine ⟨hfailed, hpresent, hfront, fun sub => List.count_eq_zero.1 ?_⟩
      rw [hheard, hevents, heard_told ht.ordered]
      simp

/-- A cache over two empty memories, the front of which refuses additions as the plan says. -/
def leaky (refuses : Method → Nat → Bool) : (Faulty Memory × Memory) × Unit :=
  ((Faulty.fresh refuses .empty, .empty), ())

/-- An archive over it, opened, with one hook after. -/
def overheard (refuses : Method → Nat → Bool) : Archive (Faulty Memory × Memory) × Unit :=
  let s := final (opening (Faulty.store Memory.store) Memory.store) (leaky refuses)
  ({ inner := s.1, hooks := (Hooks.subscribe {} .postAdd ⟨"ear", true⟩).2 }, s.2)

/-- The front takes the community and refuses the reply: the first is heard of once, and nobody
hears of the reply that is shown. -/
theorem told_of_shown_planting :
    let inner := Cache.store (Faulty.store Memory.store) Memory.store
    let s := overheard (Faulty.refusing [(.add, 2)])
    ∃ author place reply, turns inner planting s = [author, place, reply] ∧
      (∃ id ∈ place.node, (heard .postAdd ⟨1⟩ (run inner planting s).1.log).count id = 1) ∧
      ∃ id ∈ reply.node, inner.Shows (reply.after.1.inner, reply.after.2) id ∧
        ∀ sub, id ∉ heard .postAdd sub (run inner planting s).1.log := by
  intro inner s
  have hfacts : ∃ author place reply, turns inner planting s = [author, place, reply] ∧
      (∃ n ∈ plot, place.node = some n.id ∧
        ¬(Memory.contents place.before.1.inner.2).Holds n.id ∧
        ((inner.recent .community 1).run (place.after.1.inner, place.after.2)).1 = .ok [n] ∧
        place.after.1.isOpen = true ∧ place.attempt inner = some (.ok ()) ∧
        ⟨1⟩ ∈ place.audience .postAdd) ∧
      ∃ n ∈ plot, reply.node = some n.id ∧
        ¬(Memory.contents reply.before.1.inner.2).Holds n.id ∧
        ((inner.recent .reply 1).run (reply.after.1.inner, reply.after.2)).1 = .ok [n] ∧
        reply.after.1.isOpen = true ∧ reply.attempt inner ≠ some (.ok ()) := by
    refine ⟨_, _, _, rfl, ?_, ?_⟩
    · decide +kernel
    · decide +kernel
  obtain ⟨author, place, reply, hturns, ⟨n, -, hn, hn', hplace, hopen, hok, hear⟩,
    m, -, hm, hm', hreply, hopen', hfailed⟩ := hfacts
  let F : Tier (Faulty.store (Memory.store : Store Unit Memory)) := Faulty.tier Memory.tier
  have hempty : F.Valid (leaky (Faulty.refusing [(.add, 2)])).1.1 := Memory.indexed_empty
  have hears : (Hooks.subscribe {} .postAdd ⟨"ear", true⟩).2.Ordered :=
    Hooks.ordered_empty.subscribe (by decide) _ _
  have hcalls : ∀ c ∈ planting, c.node?.isSome = true := List.forall_mem_map.2 fun _ _ => rfl
  have hsecond : turns inner planting s = [author] ++ place :: [reply] := hturns
  have hthird : turns inner planting s = [author, place] ++ reply :: [] := hturns
  have hshown : inner.Shows (place.after.1.inner, place.after.2) n.id :=
    .inr (.inr ⟨_, _, _, hplace, n, List.mem_singleton_self n, rfl⟩)
  have hshown' : inner.Shows (reply.after.1.inner, reply.after.2) m.id :=
    .inr (.inr ⟨_, _, _, hreply, m, List.mem_singleton_self m, rfl⟩)
  obtain ⟨u, hu⟩ : ∃ u, (opening (Faulty.store Memory.store) Memory.store).run
      (leaky (Faulty.refusing [(.add, 2)])) = (.ok (), u) := ⟨_, rfl⟩
  have hs : s =
      ({ inner := u.1, hooks := (Hooks.subscribe {} .postAdd ⟨"ear", true⟩).2 }, u.2) := by
    show overheard _ = _
    rw [overheard, final, hu]
  rw [hs] at hsecond hthird
  have hsecond := told_of_shown hempty Memory.indexed_empty Memory.lists hu hears hcalls
    hsecond hn' hshown
  have hthird := told_of_shown hempty Memory.indexed_empty Memory.lists hu hears hcalls
    hthird hm' hshown'
  refine ⟨author, place, reply, hturns, ⟨n.id, hn, ?_⟩, m.id, hm, hshown', ?_⟩ <;> rw [hs]
  · obtain ⟨-, ⟨-, hcount⟩ | ⟨⟨e, he⟩, -⟩ | hclosed⟩ := hsecond
    · exact (hcount ⟨1⟩).trans (if_pos hear)
    · exact absurd (hok.symm.trans he) (by simp)
    · exact absurd (hopen.symm.trans hclosed) (by simp)
  · obtain ⟨-, ⟨hok, -⟩ | ⟨-, -, -, hnobody⟩ | hclosed⟩ := hthird
    · exact absurd hok hfailed
    · exact hnobody
    · exact absurd (hopen'.symm.trans hclosed) (by simp)

/-- The front refuses the author once. The author is shown all the same, adding again succeeds, and
still the hook that was there all the time has heard nothing. -/
theorem unheard_of_refused_addition :
    let inner := Cache.store (Faulty.store Memory.store) Memory.store
    let s := overheard fun m calls => m = .add && calls = 0
    ∃ n ∈ plot, ((inner.get n.id).run (s.1.inner, s.2)).1 = .ok none ∧
      ∃ t, t = (addAs inner n .none).run s ∧ t.1 = .error (.io "add" "faulty" (some "injected")) ∧
        ((inner.recent .identity 1).run (t.2.1.inner, t.2.2)).1 = .ok [n] ∧
        ∃ u, u = (addAs inner n .none).run t.2 ∧ u.1 = .ok () ∧ u.2.1.isOpen = true ∧
          u.2.1.hooks.postAdd = [(⟨1⟩, ⟨"ear", true⟩)] ∧ u.2.1.log = [] := by
  simp only [exists_eq_left]
  decide +kernel

end Archive

end Grove
