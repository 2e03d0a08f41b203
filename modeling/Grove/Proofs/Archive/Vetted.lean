import Grove.Proofs.Archive.Acceptance
import Grove.Proofs.Archive.Forest

/-! # Vetted memories

What deep validation accepted once it accepts ever after: nodes that come later change nothing about
those that a reference leads to. So as long as nodes come to an archive over a memory by validation
only, with one verifier, and none go, the memory holds nothing but what the verifier would still
accept. That needs no hook to return, and the archive may be closed on the way.
-/

namespace Grove

variable {ω : Type} {verify : Verifier} {n : Node} {m : Memory}

namespace Node

/-- All that a node refers to is there and of an allowed kind, its signature stands under the key of
the identity that it names, and its identifier is the digest of what is signed. -/
structure Supported (lookup : Hash → Option Node) (verify : Verifier) (n : Node) : Prop where
  signer : ∃ s name key, lookup n.expectedSigner = some s ∧ s.body = .identity name key ∧
    verify key n.signedBytes n.signature = true
  root : n.kind = .identity ∨ n.kind = .community → n.parent.isNull = true ∧ n.depth = 0
  parent : n.kind = .conversation ∨ n.kind = .reply → n.parent.isNull = false ∧
    ∃ p, lookup n.parent = some p ∧ p.kind ≠ .identity ∧ n.depth = p.depth + 1 ∧
      (n.kind = .conversation → p.kind = .community)
  place : ∀ place thread content, n.body = .reply place thread content →
    (∃ c, lookup place = some c ∧ c.kind = .community) ∧
      (thread.isNull = false → ∃ r, lookup thread = some r ∧ r.kind ∈ [.conversation, .reply])
  id : n.id = .ofFixed .sha512_256 (Sha512.digest256 n.signedBytes)

theorem DeepValid.supported (h : n.DeepValid m.get? verify) (hn : m.get? n.id = some n) :
    n.Supported m.get? verify := by
  obtain ⟨hf, hs, -⟩ := checkShallow_eq_ok_iff.1 h.shallow
  obtain ⟨-, -, -, hzero, -, -⟩ := checkFields_eq_ok_iff.1 hf
  have hroot := h.isNull_parent_iff
  refine ⟨?_, fun hk => ⟨hroot.2 hk, hzero (hroot.2 hk)⟩, fun hk => ?_, h.place,
    id_of_checkShallow h.shallow⟩
  · by_cases hk : n.kind = .identity
    · -- An identity signs itself, and is the one that is found.
      obtain ⟨name, key, hb⟩ := exists_body_of_identity hk
      have hown : n.identity?.or (n.signerIn m.get?) = some ⟨n.id, key⟩ := by
        rw [identity?_of_body hb, Option.some_or]
      obtain ⟨hid, hv⟩ := checkSignature_eq_ok_iff.1 (hs _ hown)
      exact ⟨n, name, key, hid ▸ hn, hb, hv⟩
    · obtain ⟨s, hget, hi⟩ := h.signer hk
      obtain ⟨name, key, hb⟩ := exists_body_of_identity hi
      have hfound : n.identity?.or (n.signerIn m.get?) = some ⟨s.id, key⟩ := by
        rw [identity?_eq_none hk, Option.none_or, signerIn, if_neg hk, hget, Option.bind_some,
          identity?_of_body hb]
      obtain ⟨-, hv⟩ := checkSignature_eq_ok_iff.1 (hs _ hfound)
      have hsigner : n.expectedSigner = n.signer := if_neg hk
      exact ⟨s, name, key, hsigner ▸ hget, hb, hv⟩
  · have hnull := h.isNull_parent_eq_false hk
    exact ⟨hnull, h.exists_parent hnull⟩

end Node

namespace Memory

/-- The verifier would accept every stored node, among those that are stored now. -/
structure Vetted (verify : Verifier) (m : Memory) : Prop extends Linked m where
  valid : ∀ n ∈ m.nodes, n.DeepValid m.get? verify

theorem vetted_empty (verify : Verifier) : empty.Vetted verify :=
  ⟨indexed_empty.toLinked, fun _ hn => absurd hn List.not_mem_nil⟩

theorem Vetted.insert (h : m.Vetted verify) (hid : m.get? n.id = none)
    (hn : n.DeepValid m.get? verify) : (m.insert n).Vetted verify := by
  refine ⟨h.toLinked.insert hid, fun k hk => ?_⟩
  have hle : ∀ id p, m.get? id = some p → (m.insert n).get? id = some p :=
    fun id p hp => get?_insert_of_get? hp n
  rcases List.mem_append.1 hk with hk | hk
  · exact (h.valid k hk).mono hle
  · rw [List.mem_singleton.1 hk]
    exact hn.mono hle

theorem Vetted.supported (h : m.Vetted verify) (hn : n ∈ m.nodes) :
    n.Supported m.get? verify :=
  (h.valid n hn).supported (h.get?_eq_some_iff.2 ⟨hn, rfl⟩)

end Memory

namespace Archive

variable {a : Archive Memory} {w : ω}

/-- The call adds with validation by this verifier, or has nothing to do with what is stored. -/
def Call.Vets (verify : Verifier) : Call → Prop
  | addValidated _ v => v = verify
  | addAs .. | removeSubtree _ => False
  | ask _ | subscribe .. | unsubscribe .. | destroy => True

theorem ensures_wants_memory (m : Memory) (w : ω) (c : Call) :
    (c.wants Memory.store).Ensures (· = (m, w)) fun wanted => ∀ k, wanted = some k →
      c.node? = some k ∧ m.get? k.id = none ∧
        ∀ verify, c = .addValidated k verify → k.DeepValid m.get? verify := by
  have hget : ∀ id, (Memory.store.get id).Gives (· = (m, w)) (· = (m, w)) (m.get? id) := by
    rintro id _ _ _ hrun rfl
    obtain ⟨rfl, rfl⟩ := Prod.mk.inj ((Memory.answers_get m w id).symm.trans hrun)
    exact ⟨rfl, rfl⟩
  have habsent : ∀ id, (Memory.store.get id).Ensures (· = (m, w)) fun found =>
      found = none → m.get? id = none :=
    fun id => (hget id).ensures.imp fun _ hfound hnone => hfound.symm.trans hnone
  exact ensures_wants habsent (fun n verify => Node.ensures_checkDeep hget) c

theorem Course.inner_cases {c : Call} {s : Archive Memory × ω} (h : Course Memory.store c a w s) :
    s.1.inner = a.inner ∨ ∃ k, c.node? = some k ∧ a.inner.get? k.id = none ∧
      (∀ verify, c = .addValidated k verify → k.DeepValid a.inner.get? verify) ∧
        s.1.inner = a.inner.insert k := by
  have hasks := ensures_wants_memory a.inner w c
  have hadds {x y : Memory} {w' w'' : ω} {k : Node} {r : Except StoreError Unit}
      (hasked : (c.wants Memory.store).run (a.inner, w) = (.ok (some k), x, w'))
      (hadd : (Memory.store.add k).run (x, w') = (r, y, w'')) :
      ∃ k, c.node? = some k ∧ a.inner.get? k.id = none ∧
        (∀ verify, c = .addValidated k verify → k.DeepValid a.inner.get? verify) ∧
          y = a.inner.insert k := by
    obtain ⟨hsame, hwanted⟩ := hasks hasked rfl
    obtain ⟨rfl, -⟩ := Prod.mk.inj hsame
    obtain ⟨hnode, hid, hv⟩ := hwanted _ rfl k rfl
    obtain ⟨-, hy⟩ := Prod.mk.inj (Memory.run_add.symm.trans hadd)
    refine ⟨k, hnode, hid, hv, ?_⟩
    rw [← (Prod.mk.inj hy).1, Memory.add_of_get? hid]
  have hstays {x : Memory} {w' : ω} {r : Except StoreError (Option Node)}
      (hasked : (c.wants Memory.store).run (a.inner, w) = (r, x, w')) : x = a.inner :=
    (Prod.mk.inj (hasks hasked rfl).1).1
  cases h with
  | declined hasked _ => exact .inl (hstays hasked)
  | barred hasked hstop => exact .inl (hstop.inner.trans (hstays hasked))
  | failed hasked hadd => exact .inr (hadds hasked hadd)
  | cut hasked hadd hstop =>
    rw [hstop.inner]
    exact .inr (hadds hasked hadd)
  | accepted hasked hadd => exact .inr (hadds hasked hadd)

theorem run_whileOpen_eq {σ α : Type} (x : Action (Archive σ × ω) α) (a : Archive σ) (w : ω) :
    (whileOpen x).run (a, w) = if a.isOpen then x.run (a, w) else (.error .closed, a, w) := by
  show (ite (a.isOpen = true) x _).run (a, w) = _
  split <;> rfl

theorem inner_whileOpen {α : Type} {x : Action (Archive Memory × ω) α}
    (hx : (x.run (a, w)).2.1.inner = a.inner) :
    (final (whileOpen x) (a, w)).1.inner = a.inner := by
  rw [final, run_whileOpen_eq]
  split
  · exact hx
  · rfl

/-- What a call with validation adds is absent before, and accepted among what is stored then. -/
theorem vetted_perform {c : Call} (hc : c.Vets verify) (h : a.inner.Vetted verify) :
    (c.perform Memory.store (a, w)).1.inner.Vetted verify := by
  cases c with
  | ask q =>
    rw [Call.perform, q.perform_eq]
    exact h
  | addValidated n v =>
    obtain rfl : v = verify := hc
    have hnode : (Call.addValidated n v).node? = some n := rfl
    cases hopen : a.isOpen with
    | false =>
      rw [Call.perform_of_closed hnode hopen]
      exact h
    | true =>
      rcases (Call.course hnode hopen).inner_cases with hsame | ⟨k, hk, hid, hv, hinsert⟩
      · rw [hsame]
        exact h
      · obtain rfl : n = k := Option.some.inj (hnode.symm.trans hk)
        rw [hinsert]
        exact h.insert hid (hv v rfl)
  | addAs | removeSubtree => exact hc.elim
  | subscribe phase hook =>
    have hinner : ((Call.subscribe phase hook).perform Memory.store (a, w)).1.inner = a.inner :=
      inner_whileOpen rfl
    rwa [hinner]
  | unsubscribe phase s =>
    have hinner : ((Call.unsubscribe phase s).perform Memory.store (a, w)).1.inner = a.inner :=
      inner_whileOpen rfl
    rwa [hinner]
  | destroy => exact h

theorem vetted_run {calls : List Call} (hcalls : ∀ c ∈ calls, c.Vets verify)
    (h : a.inner.Vetted verify) : (run Memory.store calls (a, w)).1.inner.Vetted verify := by
  induction calls generalizing a w with
  | nil => exact h
  | cons c calls ih =>
    obtain ⟨hc, hcalls⟩ := List.forall_mem_cons.1 hcalls
    exact ih hcalls (vetted_perform hc h)

/-- Where nodes come to an initially empty memory by validation only, with one verifier, and none
go, the verifier accepts every stored node at any time, among those that are stored then. Hooks need
not return, and the archive may be closed. -/
theorem run_vetted (hempty : a.inner = .empty) {calls : List Call}
    (hcalls : ∀ c ∈ calls, c.Vets verify) :
    let t := run Memory.store calls (a, w)
    ∀ n ∈ t.1.inner.nodes, t.1.inner.get? n.id = some n ∧
      (n.checkDeep Memory.store.get verify).run (t.1.inner, t.2) = (.ok (), t.1.inner, t.2) ∧
        n.Supported t.1.inner.get? verify := by
  intro t n hn
  have h : t.1.inner.Vetted verify :=
    vetted_run hcalls (hempty ▸ Memory.vetted_empty verify)
  refine ⟨h.get?_eq_some_iff.2 ⟨hn, rfl⟩, ?_, h.supported hn⟩
  have hcheck := Node.answers_checkDeep (Memory.answers_get t.1.inner t.2) n verify
  rw [Node.checkDeep_eq_ok_iff.2 (h.valid n hn)] at hcheck
  exact hcheck

/-- Adds the nodes of the plot in the wrong order and then in the right one. -/
def replanting : List Call :=
  (plot.reverse ++ plot).map fun n => .addValidated n fun _ _ _ => true

/-- The reply is refused first and accepted later, and what it needs is there. -/
theorem run_vetted_replanting :
    ∃ t, run Memory.store replanting ({ inner := .empty }, ()) = t ∧ t.1.inner.nodes = plot ∧
      ∀ n ∈ plot,
        (n.checkDeep Memory.store.get fun _ _ _ => true).run (t.1.inner, ()) =
          (.ok (), t.1.inner, ()) ∧
        n.Supported t.1.inner.get? fun _ _ _ => true := by
  have hnodes : (run Memory.store replanting ({ inner := .empty }, ())).1.inner.nodes = plot := by
    decide +kernel
  have hcalls : ∀ c ∈ replanting, c.Vets fun _ _ _ => true := List.forall_mem_map.2 fun _ _ => rfl
  have hall := run_vetted (a := { inner := .empty }) (w := ()) rfl hcalls
  generalize run Memory.store replanting ({ inner := .empty }, ()) = t at hnodes hall
  refine ⟨t, rfl, hnodes, fun n hn => (hall n ?_).2⟩
  rwa [hnodes]

end Archive

end Grove
