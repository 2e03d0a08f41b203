import Grove.Proofs.Store.Consistent
import Mathlib.Data.List.TakeWhile

/-! # Removals that are cut short

The nodes below a node are removed one after another, the other way round from how a search finds
them, up to one that is locked. In a search the children of a node come behind it, so wherever the
removal stops, all that hangs below a removed node is removed as well, and what stays below the node
can still be reached from it.
-/

namespace Grove

section Stop

variable {locked : Hash → Prop} [DecidablePred locked] {c : Hash} {ids : List Hash}

/-- How it ends if one after another is removed: it fails at the first one that is locked. -/
def outcome (locked : Hash → Prop) [DecidablePred locked] (ids : List Hash) :
    Except StoreError Unit :=
  match ids.find? locked with
  | none => .ok ()
  | some c => .error (.io "remove" c.text none)

def freed (locked : Hash → Prop) [DecidablePred locked] (ids : List Hash) : List Hash :=
  ids.takeWhile (¬locked ·)

theorem outcome_cons_of_locked (h : locked c) :
    outcome locked (c :: ids) = .error (.io "remove" c.text none) := by
  rw [outcome, List.find?_cons_of_pos (by simpa using h)]

theorem outcome_cons_of_free (h : ¬locked c) : outcome locked (c :: ids) = outcome locked ids := by
  rw [outcome, List.find?_cons_of_neg (by simpa using h), outcome]

theorem freed_cons_of_locked (h : locked c) : freed locked (c :: ids) = [] :=
  List.takeWhile_cons_of_neg (by simpa using h)

theorem freed_cons_of_free (h : ¬locked c) : freed locked (c :: ids) = c :: freed locked ids :=
  List.takeWhile_cons_of_pos (by simpa using h)

theorem free_of_mem_freed (h : c ∈ freed locked ids) : ¬locked c := by
  have hfree := List.mem_takeWhile_imp h
  exact of_decide_eq_true hfree

theorem freed_cases (locked : Hash → Prop) [DecidablePred locked] (ids : List Hash) :
    outcome locked ids = .ok () ∧ freed locked ids = ids ∨
      ∃ c rest, outcome locked ids = .error (.io "remove" c.text none) ∧ locked c ∧
        freed locked ids ++ c :: rest = ids := by
  induction ids with
  | nil => exact .inl ⟨rfl, rfl⟩
  | cons c ids ih =>
    by_cases hlocked : locked c
    · rw [outcome_cons_of_locked hlocked, freed_cons_of_locked hlocked]
      exact .inr ⟨c, ids, rfl, hlocked, rfl⟩
    · rw [outcome_cons_of_free hlocked, freed_cons_of_free hlocked]
      rcases ih with ⟨hr, hall⟩ | ⟨b, rest, hr, hb, hsplit⟩
      · exact .inl ⟨hr, congrArg _ hall⟩
      · exact .inr ⟨b, rest, hr, hb, congrArg (c :: ·) hsplit⟩

end Stop

/-- What a removal below a node takes away when it ends like this: with each node all that hangs
below it. It comes to its end with the node itself, or stops at a locked one that has nothing left
below it. -/
structure Cut (m : Memory) (id : Hash) (locked : Hash → Prop) (gone : List Hash)
    (r : Except StoreError Unit) : Prop where
  below : ∀ c ∈ gone, Relation.ReflTransGen (Hangs m.nodes) id c
  closed : ∀ p ∈ gone, ∀ c, Hangs m.nodes p c → c ∈ gone
  free : ∀ c ∈ gone, ¬locked c
  ended : r = .ok () ∧ id ∈ gone ∨ ∃ c, r = .error (.io "remove" c.text none) ∧ locked c ∧
    Relation.ReflTransGen (Hangs m.nodes) id c ∧ ∀ b, Hangs m.nodes c b → b ∈ gone

namespace Cut

variable {m : Memory} {id c p : Hash} {locked : Hash → Prop} {gone : List Hash}
  {r : Except StoreError Unit}

/-- A search the other way round, up to where it is locked. In what order the children of one node
come makes no difference. -/
theorem of_rows [DecidablePred locked] (hm : m.Indexed) (ha : Acyclic m.nodes)
    {kids : Hash → List Hash} (hkids : ∀ p, (kids p).Perm (m.children p)) {bound : Nat}
    {ids : List Hash} (hids : rows kids bound [id] = some ids) :
    Cut m id locked (freed locked ids.reverse) (outcome locked ids.reverse) := by
  have hlink (p c : Hash) : Hangs m.nodes p c ↔ c ∈ kids p := by
    rw [← hm.below_eq, (hkids p).mem_iff]
  have hbelow (c : Hash) : c ∈ ids ↔ Relation.ReflTransGen (Hangs m.nodes) id c := by
    rw [mem_rows_iff hids]
    simp only [← hlink]
  -- A front part of the removal is a back part of the search.
  have hclosed {done : List Hash} (hdone : done <+: ids.reverse) :
      ∀ p ∈ done, ∀ c, Hangs m.nodes p c → c ∈ done := by
    intro p hp c hc
    have hsuffix : done.reverse <:+ ids := by
      have hreversed := List.reverse_suffix.2 hdone
      rwa [List.reverse_reverse] at hreversed
    have hkids := (rows_suffix hids).2 _ hsuffix p (List.mem_reverse.2 hp)
    exact List.mem_reverse.1 (hkids ((hlink p c).1 hc))
  have hfront : freed locked ids.reverse <+: ids.reverse := List.takeWhile_prefix _
  refine ⟨fun c hc => ?_, hclosed hfront, fun c => free_of_mem_freed, ?_⟩
  · exact (hbelow c).1 (List.mem_reverse.1 (hfront.subset hc))
  · rcases freed_cases locked ids.reverse with ⟨hr, hall⟩ | ⟨c, rest, hr, hlocked, hsplit⟩
    · refine .inl ⟨hr, ?_⟩
      rw [hall, List.mem_reverse, hbelow]
    · refine .inr ⟨c, hr, hlocked, ?_, fun b hb => ?_⟩
      · have hc : c ∈ ids.reverse := hsplit ▸ List.mem_append_right _ List.mem_cons_self
        exact (hbelow c).1 (List.mem_reverse.1 hc)
      · have hnext : freed locked ids.reverse ++ [c] <+: ids.reverse :=
          ⟨rest, by rw [List.append_assoc, List.singleton_append, hsplit]⟩
        have hmem := hclosed hnext c (List.mem_append_right _ List.mem_cons_self) b hb
        refine (List.mem_append.1 hmem).resolve_right fun hself => ?_
        rw [List.mem_singleton.1 hself] at hb
        exact ha c (.single hb)

theorem mem_of_below (h : Cut m id locked gone r) (hp : p ∈ gone)
    (hc : Relation.ReflTransGen (Hangs m.nodes) p c) : c ∈ gone := by
  induction hc with
  | refl => exact hp
  | tail _ hc ih => exact h.closed _ ih _ hc

theorem mem_iff_of_ok (h : Cut m id locked gone (.ok ())) :
    c ∈ gone ↔ Relation.ReflTransGen (Hangs m.nodes) id c := by
  rcases h.ended with ⟨-, hid⟩ | ⟨c, hr, -⟩
  · exact ⟨h.below c, h.mem_of_below hid⟩
  · exact absurd hr nofun

theorem ok_iff (h : Cut m id locked gone r) :
    r = .ok () ↔ ∀ c, Relation.ReflTransGen (Hangs m.nodes) id c → ¬locked c := by
  rcases h.ended with ⟨rfl, hid⟩ | ⟨c, rfl, hlocked, hc, -⟩
  · exact iff_of_true rfl fun c hc => h.free c (h.mem_of_below hid hc)
  · exact iff_of_false nofun fun hall => hall c hc hlocked

theorem mem_iff_ok (h : Cut m id locked gone r) : id ∈ gone ↔ r = .ok () := by
  rcases h.ended with ⟨rfl, hid⟩ | ⟨c, rfl, hlocked, hc, -⟩
  · exact iff_of_true hid rfl
  · exact iff_of_false (fun hid => h.free c (h.mem_of_below hid hc) hlocked) nofun

theorem hangs_of_without (h : Hangs (m.without gone).nodes p c) : Hangs m.nodes p c := by
  obtain ⟨hp, k, hk, hrest⟩ := h
  exact ⟨hp, k, List.mem_of_mem_filter hk, hrest⟩

theorem below_without (h : Cut m id locked gone r)
    (hc : Relation.ReflTransGen (Hangs m.nodes) id c) (hstays : c ∉ gone) :
    Relation.ReflTransGen (Hangs (m.without gone).nodes) id c := by
  induction hc with
  | refl => exact .refl
  | @tail b c _ hbc ih =>
    refine (ih fun hb => hstays (h.closed b hb c hbc)).tail ?_
    obtain ⟨hb, k, hk, hkb, rfl⟩ := hbc
    exact ⟨hb, k, List.mem_filter.2 ⟨hk, decide_eq_true hstays⟩, hkb, rfl⟩

/-- A second removal that comes to its end takes away what the first one left. -/
theorem mem_or_mem_iff {locked' : Hash → Prop} {rest : List Hash} (h : Cut m id locked gone r)
    (h' : Cut (m.without gone) id locked' rest (.ok ())) :
    c ∈ gone ∨ c ∈ rest ↔ Relation.ReflTransGen (Hangs m.nodes) id c := by
  rw [h'.mem_iff_of_ok]
  constructor
  · rintro (hc | hc)
    · exact h.below c hc
    · exact Relation.ReflTransGen.mono (fun _ _ => hangs_of_without) _ _ hc
  · intro hc
    by_cases hgone : c ∈ gone
    · exact .inl hgone
    · exact .inr (h.below_without hc hgone)

theorem exists_bereft (h : Cut m id locked gone r) (hr : r ≠ .ok ()) (hc : c ∈ gone) :
    ∃ p b, Hangs m.nodes p b ∧ p ∉ gone ∧ b ∈ gone := by
  induction h.below c hc with
  | refl => exact absurd (h.mem_iff_ok.1 hc) hr
  | @tail p b _ hb ih =>
    by_cases hp : p ∈ gone
    · exact ih hp
    · exact ⟨p, b, hb, hp, hc⟩

theorem mem_iff_of_hangs (h : Cut m id locked gone (.ok ())) (hm : m.Linked)
    (hc : Hangs m.nodes p c) : c ∈ gone ↔ p ∈ gone ∨ c = id := by
  constructor
  · intro hgone
    rcases (h.below c hgone).cases_tail with rfl | ⟨b, hb, hbc⟩
    · exact .inr rfl
    · obtain ⟨-, k, hk, rfl, rfl⟩ := hc
      obtain ⟨-, rfl⟩ := (hm.hangs_iff hk).1 hbc
      exact .inl (h.mem_iff_of_ok.2 hb)
  · rintro (hp | rfl)
    · exact h.closed p hp c hc
    · exact h.mem_iff_of_ok.2 .refl

end Cut

end Grove
