import Grove.Store.ChildIndex
import Mathlib.Data.List.Induction
import Mathlib.Data.List.Nodup

/-! # What a child index remembers

Every change of an index is about one parent, and what the index says of a parent follows from the
changes about this parent alone. A parent is known, and a child is below it, exactly if some change
made it so and none behind that one undid it.
-/

namespace Grove.ChildIndex

inductive Change where
  | add (parent : Hash) (children : List Hash)
  | removeChild (parent child : Hash)
  | removeParent (parent : Hash)
  deriving DecidableEq, Repr

def apply (x : ChildIndex) : Change → ChildIndex
  | .add p cs => x.add p cs
  | .removeChild p c => x.removeChild p c
  | .removeParent p => x.removeParent p

def replay (changes : List Change) : ChildIndex :=
  changes.foldl apply empty

namespace Change

def parent : Change → Hash
  | add p _ => p
  | removeChild p _ => p
  | removeParent p => p

/-- What a change makes of the answer for its parent. -/
def revise : Change → List Hash × Bool → List Hash × Bool
  | add _ cs, (children, _) => (cs.foldl (fun ids c => ids.insert c) children, true)
  | removeChild _ c, (children, known) => (children.filter (· ≠ c), known)
  | removeParent _, _ => ([], false)

theorem nodup_revise (change : Change) {answer : List Hash × Bool} (h : answer.1.Nodup) :
    (change.revise answer).1.Nodup := by
  cases change with
  | add p cs => exact List.foldlRecOn cs _ h fun ids hids c _ => hids.insert
  | removeChild p c => exact h.filter _
  | removeParent p => exact .nil

end Change

variable {x : ChildIndex} {p q c : Hash} {cs : List Hash} {changes : List Change} {change : Change}

theorem replay_concat : replay (changes ++ [change]) = (replay changes).apply change := by
  rw [replay, List.foldl_append]
  rfl

section Answers

theorem add_cons : x.add p (c :: cs) = (x.add p [c]).add p cs := by
  simp [add]

theorem children_add_singleton :
    (x.add p [c]).children q = if q = p then (x.children q).insert c else x.children q := by
  have hinsert : (x.add p [c]).children q =
      (x.links.insert (p, c)).filterMap fun link => if link.1 = q then some link.2 else none := rfl
  by_cases hlink : (p, c) ∈ x.links
  · rw [hinsert, List.insert_of_mem hlink]
    split
    · next heq =>
      subst heq
      exact (List.insert_of_mem (mem_children.2 hlink)).symm
    · rfl
  · rw [hinsert, List.insert_of_not_mem hlink]
    split
    · next heq =>
      subst heq
      rw [List.insert_of_not_mem (mt mem_children.1 hlink)]
      exact List.filterMap_cons_some (if_pos rfl)
    · next hne => exact List.filterMap_cons_none (if_neg (Ne.symm hne))

theorem children_add_self :
    (x.add p cs).children p = cs.foldl (fun ids c => ids.insert c) (x.children p) := by
  induction cs generalizing x with
  | nil => rfl
  | cons c cs ih => rw [add_cons, ih, children_add_singleton, if_pos rfl, List.foldl_cons]

theorem children_add_of_ne (h : q ≠ p) : (x.add p cs).children q = x.children q := by
  induction cs generalizing x with
  | nil => rfl
  | cons c cs ih => rw [add_cons, ih, children_add_singleton, if_neg h]

theorem children_filter {known : List Hash} {keep : Hash × Hash → Bool} :
    children ⟨known, x.links.filter keep⟩ q = (x.children q).filter fun c => keep (q, c) := by
  rw [children, children, List.filterMap_filter, List.filter_filterMap]
  refine List.filterMap_congr fun link _ => ?_
  grind

theorem children_removeChild_self :
    (x.removeChild p c).children p = (x.children p).filter (· ≠ c) := by
  refine children_filter.trans (List.filter_congr fun d _ => ?_)
  simp

theorem children_removeChild_of_ne (h : q ≠ p) :
    (x.removeChild p c).children q = x.children q := by
  refine children_filter.trans (List.filter_eq_self.2 fun d _ => ?_)
  simp [h]

theorem children_removeParent_self : (x.removeParent p).children p = [] := by
  refine children_filter.trans (List.filter_eq_nil_iff.2 fun d _ => ?_)
  simp

theorem children_removeParent_of_ne (h : q ≠ p) :
    (x.removeParent p).children q = x.children q := by
  refine children_filter.trans (List.filter_eq_self.2 fun d _ => ?_)
  simp [h]

theorem get_apply_parent (x : ChildIndex) (change : Change) :
    (x.apply change).get change.parent = change.revise (x.get change.parent) := by
  cases change with
  | add p cs =>
    have hknown : (x.add p cs).isKnown p = true := isKnown_add.2 (.inl rfl)
    exact Prod.ext children_add_self hknown
  | removeChild p c => exact Prod.ext children_removeChild_self isKnown_removeChild
  | removeParent p =>
    have hknown : (x.removeParent p).isKnown p = false := by
      rw [Bool.eq_false_iff, ne_eq, isKnown_removeParent]
      exact fun h => h.2 rfl
    exact Prod.ext children_removeParent_self hknown

theorem get_apply_of_ne (h : p ≠ change.parent) : (x.apply change).get p = x.get p := by
  cases change with
  | add q cs =>
    replace h : p ≠ q := h
    have hknown : (x.add q cs).isKnown p = x.isKnown p := by
      rw [Bool.eq_iff_iff, isKnown_add, or_iff_right h]
    exact Prod.ext (children_add_of_ne h) hknown
  | removeChild q c => exact Prod.ext (children_removeChild_of_ne h) isKnown_removeChild
  | removeParent q =>
    replace h : p ≠ q := h
    have hknown : (x.removeParent q).isKnown p = x.isKnown p := by
      rw [Bool.eq_iff_iff, isKnown_removeParent, and_iff_left h]
    exact Prod.ext (children_removeParent_of_ne h) hknown

theorem get_replay (changes : List Change) (p : Hash) :
    (replay changes).get p = (changes.filter (·.parent = p)).foldl
      (fun answer change => change.revise answer) ([], false) := by
  -- From the last change backwards, since that one is made to the index that the others left.
  induction changes using List.reverseRecOn with
  | nil => rfl
  | append_singleton changes change ih =>
    rw [replay_concat, List.filter_append, List.foldl_append, ← ih]
    by_cases hp : p = change.parent
    · subst hp
      rw [get_apply_parent, List.filter_singleton]
      simp
    · rw [get_apply_of_ne hp, List.filter_singleton]
      simp [Ne.symm hp]

theorem get_replay_filter (changes : List Change) (p : Hash) :
    (replay (changes.filter (·.parent = p))).get p = (replay changes).get p := by
  rw [get_replay, get_replay, List.filter_filter]
  simp

theorem nodup_get_replay (changes : List Change) (p : Hash) :
    ((replay changes).get p).1.Nodup := by
  rw [get_replay]
  exact List.foldlRecOn (motive := fun answer : List Hash × Bool => answer.1.Nodup) _ _
    List.nodup_nil fun answer h change _ => change.nodup_revise h

end Answers

section Lasts

variable {makes undoes : Change → Prop}

/-- One of the changes makes it so, and none behind that one undoes it. -/
def Lasts (makes undoes : Change → Prop) (changes : List Change) : Prop :=
  ∃ before change after, changes = before ++ change :: after ∧ makes change ∧
    ∀ later ∈ after, ¬undoes later

theorem not_lasts_nil : ¬Lasts makes undoes [] := by
  rintro ⟨before, change, after, h, -⟩
  exact List.append_ne_nil_of_right_ne_nil _ (List.cons_ne_nil _ _) h.symm

/-- It lasts if the last change makes it so, or if it lasted before that and is not undone by it. -/
theorem lasts_concat :
    Lasts makes undoes (changes ++ [change]) ↔
      makes change ∨ Lasts makes undoes changes ∧ ¬undoes change := by
  constructor
  · rintro ⟨before, made, after, h, hmade, hafter⟩
    rcases List.eq_nil_or_concat' after with rfl | ⟨after, last, rfl⟩
    · obtain ⟨-, rfl⟩ := List.append_singleton_inj.1 h
      exact .inl hmade
    · rw [← List.cons_append, ← List.append_assoc] at h
      obtain ⟨rfl, rfl⟩ := List.append_singleton_inj.1 h
      obtain ⟨hafter, hlast⟩ := List.forall_mem_append.1 hafter
      exact .inr ⟨⟨before, made, after, rfl, hmade, hafter⟩, hlast _ List.mem_cons_self⟩
  · rintro (hmakes | ⟨⟨before, made, after, rfl, hmade, hafter⟩, hundoes⟩)
    · exact ⟨changes, change, [], rfl, hmakes, nofun⟩
    · refine ⟨before, made, after ++ [change], ?_, hmade, List.forall_mem_append.2 ⟨hafter, ?_⟩⟩
      · rw [List.append_assoc, List.cons_append]
      · exact List.forall_mem_singleton.2 hundoes

theorem isKnown_apply : (x.apply change).isKnown p ↔
    (∃ cs, change = .add p cs) ∨ x.isKnown p ∧ change ≠ .removeParent p := by
  cases change with
  | add q cs =>
    rw [apply, isKnown_add]
    simp [eq_comm (a := p)]
  | removeChild q d => simp [apply]
  | removeParent q =>
    rw [apply, isKnown_removeParent]
    grind

theorem mem_children_apply : c ∈ (x.apply change).children p ↔
    (∃ cs, change = .add p cs ∧ c ∈ cs) ∨
      c ∈ x.children p ∧ ¬(change = .removeParent p ∨ change = .removeChild p c) := by
  cases change with
  | add q cs => simp [apply, mem_children_add, or_comm, eq_comm]
  | removeChild q d => simp [apply, mem_children_removeChild, eq_comm]
  | removeParent q => simp [apply, mem_children_removeParent, eq_comm]

theorem isKnown_replay : (replay changes).isKnown p ↔
    Lasts (fun change => ∃ cs, change = .add p cs) (· = .removeParent p) changes := by
  induction changes using List.reverseRecOn with
  | nil => exact iff_of_false Bool.false_ne_true not_lasts_nil
  | append_singleton changes change ih => rw [replay_concat, isKnown_apply, lasts_concat, ih]

theorem mem_children_replay : c ∈ (replay changes).children p ↔
    Lasts (fun change => ∃ cs, change = .add p cs ∧ c ∈ cs)
      (fun change => change = .removeParent p ∨ change = .removeChild p c) changes := by
  induction changes using List.reverseRecOn with
  | nil => exact iff_of_false List.not_mem_nil not_lasts_nil
  | append_singleton changes change ih =>
    rw [replay_concat, mem_children_apply, lasts_concat, ih]

end Lasts

/-- After any changes, a parent is known if children of it, maybe none, were added and it was not
removed since. Its children are listed once each: those that were added to it, and since then
neither removed from it nor forgotten with it. Changes about other parents do not matter. -/
theorem get_history (changes : List Change) (p : Hash) :
    (((replay changes).get p).2 = true ↔
      Lasts (fun change => ∃ cs, change = .add p cs) (· = .removeParent p) changes) ∧
    ((replay changes).get p).1.Nodup ∧
    (∀ c, c ∈ ((replay changes).get p).1 ↔
      Lasts (fun change => ∃ cs, change = .add p cs ∧ c ∈ cs)
        (fun change => change = .removeParent p ∨ change = .removeChild p c) changes) ∧
    (replay changes).get p = (replay (changes.filter (·.parent = p))).get p :=
  ⟨isKnown_replay, nodup_get_replay changes p, fun _ => mem_children_replay,
    (get_replay_filter changes p).symm⟩

example : (replay [.removeChild .null .null, .add .null [], .add .null [.null],
    .removeChild .null .null]).get .null = ([], true) := by decide

end Grove.ChildIndex
