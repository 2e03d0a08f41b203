/-! # Splitting lists

Cutting a list at the first place of a pair, at the last place of an element, and at every place of
an element.
-/

namespace Grove.Text

variable {α : Type} [DecidableEq α]

/-- What stands before and after the first place where `p` and `q` follow each other. -/
def splitFirstPair? (p q : α) (l : List α) : Option (List α × List α) :=
  search [] l
where
  /-- Looks on in the rest, behind what has been passed in reverse. -/
  search (passed : List α) : List α → Option (List α × List α)
    | x :: y :: l =>
      if x = p ∧ y = q then some (passed.reverse, l) else search (x :: passed) (y :: l)
    | _ => none

def splitLast? (p : α) (l : List α) : Option (List α × List α) :=
  match l.reverse.span (· ≠ p) with
  | (_, []) => none
  | (after, _ :: before) => some (before.reverse, after.reverse)

/-- The parts between the places of `p`, one more than there are places. -/
def splitAll (p : α) (l : List α) : List (List α) :=
  l.foldr place [[]]
where
  place (x : α) : List (List α) → List (List α)
    | [] => [[x]]
    | part :: parts => if x = p then [] :: part :: parts else (x :: part) :: parts

theorem splitAll_cons (p x : α) (l : List α) :
    splitAll p (x :: l) = splitAll.place p x (splitAll p l) := rfl

theorem splitAll_ne_nil (p : α) (l : List α) : splitAll p l ≠ [] := by
  cases l with
  | nil => simp [splitAll]
  | cons x l =>
    rw [splitAll_cons]
    cases splitAll p l with
    | nil => simp [splitAll.place]
    | cons part parts =>
      rw [splitAll.place]
      split <;> simp

end Grove.Text
