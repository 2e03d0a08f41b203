import Grove.Store.Basic

/-! # Faulty stores

A store that lets some calls pass and refuses others, without effect, as a plan says.
-/

namespace Grove

inductive Method where
  | get
  | children
  | recent
  | add
  | copyInto
  | removeSubtree
  deriving DecidableEq, Repr

def Method.label : Method → String
  | get => "get"
  | children => "children"
  | recent => "recent"
  | add => "add"
  | copyInto => "copy_into"
  | removeSubtree => "remove_subtree"

def Method.all : List Method :=
  [.get, .children, .recent, .add, .copyInto, .removeSubtree]

def Method.ofLabel? (s : String) : Option Method :=
  all.find? fun m => m.label = s

structure Faulty (σ : Type) where
  inner : σ
  /-- Whether a call is refused, given how many calls of the method came before it. -/
  refuses : Method → Nat → Bool
  /-- How often each method was called. -/
  calls : Method → Nat

namespace Faulty

variable {ω σ α : Type}

def fresh (refuses : Method → Nat → Bool) (inner : σ) : Faulty σ :=
  ⟨inner, refuses, fun _ => 0⟩

/-- The plan that refuses methods once they were called so often. -/
def refusing (limits : List (Method × Nat)) (m : Method) (calls : Nat) : Bool :=
  limits.any fun (method, limit) => m = method && limit ≤ calls

def within (a : Action (σ × ω) α) : Action (Faulty σ × ω) α :=
  a.on (fun s => (s.1.inner, s.2)) fun t s => ({ s.1 with inner := t.1 }, t.2)

/-- Counts the call, and refuses it if the plan says so. -/
def guarded (m : Method) (a : Action (σ × ω) α) : Action (Faulty σ × ω) α := do
  let (f, shared) ← get
  set ({ f with calls := fun k => if k = m then f.calls m + 1 else f.calls k }, shared)
  if f.refuses m (f.calls m) then throw (.io m.label "faulty" (some "injected"))
  within a

def store (inner : Store ω σ) : Store ω (Faulty σ) where
  get id := guarded .get (inner.get id)
  children id := guarded .children (inner.children id)
  recent kind count := guarded .recent (inner.recent kind count)
  add n := guarded .add (inner.add n)
  removeSubtree id := guarded .removeSubtree (inner.removeSubtree id)
  nodes := guarded .copyInto inner.nodes
  reach s := inner.reach (s.1.inner, s.2)

end Faulty

end Grove
