import Grove.Tree.Walk

/-! # Traces

A walk can take notes of nodes beside the state that it works on. The notes are kept when the walk
fails.
-/

namespace Grove.Trace

variable {σ ε α : Type}

/-- An action that leaves the notes alone. -/
def beside (a : Action σ α) : Action (σ × List Hash) α :=
  a.on Prod.fst fun s t => (s, t.2)

def ground (g : Ground σ) : Ground (σ × List Hash) :=
  ⟨fun id => beside (g.children id), g.reach⟩

def note (id : Hash) : ExceptT ε (StateM (σ × List Hash)) Unit :=
  modify fun (s, notes) => (s, notes ++ [id])

/-- Notes a node, and fails with the cause once there are so many notes. -/
def noteUpTo (limit : Option Nat) (cause : ε) (id : Hash) :
    ExceptT ε (StateM (σ × List Hash)) Unit := do
  note id
  if let some n := limit then
    if n ≤ (← get).2.length then throw cause

def run (walk : ExceptT ε (StateM (σ × List Hash)) Unit) : StateM σ (Except ε Unit × List Hash) :=
  fun s =>
    let (result, s, notes) := walk.run (s, [])
    ((result, notes), s)

def notes (walk : ExceptT ε (StateM (σ × List Hash)) Unit) : ExceptT ε (StateM σ) (List Hash) :=
  ExceptT.mk do
    let (result, notes) ← run walk
    return result.map fun _ => notes

end Grove.Trace
