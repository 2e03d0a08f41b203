import Grove.Store.DeepValidation
import Grove.Store.Memory
import Grove.Tree.Kinship

/-! # Archives

An archive wraps a store and tells subscribers of each node that it adds: those before the store has
the node, and those after. A node that is present already is told to nobody. Once the archive is
closed, be it by request or by a hook that does not return, every operation is refused.
-/

namespace Grove

/-- When a hook runs: before or after the store has the node. -/
inductive Phase where
  | preAdd
  | postAdd
  deriving DecidableEq, Repr

structure Subscription where
  number : UInt64
  deriving DecidableEq, Repr

namespace Subscription

/-- Never given to a hook, so it excludes nobody. -/
def none : Subscription :=
  ⟨0⟩

def text (s : Subscription) : String :=
  s!"sub-{s.number}"

end Subscription

/-- What is called for each new node: the name under which it is heard, and whether it returns. -/
structure Hook where
  name : String
  returns : Bool := true
  deriving DecidableEq, Repr

structure Notification where
  phase : Phase
  subscription : Subscription
  hook : Hook
  node : Hash
  deriving DecidableEq, Repr

structure Hooks where
  /-- The number that was given last. -/
  last : UInt64 := 0
  /-- By ascending number. -/
  preAdd : List (Subscription × Hook) := []
  /-- By ascending number. -/
  postAdd : List (Subscription × Hook) := []
  deriving DecidableEq, Repr

namespace Hooks

def registry (h : Hooks) : Phase → List (Subscription × Hook)
  | .preAdd => h.preAdd
  | .postAdd => h.postAdd

def setRegistry (h : Hooks) (r : List (Subscription × Hook)) : Phase → Hooks
  | .preAdd => { h with preAdd := r }
  | .postAdd => { h with postAdd := r }

def inUse (h : Hooks) (s : Subscription) : Bool :=
  (h.preAdd ++ h.postAdd).any fun entry => entry.1 = s

/--
The next number that is neither zero nor in use. Numbers start again after the last one, and among
as many candidates as there are hooks and two more one is always free.
-/
def next (h : Hooks) : Subscription :=
  let count := h.preAdd.length + h.postAdd.length + 2
  let candidates := (List.range count).map fun i => Subscription.mk (h.last + 1 + UInt64.ofNat i)
  (candidates.find? fun s => s ≠ .none && !h.inUse s).getD .none

def insert (s : Subscription) (hook : Hook) :
    List (Subscription × Hook) → List (Subscription × Hook)
  | [] => [(s, hook)]
  | entry :: entries =>
    if s.number < entry.1.number then (s, hook) :: entry :: entries
    else entry :: insert s hook entries

def subscribe (h : Hooks) (phase : Phase) (hook : Hook) : Subscription × Hooks :=
  let s := h.next
  (s, { h with last := s.number }.setRegistry (insert s hook (h.registry phase)) phase)

/-- Whether a hook of the phase was registered, and the hooks without it. -/
def unsubscribe (h : Hooks) (phase : Phase) (s : Subscription) : Bool × Hooks :=
  ((h.registry phase).any fun entry => entry.1 = s,
    h.setRegistry ((h.registry phase).filter fun entry => entry.1 ≠ s) phase)

end Hooks

structure Archive (σ : Type) where
  inner : σ
  hooks : Hooks := {}
  isOpen : Bool := true
  /-- All calls of hooks so far. -/
  log : List Notification := []

structure Archive.Settings where
  /-- The name of the thread that works for the archive. -/
  threadName : String := "forest-archive"
  deriving DecidableEq, Repr

namespace Archive

variable {ω σ α : Type}

def within (a : Action (σ × ω) α) : Action (Archive σ × ω) α :=
  a.on (fun s => (s.1.inner, s.2)) fun t s => ({ s.1 with inner := t.1 }, t.2)

def whileOpen (a : Action (Archive σ × ω) α) : Action (Archive σ × ω) α := do
  if (← get).1.isOpen then a else throw .closed

/-- Calls one hook. If it does not return, the archive is closed and the caller hears no more. -/
def call (phase : Phase) (node : Hash) (s : Subscription) (hook : Hook) :
    Action (Archive σ × ω) Unit := do
  modify fun (a, shared) =>
    ({ a with log := a.log ++ [⟨phase, s, hook, node⟩], isOpen := hook.returns }, shared)
  unless hook.returns do throw .closed

/-- Calls the hooks of a phase by ascending number, but not the excluded one. -/
def notify (phase : Phase) (node : Hash) (excluded : Subscription) :
    Action (Archive σ × ω) Unit := do
  let heard := ((← get).1.hooks.registry phase).filter fun entry => entry.1 ≠ excluded
  heard.forM fun (s, hook) => call phase node s hook

/-- Adds a node and tells everybody but the excluded subscriber, unless it is present already. -/
def accept (inner : Store ω σ) (n : Node) (excluded : Subscription) :
    Action (Archive σ × ω) Unit := do
  if (← within (inner.get n.id)).isSome then return
  notify .preAdd n.id excluded
  within (inner.add n)
  notify .postAdd n.id excluded

def addAs (inner : Store ω σ) (n : Node) (excluded : Subscription) :
    Action (Archive σ × ω) Unit :=
  whileOpen (accept inner n excluded)

def addValidated (inner : Store ω σ) (n : Node) (verify : Verifier) :
    Action (Archive σ × ω) Unit :=
  whileOpen do
    if (← within (inner.get n.id)).isSome then return
    within (n.checkDeep inner.get verify)
    accept inner n .none

def store (inner : Store ω σ) : Store ω (Archive σ) where
  get id := whileOpen (within (inner.get id))
  children id := whileOpen (within (inner.children id))
  recent kind count := whileOpen (within (inner.recent kind count))
  add n := addAs inner n .none
  removeSubtree id := whileOpen (within (inner.removeSubtree id))
  nodes := whileOpen do return (Memory.ofList (← within inner.nodes)).nodes
  reach s := inner.reach (s.1.inner, s.2)

def subscribe (phase : Phase) (hook : Hook) : Action (Archive σ × ω) Subscription :=
  whileOpen do
    let (a, shared) ← get
    let (s, hooks) := a.hooks.subscribe phase hook
    set ({ a with hooks }, shared)
    return s

def unsubscribe (phase : Phase) (s : Subscription) : Action (Archive σ × ω) Bool :=
  whileOpen do
    let (a, shared) ← get
    let (found, hooks) := a.hooks.unsubscribe phase s
    set ({ a with hooks }, shared)
    return found

def destroy : Action (Archive σ × ω) Unit :=
  modify fun (a, shared) => ({ a with isOpen := false }, shared)

/-- A question about the wrapped store; a closed archive fails at the node asked about. -/
def ask {ε : Type} (id : Hash) (question : ExceptT (WalkError ε) (StateM (σ × ω)) α) :
    ExceptT (WalkError ε) (StateM (Archive σ × ω)) α :=
  ExceptT.mk fun (a, shared) =>
    if a.isOpen then
      let (result, inner, shared) := question.run (a.inner, shared)
      (result, { a with inner }, shared)
    else (.error (.store id .closed), a, shared)

def ancestry (inner : Store ω σ) (id : Hash) : Action (Archive σ × ω) (List Hash) :=
  whileOpen (within (inner.ancestry id))

def descendants {ε : Type} (inner : Store ω σ) (id : Hash) :
    ExceptT (WalkError ε) (StateM (Archive σ × ω)) (List Hash) :=
  ask id (inner.descendants id)

def leaves {ε : Type} (inner : Store ω σ) (id : Hash) :
    ExceptT (WalkError ε) (StateM (Archive σ × ω)) (List Hash) :=
  ask id (inner.leaves id)

end Archive

end Grove
