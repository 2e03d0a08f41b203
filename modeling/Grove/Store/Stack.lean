import Grove.Store.Archive
import Grove.Store.Cache
import Grove.Store.Faulty
import Grove.Store.Folder

/-! # Stacks

Stores can be stacked at will. The shape of a stack says how it is built, and determines what its
state is and how it works.
-/

namespace Grove

namespace Stack

inductive Shape where
  | memory
  | folder
  | cached (front back : Shape)
  | faulty (inner : Shape)
  | archived (inner : Shape)
  deriving DecidableEq, Repr

namespace Shape

def State : Shape → Type
  | memory => Memory
  | folder => Folder
  | cached front back => front.State × back.State
  | faulty inner => Faulty inner.State
  | archived inner => Archive inner.State

def store : (s : Shape) → Store Disk s.State
  | memory => Memory.store
  | folder => Folder.store
  | cached front back => Cache.store front.store back.store
  | faulty inner => Faulty.store inner.store
  | archived inner => Archive.store inner.store

end Shape

/-- The way from a store to one that it is built on. -/
inductive Step where
  | front
  | back
  | inner
  deriving DecidableEq, Repr

end Stack

structure Stack where
  shape : Stack.Shape
  state : shape.State

namespace Stack

variable {α : Type}

def memory (m : Memory) : Stack :=
  ⟨.memory, m⟩

def folder (f : Folder) : Stack :=
  ⟨.folder, f⟩

def faulty (refuses : Method → Nat → Bool) (inner : Stack) : Stack :=
  ⟨.faulty inner.shape, Faulty.fresh refuses inner.state⟩

def archived (inner : Stack) : Stack :=
  ⟨.archived inner.shape, { inner := inner.state }⟩

def cached (front back : Stack) : Action Disk Stack :=
  ExceptT.mk fun disk =>
    let (result, state, disk) :=
      (Cache.opening front.shape.store back.shape.store).run ((front.state, back.state), disk)
    (result.map fun _ => ⟨.cached front.shape back.shape, state⟩, disk)

/-- A step on a store somewhere in the stack, if the way leads to one. -/
def runAt {ε : Type} (step : (s : Shape) → ExceptT ε (StateM (s.State × Disk)) α) :
    (way : List Step) → (s : Shape) → Option (ExceptT ε (StateM (s.State × Disk)) α)
  | [], s => some (step s)
  | .front :: way, .cached front _ => (runAt step way front).map fun a =>
    ExceptT.mk fun (state, disk) =>
      let (result, t, disk) := a.run (state.1, disk)
      (result, (t, state.2), disk)
  | .back :: way, .cached _ back => (runAt step way back).map fun a =>
    ExceptT.mk fun (state, disk) =>
      let (result, t, disk) := a.run (state.2, disk)
      (result, (state.1, t), disk)
  | .inner :: way, .faulty inner => (runAt step way inner).map fun a =>
    ExceptT.mk fun (state, disk) =>
      let (result, t, disk) := a.run (state.inner, disk)
      (result, { state with inner := t }, disk)
  | _, _ => none

def perform {ε : Type} (step : (s : Shape) → ExceptT ε (StateM (s.State × Disk)) α)
    (way : List Step) (stack : Stack) : Option (StateM Disk (Except ε α × Stack)) :=
  (runAt step way stack.shape).map fun a disk =>
    let (result, state, disk) := a.run (stack.state, disk)
    ((result, ⟨stack.shape, state⟩), disk)

/-- The memory that a stack is, if it is nothing else. -/
def memory? : (s : Shape) → s.State → Option Memory
  | .memory, m => some m
  | _, _ => none

def tier? (step : Step) (stack : Stack) : Option Stack :=
  match step, stack with
  | .front, ⟨.cached front _, state⟩ => some ⟨front, state.1⟩
  | .back, ⟨.cached _ back, state⟩ => some ⟨back, state.2⟩
  | _, _ => none

def onArchive {ε : Type}
    (step : (s : Shape) → ExceptT ε (StateM (Archive s.State × Disk)) α) (stack : Stack) :
    Option (StateM Disk (Except ε α × Stack)) :=
  match stack with
  | ⟨.archived inner, state⟩ => some fun disk =>
    let (result, state, disk) := (step inner).run (state, disk)
    ((result, ⟨.archived inner, state⟩), disk)
  | _ => none

def log (stack : Stack) : List Notification :=
  match stack with
  | ⟨.archived _, state⟩ => state.log
  | _ => []

/-- The ancestors of a node; an archive answers for the store that it wraps. -/
def ancestry (s : Shape) (id : Hash) : Action (s.State × Disk) (List Hash) :=
  match s with
  | .archived inner => Archive.ancestry inner.store id
  | s => s.store.ancestry id

def descendants {ε : Type} (s : Shape) (id : Hash) :
    ExceptT (WalkError ε) (StateM (s.State × Disk)) (List Hash) :=
  match s with
  | .archived inner => Archive.descendants inner.store id
  | s => s.store.descendants id

def leaves {ε : Type} (s : Shape) (id : Hash) :
    ExceptT (WalkError ε) (StateM (s.State × Disk)) (List Hash) :=
  match s with
  | .archived inner => Archive.leaves inner.store id
  | s => s.store.leaves id

end Stack

end Grove
