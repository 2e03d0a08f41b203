import Grove.Node.Codec
import Grove.Store.ChildIndex
import Grove.Store.Disk
import Grove.Store.Search

/-! # Folder stores

A folder keeps each node in a file of its own, named by the text of the node's identifier. A file is
never replaced. Whatever else lies in the folder is passed over. Children are answered from an index
that one scan of the folder fills, and that adding and removing keep up to date from then on.
-/

namespace Grove

/-- The order in which a set hands out its elements, whichever that is. -/
structure Shuffle where
  apply : List Hash → List Hash
  perm : ∀ ids, (apply ids).Perm ids

def Shuffle.byId : Shuffle where
  apply ids := ids.mergeSort Qualified.le
  perm _ := List.mergeSort_perm ..

structure Folder where
  path : Path
  index : ChildIndex
  /-- Whether the folder was scanned into the index. -/
  indexed : Bool
  /-- The order in which the index hands out children. -/
  shuffle : Shuffle

namespace Folder

/-- What the name of a file that is still being written begins with. -/
def stagingMark : String :=
  ".staging-"

/-- The path of a file that is still being written; what it ends in is left open. -/
def staging (f : Folder) : Path :=
  f.path.child (stagingMark ++ "XXXXXX")

def file (f : Folder) (id : Hash) : Path :=
  f.path.child id.text

/-- The node in the file of an identifier, whose bytes have to give that identifier. -/
def load (f : Folder) (d : Disk) (id : Hash) : Except StoreError (Option Node) :=
  match d.read (f.file id) with
  | .error .missing => .ok none
  | .error .other => .error (.io "read" id.text none)
  | .ok content => do
    let n ← (Node.ofBytes content).mapError (.corrupt id)
    (n.checkId id).mapError .invalid
    return some n

/-- The identifier that the name of a file spells, in whatever way. -/
def idOfName? (name : String) : Option Hash :=
  if name.startsWith stagingMark then none else Qualified.ofText? .hash name

/-- The readable nodes in the folder, in the order of the listing. -/
def scan (f : Folder) (d : Disk) : Except StoreError (List Node) :=
  match d.list f.path with
  | .error _ => .error (.io "scan" (d.display f.path) none)
  | .ok files =>
    .ok (files.filterMap fun (name, _) => do
      let id ← idOfName? name
      (f.load d id).toOption.join)

def note (x : ChildIndex) (n : Node) : ChildIndex :=
  let x := x.add n.id []
  if n.parent.isNull then x else x.add n.parent [n.id]

/-- The latest created first, and by identifier among equals. -/
def newestFirst (k n : Node) : Bool :=
  n.created < k.created || (k.created = n.created && k.id.le n.id)

/-- Upper nodes first, then the earlier created. Equals stay in the order of the listing. -/
def uppermostFirst (k n : Node) : Bool :=
  k.depth < n.depth || (k.depth = n.depth && k.created ≤ n.created)

abbrev State := Folder × Disk

def scanned : Action State (List Node) := do
  let (f, d) ← get
  match f.scan d with
  | .ok nodes => return nodes
  | .error e => throw e

def find (id : Hash) : Action State (Option Node) := do
  let (f, d) ← get
  if id.isNull then return none
  match f.load d id with
  | .ok found => return found
  | .error e => throw e

def ensureIndexed : Action State Unit := do
  if (← get).1.indexed then return
  let nodes ← scanned
  modify fun (f, d) => ({ f with index := nodes.foldl note f.index, indexed := true }, d)

def children (id : Hash) : Action State (List Hash) := do
  unless (← get).1.index.isKnown id do ensureIndexed
  let f := (← get).1
  return f.shuffle.apply (f.index.children id)

/-- Writes the file of a node, under another name first; whether there was none yet. -/
def writeNew (id : Hash) (content : Bytes) : Action State Bool := do
  let (f, d) ← get
  if d.exists? (f.file id) then return false
  unless (d.locate f.staging).isOk do throw (.io "stage" id.text none)
  match d.write (f.file id) content with
  | .ok d => set (f, d); return true
  | .error _ => throw (.io "link" id.text none)

def add (n : Node) : Action State Unit := do
  if ← writeNew n.id n.encode then
    modify fun (f, d) => (if f.indexed then { f with index := note f.index n } else f, d)

/-- Removes the file of one node, if it is there, and what the index says below the node. -/
def removeOne (id : Hash) : Action State Unit := do
  let (f, d) ← get
  let forgotten := { f with index := f.index.removeParent id }
  match d.removeFile (f.file id) with
  | .ok d => set (forgotten, d)
  | .error .missing => set (forgotten, d)
  | .error .other => throw (.io "remove" id.text none)

/-- No search passes more nodes than there are files in the folder and links in the index. -/
def reach (s : State) : Nat :=
  s.2.entries.length + s.1.index.links.length

/-- Removes the lowest nodes first, so that no node is left without its parent. -/
def removeSubtree (id : Hash) : Action State Unit := do
  let some root ← find id | throw (.notFound id)
  let ids ← subtree children (reach (← get) + 1) id
  ids.reverse.forM removeOne
  modify fun (f, d) => ({ f with index := f.index.removeChild root.parent id }, d)

def store : Store Disk Folder where
  get := find
  children := children
  recent kind count :=
    return (((← scanned).filter fun n => n.kind = kind).mergeSort newestFirst).take count
  add := add
  removeSubtree := removeSubtree
  nodes := return (← scanned).mergeSort uppermostFirst
  reach := reach

/-- The folder at a path, which is made if it is not there. -/
def opened (path : Path) (shuffle : Shuffle) : Action Disk Folder := do
  let (made, d) := (← get).makeDirectories path
  set d
  unless made do throw (.io "create dir" (d.display path) none)
  return ⟨path, .empty, false, shuffle⟩

end Folder

end Grove
