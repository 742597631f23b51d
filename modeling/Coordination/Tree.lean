import Coordination.Failure
import Coordination.Node

/-!
The node tree of the service. Every path names at most one node; the root `/` always
exists. A node holds data, metadata, the sorted names of its children and the counter for
sequential names under it. Every change takes the next transaction number, a signed 64-bit
counter that wraps like the others. The counters of a node are 32 bits wide and wrap: the
version and the child version are signed, the data length, the child count and the sequence
counter unsigned.

Watches are one-shot: a watcher registered on a path (for its data, or for its children)
hears the next change there once and is then forgotten. A watcher is registered on a path
at most once per table, by the session that asked. Changes return the watch events they
fired, in order: a data change fires the data watches of the path; a creation fires the
child watches of the parent; a deletion fires the data watches and the child watches of the
path (as deleted) and then the child watches of the parent.
-/

namespace Coordination

/-- What a watch event says happened. -/
inductive WatchKind where
  | nodeDeleted
  | nodeDataChanged
  | nodeChildrenChanged
  deriving DecidableEq, Repr

/-- The tag of a watch event kind. -/
def WatchKind.tag : WatchKind → String
  | .nodeDeleted => "node_deleted"
  | .nodeDataChanged => "node_data_changed"
  | .nodeChildrenChanged => "node_children_changed"

/-- A watch event: its kind and the watched path. -/
structure WatchEvent where
  kind : WatchKind
  path : String
  deriving DecidableEq, Repr

/-- A watch event delivered to a named watcher. -/
structure Fired where
  watcher : String
  event : WatchEvent
  deriving DecidableEq, Repr

/-- A watch registration: the owning session and the watcher. -/
structure Registration where
  owner : Nat
  watcher : String
  deriving DecidableEq, Repr

/-- A node: data, metadata, sorted child names and the next sequence number. -/
structure TreeNode where
  data : List UInt8
  stat : Stat
  children : List String
  nextSequence : Nat
  deriving DecidableEq, Repr

/-- Entries of an association list by key. -/
def lookup {α : Type} (k : String) : List (String × α) → Option α
  | [] => none
  | (k', a) :: rest => if k = k' then some a else lookup k rest

/-- The association list with key `k` mapped to `a`, replacing in place or appending. -/
def update {α : Type} (k : String) (a : α) : List (String × α) → List (String × α)
  | [] => [(k, a)]
  | (k', b) :: rest => if k = k' then (k, a) :: rest else (k', b) :: update k a rest

/-- The association list without key `k`. -/
def without {α : Type} (k : String) : List (String × α) → List (String × α)
  | [] => []
  | (k', b) :: rest => if k = k' then rest else (k', b) :: without k rest

/-- Inserts a name into a sorted list of distinct names. -/
def insertName (n : String) : List String → List String
  | [] => [n]
  | m :: rest => if n = m then m :: rest else if n < m then n :: m :: rest else m :: insertName n rest

/-- The number `n` as ten decimal digits with leading zeros. -/
def sequenceSuffix (n : Nat) : String :=
  let ds := (toString n).toList
  String.ofList (List.replicate (10 - ds.length) '0' ++ ds)

/-- The node tree with its transaction counter and watch tables. -/
structure Tree where
  nodes : List (String × TreeNode)
  zxid : Int
  dataWatches : List (String × List Registration)
  childWatches : List (String × List Registration)
  deriving Repr

namespace Tree

/-- A fresh node holding `data`, created by transaction `zxid` for `owner`. -/
def freshNode (data : List UInt8) (zxid : Int) (owner : Nat) : TreeNode :=
  ⟨data, ⟨zxid, zxid, 0, 0, owner, wrapU32 data.length, 0⟩, [], 0⟩

/-- The tree holding only the root. -/
def empty : Tree := ⟨[("/", freshNode [] 0 0)], 0, [], []⟩

/-- The node at a well-formed path. -/
def node (t : Tree) (p : String) : Except Failure TreeNode := do
  Path.validate p
  match lookup p t.nodes with
  | some n => pure n
  | none => throw (.noNode p)

/-- The metadata of a node, or none if it is absent. -/
def exists? (t : Tree) (p : String) : Except Failure (Option Stat) := do
  Path.validate p
  pure ((lookup p t.nodes).map (·.stat))

/-- The child names and metadata of a node. -/
def children (t : Tree) (p : String) : Except Failure (List String × Stat) := do
  let n ← t.node p
  pure (n.children, n.stat)

/-- The data and metadata of a node. -/
def data (t : Tree) (p : String) : Except Failure (List UInt8 × Stat) := do
  let n ← t.node p
  pure (n.data, n.stat)

/-- Removes the registrations of a path from a table and returns the events they hear. -/
def trigger (table : List (String × List Registration)) (p : String) (kind : WatchKind) :
    List Fired × List (String × List Registration) :=
  match lookup p table with
  | some regs => (regs.map fun r => ⟨r.watcher, ⟨kind, p⟩⟩, without p table)
  | none => ([], table)

/-- Adds a registration to a table unless the watcher is registered on the path already. -/
def register (table : List (String × List Registration)) (p : String) (r : Registration) :
    List (String × List Registration) :=
  let regs := (lookup p table).getD []
  if regs.any (·.watcher = r.watcher) then table else update p (regs ++ [r]) table

def watchData (t : Tree) (p : String) (r : Registration) : Tree :=
  { t with dataWatches := register t.dataWatches p r }

def watchChildren (t : Tree) (p : String) (r : Registration) : Tree :=
  { t with childWatches := register t.childWatches p r }

/-- Replaces a node's data, if `version` is none or the node's version; the new metadata. -/
def setData (t : Tree) (p : String) (d : List UInt8) (version : Option Int) :
    Except Failure (Stat × Tree × List Fired) := do
  let n ← t.node p
  if version.any (· ≠ n.stat.version) then throw (.badVersion p)
  let z := wrapI64 (t.zxid + 1)
  let stat := { n.stat with
    version := wrapI32 (n.stat.version + 1), mzxid := z, dataLength := wrapU32 d.length }
  let (fired, dw) := trigger t.dataWatches p .nodeDataChanged
  let n' : TreeNode := { n with data := d, stat := stat }
  let t' : Tree := { t with nodes := update p n' t.nodes, zxid := z, dataWatches := dw }
  pure (stat, t', fired)

/-- Creates a node under an existing parent that is not ephemeral; a sequential mode
appends the parent's counter to the name. The path actually created. -/
def create (t : Tree) (p : String) (d : List UInt8) (mode : Mode) (owner : Nat) :
    Except Failure (String × Tree × List Fired) := do
  Path.validate p
  let some parentPath := Path.parent p | throw (.nodeExists p)
  let some parent := lookup parentPath t.nodes | throw (.noNode p)
  if parent.stat.isEphemeral then throw (.noChildrenForEphemerals p)
  let actual := if mode.sequential then p ++ sequenceSuffix parent.nextSequence else p
  if (lookup actual t.nodes).isSome then throw (.nodeExists actual)
  let z := wrapI64 (t.zxid + 1)
  let kids := insertName (Path.name actual) parent.children
  let parent' := { parent with
    nextSequence := if mode.sequential then wrapU32 (parent.nextSequence + 1) else parent.nextSequence
    children := kids
    stat := { parent.stat with
      cversion := wrapI32 (parent.stat.cversion + 1), numChildren := wrapU32 kids.length } }
  let owner' := if mode.ephemeral then owner else 0
  let nodes := (update parentPath parent' t.nodes) ++ [(actual, freshNode d z owner')]
  let (fired, cw) := trigger t.childWatches parentPath .nodeChildrenChanged
  pure (actual, { t with nodes := nodes, zxid := z, childWatches := cw }, fired)

/-- The reason given for deleting the root. -/
def rootReason : String := "the root cannot be deleted"

/-- Deletes a childless node other than the root, if `version` is none or its version. -/
def delete (t : Tree) (p : String) (version : Option Int) : Except Failure (Tree × List Fired) := do
  let n ← t.node p
  let some parentPath := Path.parent p | throw (.invalidPath p rootReason)
  if version.any (· ≠ n.stat.version) then throw (.badVersion p)
  if !n.children.isEmpty then throw (.notEmpty p)
  let z := wrapI64 (t.zxid + 1)
  let nodes := without p t.nodes
  let nodes := match lookup parentPath nodes with
    | some parent =>
      let kids := parent.children.erase (Path.name p)
      let stat : Stat := { parent.stat with
        cversion := wrapI32 (parent.stat.cversion + 1), numChildren := wrapU32 kids.length }
      let parent' : TreeNode := { parent with children := kids, stat := stat }
      update parentPath parent' nodes
    | none => nodes
  let (f1, dw) := trigger t.dataWatches p .nodeDeleted
  let (f2, cw) := trigger t.childWatches p .nodeDeleted
  let (f3, cw) := trigger cw parentPath .nodeChildrenChanged
  pure ({ t with nodes := nodes, zxid := z, dataWatches := dw, childWatches := cw }, f1 ++ f2 ++ f3)

/-- Drops every watch registered by a session. -/
def forgetWatches (t : Tree) (owner : Nat) : Tree :=
  let clean (table : List (String × List Registration)) :=
    (table.map fun (p, regs) => (p, regs.filter (·.owner ≠ owner))).filter (!·.2.isEmpty)
  { t with dataWatches := clean t.dataWatches, childWatches := clean t.childWatches }

/-- Deletes every node a session owns, one by one; the number deleted and the events fired. -/
def removeEphemerals (t : Tree) (owner : Nat) : Nat × Tree × List Fired :=
  let owned := (t.nodes.filter fun (_, n) => n.stat.ephemeralOwner = owner).map (·.1)
  owned.foldl (fun (count, t, fired) p =>
    match t.delete p none with
    | .ok (t', f) => (count + 1, t', fired ++ f)
    | .error _ => (count, t, fired)) (0, t, [])

/-- Every node in pre-order from the root, children in sorted order, with its path. -/
def dump (t : Tree) : List (String × TreeNode) :=
  let rec walk : Nat → String → List (String × TreeNode)
    | 0, _ => []
    | fuel + 1, p =>
      match lookup p t.nodes with
      | none => []
      | some n => (p, n) :: n.children.flatMap fun c => walk fuel (Path.join p c)
  walk (t.nodes.length + 1) "/"

end Tree

end Coordination
