import Coordination.Connector

/-!
The retrying client. Every operation asks for the live session, runs, and starts over when
the connection was lost; any other failure reaches the caller unchanged. A mutation that
lost its connection may still have taken effect, so a retried create first looks whether
the node exists (and takes it as its own), and a retried delete whether it is gone.

The session is given by an access step, so the same operations run over any way of
finding the session. The client counts its retries; a run allows a bounded number of them,
and sets `exhausted` when it would go beyond. The retry count is an unsigned 64-bit counter,
taken here as an unbounded natural number; the 32-bit count a retry is told of does wrap.
-/

namespace Coordination

/-- What client operations act on: the service, the sessions, and the retry counters. -/
structure Backend where
  service : Service
  connector : Connector
  /-- Retries made by the client so far. -/
  retries : Nat := 0
  /-- Retries still allowed in this run. -/
  budget : Nat := 0
  /-- Whether the run needed more retries than allowed. -/
  exhausted : Bool := false
  deriving Repr

/-- A client step: it changes the backend and succeeds or fails. -/
abbrev Op := ExceptT Failure (StateM Backend)

namespace Op

/-- Runs a session operation on the session opened `i`-th. -/
def onSession {α : Type} (i : Nat) (f : Session → Service → Except Failure α × Service) : Op α := do
  let b ← get
  match b.connector.session? i with
  | none => throw .sessionClosed
  | some s =>
    let (r, svc) := f s b.service
    set { b with service := svc }
    match r with
    | .ok a => pure a
    | .error e => throw e

/-- Runs `attempt` on the session given by `access` until it ends with anything but a lost
connection; the flag tells the attempt whether it is a retry, that is whether the 32-bit count
of connections lost in this call is not zero. Every retry is counted and spends one unit of the
budget; the loss that spends the last unit ends the run. -/
def retrying {α : Type} (access : Op Nat) (attempt : Nat → Bool → Op α) : Op α := do
  go (← get).budget 0
where
  /-- At most `fuel` more attempts, after `lost` lost connections (wrapping at 2^32). -/
  go : Nat → UInt32 → Op α
    | 0, _ => do
      modify fun b => { b with exhausted := true }
      throw .connectionLoss
    | fuel + 1, lost => do
      let i ← access
      tryCatch (attempt i (lost != 0)) fun e => do
        if !e.isConnectionLoss then throw e
        modify fun b => { b with retries := b.retries + 1, budget := b.budget - 1 }
        if (← get).budget = 0 then
          modify fun b => { b with exhausted := true }
          throw e
        go fuel (lost + 1)

/-- Whether a node exists, with its metadata. -/
def exists? (access : Op Nat) (p : String) : Op (Option Stat) :=
  retrying access fun i _ => onSession i (·.exists? · p)

/-- The sorted child names of a node. -/
def getChildren (access : Op Nat) (p : String) : Op (List String) :=
  retrying access fun i _ => (·.1) <$> onSession i (·.children · p none)

/-- The child names and metadata of a node, leaving a child watch if a watcher is given. -/
def getChildrenWithStat (access : Op Nat) (p : String) (w : Option String) :
    Op (List String × Stat) :=
  retrying access fun i _ => onSession i (·.children · p w)

def getData (access : Op Nat) (p : String) : Op (List UInt8) :=
  retrying access fun i _ => (·.1) <$> onSession i (·.data · p none)

/-- The data and metadata of a node, leaving a data watch if a watcher is given. -/
def getDataWithStat (access : Op Nat) (p : String) (w : Option String) :
    Op (List UInt8 × Stat) :=
  retrying access fun i _ => onSession i (·.data · p w)

/-- Data read as UTF-8 text, failing for a node whose data is not. -/
def decode (p : String) (d : List UInt8) : Op String :=
  match String.fromUTF8? (ByteArray.mk d.toArray) with
  | some s => pure s
  | none => throw (.invalidData p)

def getStringData (access : Op Nat) (p : String) : Op String := do
  decode p (← getData access p)

/-- The data of a node as text, with its metadata. -/
def getStringDataWithStat (access : Op Nat) (p : String) (w : Option String) :
    Op (String × Stat) := do
  let (d, s) ← getDataWithStat access p w
  pure (← decode p d, s)

/-- Replaces the data of a node, whatever its version. -/
def setData (access : Op Nat) (p : String) (d : List UInt8) : Op Stat :=
  retrying access fun i _ => onSession i (·.setData · p d none)

/-- Creates a node; on a retry an existing node at the path is taken as this call's own. -/
def create (access : Op Nat) (p : String) (d : List UInt8) (m : Mode) : Op String :=
  retrying access fun i retry => do
    if retry then
      if (← onSession i (·.exists? · p)).isSome then return p
    onSession i (·.create · p d m)

/-- The missing ancestors of a path, nearest first: parents are looked at upwards until the
root or an existing node. -/
def missingAncestors (i : Nat) : Nat → Option String → Op (List String)
  | 0, _ => pure []
  | _, none => pure []
  | fuel + 1, some a => do
    if a = "/" then return []
    if (← onSession i (·.exists? · a)).isSome then return []
    return a :: (← missingAncestors i fuel (Path.parent a))

/-- Creates the missing ancestors of a path as empty persistent nodes, from the top down;
one created meanwhile by someone else is fine. -/
def createAncestors (i : Nat) (p : String) : Op Unit := do
  let missing ← missingAncestors i (p.length + 1) (Path.parent p)
  for a in missing.reverse do
    tryCatch (discard <| onSession i (·.create · a [] Mode.persistent)) fun e =>
      match e with
      | .nodeExists _ => pure ()
      | e => throw e

/-- Creates a node and its missing ancestors; retries are guarded as for `create`. -/
def createWithParents (access : Op Nat) (p : String) (d : List UInt8) (m : Mode) : Op String :=
  retrying access fun i retry => do
    if retry then
      if (← onSession i (·.exists? · p)).isSome then return p
    createAncestors i p
    onSession i (·.create · p d m)

/-- Sets the data of a node if it exists, otherwise creates it with its ancestors: the new
metadata when data was replaced, none when the node was created. A create that finds the
node made meanwhile (by anyone, this call's lost attempt included) replaces its data. -/
def createOrSetWithParents (access : Op Nat) (p : String) (d : List UInt8) (m : Mode) :
    Op (Option Stat) := do
  if (← exists? access p).isSome then
    return some (← setData access p d)
  let created ← tryCatch (some <$> retrying access fun i _ => do
      createAncestors i p
      onSession i (·.create · p d m)) fun e =>
    match e with
    | .nodeExists _ => pure none
    | e => throw e
  match created with
  | some _ => pure none
  | none => some <$> setData access p d

/-- Deletes a childless node; on a retry a missing node is taken as this call's own work. -/
def delete (access : Op Nat) (p : String) : Op Unit :=
  retrying access fun i retry => do
    if retry then
      if (← onSession i (·.exists? · p)).isNone then return
    onSession i (·.delete · p none)

/-- Lists a subtree breadth first from `order[next]` on: every parent before its children.
A node gone meanwhile counts as childless, except the top one. -/
def listTree (i : Nat) (top : String) : Nat → List String → Nat → Op (List String)
  | 0, order, _ => pure order
  | fuel + 1, order, next => do
    match order[next]? with
    | none => pure order
    | some parent =>
      let kids ← tryCatch ((·.1) <$> onSession i (·.children · parent none)) fun e =>
        match e with
        | .noNode _ => if parent = top then throw e else pure []
        | e => throw e
      listTree i top fuel (order ++ kids.map (Path.join parent)) (next + 1)

/-- An upper bound on the nodes a walk can meet: those in the tree and those that scripted
changes of other clients may add. -/
def walkBound : Op Nat := do
  let b ← get
  let scripted := b.service.faults.foldl (fun n (_, fs) => n + fs.foldl (fun m f =>
    match f with
    | .interleave cs => m + cs.length
    | _ => m) 0) 0
  pure (b.service.tree.nodes.length + scripted + 1)

/-- Deletes a subtree, deepest nodes first; a node gone meanwhile is fine, except the top. -/
def deleteTree (i : Nat) (p : String) : Op Unit := do
  let order ← listTree i p (← walkBound) [p] 0
  for q in order.reverse do
    tryCatch (onSession i (·.delete · q none)) fun e =>
      match e with
      | .noNode _ => if q = p then throw e else pure ()
      | e => throw e

/-- Deletes a node and everything below it; retries are guarded as for `delete`. -/
def deleteWithChildren (access : Op Nat) (p : String) : Op Unit :=
  retrying access fun i retry => do
    if retry then
      if (← onSession i (·.exists? · p)).isNone then return
    deleteTree i p

/-- Every descendant of a node, relative to it, in depth-first pre-order with children in
sorted order; each level is one read. -/
def getAllChildren (access : Op Nat) (p : String) : Op (List String) := do
  go (← walkBound) [""] []
where
  /-- `pending` is a stack of relative paths still to visit, top first. -/
  go : Nat → List String → List String → Op (List String)
    | 0, _, acc => pure acc
    | _, [], acc => pure acc
    | fuel + 1, rel :: pending, acc => do
      let absolute := if rel.isEmpty then p else Path.join p rel
      let acc := if rel.isEmpty then acc else acc ++ [rel]
      let kids ← getChildren access absolute
      let below := kids.map fun c => if rel.isEmpty then c else rel ++ "/" ++ c
      go fuel (below ++ pending) acc

end Op

end Coordination
