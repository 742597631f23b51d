import Coordination.Tree

/-!
The coordination service: one node tree shared by all sessions, a count of the operations
sessions issued, the numbers handed to new sessions, and faults scripted per kind of
operation. A session operation takes the oldest fault queued for its kind: a connection
lost before the change (nothing happens), lost after it (the change happens, the caller
hears of a lost connection), another client's changes made just before it, or a given
failure. Direct access bypasses sessions and faults.

Watch events are delivered when a change completes; the service keeps every delivered
event in order. The operation count and the session numbers are unsigned 64-bit counters,
taken here as unbounded natural numbers.
-/

namespace Coordination

/-- The kinds of operation faults attach to; both child reads share one kind, as do both
data reads. -/
inductive OpKind where
  | exists
  | getChildren
  | getData
  | setData
  | create
  | delete
  deriving DecidableEq, Repr

/-- A change made directly on the tree, as another client would. -/
inductive DirectChange where
  | create (path : String) (data : List UInt8) (mode : Mode)
  | setData (path : String) (data : List UInt8)
  | delete (path : String)
  deriving Repr

/-- A scripted outcome for the next session operation of some kind. -/
inductive Fault where
  /-- The connection is lost before the operation: nothing changes. -/
  | loseBeforeCommit
  /-- The operation takes effect, then the connection is lost. -/
  | loseAfterCommit
  /-- Other clients' changes happen first, then the operation as usual. -/
  | interleave (changes : List DirectChange)
  /-- The operation fails with the given failure and changes nothing. -/
  | fail (f : Failure)
  deriving Repr

/-- The shared service. -/
structure Service where
  tree : Tree := Tree.empty
  faults : List (OpKind × List Fault) := []
  ops : Nat := 0
  nextSessionId : Nat := 1
  /-- Every watch event delivered so far, oldest first. -/
  delivered : List Fired := []
  deriving Repr

namespace Service

/-- Queues a fault for the next operation of a kind, after those already queued. -/
def inject (s : Service) (k : OpKind) (f : Fault) : Service :=
  let queued := ((s.faults.find? (·.1 = k)).map (·.2)).getD []
  { s with faults := (k, queued ++ [f]) :: s.faults.filter (·.1 ≠ k) }

/-- Takes the oldest fault queued for a kind. -/
def takeFault (s : Service) (k : OpKind) : Option Fault × Service :=
  match (s.faults.find? (·.1 = k)).map (·.2) with
  | some (f :: rest) => (some f, { s with faults := (k, rest) :: s.faults.filter (·.1 ≠ k) })
  | _ => (none, s)

/-- Runs a change on the tree; on success the new tree is kept and its watch events are
delivered. -/
def change {α : Type} (s : Service) (f : Tree → Except Failure (α × Tree × List Fired)) :
    Except Failure α × Service :=
  match f s.tree with
  | .ok (a, t, fired) => (.ok a, { s with tree := t, delivered := s.delivered ++ fired })
  | .error e => (.error e, s)

/-- Runs a read on the tree, which may also register a watch. -/
def read {α : Type} (s : Service) (f : Tree → Except Failure (α × Tree)) : Except Failure α × Service :=
  s.change fun t => (f t).map fun (a, t') => (a, t', [])

/-- Creates a node directly; ephemeral modes get no owner. -/
def createDirect (s : Service) (p : String) (d : List UInt8) (m : Mode) :
    Except Failure String × Service :=
  s.change (·.create p d m 0)

def setDataDirect (s : Service) (p : String) (d : List UInt8) : Except Failure Stat × Service :=
  s.change (·.setData p d none)

def deleteDirect (s : Service) (p : String) : Except Failure Unit × Service :=
  s.change fun t => (t.delete p none).map fun (t', f) => ((), t', f)

/-- Makes a direct change, ignoring its result. -/
def applyDirect (s : Service) : DirectChange → Service
  | .create p d m => (s.createDirect p d m).2
  | .setData p d => (s.setDataDirect p d).2
  | .delete p => (s.deleteDirect p).2

/-- A session operation of kind `k`: counted, then shaped by the oldest fault of its kind. -/
def apply {α : Type} (s : Service) (k : OpKind) (f : Tree → Except Failure (α × Tree × List Fired)) :
    Except Failure α × Service :=
  let s := { s with ops := s.ops + 1 }
  match s.takeFault k with
  | (none, s) => s.change f
  | (some .loseBeforeCommit, s) => (.error .connectionLoss, s)
  | (some .loseAfterCommit, s) => (.error .connectionLoss, (s.change f).2)
  | (some (.interleave cs), s) => (cs.foldl applyDirect s).change f
  | (some (.fail e), s) => (.error e, s)

/-- Hands out the number of a new session. -/
def openSession (s : Service) : Nat × Service :=
  (s.nextSessionId, { s with nextSessionId := s.nextSessionId + 1 })

/-- A session ends: its watches are forgotten, then the nodes it owns are deleted, their
watch events delivered. -/
def endSession (s : Service) (owner : Nat) : Service :=
  let (_, t, fired) := (s.tree.forgetWatches owner).removeEphemerals owner
  { s with tree := t, delivered := s.delivered ++ fired }

@[simp] theorem change_ops {α : Type} (s : Service) (f : Tree → Except Failure (α × Tree × List Fired)) :
    (s.change f).2.ops = s.ops := by
  unfold change; split <;> rfl

@[simp] theorem change_faults {α : Type} (s : Service)
    (f : Tree → Except Failure (α × Tree × List Fired)) : (s.change f).2.faults = s.faults := by
  unfold change; split <;> rfl

@[simp] theorem takeFault_ops (s : Service) (k : OpKind) : (s.takeFault k).2.ops = s.ops := by
  unfold takeFault; split <;> rfl

@[simp] theorem applyDirect_ops (s : Service) (c : DirectChange) : (s.applyDirect c).ops = s.ops := by
  cases c <;> simp [applyDirect, createDirect, setDataDirect, deleteDirect]

@[simp] theorem foldl_applyDirect_ops (cs : List DirectChange) (s : Service) :
    (cs.foldl applyDirect s).ops = s.ops := by
  induction cs generalizing s <;> simp_all

theorem apply_ops {α : Type} (s : Service) (k : OpKind)
    (f : Tree → Except Failure (α × Tree × List Fired)) : (s.apply k f).2.ops = s.ops + 1 := by
  have h := takeFault_ops { s with ops := s.ops + 1 } k
  unfold apply
  dsimp only
  split <;> rename_i heq <;> rw [heq] at h <;> simp_all

end Service

end Coordination
