import Coordination.Service

/-!
Sessions against the service. A session starts connecting, becomes connected when it is
established, loses its connection (and can be established again), and ends by expiring or
by being closed; an ending session forgets its watches and its ephemeral nodes vanish.
Each change of connectivity sends a signal tagged with the session's generation.
Operations run only on a connected session: otherwise they fail with a lost connection
(connecting or disconnected), an expiry or a closed handle, and are not counted.
-/

namespace Coordination

/-- The status of a session. -/
inductive Status where
  | connecting
  | connected
  | disconnected
  | expired
  | closed
  deriving DecidableEq, Repr

/-- A control of the in-memory service over one session. -/
inductive Control where
  | establish
  | dropConnection
  | expire
  | close
  deriving DecidableEq, Repr

/-- A session: its number (the owner of its ephemeral nodes), the generation its signals
carry, and its status. -/
structure Session where
  id : Nat
  generation : Nat
  status : Status
  deriving DecidableEq, Repr

namespace Session

/-- Finishes connecting, or reconnects: signals `connected`. -/
def establish (s : Session) : Session × Option Signal :=
  match s.status with
  | .connecting | .disconnected => ({ s with status := .connected }, some .connected)
  | _ => (s, none)

/-- Loses the connection: signals `disconnected`. -/
def dropConnection (s : Session) : Session × Option Signal :=
  match s.status with
  | .connected => ({ s with status := .disconnected }, some .disconnected)
  | _ => (s, none)

/-- Expires the session, unless it has ended already: its watches and ephemeral nodes go,
and it signals `expired`. -/
def expire (s : Session) (svc : Service) : Session × Service × Option Signal :=
  match s.status with
  | .expired | .closed => (s, svc, none)
  | _ => ({ s with status := .expired }, svc.endSession s.id, some .expired)

/-- Closes the handle; the first close ends the session. -/
def close (s : Session) (svc : Service) : Session × Service :=
  match s.status with
  | .closed => (s, svc)
  | _ => ({ s with status := .closed }, svc.endSession s.id)

/-- Applies a control: the session afterwards, the service, and the signal sent. -/
def control (s : Session) (svc : Service) : Control → Session × Service × Option Signal
  | .establish => let (s', g) := s.establish; (s', svc, g)
  | .dropConnection => let (s', g) := s.dropConnection; (s', svc, g)
  | .expire => s.expire svc
  | .close => let (s', svc') := s.close svc; (s', svc', none)

/-- Why the session cannot run an operation now, if it cannot. -/
def refusal (s : Session) : Option Failure :=
  match s.status with
  | .connected => none
  | .connecting | .disconnected => some .connectionLoss
  | .expired => some .sessionExpired
  | .closed => some .sessionClosed

/-- Runs an operation of kind `k` on the service, if the session can. -/
def run {α : Type} (s : Session) (svc : Service) (k : OpKind)
    (f : Tree → Except Failure (α × Tree × List Fired)) : Except Failure α × Service :=
  match s.refusal with
  | some e => (.error e, svc)
  | none => svc.apply k f

def exists? (s : Session) (svc : Service) (p : String) : Except Failure (Option Stat) × Service :=
  s.run svc .exists fun t => (t.exists? p).map fun r => (r, t, [])

/-- The child names and metadata of a node, leaving a child watch when a watcher is given. -/
def children (s : Session) (svc : Service) (p : String) (watcher : Option String) :
    Except Failure (List String × Stat) × Service :=
  s.run svc .getChildren fun t => (t.children p).map fun r =>
    match watcher with
    | some w => (r, t.watchChildren p ⟨s.id, w⟩, [])
    | none => (r, t, [])

/-- The data and metadata of a node, leaving a data watch when a watcher is given. -/
def data (s : Session) (svc : Service) (p : String) (watcher : Option String) :
    Except Failure (List UInt8 × Stat) × Service :=
  s.run svc .getData fun t => (t.data p).map fun r =>
    match watcher with
    | some w => (r, t.watchData p ⟨s.id, w⟩, [])
    | none => (r, t, [])

/-- Replaces a node's data, if `version` is none or matches. -/
def setData (s : Session) (svc : Service) (p : String) (d : List UInt8) (version : Option Int) :
    Except Failure Stat × Service :=
  s.run svc .setData (·.setData p d version)

/-- Creates a node owned by this session if ephemeral; the path created. -/
def create (s : Session) (svc : Service) (p : String) (d : List UInt8) (m : Mode) :
    Except Failure String × Service :=
  s.run svc .create (·.create p d m s.id)

/-- Deletes a node, if `version` is none or matches. -/
def delete (s : Session) (svc : Service) (p : String) (version : Option Int) :
    Except Failure Unit × Service :=
  s.run svc .delete fun t => (t.delete p version).map fun (t', f) => ((), t', f)

@[simp] theorem establish_id (s : Session) : s.establish.1.id = s.id := by
  unfold establish; split <;> rfl

@[simp] theorem establish_generation (s : Session) : s.establish.1.generation = s.generation := by
  unfold establish; split <;> rfl

@[simp] theorem dropConnection_id (s : Session) : s.dropConnection.1.id = s.id := by
  unfold dropConnection; split <;> rfl

@[simp] theorem dropConnection_generation (s : Session) :
    s.dropConnection.1.generation = s.generation := by
  unfold dropConnection; split <;> rfl

theorem close_of_closed (s : Session) (svc : Service) (h : s.status = .closed) :
    s.close svc = (s, svc) := by
  simp [close, h]

@[simp] theorem close_status (s : Session) (svc : Service) : (s.close svc).1.status = .closed := by
  unfold close; split <;> simp_all

@[simp] theorem close_generation (s : Session) (svc : Service) :
    (s.close svc).1.generation = s.generation := by
  unfold close; split <;> rfl

@[simp] theorem control_generation (s : Session) (svc : Service) (c : Control) :
    (s.control svc c).1.generation = s.generation := by
  cases c with
  | establish => simp [control]
  | dropConnection => simp [control]
  | expire => simp only [control, expire]; split <;> rfl
  | close => simp [control]

theorem control_of_closed (s : Session) (svc : Service) (c : Control) (h : s.status = .closed) :
    s.control svc c = (s, svc, none) := by
  cases c <;> simp [control, establish, dropConnection, expire, close, h]

theorem run_of_refusal {α : Type} (s : Session) (svc : Service) (k : OpKind)
    (f : Tree → Except Failure (α × Tree × List Fired)) (e : Failure) (h : s.refusal = some e) :
    s.run svc k f = (.error e, svc) := by
  simp [run, h]

@[simp] theorem refusal_eq_none (s : Session) : s.refusal = none ↔ s.status = .connected := by
  unfold refusal; split <;> simp_all

end Session

end Coordination
