import Coordination.Duration
import Coordination.Phase
import Coordination.Path
import Coordination.Text.Escaped

/-!
Why a client call fails. A lost connection is transient and is retried; session failures
say the session expired or was closed; the outcomes about nodes (missing, existing, wrong
version, children present, an ephemeral parent, an ill-formed path, data that is not UTF-8)
belong to the caller's request; the rest are about the client's own lifecycle. Each cause
has one message and one kind tag.
-/

namespace Coordination

/-- A cause of failure. -/
inductive Failure where
  | connectionLoss
  | sessionExpired
  | sessionClosed
  | noNode (path : String)
  | nodeExists (path : String)
  | badVersion (path : String)
  | notEmpty (path : String)
  | noChildrenForEphemerals (path : String)
  | invalidPath (path reason : String)
  | invalidData (path : String)
  | notConfigured
  | connectionUnavailable (waited : Duration)
  | timeout (phase : Phase) (waited : Duration)
  | interrupted
  | connect (message : String)
  deriving DecidableEq, Repr, Inhabited

namespace Failure

/-- The message of a failure. -/
def message : Failure → String
  | .connectionLoss => "connection to the ensemble was lost"
  | .sessionExpired => "session expired"
  | .sessionClosed => "session handle is closed"
  | .noNode p => "no node: " ++ p
  | .nodeExists p => "node already exists: " ++ p
  | .badVersion p => "version mismatch: " ++ p
  | .notEmpty p => "node has children: " ++ p
  | .noChildrenForEphemerals p => "ephemeral nodes may not have children: " ++ p
  | .invalidPath p r => "invalid path " ++ Text.quoted p ++ ": " ++ r
  | .invalidData p => "node data is not valid UTF-8: " ++ p
  | .notConfigured => "client is not configured"
  | .connectionUnavailable d => "no connection available within " ++ d.text
  | .timeout s d => "timed out after " ++ d.text ++ " waiting for state " ++ s.name
  | .interrupted => "interrupted while waiting for the connection state"
  | .connect m => "failed to open session: " ++ m

/-- The kind tag of a failure. -/
def kind : Failure → String
  | .connectionLoss => "connection_loss"
  | .sessionExpired => "session_expired"
  | .sessionClosed => "session_closed"
  | .noNode _ => "no_node"
  | .nodeExists _ => "node_exists"
  | .badVersion _ => "bad_version"
  | .notEmpty _ => "not_empty"
  | .noChildrenForEphemerals _ => "no_children_for_ephemerals"
  | .invalidPath _ _ => "invalid_path"
  | .invalidData _ => "invalid_data"
  | .notConfigured => "not_configured"
  | .connectionUnavailable _ => "connection_unavailable"
  | .timeout _ _ => "timeout"
  | .interrupted => "interrupted"
  | .connect _ => "connect"

/-- Whether the failure is a lost connection, the one cause that is retried. -/
def isConnectionLoss : Failure → Bool
  | .connectionLoss => true
  | _ => false

/-- Whether the failure is an outcome of the request itself. -/
def isApplication : Failure → Bool
  | .noNode _ | .nodeExists _ | .badVersion _ | .notEmpty _ | .noChildrenForEphemerals _
  | .invalidPath _ _ | .invalidData _ => true
  | _ => false

end Failure

/-- A well-formed path passes; another fails with its first defect. -/
def Path.validate (p : String) : Except Failure Unit :=
  match Path.defect? p with
  | none => .ok ()
  | some d => .error (.invalidPath p d.reason)

end Coordination
