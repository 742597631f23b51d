import Coordination.Client

/-!
The requests a scripted run can make of the service: through the retrying client, on one
session directly (no retries), or on the tree itself as another client would (no session,
no faults). Each request gives back a reply of its own shape.
-/

namespace Coordination

/-- What a request gives back. -/
inductive Reply where
  | none
  | flag (b : Bool)
  | label (id : Nat)
  | path (p : String)
  | names (ns : List String)
  | bytes (d : List UInt8)
  | text (s : String)
  | stat (s : Stat)
  | maybeStat (s : Option Stat)
  | children (names : List String) (stat : Stat)
  | data (bytes : List UInt8) (stat : Stat)
  | textData (text : String) (stat : Stat)
  /-- Whether connected, whether a target is asked for and which, and the phase a fresh
  observer sees. -/
  | info (connected configured : Bool) (url : Option String) (phase : Phase)
  | sessions (ss : List Session)
  | attempts (ts : List Target)
  | dump (nodes : List (String × TreeNode))
  deriving Repr

/-- A request through the retrying client. -/
inductive Request where
  | exists (p : String)
  | getChildren (p : String)
  | getChildrenWithStat (p : String) (watcher : Option String)
  | getAllChildren (p : String)
  | getData (p : String)
  | getStringData (p : String)
  | getDataWithStat (p : String) (watcher : Option String)
  | getStringDataWithStat (p : String) (watcher : Option String)
  | setData (p : String) (d : List UInt8)
  | create (p : String) (d : List UInt8) (m : Mode)
  | createWithParents (p : String) (d : List UInt8) (m : Mode)
  | createOrSet (p : String) (d : List UInt8) (m : Mode)
  | delete (p : String)
  | deleteWithChildren (p : String)
  deriving Repr

def Request.run (access : Op Nat) : Request → Op Reply
  | .exists p => .maybeStat <$> Op.exists? access p
  | .getChildren p => .names <$> Op.getChildren access p
  | .getChildrenWithStat p w => (fun (ns, s) => .children ns s) <$> Op.getChildrenWithStat access p w
  | .getAllChildren p => .names <$> Op.getAllChildren access p
  | .getData p => .bytes <$> Op.getData access p
  | .getStringData p => .text <$> Op.getStringData access p
  | .getDataWithStat p w => (fun (d, s) => .data d s) <$> Op.getDataWithStat access p w
  | .getStringDataWithStat p w => (fun (t, s) => .textData t s) <$> Op.getStringDataWithStat access p w
  | .setData p d => .stat <$> Op.setData access p d
  | .create p d m => .path <$> Op.create access p d m
  | .createWithParents p d m => .path <$> Op.createWithParents access p d m
  | .createOrSet p d m => .maybeStat <$> Op.createOrSetWithParents access p d m
  | .delete p => (fun () => .none) <$> Op.delete access p
  | .deleteWithChildren p => (fun () => .none) <$> Op.deleteWithChildren access p

/-- A request on one session, without retries. -/
inductive SessionRequest where
  | exists (p : String)
  | getChildren (p : String)
  | getChildrenWithStat (p : String) (watcher : Option String)
  | getData (p : String)
  | getDataWithStat (p : String) (watcher : Option String)
  | setData (p : String) (d : List UInt8) (version : Option Int)
  | create (p : String) (d : List UInt8) (m : Mode)
  | delete (p : String) (version : Option Int)
  deriving Repr

def SessionRequest.run (s : Session) (svc : Service) : SessionRequest → Except Failure Reply × Service
  | .exists p => let (r, svc) := s.exists? svc p; (r.map .maybeStat, svc)
  | .getChildren p => let (r, svc) := s.children svc p none; (r.map (.names ·.1), svc)
  | .getChildrenWithStat p w =>
    let (r, svc) := s.children svc p w; (r.map fun (ns, st) => .children ns st, svc)
  | .getData p => let (r, svc) := s.data svc p none; (r.map (.bytes ·.1), svc)
  | .getDataWithStat p w => let (r, svc) := s.data svc p w; (r.map fun (d, st) => .data d st, svc)
  | .setData p d v => let (r, svc) := s.setData svc p d v; (r.map .stat, svc)
  | .create p d m => let (r, svc) := s.create svc p d m; (r.map .path, svc)
  | .delete p v => let (r, svc) := s.delete svc p v; (r.map fun () => .none, svc)

/-- A request made on the tree directly. -/
inductive DirectRequest where
  | create (p : String) (d : List UInt8) (m : Mode)
  | setData (p : String) (d : List UInt8)
  | delete (p : String)
  /-- The metadata of a node; none also for an ill-formed path. -/
  | exists (p : String)
  | getData (p : String)
  | getChildren (p : String)
  deriving Repr

def DirectRequest.run (svc : Service) : DirectRequest → Except Failure Reply × Service
  | .create p d m => let (r, svc) := svc.createDirect p d m; (r.map .path, svc)
  | .setData p d => let (r, svc) := svc.setDataDirect p d; (r.map .stat, svc)
  | .delete p => let (r, svc) := svc.deleteDirect p; (r.map fun () => .none, svc)
  | .exists p =>
    match svc.tree.exists? p with
    | .ok s => (.ok (.maybeStat s), svc)
    | .error _ => (.ok (.maybeStat none), svc)
  | .getData p => ((svc.tree.data p).map (.bytes ·.1), svc)
  | .getChildren p => ((svc.tree.children p).map (.names ·.1), svc)

end Coordination
