import Coordination.Scenario.Request

/-!
Everything that can happen to the shared service, one move at a time: a request of any session
on it (a session that is not connected is refused, and the faults queued for the request's kind
shape it), a request made on the tree directly, a control of any session (an expiry or a first
close ends the session: its watches are forgotten and its nodes deleted), a fault queued for a
kind of operation, and a session opened. A run is any list of moves.
-/

namespace Coordination.Service

inductive Move where
  | session (s : Session) (r : SessionRequest)
  | direct (r : DirectRequest)
  | control (s : Session) (c : Control)
  | inject (k : OpKind) (f : Fault)
  | openSession
  deriving Repr

def step (svc : Service) : Move → Service
  | .session s r => (r.run s svc).2
  | .direct r => (r.run svc).2
  | .control s c => (s.control svc c).2.1
  | .inject k f => svc.inject k f
  | .openSession => svc.openSession.2

def run (svc : Service) (ms : List Move) : Service := ms.foldl step svc

@[simp] theorem run_nil (svc : Service) : svc.run [] = svc := rfl

@[simp] theorem run_cons (svc : Service) (mv : Move) (ms : List Move) :
    svc.run (mv :: ms) = (svc.step mv).run ms := rfl

end Coordination.Service
