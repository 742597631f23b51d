import Coordination.Supervisor

/-!
Everything that can happen to a supervisor, one move at a time: a call of its interface
(configure, shutdown, a signal handed to `process`, listener registration and removal), a
control of one of the in-memory sessions, refusals scripted on the connector, and a step of
one of its background tasks (the event pump, the recovery task, the dispatch worker). A run
is any list of moves. Each move is atomic, as the interface calls and the background steps
are under the lifecycle lock; the recovery task's pauses only decide when its next attempt
comes, so an attempt may come at any point while the task exists.
-/

namespace Coordination

/-- One thing that happens to a supervisor. -/
inductive Move where
  | configure (target : Option Target)
  | shutdown
  /-- The connector is told to refuse its next `count` connects. -/
  | refuse (count : Nat)
  | control (session : Nat) (c : Control)
  /-- A caller hands `process` a signal tagged with a generation. -/
  | inject (generation : Nat) (signal : Signal)
  /-- The event pump processes the oldest queued signal. -/
  | pump
  /-- The recovery task, if there is one, makes an attempt at time `now`. -/
  | recover (now : Nat)
  | register (listener : String)
  | unregister (id : Nat)
  /-- The dispatch worker takes the oldest queued notice. -/
  | deliver
  deriving DecidableEq, Repr

namespace Supervisor

def step (s : Supervisor) : Move → Supervisor
  | .configure t => s.configure t
  | .shutdown => s.shutdown
  | .refuse n => s.withWorld (s.backend.connector.failNext n) s.backend.service
  | .control i c => s.control i c
  | .inject g signal => s.process g signal
  | .pump => s.handleNext
  | .recover now => if s.recovery.isSome then s.recover now else s
  | .register l => (s.register l).2
  | .unregister id => (s.unregister id).2
  | .deliver => { s with machine := { s.machine with dispatch := s.machine.dispatch.work } }

def run (s : Supervisor) (ms : List Move) : Supervisor := ms.foldl step s

/-- The phases a run passes through: the first one, then the one after each move. -/
def trace (s : Supervisor) (ms : List Move) : List Phase := (ms.scanl step s).map phase

@[simp] theorem run_nil (s : Supervisor) : s.run [] = s := rfl

@[simp] theorem run_cons (s : Supervisor) (m : Move) (ms : List Move) :
    s.run (m :: ms) = (s.step m).run ms := rfl

theorem run_append (s : Supervisor) (ms ms' : List Move) :
    s.run (ms ++ ms') = (s.run ms).run ms' := by
  simp [run, List.foldl_append]

@[simp] theorem trace_nil (s : Supervisor) : s.trace [] = [s.phase] := rfl

@[simp] theorem trace_cons (s : Supervisor) (m : Move) (ms : List Move) :
    s.trace (m :: ms) = s.phase :: (s.step m).trace ms := by
  simp [trace, List.scanl_cons]

end Supervisor

end Coordination
