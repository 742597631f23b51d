import Coordination.Machine

/-!
Everything that can happen to a phase machine and its dispatcher, one move at a time: a change
of phase, a change reported to the dispatcher directly (with any old and new phase), a synthetic
connect, a listener registered or a registration removed, shutdown, and one step of the worker.
A run is any list of moves, so the worker's steps interleave with the calls in every order.

A callback that registers or removes a listener is the move right after the worker's step that
called it: the worker reads the registry once per notice, before it calls anyone, and what a
callback changes is seen from the next notice on. A callback that panics is caught and changes
nothing, so it is a move like any other callback.
-/

namespace Coordination.Machine

inductive Move where
  | change (new : Phase)
  | changed (old new : Phase)
  | add (listener : String)
  | remove (id : Nat)
  | notifyConnected
  | shutdown
  | work
  deriving DecidableEq, Repr

def step (m : Machine) : Move → Machine
  | .change new => m.moveTo new
  | .changed old new => { m with dispatch := m.dispatch.phaseChanged old new }
  | .add l => { m with dispatch := (m.dispatch.add l).2 }
  | .remove id => { m with dispatch := (m.dispatch.remove id).2 }
  | .notifyConnected => { m with dispatch := m.dispatch.notifyConnected }
  | .shutdown => { m with dispatch := m.dispatch.shutdown }
  | .work => { m with dispatch := m.dispatch.work }

def run (m : Machine) (ms : List Move) : Machine := ms.foldl step m

@[simp] theorem run_nil (m : Machine) : m.run [] = m := rfl

@[simp] theorem run_cons (m : Machine) (mv : Move) (ms : List Move) :
    m.run (mv :: ms) = (m.step mv).run ms := rfl

theorem run_append (m : Machine) (ms ms' : List Move) : m.run (ms ++ ms') = (m.run ms).run ms' := by
  simp [run, List.foldl_append]

end Coordination.Machine
