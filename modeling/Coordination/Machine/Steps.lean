import Coordination.Machine

/-!
Running a phase machine through a list of steps and observing it after each: the step's
outcome, the phase, the number of registrations, whether shutdown was asked, and the
callbacks delivered during the step. Listeners are named; a removal takes the registration
last returned for its name. Waiting is decided at once, since nothing else moves the phase.
-/

namespace Coordination.Machine

/-- A step on a phase machine. -/
inductive Step where
  | change (new : Phase)
  | changed (old new : Phase)
  | addListener (name : String)
  | removeListener (name : String)
  | notifyConnected
  | shutdown
  | await (target : Phase) (limit : Option Duration)
  | observe
  deriving Repr

/-- What a step gives back. -/
inductive Outcome where
  | done
  | flag (b : Bool)
  | registration (id : Nat) (added : Bool)
  | phase (p : Phase)
  | failed (f : Failure)
  /-- The step waits for ever. -/
  | blocked
  /-- A removal named a listener that was never registered. -/
  | unknownListener (name : String)
  deriving Repr

/-- What is observed after a step. -/
structure Report where
  outcome : Outcome
  phase : Phase
  count : Nat
  stopped : Bool
  delivered : List Delivery
  deriving Repr

/-- A machine with the registration last returned for each listener name. -/
structure Run where
  machine : Machine := {}
  lastId : List (String × Nat) := []

def Run.apply (r : Run) : Step → Outcome × Run
  | .change p =>
    let (b, m) := r.machine.change p
    (.flag b, { r with machine := m })
  | .changed o n =>
    (.done, { r with machine := { r.machine with dispatch := r.machine.dispatch.phaseChanged o n } })
  | .addListener name =>
    let ((id, added), d) := r.machine.dispatch.add name
    (.registration id added,
      { machine := { r.machine with dispatch := d },
        lastId := (name, id) :: r.lastId.filter (·.1 ≠ name) })
  | .removeListener name =>
    match r.lastId.find? (·.1 = name) with
    | none => (.unknownListener name, r)
    | some (_, id) =>
      let (b, d) := r.machine.dispatch.remove id
      (.flag b, { r with machine := { r.machine with dispatch := d } })
  | .notifyConnected =>
    (.done, { r with machine := { r.machine with dispatch := r.machine.dispatch.notifyConnected } })
  | .shutdown =>
    (.done, { r with machine := { r.machine with dispatch := r.machine.dispatch.shutdown } })
  | .await p limit =>
    match r.machine.awaitNow p limit with
    | some (.ok ()) => (.done, r)
    | some (.error f) => (.failed f, r)
    | none => (.blocked, r)
  | .observe => (.phase r.machine.phase, r)

/-- Applies a step, lets the worker deliver what is queued, and reports. -/
def Run.step (r : Run) (s : Step) : Report × Run :=
  let (o, r) := r.apply s
  let before := r.machine.dispatch.delivered.length
  let d := r.machine.dispatch.drain
  let r := { r with machine := { r.machine with dispatch := d } }
  (⟨o, r.machine.phase, d.count, d.stopped, d.delivered.drop before⟩, r)

/-- Runs steps from a fresh machine and reports after each. -/
def runSteps (steps : List Step) : List Report :=
  let rec go : Run → List Step → List Report
    | _, [] => []
    | r, s :: rest =>
      let (rep, r') := r.step s
      rep :: go r' rest
  go {} steps

end Coordination.Machine
