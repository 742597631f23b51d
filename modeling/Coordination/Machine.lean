import Coordination.Dispatch
import Coordination.Failure

/-!
The connection phase machine: the current phase, with every change reported to the
dispatcher. Moving to the phase it is already in changes nothing.
-/

namespace Coordination

/-- The current phase and the dispatcher that hears of its changes. -/
structure Machine where
  phase : Phase := .unconfigured
  dispatch : Dispatch := {}
  deriving Repr

namespace Machine

/-- Moves to a phase: `false` and no change when already there; otherwise the dispatcher
is told of the change. -/
def change (m : Machine) (new : Phase) : Bool × Machine :=
  if m.phase = new then (false, m)
  else (true, { m with phase := new, dispatch := m.dispatch.phaseChanged m.phase new })

/-- Moves to a phase, ignoring whether it changed. -/
def moveTo (m : Machine) (new : Phase) : Machine := (m.change new).2

/-- Registers a listener; a new registration made while connected gets one connect. -/
def register (m : Machine) (listener : String) : (Nat × Bool) × Machine :=
  let ((id, added), d) := m.dispatch.add listener
  let d := if added && m.phase.isConnected then d.notifyConnected else d
  ((id, added), { m with dispatch := d })

/-- How long a step may wait, in milliseconds of virtual time; a step still waiting then
is abandoned. -/
def guardMs : Nat := 60001

/-- The outcome of waiting for a phase when nothing else can change the phase: at once if it
is the current one, a timeout after `limit` if that comes no later than the guard, and
otherwise no end before the guard fires. -/
def awaitNow (m : Machine) (target : Phase) (limit : Option Duration) :
    Option (Except Failure Unit) :=
  if m.phase = target then some (.ok ())
  else match limit with
    | some d => if d.nanos ≤ guardMs * 1000000 then some (.error (.timeout target d)) else none
    | none => none

theorem change_fst (m : Machine) (new : Phase) : (m.change new).1 = decide (m.phase ≠ new) := by
  unfold change; split <;> simp_all

@[simp] theorem change_phase (m : Machine) (new : Phase) : (m.change new).2.phase = new := by
  unfold change; split <;> simp_all

@[simp] theorem moveTo_phase (m : Machine) (new : Phase) : (m.moveTo new).phase = new :=
  change_phase m new

@[simp] theorem moveTo_self (m : Machine) : m.moveTo m.phase = m := by
  simp [moveTo, change]

@[simp] theorem register_phase (m : Machine) (l : String) : (m.register l).2.phase = m.phase := rfl

end Machine

end Coordination
