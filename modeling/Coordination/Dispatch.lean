import Coordination.Phase

/-!
Delivery of connectivity callbacks to listeners. A change of phase becomes a notice: `true`
on entering the connected phase, `false` on leaving it. Notices wait in a queue until the
worker takes them; for each notice the worker looks at the listeners registered at that
moment and calls each one whose last delivered value differs (a listener that heard nothing
counts as disconnected), so every registration hears an alternating sequence that starts
with a connect. Registering the same listener twice gives back its registration; after a
removal it registers anew. Once shut down, the queue takes nothing more and the worker stops
after the notices queued before.
-/

namespace Coordination

/-- What waits in the delivery queue. -/
inductive Notice where
  /-- Tell every registration whose last value differs. -/
  | notify (connected : Bool)
  /-- Stop the worker. -/
  | stop
  deriving DecidableEq, Repr

/-- A callback delivered: to which registration of which listener, and whether it said
connected. -/
structure Delivery where
  id : Nat
  listener : String
  connected : Bool
  deriving DecidableEq, Repr

/-- The listener registry, the delivery queue and the worker's memory. Listeners are known
by name; a registration by its number. -/
structure Dispatch where
  /-- Registrations in the order they were made. -/
  registry : List (Nat × String) := []
  /-- Notices not yet taken by the worker, oldest first. -/
  queue : List Notice := []
  /-- The last value delivered to each registration seen by the worker. -/
  history : List (Nat × Bool) := []
  /-- Whether shutdown was asked. -/
  stopped : Bool := false
  /-- Whether the worker has stopped. -/
  halted : Bool := false
  /-- The number of the next registration. -/
  nextId : Nat := 0
  /-- Every callback delivered, oldest first. -/
  delivered : List Delivery := []
  deriving Repr

namespace Dispatch

/-- Registers a listener: its registration and `true` when new, the existing registration
and `false` when it is registered already. -/
def add (d : Dispatch) (listener : String) : (Nat × Bool) × Dispatch :=
  match d.registry.find? (·.2 = listener) with
  | some (id, _) => ((id, false), d)
  | none => ((d.nextId, true),
      { d with registry := d.registry ++ [(d.nextId, listener)], nextId := d.nextId + 1 })

/-- Removes a registration; `false` if it is not registered. -/
def remove (d : Dispatch) (id : Nat) : Bool × Dispatch :=
  let kept := d.registry.filter (·.1 ≠ id)
  (kept.length ≠ d.registry.length, { d with registry := kept })

def count (d : Dispatch) : Nat := d.registry.length

/-- Queues a notice, unless shutdown was asked. -/
def push (d : Dispatch) (n : Notice) : Dispatch :=
  if d.stopped then d else { d with queue := d.queue ++ [n] }

/-- Queues the notice a change of phase implies: entering the connected phase notifies
`true`, leaving it `false`, other changes nothing. -/
def phaseChanged (d : Dispatch) (old new : Phase) : Dispatch :=
  if new.isConnected then d.push (.notify true)
  else if old.isConnected then d.push (.notify false)
  else d

/-- Queues a connect outside a change of phase, for a listener that joins while connected;
registrations that last heard a connect are skipped. -/
def notifyConnected (d : Dispatch) : Dispatch := d.push (.notify true)

/-- Asks the worker to stop after what is queued; later notices are dropped. -/
def shutdown (d : Dispatch) : Dispatch :=
  if d.stopped then d else { d with stopped := true, queue := d.queue ++ [.stop] }

/-- The last value delivered to a registration; `false` if none. -/
def lastOf (history : List (Nat × Bool)) (id : Nat) : Bool :=
  ((history.find? (·.1 = id)).map (·.2)).getD false

/-- The worker handles one notice with the registrations of the moment: each registration
whose last value differs hears it, and the memory is rebuilt from the registrations. -/
def deliver (d : Dispatch) (connected : Bool) : Dispatch :=
  let calls := d.registry.filter (fun (id, _) => lastOf d.history id != connected)
  { d with
    delivered := d.delivered ++ calls.map (fun (id, l) => ⟨id, l, connected⟩)
    history := d.registry.map (fun (id, _) => (id, connected)) }

/-- The worker takes queued notices until the queue is empty or it stops. -/
def drainList (d : Dispatch) : List Notice → Dispatch
  | [] => { d with queue := [] }
  | .stop :: _ => { d with queue := [], halted := true }
  | .notify c :: rest => drainList (d.deliver c) rest

/-- The worker takes the oldest queued notice, if any. -/
def work (d : Dispatch) : Dispatch :=
  match d.queue with
  | [] => d
  | .stop :: _ => { d with queue := [], halted := true }
  | .notify c :: rest => { d.deliver c with queue := rest }

/-- The worker takes everything queued so far. -/
def drain (d : Dispatch) : Dispatch :=
  if d.halted then { d with queue := [] } else d.drainList d.queue

@[simp] theorem push_of_stopped (d : Dispatch) (n : Notice) (h : d.stopped = true) : d.push n = d := by
  simp [push, h]

theorem push_queue (d : Dispatch) (n : Notice) (h : d.stopped = false) :
    (d.push n).queue = d.queue ++ [n] := by
  simp [push, h]

@[simp] theorem push_registry (d : Dispatch) (n : Notice) : (d.push n).registry = d.registry := by
  unfold push; split <;> rfl

@[simp] theorem push_delivered (d : Dispatch) (n : Notice) : (d.push n).delivered = d.delivered := by
  unfold push; split <;> rfl

@[simp] theorem remove_registry (d : Dispatch) (id : Nat) :
    (d.remove id).2.registry = d.registry.filter (·.1 ≠ id) := rfl

@[simp] theorem lastOf_nil (id : Nat) : lastOf [] id = false := rfl

theorem deliver_history (d : Dispatch) (c : Bool) :
    (d.deliver c).history = d.registry.map (fun (id, _) => (id, c)) := rfl

@[simp] theorem deliver_registry (d : Dispatch) (c : Bool) : (d.deliver c).registry = d.registry := rfl

/-- A notice reaches exactly the registrations whose last value differs, in registration
order. -/
theorem deliver_delivered (d : Dispatch) (c : Bool) :
    (d.deliver c).delivered = d.delivered ++
      (d.registry.filter (fun (id, _) => lastOf d.history id != c)).map (fun (id, l) => ⟨id, l, c⟩) :=
  rfl

theorem phaseChanged_of_not_connected (d : Dispatch) (old new : Phase)
    (ho : old ≠ .connected) (hn : new ≠ .connected) : d.phaseChanged old new = d := by
  simp [phaseChanged, ho, hn]

end Dispatch

end Coordination
