import Coordination.Client
import Coordination.Machine

/-!
The connection supervisor: it owns one session at a time for the configured target, moves
the connection phase as the session's signals arrive, and falls back to recovery when a
session cannot be started.

Signals arrive tagged with the generation of the session that sent them; the supervisor
bumps the generation on every start and whenever it drops its target, so signals of a
replaced session are ignored. A failed start leaves the phase unconfigured and starts
recovery: a background task that retries the start, pausing between attempts, until one
gets a session. Recovery holds the lifecycle for its whole life, so nothing else changes
the lifecycle meanwhile; reconfiguring or shutting down cancels it first.

Every session the supervisor ever held, except the current one, is closed. So while
recovery pauses there is no live session and no signal can arrive.

The generation is an unsigned 64-bit counter bumped by one; it is taken here as an unbounded
natural number, since no run reaches 2^64 bumps.
-/

namespace Coordination

/-- Where recovery stands: its next attempt is due now, or it pauses until a time. -/
inductive Recovery where
  | due
  | sleeping (wake : Nat)
  deriving DecidableEq, Repr

/-- The supervisor with the service and the connector it works over. -/
structure Supervisor where
  machine : Machine := {}
  /-- The target of the current lifecycle. -/
  target : Option Target := none
  /-- The current session, by the order in which the connector opened it. -/
  session : Option Nat := none
  generation : Nat := 0
  /-- The target asked for last. -/
  desired : Option Target := none
  recovery : Option Recovery := none
  options : Options
  /-- Signals sent by sessions and not yet processed, oldest first, with their generation. -/
  events : List (Nat × Signal) := []
  backend : Backend
  deriving Repr

namespace Supervisor

/-- A supervisor over a fresh service with no target. -/
def init (options : Options) (automatic : Bool) : Supervisor :=
  { options := options, backend := { service := {}, connector := { automatic := automatic } } }

def phase (s : Supervisor) : Phase := s.machine.phase

def moveTo (s : Supervisor) (p : Phase) : Supervisor := { s with machine := s.machine.moveTo p }

/-- Queues the signal a session sent, if any. -/
def emit (s : Supervisor) (generation : Nat) : Option Signal → Supervisor
  | some g => { s with events := s.events ++ [(generation, g)] }
  | none => s

def withWorld (s : Supervisor) (c : Connector) (svc : Service) : Supervisor :=
  { s with backend := { s.backend with connector := c, service := svc } }

/-- Applies a control to the session opened `i`-th; a signal it sends is queued with that
session's generation. -/
def control (s : Supervisor) (i : Nat) (c : Control) : Supervisor :=
  match s.backend.connector.session? i with
  | none => s
  | some ss =>
    let (ss', svc, signal) := ss.control s.backend.service c
    (s.withWorld (s.backend.connector.setSession i ss') svc).emit ss.generation signal

/-- Starts a session for the target: the phase moves to connecting and the generation is
bumped; if the connector refuses, the phase falls back to unconfigured. -/
def start (s : Supervisor) : Except Failure Unit × Supervisor :=
  match s.target with
  | none => (.error .notConfigured, s)
  | some t =>
    let s := s.moveTo .connecting
    let g := s.generation + 1
    let (r, c, svc) := s.backend.connector.connect s.backend.service t g
    let s := { s.withWorld c svc with generation := g }
    match r with
    | .ok (i, signal) => (.ok (), { s.emit g signal with session := some i })
    | .error e => (.error e, s.moveTo .unconfigured)

/-- Starts a session, starting recovery if that fails and recovery is not running. -/
def tryStart (s : Supervisor) : Supervisor :=
  match s.start with
  | (.ok (), s) => s
  | (.error _, s) => if s.recovery.isSome then s else { s with recovery := some .due }

/-- Closes the current session, if any, and forgets it. -/
def closeCurrent (s : Supervisor) : Supervisor :=
  match s.session with
  | none => s
  | some i =>
    match s.backend.connector.session? i with
    | none => { s with session := none }
    | some ss =>
      let closed := ss.close s.backend.service
      { s.withWorld (s.backend.connector.setSession i closed.1) closed.2 with session := none }

/-- Handles a signal: one from a replaced session (or with no session) is ignored; a
connect makes the phase connected, a disconnect makes it reconnecting, and an expiry closes
the session and starts a new one. -/
def process (s : Supervisor) (generation : Nat) (signal : Signal) : Supervisor :=
  if s.session.isNone || generation != s.generation then s
  else match signal with
    | .connected => s.moveTo .connected
    | .disconnected => if s.phase = .unconfigured then s else s.moveTo .reconnecting
    | .expired => s.closeCurrent.tryStart

/-- Lets go of the lifecycle before the target changes: unless it is unconfigured with no
session, the phase passes through reconnecting (or lands in unconfigured when no target is
desired) and the session is closed. -/
def release (s : Supervisor) : Supervisor :=
  if s.phase ≠ .unconfigured || s.session.isSome then
    (s.moveTo (if s.desired.isSome then .reconnecting else .unconfigured)).closeCurrent
  else s

/-- Follows the desired target: recovery is cancelled; with a new target the old lifecycle
is released and a session is started, or the generation bumped when no target is desired. -/
def reconfigure (s : Supervisor) : Supervisor :=
  let s := { s with recovery := none }
  if s.target = s.desired then s
  else
    let s := { s.release with target := s.desired }
    if s.target.isSome then s.tryStart else { s with generation := s.generation + 1 }

/-- Asks for a target, or for none; asking for the one asked for last does nothing. -/
def configure (s : Supervisor) (t : Option Target) : Supervisor :=
  if s.desired = t then s else { s with desired := t }.reconfigure

/-- Applies settings: asks for the target they name. The pause between recovery attempts and
the bound on operation waits are read once, when the supervisor is made. -/
def applySettings (s : Supervisor) (st : Settings) : Supervisor := s.configure st.target

/-- Shuts down: no target, no recovery, the phase unconfigured, the session closed and the
dispatcher stopped. -/
def shutdown (s : Supervisor) : Supervisor :=
  let s : Supervisor := { s with
    desired := none
    recovery := none
    target := none
    generation := s.generation + 1 }
  let s := (s.moveTo .unconfigured).closeCurrent
  { s with machine := { s.machine with dispatch := s.machine.dispatch.shutdown } }

/-- One turn of recovery at time `now`: while there is a target and the phase is
unconfigured, a start is tried; a failed one pauses until `now` plus the interval, and
recovery ends otherwise. -/
def recover (s : Supervisor) (now : Nat) : Supervisor :=
  if s.target.isNone || s.phase ≠ .unconfigured then { s with recovery := none }
  else match s.start with
    | (.ok (), s) => { s with recovery := none }
    | (.error _, s) => { s with recovery := some (.sleeping (now + s.options.reconnectInterval.millis)) }

/-- The event pump takes the oldest queued signal and processes it. -/
def handleNext (s : Supervisor) : Supervisor :=
  match s.events with
  | [] => s
  | (g, signal) :: rest => { s with events := rest }.process g signal

/-- Processes every queued signal, oldest first. -/
def pump (s : Supervisor) : Supervisor :=
  let queued := s.events
  queued.foldl (fun s (g, signal) => s.process g signal) { s with events := [] }

/-- Runs the background at time `now` until nothing more can happen without time passing:
queued signals are processed and due recovery attempts are made; a pause that ends by
`now` is over. At most `fuel` rounds. -/
def settle (now : Nat) : Nat → Supervisor → Supervisor
  | 0, s => s
  | fuel + 1, s =>
    if !s.events.isEmpty then settle now fuel s.pump
    else match s.recovery with
      | some .due => settle now fuel (s.recover now)
      | some (.sleeping t) => if t ≤ now then settle now fuel { s with recovery := some .due } else s
      | none => s

/-- Enough rounds for `settle`: each round processes signals, or makes an attempt, which
is refused at most as often as refusals are left. -/
def settleFuel (s : Supervisor) : Nat :=
  3 * (s.backend.connector.failuresLeft + s.events.length + 2)

/-- The background run to quiescence at time `now`. -/
def quiesce (s : Supervisor) (now : Nat) : Supervisor := settle now s.settleFuel s

/-- When recovery next wakes, if it pauses. -/
def wake (s : Supervisor) : Option Nat :=
  match s.recovery with
  | some (.sleeping t) => some t
  | _ => none

/-- Registers a listener; a new one registered while connected hears a connect. -/
def register (s : Supervisor) (listener : String) : Nat × Supervisor :=
  let ((id, _), m) := s.machine.register listener
  (id, { s with machine := m })

def unregister (s : Supervisor) (id : Nat) : Bool × Supervisor :=
  let (removed, d) := s.machine.dispatch.remove id
  (removed, { s with machine := { s.machine with dispatch := d } })

/-- The session operations run on once the phase is connected: the current session. -/
def access (s : Supervisor) : Op Nat :=
  match s.session with
  | some i => pure i
  | none => throw .notConfigured

theorem configure_of_eq (s : Supervisor) (t : Option Target) (h : s.desired = t) :
    s.configure t = s := by
  simp [configure, h]

theorem process_of_ne (s : Supervisor) (g : Nat) (signal : Signal) (h : g ≠ s.generation) :
    s.process g signal = s := by
  simp [process, h]

theorem process_of_none (s : Supervisor) (g : Nat) (signal : Signal) (h : s.session = none) :
    s.process g signal = s := by
  simp [process, h]

@[simp] theorem moveTo_phase (s : Supervisor) (p : Phase) : (s.moveTo p).phase = p :=
  Machine.moveTo_phase s.machine p

@[simp] theorem closeCurrent_machine (s : Supervisor) : s.closeCurrent.machine = s.machine := by
  unfold closeCurrent; split
  · rfl
  · split <;> rfl

@[simp] theorem closeCurrent_session (s : Supervisor) : s.closeCurrent.session = none := by
  unfold closeCurrent; split
  · simp_all
  · split <;> rfl

@[simp] theorem closeCurrent_desired (s : Supervisor) : s.closeCurrent.desired = s.desired := by
  unfold closeCurrent; split
  · rfl
  · split <;> rfl

@[simp] theorem closeCurrent_recovery (s : Supervisor) : s.closeCurrent.recovery = s.recovery := by
  unfold closeCurrent; split
  · rfl
  · split <;> rfl

@[simp] theorem closeCurrent_generation (s : Supervisor) :
    s.closeCurrent.generation = s.generation := by
  unfold closeCurrent; split
  · rfl
  · split <;> rfl

/-- After shutdown nothing is asked for, nothing recovers, no session is held and the phase
is unconfigured. -/
theorem shutdown_spec (s : Supervisor) :
    s.shutdown.desired = none ∧ s.shutdown.recovery = none ∧ s.shutdown.session = none ∧
      s.shutdown.phase = .unconfigured := by
  simp [shutdown, phase, moveTo]

end Supervisor

end Coordination
