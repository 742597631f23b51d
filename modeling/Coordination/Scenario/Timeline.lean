import Coordination.Supervisor
import Coordination.Scenario.Request
import Coordination.Json.Writer

/-!
A scripted run of a supervisor over the in-memory service, in virtual time. The clock
starts at 0 and moves only when the step being run waits: then it jumps to the next moment
something can happen, the end of recovery's pause or the step's own deadline, whichever
comes first (the step's deadline on a tie). Background work (queued signals, due recovery
attempts) runs to completion before the waiting step looks again, so a waiting step sees
only phases in which the background has come to rest.

A step that is still waiting 60001 ms after it started is abandoned, as is one whose
retries pass the retry limit. After every step the background comes to rest, the
dispatcher delivers what is queued, and the run is observed.
-/

namespace Coordination

/-- How many retries a step may cause. -/
def retryLimit : Nat := 1000

/-- A scripted step. Sessions are named by the order in which they were opened; none means
the latest one. -/
inductive Step where
  | configure (t : Option Target)
  | shutdown
  | failNextConnects (n : Nat)
  | control (session : Option Nat) (c : Control)
  | process (session : Option Nat) (signal : Signal)
  | advance (ms : Nat)
  | await (target : Phase) (timeoutMs : Option Nat)
  | register (name : String)
  | unregister (name : String)
  | info
  | sessions
  | attempts
  | dump
  | inject (k : OpKind) (f : Fault)
  /-- A request through the client, waiting at most `wait` (or the default) for a
  connection. -/
  | client (wait : Option Duration) (r : Request)
  | session (session : Option Nat) (r : SessionRequest)
  | direct (r : DirectRequest)
  /-- A step the script did not spell out properly. -/
  | malformed (message : String)
  deriving Repr

/-- Whether a step can remove ephemeral nodes, whose removal order is not defined: its
watch events are reported in the order of their text. -/
def Step.unordered : Step → Bool
  | .configure _ | .shutdown | .control _ .expire | .control _ .close | .process _ _ => true
  | _ => false

/-- Why a step gave no reply. -/
inductive Trouble where
  | failed (f : Failure)
  /-- The step asks for something the run does not have. -/
  | badInput (message : String)
  /-- The step was still waiting when the guard fired. -/
  | blocked
  /-- The step caused too many retries. -/
  | retryLimit
  deriving Repr

/-- How a wait ends. -/
inductive WaitEnd where
  | ready
  | deadline
  | abandoned
  deriving DecidableEq, Repr

/-- A supervisor in virtual time: the supervisor, the clock in milliseconds, and the
registration last returned for each listener name. -/
structure Timeline where
  sup : Supervisor
  clock : Nat := 0
  lastId : List (String × Nat) := []
  deriving Repr

/-- What is observed after a step. -/
structure Report where
  result : Except Trouble Reply
  phase : Phase
  recovering : Bool
  retries : Nat
  ops : Nat
  connects : Nat
  target : Option String
  delivered : List Delivery
  fired : List Fired
  deriving Repr

/-- The text of a watch event as a JSON record. -/
def WatchEvent.text (e : WatchEvent) : String :=
  Json.Value.write (.obj (Json.Fields.ofList [("kind", .str e.kind.tag), ("path", .str e.path)]))

/-- Watch events in the order of their text. -/
def sortByText (fs : List Fired) : List Fired :=
  fs.mergeSort fun a b => !decide (b.event.text < a.event.text)

namespace Timeline

def withSup (tl : Timeline) (s : Supervisor) : Timeline := { tl with sup := s }

/-- The clock set to `t`, and the background run to rest then. -/
def advanceTo (tl : Timeline) (t : Nat) : Timeline := { tl with clock := t, sup := tl.sup.quiesce t }

/-- The end of a wait that nothing satisfied: the step's own deadline if it comes no later
than the guard's, else the guard's. -/
def timeUp (tl : Timeline) (deadline : Option Nat) (limit : Nat) : WaitEnd × Timeline :=
  match deadline with
  | some d => if d ≤ limit then (.deadline, { tl with clock := d }) else (.abandoned, { tl with clock := limit })
  | none => (.abandoned, { tl with clock := limit })

/-- Lets time pass until `ready` holds, the deadline passes or the guard fires at `limit`;
the background runs at each end of a recovery pause before that. -/
def waitLoop (ready : Supervisor → Bool) (deadline : Option Nat) (limit : Nat) :
    Nat → Timeline → WaitEnd × Timeline
  | 0, tl => tl.timeUp deadline limit
  | fuel + 1, tl =>
    if ready tl.sup then (.ready, tl)
    else match tl.sup.wake with
      | some t => if t < (deadline.getD limit).min limit then waitLoop ready deadline limit fuel (tl.advanceTo t)
        else tl.timeUp deadline limit
      | none => tl.timeUp deadline limit

/-- Waits from now until `ready` holds, at most until `deadline`, under the guard. -/
def waitUntil (tl : Timeline) (ready : Supervisor → Bool) (deadline : Option Nat) : WaitEnd × Timeline :=
  waitLoop ready deadline (tl.clock + Machine.guardMs) (Machine.guardMs + 1) tl

/-- The session a step names: the given one, or the latest. -/
def sessionIndex (tl : Timeline) : Option Nat → Except String Nat
  | some i => if i < tl.sup.backend.connector.sessions.length then .ok i
    else .error ("no session " ++ toString i)
  | none => match tl.sup.backend.connector.sessions.length with
    | 0 => .error "no session opened yet"
    | n + 1 => .ok n

/-- Applies a session control; a signal it sends is queued with the session's generation. -/
def control (tl : Timeline) (i : Nat) (c : Control) : Timeline := tl.withSup (tl.sup.control i c)

/-- Runs a client request on the connected supervisor, with the retry budget of a step. -/
def request (tl : Timeline) (r : Request) : Except Trouble Reply × Timeline :=
  let b := { tl.sup.backend with budget := retryLimit, exhausted := false }
  let (res, b) := ((r.run tl.sup.access).run).run b
  let tl := tl.withSup { tl.sup with backend := b }
  if b.exhausted then (.error .retryLimit, tl)
  else match res with
    | .ok v => (.ok v, tl)
    | .error f => (.error (.failed f), tl)

/-- A client request: refused when unconfigured, and waiting for the connected phase while
connecting. -/
def client (tl : Timeline) (wait : Option Duration) (r : Request) : Except Trouble Reply × Timeline :=
  match tl.sup.phase with
  | .unconfigured => (.error (.failed .notConfigured), tl)
  | .connected => tl.request r
  | _ =>
    let wait := wait <|> tl.sup.options.operationTimeout
    match tl.waitUntil (·.phase = .connected) (wait.map (tl.clock + ·.millis)) with
    | (.ready, tl) => tl.request r
    | (.deadline, tl) => (.error (.failed (.connectionUnavailable (wait.getD ⟨0⟩))), tl)
    | (.abandoned, tl) => (.error .blocked, tl)

def apply (tl : Timeline) : Step → Except Trouble Reply × Timeline
  | .configure t => (.ok .none, tl.withSup (tl.sup.configure t))
  | .shutdown => (.ok .none, tl.withSup tl.sup.shutdown)
  | .failNextConnects n =>
    (.ok .none, tl.withSup (tl.sup.withWorld (tl.sup.backend.connector.failNext n) tl.sup.backend.service))
  | .control i c =>
    match tl.sessionIndex i with
    | .error m => (.error (.badInput m), tl)
    | .ok k => (.ok .none, tl.control k c)
  | .process i g =>
    match tl.sessionIndex i with
    | .error m => (.error (.badInput m), tl)
    | .ok k =>
      let generation := ((tl.sup.backend.connector.session? k).map (·.generation)).getD 0
      match tl.waitUntil (·.recovery.isNone) none with
      | (.ready, tl) => (.ok .none, tl.withSup (tl.sup.process generation g))
      | (_, tl) => (.error .blocked, tl)
  | .advance ms =>
    match tl.waitUntil (fun _ => false) (some (tl.clock + ms)) with
    | (.abandoned, tl) => (.error .blocked, tl)
    | (_, tl) => (.ok .none, tl)
  | .await p limit =>
    match tl.waitUntil (·.phase = p) (limit.map (tl.clock + ·)) with
    | (.ready, tl) => (.ok .none, tl)
    | (.deadline, tl) => (.error (.failed (.timeout p (Duration.ofMillis (limit.getD 0)))), tl)
    | (.abandoned, tl) => (.error .blocked, tl)
  | .register name =>
    let (id, sup) := tl.sup.register name
    (.ok (.label id), { tl with sup := sup, lastId := (name, id) :: tl.lastId.filter (·.1 ≠ name) })
  | .unregister name =>
    match tl.lastId.find? (·.1 = name) with
    | none => (.error (.badInput ("listener " ++ name ++ " never registered")), tl)
    | some (_, id) =>
      let (removed, sup) := tl.sup.unregister id
      (.ok (.flag removed), tl.withSup sup)
  | .info =>
    let s := tl.sup
    (.ok (.info s.phase.isConnected s.desired.isSome (s.desired.map (·.connectString)) s.phase), tl)
  | .sessions => (.ok (.sessions tl.sup.backend.connector.sessions), tl)
  | .attempts => (.ok (.attempts tl.sup.backend.connector.attempts), tl)
  | .dump => (.ok (.dump tl.sup.backend.service.tree.dump), tl)
  | .inject k f =>
    (.ok .none, tl.withSup (tl.sup.withWorld tl.sup.backend.connector (tl.sup.backend.service.inject k f)))
  | .client wait r => tl.client wait r
  | .session i r =>
    match tl.sessionIndex i with
    | .error m => (.error (.badInput m), tl)
    | .ok k =>
      match tl.sup.backend.connector.session? k with
      | none => (.error (.badInput "no session opened yet"), tl)
      | some s =>
        let (res, svc) := r.run s tl.sup.backend.service
        (res.mapError .failed, tl.withSup (tl.sup.withWorld tl.sup.backend.connector svc))
  | .direct r =>
    let (res, svc) := r.run tl.sup.backend.service
    (res.mapError .failed, tl.withSup (tl.sup.withWorld tl.sup.backend.connector svc))
  | .malformed m => (.error (.badInput m), tl)

/-- Runs a step, lets the background come to rest and the dispatcher deliver, and
observes the run. -/
def step (tl : Timeline) (s : Step) : Report × Timeline :=
  let firedBefore := tl.sup.backend.service.delivered.length
  let heardBefore := tl.sup.machine.dispatch.delivered.length
  let (r, tl) := tl.apply s
  let sup := tl.sup.quiesce tl.clock
  let sup := { sup with machine := { sup.machine with dispatch := sup.machine.dispatch.drain } }
  let fired := sup.backend.service.delivered.drop firedBefore
  (⟨r, sup.phase, sup.recovery.isSome, sup.backend.retries, sup.backend.service.ops,
    sup.backend.connector.attempts.length, sup.desired.map (·.connectString),
    sup.machine.dispatch.delivered.drop heardBefore,
    if s.unordered then sortByText fired else fired⟩, tl.withSup sup)

/-- A run with the given options and connector kind, configured for `initial` first. -/
def start (options : Options) (automatic : Bool) (initial : Option Target) : Timeline :=
  let sup := (Supervisor.init options automatic).configure initial
  { sup := sup.quiesce 0 }

/-- Runs the steps in order and reports after each. -/
def runSteps : Timeline → List Step → List Report
  | _, [] => []
  | tl, s :: rest =>
    let (r, tl') := tl.step s
    r :: runSteps tl' rest

end Timeline

end Coordination
