/-!
The connection phase of a client and the raw signals a session sends. A client is
unconfigured (no target), connecting (a first session is being opened), connected, or
reconnecting (its session lost the connection, or the target changed). A session signals
that it connected, lost its connection, or expired.
-/

namespace Coordination

/-- Where a client stands with its connection. -/
inductive Phase where
  /-- No target: nothing to connect to. -/
  | unconfigured
  /-- A session for the target is being opened. -/
  | connecting
  /-- The session is connected: operations can be issued. -/
  | connected
  /-- The session lost its connection, or the target is being replaced. -/
  | reconnecting
  deriving DecidableEq, Repr, Inhabited

/-- A raw signal of a session. -/
inductive Signal where
  | connected
  | disconnected
  | expired
  deriving DecidableEq, Repr, Inhabited

namespace Phase

/-- The lower-case name of a phase. -/
def name : Phase → String
  | .unconfigured => "unconfigured"
  | .connecting => "connecting"
  | .connected => "connected"
  | .reconnecting => "reconnecting"

/-- Whether operations can be issued in this phase. -/
def isConnected : Phase → Bool
  | .connected => true
  | _ => false

/-- The phase a signal leads to: a connection connects, a lost connection reconnects
(and means nothing to an unconfigured client), an expiry starts over. -/
def after (p : Phase) : Signal → Option Phase
  | .connected => some .connected
  | .disconnected => if p = .unconfigured then none else some .reconnecting
  | .expired => some .connecting

/-- The phase after a signal, staying put when the signal means nothing. -/
def step (p : Phase) (s : Signal) : Phase := (p.after s).getD p

theorem step_ne_unconfigured {p : Phase} (hp : p ≠ .unconfigured) (s : Signal) :
    p.step s ≠ .unconfigured := by
  cases s <;> simp [step, after, hp]

@[simp] theorem isConnected_iff (p : Phase) : p.isConnected = true ↔ p = .connected := by
  cases p <;> simp [isConnected]

end Phase

end Coordination
