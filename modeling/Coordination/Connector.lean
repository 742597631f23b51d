import Coordination.Session
import Coordination.Settings.Basic

/-!
The connector opens sessions against the service and remembers every attempt and every
session it opened. It can be told to refuse its next connects; an automatic connector
establishes each new session at once, a manual one leaves it connecting. Session numbers
are unsigned 64-bit counters, taken here as unbounded natural numbers.
-/

namespace Coordination

/-- The connector's memory. -/
structure Connector where
  automatic : Bool
  failuresLeft : Nat := 0
  attempts : List Target := []
  sessions : List Session := []
  deriving Repr

namespace Connector

/-- Refuses the next `n` connects (replacing any earlier count). -/
def failNext (c : Connector) (n : Nat) : Connector := { c with failuresLeft := n }

/-- The session opened `i`-th, counting from 0. -/
def session? (c : Connector) (i : Nat) : Option Session := c.sessions[i]?

def setSession (c : Connector) (i : Nat) (s : Session) : Connector :=
  { c with sessions := c.sessions.set i s }

/-- Tries to open a session for a target whose signals carry `generation`: refused while
refusals are left, otherwise the index of the new session, and the signal it sent if it was
established at once. -/
def connect (c : Connector) (svc : Service) (t : Target) (generation : Nat) :
    (Except Failure (Nat × Option Signal)) × Connector × Service :=
  let c := { c with attempts := c.attempts ++ [t] }
  if c.failuresLeft > 0 then
    (.error (.connect (t.connectString ++ " refused the connection")),
      { c with failuresLeft := c.failuresLeft - 1 }, svc)
  else
    let (id, svc) := svc.openSession
    let s : Session := ⟨id, generation, .connecting⟩
    let (s, signal) := if c.automatic then s.establish else (s, none)
    (.ok (c.sessions.length, signal), { c with sessions := c.sessions ++ [s] }, svc)

@[simp] theorem session?_setSession_self (c : Connector) (i : Nat) (s : Session) :
    (c.setSession i s).session? i = (c.session? i).map fun _ => s := by
  simp only [session?, setSession, List.getElem?_set']
  rfl

theorem session?_setSession_ne (c : Connector) (s : Session) {i j : Nat} (h : i ≠ j) :
    (c.setSession i s).session? j = c.session? j := by
  simp [session?, setSession, List.getElem?_set_ne h]

@[simp] theorem setSession_failuresLeft (c : Connector) (i : Nat) (s : Session) :
    (c.setSession i s).failuresLeft = c.failuresLeft := rfl

@[simp] theorem setSession_automatic (c : Connector) (i : Nat) (s : Session) :
    (c.setSession i s).automatic = c.automatic := rfl

theorem setSession_of_session? (c : Connector) {i : Nat} {s : Session} (h : c.session? i = some s) :
    c.setSession i s = c := by
  obtain ⟨hi, rfl⟩ := List.getElem?_eq_some_iff.mp h
  simp [setSession]

theorem session?_eq_some_iff (c : Connector) (i : Nat) (s : Session) :
    c.session? i = some s ↔ ∃ h : i < c.sessions.length, c.sessions[i] = s := by
  simp [session?, List.getElem?_eq_some_iff]

end Connector

end Coordination
