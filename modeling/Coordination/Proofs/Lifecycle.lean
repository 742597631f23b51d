import Coordination.Supervisor.Moves

/-!
What each lifecycle operation of a supervisor does, said once: a start refused or accepted,
closing the held session, processing a signal, a recovery attempt, a session control, the
event pump. The proofs about runs cite these lemmas and do not unfold the operations.
-/

namespace Coordination.Supervisor

section Fields

variable (s : Supervisor)

@[simp] theorem moveTo_session (p : Phase) : (s.moveTo p).session = s.session := rfl
@[simp] theorem moveTo_generation (p : Phase) : (s.moveTo p).generation = s.generation := rfl
@[simp] theorem moveTo_target (p : Phase) : (s.moveTo p).target = s.target := rfl
@[simp] theorem moveTo_desired (p : Phase) : (s.moveTo p).desired = s.desired := rfl
@[simp] theorem moveTo_recovery (p : Phase) : (s.moveTo p).recovery = s.recovery := rfl
@[simp] theorem moveTo_events (p : Phase) : (s.moveTo p).events = s.events := rfl
@[simp] theorem moveTo_backend (p : Phase) : (s.moveTo p).backend = s.backend := rfl
@[simp] theorem moveTo_machine (p : Phase) : (s.moveTo p).machine = s.machine.moveTo p := rfl

@[simp] theorem emit_events (g : Nat) (signal : Option Signal) :
    (s.emit g signal).events = s.events ++ (signal.map (g, ·)).toList := by
  cases signal <;> simp [emit]

@[simp] theorem emit_machine (g : Nat) (signal : Option Signal) :
    (s.emit g signal).machine = s.machine := by
  cases signal <;> rfl

@[simp] theorem emit_session (g : Nat) (signal : Option Signal) :
    (s.emit g signal).session = s.session := by
  cases signal <;> rfl

@[simp] theorem emit_generation (g : Nat) (signal : Option Signal) :
    (s.emit g signal).generation = s.generation := by
  cases signal <;> rfl

@[simp] theorem emit_target (g : Nat) (signal : Option Signal) :
    (s.emit g signal).target = s.target := by
  cases signal <;> rfl

@[simp] theorem emit_desired (g : Nat) (signal : Option Signal) :
    (s.emit g signal).desired = s.desired := by
  cases signal <;> rfl

@[simp] theorem emit_backend (g : Nat) (signal : Option Signal) :
    (s.emit g signal).backend = s.backend := by
  cases signal <;> rfl

end Fields

theorem start_of_none (s : Supervisor) (h : s.target = none) :
    s.start = (.error .notConfigured, s) := by
  simp [start, h]

/-- A refused start passes through connecting back to unconfigured; the generation is
bumped and the attempt recorded, and no session is held afterwards that was not before. -/
theorem start_refused (s : Supervisor) (t : Target) (ht : s.target = some t)
    (hf : 0 < s.backend.connector.failuresLeft) :
    s.start = (.error (.connect (t.connectString ++ " refused the connection")), { s with
      machine := (s.machine.moveTo .connecting).moveTo .unconfigured
      generation := s.generation + 1
      backend := { s.backend with connector := { s.backend.connector with
        attempts := s.backend.connector.attempts ++ [t]
        failuresLeft := s.backend.connector.failuresLeft - 1 } } }) := by
  simp [start, ht, Connector.connect, hf, moveTo, withWorld]

/-- An accepted start holds a new session, connecting, or connected at once by an automatic
connector, whose connect is queued with the new generation. -/
theorem start_accepted (s : Supervisor) (t : Target) (ht : s.target = some t)
    (hf : s.backend.connector.failuresLeft = 0) :
    s.start = (.ok (), { s with
      machine := s.machine.moveTo .connecting
      generation := s.generation + 1
      session := some s.backend.connector.sessions.length
      events := s.events ++
        if s.backend.connector.automatic then [(s.generation + 1, .connected)] else []
      backend := { s.backend with
        service := s.backend.service.openSession.2
        connector := { s.backend.connector with
          attempts := s.backend.connector.attempts ++ [t]
          sessions := s.backend.connector.sessions ++
            [⟨s.backend.service.nextSessionId, s.generation + 1,
              if s.backend.connector.automatic then .connected else .connecting⟩] } } }) := by
  cases ha : s.backend.connector.automatic <;>
    simp [start, ht, Connector.connect, hf, moveTo, withWorld, emit, ha, Session.establish,
      Service.openSession]

theorem start_frame (s : Supervisor) :
    s.start.2.target = s.target ∧ s.start.2.desired = s.desired ∧
      s.start.2.recovery = s.recovery := by
  cases ht : s.target with
  | none => simp [start_of_none s ht, ht]
  | some t =>
    by_cases hf : s.backend.connector.failuresLeft = 0
    · simp [start_accepted s t ht hf, ht]
    · simp [start_refused s t ht (Nat.pos_of_ne_zero hf), ht]

@[simp] theorem start_target (s : Supervisor) : s.start.2.target = s.target := (start_frame s).1
@[simp] theorem start_desired (s : Supervisor) : s.start.2.desired = s.desired := (start_frame s).2.1

theorem tryStart_eq (s : Supervisor) : ∃ r, s.tryStart = { s.start.2 with recovery := r } := by
  unfold tryStart
  split
  · rename_i s' h
    exact ⟨s'.recovery, by simp [h]⟩
  · rename_i s' h
    split
    · exact ⟨s'.recovery, by simp [h]⟩
    · exact ⟨some .due, by simp [h]⟩

@[simp] theorem closeCurrent_of_none (s : Supervisor) (h : s.session = none) :
    s.closeCurrent = s := by
  simp [closeCurrent, h]

theorem closeCurrent_of_held (s : Supervisor) {i : Nat} {ss : Session} (h : s.session = some i)
    (hs : s.backend.connector.session? i = some ss) :
    s.closeCurrent = { s with
      session := none
      backend := { s.backend with
        connector := s.backend.connector.setSession i (ss.close s.backend.service).1
        service := (ss.close s.backend.service).2 } } := by
  simp [closeCurrent, h, hs, withWorld]

@[simp] theorem closeCurrent_events (s : Supervisor) : s.closeCurrent.events = s.events := by
  unfold closeCurrent; split
  · rfl
  · split <;> rfl

@[simp] theorem closeCurrent_target (s : Supervisor) : s.closeCurrent.target = s.target := by
  unfold closeCurrent; split
  · rfl
  · split <;> rfl

@[simp] theorem closeCurrent_failuresLeft (s : Supervisor) :
    s.closeCurrent.backend.connector.failuresLeft = s.backend.connector.failuresLeft := by
  unfold closeCurrent; split
  · rfl
  · split <;> rfl

@[simp] theorem moveTo_self (s : Supervisor) : s.moveTo s.phase = s := by
  simp [moveTo, phase]

theorem closeCurrent_moveTo (s : Supervisor) (p : Phase) :
    (s.moveTo p).closeCurrent = s.closeCurrent.moveTo p := by
  cases h : s.session with
  | none => simp [h]
  | some i =>
    cases hs : s.backend.connector.session? i with
    | none => simp [closeCurrent, h, hs, moveTo]
    | some ss =>
      rw [closeCurrent_of_held s h hs, closeCurrent_of_held (s.moveTo p) (by simpa using h)
        (by simpa using hs)]
      rfl

/-- Releasing the lifecycle closes the held session and moves to reconnecting when a target
is desired and there was something to release, and to unconfigured otherwise. -/
theorem release_eq (s : Supervisor) :
    s.release = s.closeCurrent.moveTo
      (if s.desired.isSome ∧ (s.phase ≠ .unconfigured ∨ s.session.isSome) then .reconnecting
        else .unconfigured) := by
  unfold release
  split
  · rename_i h
    rw [closeCurrent_moveTo]
    have h' : s.phase ≠ .unconfigured ∨ s.session.isSome := by simpa using h
    by_cases hd : s.desired.isSome <;> simp [hd, h']
  · rename_i h
    have hp : s.phase = .unconfigured := by simp_all
    have hs : s.session = none := by simp_all
    simp only [closeCurrent_of_none s hs, hp, ne_eq, not_true_eq_false, hs, Option.isSome_none,
      Bool.false_eq_true, or_self, and_false, if_false]
    rw [← hp, moveTo_self]

theorem reconfigure_of_eq (s : Supervisor) (h : s.target = s.desired) :
    s.reconfigure = { s with recovery := none } := by
  simp only [reconfigure]
  rw [if_pos h]

/-- With a changed target, reconfiguring releases the lifecycle and starts over, or only
bumps the generation when no target is desired. -/
theorem reconfigure_of_ne (s : Supervisor) (h : s.target ≠ s.desired) :
    let s' := { { s with recovery := none }.release with target := s.desired }
    s.reconfigure =
      if s.desired.isSome then s'.tryStart else { s' with generation := s'.generation + 1 } := by
  simp only [reconfigure, h, if_false]

/-- Shutting down closes the held session, moves to unconfigured, stops the dispatcher, drops
every target and recovery, and bumps the generation. -/
theorem shutdown_eq (s : Supervisor) :
    s.shutdown = { s.closeCurrent with
      machine := { s.machine.moveTo .unconfigured with
        dispatch := (s.machine.moveTo .unconfigured).dispatch.shutdown }
      desired := none
      recovery := none
      target := none
      generation := s.generation + 1 } := by
  cases h : s.session with
  | none => simp [shutdown, h, moveTo]
  | some i =>
    cases hc : s.backend.connector.session? i with
    | none => simp [shutdown, closeCurrent, h, hc, moveTo]
    | some ss => simp [shutdown, closeCurrent, h, hc, moveTo, withWorld]

theorem process_of_held (s : Supervisor) (signal : Signal) (h : s.session.isSome) :
    s.process s.generation signal = match signal with
      | .connected => s.moveTo .connected
      | .disconnected => if s.phase = .unconfigured then s else s.moveTo .reconnecting
      | .expired => s.closeCurrent.tryStart := by
  have hs : s.session.isNone = false := by simpa using h
  cases signal <;> simp [process, hs]

theorem process_frame (s : Supervisor) (g : Nat) (signal : Signal) :
    (s.process g signal).target = s.target ∧ (s.process g signal).desired = s.desired := by
  unfold process
  split
  · exact ⟨rfl, rfl⟩
  · split
    · exact ⟨rfl, rfl⟩
    · split <;> exact ⟨rfl, rfl⟩
    · obtain ⟨r, hr⟩ := tryStart_eq s.closeCurrent
      simp [hr]

@[simp] theorem process_target (s : Supervisor) (g : Nat) (signal : Signal) :
    (s.process g signal).target = s.target := (process_frame s g signal).1

@[simp] theorem process_desired (s : Supervisor) (g : Nat) (signal : Signal) :
    (s.process g signal).desired = s.desired := (process_frame s g signal).2

/-- A signal that is not of the current generation, or comes while no session is held, is
ignored. -/
theorem process_of_stale (s : Supervisor) (g : Nat) (signal : Signal)
    (h : ¬(s.session.isSome ∧ g = s.generation)) : s.process g signal = s := by
  by_cases hs : s.session.isSome
  · exact process_of_ne s g signal fun hg => h ⟨hs, hg⟩
  · exact process_of_none s g signal (by simpa using hs)

theorem recover_of_idle (s : Supervisor) (now : Nat)
    (h : ¬(s.target.isSome ∧ s.phase = .unconfigured)) :
    s.recover now = { s with recovery := none } := by
  have h' : s.target = none ∨ s.phase ≠ .unconfigured := by
    by_cases ht : s.target.isSome
    · exact Or.inr fun hp => h ⟨ht, hp⟩
    · exact Or.inl (by simpa using ht)
  rcases h' with h' | h' <;> simp [recover, h']

theorem recover_of_waiting (s : Supervisor) (now : Nat) (ht : s.target.isSome)
    (hp : s.phase = .unconfigured) : ∃ r, s.recover now = { s.start.2 with recovery := r } := by
  have ht' : s.target ≠ none := Option.isSome_iff_ne_none.mp ht
  unfold recover
  simp only [hp, ne_eq, not_true_eq_false, decide_false, Bool.or_false,
    Option.isNone_iff_eq_none, ht', if_false]
  split
  · rename_i s' h
    exact ⟨none, by simp [h]⟩
  · rename_i s' h
    exact ⟨some (.sleeping (now + s'.options.reconnectInterval.millis)), by simp [h]⟩

theorem control_of_some (s : Supervisor) (i : Nat) (c : Control) {ss : Session}
    (h : s.backend.connector.session? i = some ss) :
    s.control i c = (s.withWorld (s.backend.connector.setSession i (ss.control s.backend.service c).1)
      (ss.control s.backend.service c).2.1).emit ss.generation (ss.control s.backend.service c).2.2 := by
  simp [control, h]

theorem control_of_closed (s : Supervisor) (i : Nat) (c : Control) {ss : Session}
    (h : s.backend.connector.session? i = some ss) (hc : ss.status = .closed) :
    s.control i c = s := by
  rw [control_of_some s i c h, Session.control_of_closed ss _ c hc,
    Connector.setSession_of_session? _ h]
  rfl

theorem control_of_none (s : Supervisor) (i : Nat) (c : Control)
    (h : s.backend.connector.session? i = none) : s.control i c = s := by
  simp [control, h]

@[simp] theorem handleNext_nil (s : Supervisor) (h : s.events = []) : s.handleNext = s := by
  simp [handleNext, h]

theorem handleNext_cons (s : Supervisor) {g : Nat} {signal : Signal} {rest : List (Nat × Signal)}
    (h : s.events = (g, signal) :: rest) :
    s.handleNext = { s with events := rest }.process g signal := by
  simp [handleNext, h]

end Coordination.Supervisor
