import Coordination.Proofs.Recovery

/-!
What one configure call does, from every supervisor a run reaches. Asking for the target asked
for last changes nothing. Asking for another one cancels recovery and closes the held session;
for a target, the phase then passes through reconnecting unless it was unconfigured, moves to
connecting, and the supervisor connects once, to that target, falling back to unconfigured with
a fresh recovery when the connect is refused; for no target the phase ends unconfigured with no
session and no recovery (`configure_follows_target`). The phases are said as the machine they
leave: the machine moved through `passage`, so the changes of connectivity reported to the
listeners are those of that sequence.

Applying settings asks for the target they name, so settings that differ only in the pause
between recovery attempts or in the bound on operation waits change nothing once one of them is
applied.
-/

namespace Coordination.Supervisor

/-- The phases a configure that changes the target moves through, from phase `p`: for a
target, reconnecting unless `p` is unconfigured, then connecting, and back to unconfigured when
the connect is `refused`; for none, unconfigured. -/
def passage (p : Phase) (refused : Bool) : Option Target → List Phase
  | none => [.unconfigured]
  | some _ => (if p = .unconfigured then [] else [.reconnecting]) ++
      .connecting :: if refused then [.unconfigured] else []

theorem foldl_moveTo_phase (m : Machine) (ps : List Phase) :
    (ps.foldl Machine.moveTo m).phase = ps.getLastD m.phase := by
  induction ps generalizing m with
  | nil => rfl
  | cons p ps ih =>
    rw [List.foldl_cons, ih, Machine.moveTo_phase]
    cases ps <;> rfl

/-- A passage ends connecting after an accepted connect to a target, and unconfigured
otherwise. -/
theorem getLastD_passage (p q : Phase) (refused : Bool) (t : Option Target) :
    (passage p refused t).getLastD q =
      if t.isSome ∧ refused = false then .connecting else .unconfigured := by
  cases t with
  | none => rfl
  | some t =>
    -- the step through reconnecting, if any, comes before connecting
    cases refused <;> by_cases hp : p = .unconfigured <;> simp [passage, hp]

variable {s : Supervisor}

section Frames

@[simp] theorem closeCurrent_attempts (s : Supervisor) :
    s.closeCurrent.backend.connector.attempts = s.backend.connector.attempts := by
  unfold closeCurrent; split
  · rfl
  · split <;> rfl

@[simp] theorem release_attempts (s : Supervisor) :
    s.release.backend.connector.attempts = s.backend.connector.attempts := by
  simp [release_eq]

@[simp] theorem release_failuresLeft (s : Supervisor) :
    s.release.backend.connector.failuresLeft = s.backend.connector.failuresLeft := by
  simp [release_eq]

@[simp] theorem release_session (s : Supervisor) : s.release.session = none := by
  simp [release_eq]

theorem start_keeps_session {j : Nat} {ss : Session} (hj : s.backend.connector.session? j = some ss) :
    s.start.2.backend.connector.session? j = some ss := by
  cases ht : s.target with
  | none => simpa [start_of_none s ht] using hj
  | some t =>
    by_cases hf : s.backend.connector.failuresLeft = 0
    · obtain ⟨hlt, -⟩ := (Connector.session?_eq_some_iff _ _ _).mp hj
      simpa [start_accepted s t ht hf, Connector.session?, List.getElem?_append_left hlt] using hj
    · simpa [start_refused s t ht (Nat.pos_of_ne_zero hf), Connector.session?] using hj

theorem tryStart_keeps_session {j : Nat} {ss : Session}
    (hj : s.backend.connector.session? j = some ss) :
    s.tryStart.backend.connector.session? j = some ss := by
  obtain ⟨r, hr⟩ := tryStart_eq s
  rw [hr]
  exact start_keeps_session hj

end Frames

section Handover

/-- What a configure for another target `t` lets go of, before it starts anything: recovery
cancelled, the lifecycle released, and `t` asked for and followed. -/
def handover (s : Supervisor) (t : Option Target) : Supervisor :=
  { ({ s with desired := t, recovery := none } : Supervisor).release with target := t }

@[simp] theorem handover_target (t : Option Target) : (s.handover t).target = t := rfl

@[simp] theorem handover_recovery (t : Option Target) : (s.handover t).recovery = none := by
  simp [handover]

@[simp] theorem handover_session (t : Option Target) : (s.handover t).session = none := by
  simp [handover]

@[simp] theorem handover_attempts (t : Option Target) :
    (s.handover t).backend.connector.attempts = s.backend.connector.attempts := by
  simp [handover]

@[simp] theorem handover_failuresLeft (t : Option Target) :
    (s.handover t).backend.connector.failuresLeft = s.backend.connector.failuresLeft := by
  simp [handover]

/-- Under the discipline, the handover moves the machine to reconnecting when a target is asked
for and the phase was not unconfigured, and to unconfigured otherwise. -/
theorem handover_machine (hd : Disciplined s) (t : Option Target) :
    (s.handover t).machine = s.machine.moveTo
      (if t.isSome ∧ s.phase ≠ .unconfigured then .reconnecting else .unconfigured) := by
  simp only [handover, release_eq, moveTo_machine, closeCurrent_machine]
  congr 1
  -- a held session means the phase is not unconfigured, so only the phase decides
  by_cases hp : s.machine.phase = .unconfigured
  · have hs : s.session = none := hd.unconfigured_iff.mp hp
    simp [phase, hp, hs]
  · simp [phase, hp]

/-- For a target, the handover leaves the machine as moving through reconnecting would, unless
the phase was unconfigured. -/
theorem handover_machine_some (hd : Disciplined s) (t : Target) :
    (s.handover (some t)).machine =
      (if s.phase = .unconfigured then [] else [.reconnecting]).foldl Machine.moveTo s.machine := by
  rw [handover_machine hd]
  by_cases hp : s.phase = .unconfigured
  · have hm : s.machine.phase = .unconfigured := hp
    simp only [hp, Option.isSome_some, ne_eq, not_true_eq_false, and_false, if_false, if_true,
      List.foldl_nil]
    rw [← hm, Machine.moveTo_self]
  · simp [hp]

theorem handover_closes_held (hd : Disciplined s) (t : Option Target) {i : Nat}
    (hi : s.session = some i) :
    ∃ ss, (s.handover t).backend.connector.session? i = some ss ∧ ss.status = .closed := by
  obtain ⟨-, -, ss, hss, -⟩ := hd.held i hi
  refine ⟨(ss.close s.backend.service).1, ?_, Session.close_status ss _⟩
  simp only [handover, release_eq, moveTo_backend]
  rw [closeCurrent_of_held ({ s with desired := t, recovery := none } : Supervisor) hi hss]
  simp [hss]

end Handover

section Configure

/-- A configure that changes the target, on a supervisor that follows the target asked for:
after the handover a session is started for a target, or the generation bumped for none. -/
theorem configure_of_ne (h : Recovering s) {t : Option Target} (hne : t ≠ s.desired) :
    s.configure t = if t.isSome then (s.handover t).tryStart
      else { s.handover t with generation := (s.handover t).generation + 1 } := by
  have hd : s.desired ≠ t := Ne.symm hne
  have htarget : ({ s with desired := t } : Supervisor).target ≠
      ({ s with desired := t } : Supervisor).desired := by
    simpa [h.follows] using hd
  simp only [configure, hd, if_false]
  rw [reconfigure_of_ne _ htarget]
  rfl

variable (h : Recovering s) {t : Option Target} (hne : t ≠ s.desired)
include h hne

/-- The machine after a configure that changes the target is the machine moved through the
passage, refused when the connector has refusals left. -/
theorem configure_machine (hd : Disciplined s) :
    (s.configure t).machine =
      (passage s.phase (decide (0 < s.backend.connector.failuresLeft)) t).foldl
        Machine.moveTo s.machine := by
  rw [configure_of_ne h hne]
  cases t with
  | none => simp [handover_machine hd, passage]
  | some t =>
    obtain ⟨r, hr⟩ := tryStart_eq (s.handover (some t))
    simp only [Option.isSome_some, if_true, hr]
    by_cases hf : s.backend.connector.failuresLeft = 0
    · rw [start_accepted (s.handover (some t)) t rfl (by simpa using hf)]
      simp only [passage, hf, Nat.lt_irrefl, decide_false, Bool.false_eq_true, if_false,
        List.foldl_append, List.foldl_cons, List.foldl_nil]
      rw [← handover_machine_some hd]
    · rw [start_refused (s.handover (some t)) t rfl (by simpa using Nat.pos_of_ne_zero hf)]
      simp only [passage, Nat.pos_of_ne_zero hf, decide_true, if_true, List.foldl_append,
        List.foldl_cons, List.foldl_nil]
      rw [← handover_machine_some hd]

theorem configure_closes_held (hd : Disciplined s) {i : Nat} (hi : s.session = some i) :
    ∃ ss, (s.configure t).backend.connector.session? i = some ss ∧ ss.status = .closed := by
  obtain ⟨ss, hss, hclosed⟩ := handover_closes_held hd t hi
  refine ⟨ss, ?_, hclosed⟩
  rw [configure_of_ne h hne]
  cases t with
  | none => exact hss
  | some t => exact tryStart_keeps_session hss

theorem configure_attempts :
    (s.configure t).backend.connector.attempts = s.backend.connector.attempts ++ t.toList := by
  rw [configure_of_ne h hne]
  cases t with
  | none => simp
  | some t =>
    obtain ⟨r, hr⟩ := tryStart_eq (s.handover (some t))
    simp only [Option.isSome_some, if_true, hr, Option.toList_some]
    by_cases hf : s.backend.connector.failuresLeft = 0
    · rw [start_accepted (s.handover (some t)) t rfl (by simpa using hf)]
      simp
    · rw [start_refused (s.handover (some t)) t rfl (by simpa using Nat.pos_of_ne_zero hf)]
      simp

/-- After a configure that changes the target, recovery runs exactly when a connect to a new
target was refused, and then a fresh attempt is due; a session is held exactly when it was
accepted. -/
theorem configure_recovery_session :
    (s.configure t).recovery =
        (if t.isSome ∧ 0 < s.backend.connector.failuresLeft then some .due else none) ∧
      ((s.configure t).session.isSome ↔ t.isSome ∧ s.backend.connector.failuresLeft = 0) := by
  rw [configure_of_ne h hne]
  cases t with
  | none => simp
  | some t =>
    simp only [Option.isSome_some, if_true, true_and]
    by_cases hf : s.backend.connector.failuresLeft = 0
    · simp [tryStart, start_accepted (s.handover (some t)) t rfl (by simpa using hf), hf]
    · simp [tryStart, start_refused (s.handover (some t)) t rfl (by simpa using Nat.pos_of_ne_zero hf),
        Nat.pos_of_ne_zero hf, hf]

/-- After a configure that changes the target the phase is connecting when a connect to a
target was accepted, and unconfigured otherwise. -/
theorem configure_phase (hd : Disciplined s) :
    (s.configure t).phase =
      if t.isSome ∧ s.backend.connector.failuresLeft = 0 then .connecting else .unconfigured := by
  have hm := congrArg Machine.phase (configure_machine h hne hd)
  rw [foldl_moveTo_phase, getLastD_passage] at hm
  rw [phase, hm]
  simp

end Configure

@[simp] theorem reconfigure_desired (s : Supervisor) : s.reconfigure.desired = s.desired := by
  by_cases heq : s.target = s.desired
  · simp [reconfigure_of_eq s heq]
  · rw [reconfigure_of_ne s heq]
    split
    · obtain ⟨r, hr⟩ := tryStart_eq
        { ({ s with recovery := none } : Supervisor).release with target := s.desired }
      rw [hr]
      simp only [start_desired, release_desired]
    · simp

@[simp] theorem configure_desired (s : Supervisor) (t : Option Target) :
    (s.configure t).desired = t := by
  unfold configure
  split
  · assumption
  · simp

/-- Applying settings twice with the same connect string and session timeout: the second call
changes nothing, whatever the other settings. -/
theorem applySettings_of_same_target (s : Supervisor) {st st' : Settings}
    (hc : st'.connectString = st.connectString) (ht : st'.sessionTimeoutMs = st.sessionTimeoutMs) :
    (s.applySettings st).applySettings st' = s.applySettings st := by
  have htarget : st'.target = st.target := by simp [Settings.target, hc, ht]
  exact configure_of_eq _ _ ((configure_desired s st.target).trans htarget.symm)

/-- Configuring a supervisor that a run reached. Asking for the target asked for last changes
nothing. Asking for another target `t`: `t` is asked for, and every session held before is
closed; the machine moves through `passage` (for a target: reconnecting unless the phase was
unconfigured, then connecting, and unconfigured again when the connector refuses; for none:
unconfigured), so the phase ends connecting after an accepted connect and unconfigured otherwise;
the supervisor connects once, to `t`, and not at all for none; a recovery runs exactly after a
refused connect, with its attempt due at once; a session is held exactly after an accepted one.
Applying settings asks for their target, so settings with the same connect string and session
timeout as those applied last change nothing. -/
theorem configure_follows_target (options : Options) (automatic : Bool) (ms : List Move)
    (t : Option Target) :
    let s := (init options automatic).run ms
    (t = s.desired → s.configure t = s) ∧
    (t ≠ s.desired →
      (s.configure t).desired = t ∧
      (∀ i, s.session = some i →
        ∃ ss, (s.configure t).backend.connector.session? i = some ss ∧ ss.status = .closed) ∧
      (s.configure t).machine =
        (passage s.phase (decide (0 < s.backend.connector.failuresLeft)) t).foldl
          Machine.moveTo s.machine ∧
      (s.configure t).phase =
        (if t.isSome ∧ s.backend.connector.failuresLeft = 0 then .connecting else .unconfigured) ∧
      (s.configure t).backend.connector.attempts = s.backend.connector.attempts ++ t.toList ∧
      (s.configure t).recovery =
        (if t.isSome ∧ 0 < s.backend.connector.failuresLeft then some .due else none) ∧
      ((s.configure t).session.isSome ↔ t.isSome ∧ s.backend.connector.failuresLeft = 0)) ∧
    ∀ st st' : Settings, s.applySettings st = s.configure st.target ∧
      (st'.connectString = st.connectString → st'.sessionTimeoutMs = st.sessionTimeoutMs →
        (s.applySettings st).applySettings st' = s.applySettings st) := by
  intro s
  have hd : Disciplined s := run_disciplined (init_disciplined options automatic) ms
  have h : Recovering s :=
    run_recovering (init_recovering options automatic) (init_disciplined options automatic) ms
  refine ⟨fun heq => configure_of_eq s t heq.symm, fun hne => ?_,
    fun st st' => ⟨rfl, applySettings_of_same_target s⟩⟩
  obtain ⟨hrec, hsess⟩ := configure_recovery_session h hne
  exact ⟨configure_desired s t, fun i hi => configure_closes_held h hne hd hi,
    configure_machine h hne hd, configure_phase h hne hd, configure_attempts h hne, hrec, hsess⟩

end Coordination.Supervisor
