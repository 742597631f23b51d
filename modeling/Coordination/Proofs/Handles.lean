import Coordination.Proofs.Lifecycle

/-!
The discipline a supervisor keeps over the session handles its connector opened, in every
run and between any two moves: the phase is unconfigured exactly when no session is held; a
held session is the latest one opened and carries the current generation; every other
session is closed and older. So a signal of any session but the held one, or of any other
generation, is ignored, and no session is ever left open behind the supervisor's back.

Every operation that lets go of the held session closes it first and starts the next one
only afterwards, from a quiet state: nothing held, everything opened closed.
-/

namespace Coordination.Supervisor

/-- The discipline over session handles. -/
structure Disciplined (s : Supervisor) : Prop where
  unconfigured_iff : s.phase = .unconfigured ↔ s.session = none
  held : ∀ i, s.session = some i → s.target.isSome ∧ i + 1 = s.backend.connector.sessions.length ∧
    ∃ ss, s.backend.connector.session? i = some ss ∧ ss.generation = s.generation
  others : ∀ j ss, s.backend.connector.session? j = some ss → s.session ≠ some j →
    ss.status = .closed ∧ ss.generation < s.generation

/-- Between letting go of a session and starting the next: nothing is held and every session
opened is closed, with a generation no later than the current one. -/
structure Quiet (s : Supervisor) : Prop where
  none_held : s.session = none
  closed : ∀ j ss, s.backend.connector.session? j = some ss →
    ss.status = .closed ∧ ss.generation ≤ s.generation

theorem Disciplined.withRecovery {s : Supervisor} (h : Disciplined s) (r : Option Recovery) :
    Disciplined { s with recovery := r } :=
  ⟨h.unconfigured_iff, h.held, h.others⟩

theorem Disciplined.withDesired {s : Supervisor} (h : Disciplined s) (t : Option Target) :
    Disciplined { s with desired := t } :=
  ⟨h.unconfigured_iff, h.held, h.others⟩

theorem Quiet.withTarget {s : Supervisor} (h : Quiet s) (t : Option Target) :
    Quiet { s with target := t } :=
  ⟨h.none_held, h.closed⟩

theorem init_disciplined (options : Options) (automatic : Bool) :
    Disciplined (init options automatic) where
  unconfigured_iff := by simp [init, phase]
  held := by simp [init]
  others := by simp [init, Connector.session?]

/-! ## Letting go of the held session -/

theorem quiet_of_unconfigured {s : Supervisor} (h : Disciplined s)
    (hp : s.phase = .unconfigured) : Quiet s := by
  have hn : s.session = none := h.unconfigured_iff.mp hp
  refine ⟨hn, fun j ss hj => ?_⟩
  obtain ⟨hc, hg⟩ := h.others j ss hj (by simp [hn])
  exact ⟨hc, Nat.le_of_lt hg⟩

theorem closeCurrent_quiet {s : Supervisor} (h : Disciplined s) : Quiet s.closeCurrent := by
  cases hs : s.session with
  | none =>
    rw [closeCurrent_of_none s hs]
    refine ⟨hs, fun j ss hj => ?_⟩
    obtain ⟨hc, hg⟩ := h.others j ss hj (by simp [hs])
    exact ⟨hc, Nat.le_of_lt hg⟩
  | some i =>
    obtain ⟨-, -, ss, hi, hgen⟩ := h.held i hs
    rw [closeCurrent_of_held s hs hi]
    refine ⟨rfl, fun j ss' hj => ?_⟩
    by_cases hij : i = j
    · subst hij
      simp only [Connector.session?_setSession_self, hi, Option.map_some,
        Option.some.injEq] at hj
      subst hj
      simp [hgen]
    · rw [Connector.session?_setSession_ne _ _ hij] at hj
      obtain ⟨hc, hg⟩ := h.others j ss' hj (by simp [hs, hij])
      exact ⟨hc, Nat.le_of_lt hg⟩

theorem release_quiet {s : Supervisor} (h : Disciplined s) : Quiet s.release := by
  have hq := closeCurrent_quiet h
  rw [release_eq]
  exact ⟨hq.none_held, hq.closed⟩

/-! ## Starting the next session -/

theorem start_disciplined {s : Supervisor} (hq : Quiet s) (ht : s.target.isSome) :
    Disciplined s.start.2 := by
  obtain ⟨t, ht⟩ := Option.isSome_iff_exists.mp ht
  by_cases hf : s.backend.connector.failuresLeft = 0
  · rw [start_accepted s t ht hf]
    refine ⟨by simp [phase], fun i hi => ?_, fun j ss hj hne => ?_⟩
    · simp only [Option.some.injEq] at hi
      subst hi
      refine ⟨by simp [ht], by simp, ?_⟩
      simp [Connector.session?]
    · simp only [Connector.session?, List.getElem?_append, Option.some.injEq, ne_eq] at hj hne
      split at hj
      · obtain ⟨hc, hg⟩ := hq.closed j ss (by simpa [Connector.session?] using hj)
        exact ⟨hc, Nat.lt_succ_of_le hg⟩
      · rename_i hlen
        have hj' : j = s.backend.connector.sessions.length := by
          simp only [List.getElem?_singleton] at hj
          split at hj <;> simp_all
          omega
        exact absurd hj'.symm hne
  · rw [start_refused s t ht (Nat.pos_of_ne_zero hf)]
    refine ⟨by simp [phase, hq.none_held], fun i hi => by simp [hq.none_held] at hi,
      fun j ss hj _ => ?_⟩
    obtain ⟨hc, hg⟩ := hq.closed j ss hj
    exact ⟨hc, Nat.lt_succ_of_le hg⟩

theorem tryStart_disciplined {s : Supervisor} (hq : Quiet s) (ht : s.target.isSome) :
    Disciplined s.tryStart := by
  obtain ⟨r, hr⟩ := tryStart_eq s
  have h := start_disciplined hq ht
  rw [hr]
  exact h.withRecovery r

/-- With no target left, a bump of the generation from a quiet unconfigured state is
disciplined. -/
theorem bump_disciplined {s : Supervisor} (hq : Quiet s) (hp : s.phase = .unconfigured) :
    Disciplined { s with generation := s.generation + 1 } := by
  refine ⟨⟨fun _ => hq.none_held, fun _ => hp⟩, fun i hi => by simp [hq.none_held] at hi,
    fun j ss hj _ => ?_⟩
  obtain ⟨hc, hg⟩ := hq.closed j ss hj
  exact ⟨hc, Nat.lt_succ_of_le hg⟩

/-! ## Every move -/

theorem process_disciplined {s : Supervisor} (h : Disciplined s) (g : Nat) (signal : Signal) :
    Disciplined (s.process g signal) := by
  by_cases hc : s.session.isSome ∧ g = s.generation
  · obtain ⟨hs, rfl⟩ := hc
    have hn : s.session ≠ none := Option.isSome_iff_ne_none.mp hs
    rw [process_of_held s signal hs]
    cases signal with
    | connected => exact ⟨by simp [phase, hn], h.held, h.others⟩
    | disconnected =>
      dsimp only
      split
      · exact h
      · exact ⟨by simp [phase, hn], h.held, h.others⟩
    | expired =>
      obtain ⟨i, hi⟩ := Option.isSome_iff_exists.mp hs
      exact tryStart_disciplined (closeCurrent_quiet h) (by simpa using (h.held i hi).1)
  · rw [process_of_stale s g signal hc]
    exact h

theorem reconfigure_disciplined {s : Supervisor} (h : Disciplined s) :
    Disciplined s.reconfigure := by
  by_cases heq : s.target = s.desired
  · rw [reconfigure_of_eq s heq]
    exact h.withRecovery none
  · rw [reconfigure_of_ne s heq]
    have hq := release_quiet (h.withRecovery none)
    split
    · rename_i hd
      exact tryStart_disciplined (hq.withTarget s.desired) hd
    · rename_i hd
      have hp : ({ s with recovery := none } : Supervisor).release.phase = .unconfigured := by
        simp [release_eq, phase, hd]
      exact bump_disciplined (hq.withTarget s.desired) hp

theorem configure_disciplined {s : Supervisor} (h : Disciplined s) (t : Option Target) :
    Disciplined (s.configure t) := by
  unfold configure
  split
  · exact h
  · exact reconfigure_disciplined (h.withDesired t)

theorem shutdown_disciplined {s : Supervisor} (h : Disciplined s) : Disciplined s.shutdown := by
  have hq := closeCurrent_quiet h
  rw [shutdown_eq]
  refine ⟨by simp [phase], fun i hi => by simp at hi,
    fun j ss hj _ => ?_⟩
  obtain ⟨hc, hg⟩ := hq.closed j ss hj
  exact ⟨hc, Nat.lt_succ_of_le (by simpa using hg)⟩

theorem recover_disciplined {s : Supervisor} (h : Disciplined s) (now : Nat) :
    Disciplined (s.recover now) := by
  by_cases hw : s.target.isSome ∧ s.phase = .unconfigured
  · obtain ⟨r, hr⟩ := recover_of_waiting s now hw.1 hw.2
    have h' := start_disciplined (quiet_of_unconfigured h hw.2) hw.1
    rw [hr]
    exact h'.withRecovery r
  · rw [recover_of_idle s now hw]
    exact h.withRecovery none

/-- A control keeps the generation of the session it acts on and leaves a closed one
alone, so it keeps the discipline. -/
theorem control_disciplined {s : Supervisor} (h : Disciplined s) (i : Nat) (c : Control) :
    Disciplined (s.control i c) := by
  cases hs : s.backend.connector.session? i with
  | none => rw [control_of_none s i c hs]; exact h
  | some ss =>
    rw [control_of_some s i c hs]
    refine ⟨by simpa [phase, withWorld] using h.unconfigured_iff, fun k hk => ?_,
      fun j ss' hj hne => ?_⟩
    · simp only [emit_session, withWorld] at hk
      obtain ⟨ht, hlen, ss₀, hk₀, hg⟩ := h.held k hk
      refine ⟨by simpa [withWorld] using ht, by simpa [withWorld, Connector.setSession] using hlen,
        ?_⟩
      by_cases hik : i = k
      · subst hik
        simp only [hs, Option.some.injEq] at hk₀
        subst hk₀
        simp [withWorld, hs, hg]
      · simp [withWorld, Connector.session?_setSession_ne _ _ hik, hk₀, hg]
    · simp only [emit_backend, emit_session, emit_generation, withWorld] at hj hne ⊢
      by_cases hij : i = j
      · subst hij
        simp only [Connector.session?_setSession_self, hs, Option.map_some,
          Option.some.injEq] at hj
        subst hj
        obtain ⟨hc, hg⟩ := h.others i ss hs hne
        simp [Session.control_of_closed ss _ c hc, hc, hg]
      · rw [Connector.session?_setSession_ne _ _ hij] at hj
        exact h.others j ss' hj hne

theorem handleNext_disciplined {s : Supervisor} (h : Disciplined s) :
    Disciplined s.handleNext := by
  cases he : s.events with
  | nil => rw [handleNext_nil s he]; exact h
  | cons e rest =>
    rw [handleNext_cons s (he.trans rfl)]
    exact process_disciplined (s := { s with events := rest })
      ⟨h.unconfigured_iff, h.held, h.others⟩ e.1 e.2

theorem step_disciplined {s : Supervisor} (h : Disciplined s) (m : Move) :
    Disciplined (s.step m) := by
  cases m with
  | configure t => exact configure_disciplined h t
  | shutdown => exact shutdown_disciplined h
  | refuse n => exact ⟨h.unconfigured_iff, h.held, h.others⟩
  | control i c => exact control_disciplined h i c
  | inject g signal => exact process_disciplined h g signal
  | pump => exact handleNext_disciplined h
  | recover now =>
    simp only [step]
    split
    · exact recover_disciplined h now
    · exact h
  | register l => exact ⟨h.unconfigured_iff, h.held, h.others⟩
  | unregister id => exact ⟨h.unconfigured_iff, h.held, h.others⟩
  | deliver => exact ⟨h.unconfigured_iff, h.held, h.others⟩

theorem run_disciplined {s : Supervisor} (h : Disciplined s) (ms : List Move) :
    Disciplined (s.run ms) := by
  induction ms generalizing s with
  | nil => exact h
  | cons m ms ih => exact ih (step_disciplined h m)

/-! ## Signals of replaced sessions -/

theorem process_of_replaced {s : Supervisor} (h : Disciplined s) {j : Nat} {ss : Session}
    (hj : s.backend.connector.session? j = some ss) (hne : s.session ≠ some j)
    (signal : Signal) : s.process ss.generation signal = s :=
  process_of_ne s _ signal (Nat.ne_of_lt (h.others j ss hj hne).2)

/-- In every run of a supervisor, between moves: the phase is unconfigured exactly when no
session is held; a held session is the latest one the connector opened, for the current
target, and carries the current generation; every other session the connector ever opened
is closed with an older generation, so none is left open; and `process` leaves the whole
supervisor unchanged for a signal of any session but the held one and for a signal of any
other generation. -/
theorem session_handle_discipline (options : Options) (automatic : Bool) (ms : List Move) :
    let s := (init options automatic).run ms
    (s.phase = .unconfigured ↔ s.session = none) ∧
    (∀ i, s.session = some i → s.target.isSome ∧ i + 1 = s.backend.connector.sessions.length ∧
      ∃ ss, s.backend.connector.session? i = some ss ∧ ss.generation = s.generation) ∧
    (∀ j ss, s.backend.connector.session? j = some ss → s.session ≠ some j →
      ss.status = .closed ∧ ss.generation < s.generation) ∧
    (∀ j ss signal, s.backend.connector.session? j = some ss → s.session ≠ some j →
      s.process ss.generation signal = s) ∧
    (∀ g signal, g ≠ s.generation → s.process g signal = s) := by
  intro s
  have h : Disciplined s := run_disciplined (init_disciplined options automatic) ms
  exact ⟨h.unconfigured_iff, h.held, h.others,
    fun j ss signal hj hne => process_of_replaced h hj hne signal,
    fun g signal hg => process_of_ne s g signal hg⟩

end Coordination.Supervisor
