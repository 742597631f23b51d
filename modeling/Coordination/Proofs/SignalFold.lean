import Coordination.Proofs.Lifecycle

/-!
Signals of the current generation move the phase as the table `Phase.after` says. Over a
connector that accepts every connect, a supervisor with a target always holds a session,
and the one effect the table leaves out, the restart after an expiry, always succeeds and
lands in connecting. So the phase after each signal of a sequence is the table's fold of the
sequence so far; right after a new target is configured the fold starts from connecting.
-/

namespace Coordination

/-- A move that scripts no refusal of the connector. -/
def Move.accepting : Move → Bool
  | .refuse n => n == 0
  | _ => true

namespace Supervisor

/-- What a supervisor keeps while its connector accepts every connect: no refusal is
pending, the lifecycle's target is the desired one, and a target is served by a held
session. -/
structure Served (s : Supervisor) : Prop where
  accepting : s.backend.connector.failuresLeft = 0
  settled : s.target = s.desired
  held : s.target.isSome → s.session.isSome

theorem Served.withRecovery {s : Supervisor} (h : Served s) (r : Option Recovery) :
    Served { s with recovery := r } :=
  ⟨h.accepting, h.settled, h.held⟩

theorem init_served (options : Options) (automatic : Bool) : Served (init options automatic) where
  accepting := rfl
  settled := rfl
  held := by simp [init]

theorem start_served {s : Supervisor} (hf : s.backend.connector.failuresLeft = 0)
    (hs : s.target = s.desired) : Served s.start.2 := by
  cases ht : s.target with
  | none =>
    rw [start_of_none s ht]
    exact ⟨hf, hs, by simp [ht]⟩
  | some t =>
    rw [start_accepted s t ht hf]
    exact ⟨hf, hs, by simp⟩

theorem tryStart_served {s : Supervisor} (hf : s.backend.connector.failuresLeft = 0)
    (hs : s.target = s.desired) : Served s.tryStart := by
  obtain ⟨r, hr⟩ := tryStart_eq s
  rw [hr]
  exact (start_served hf hs).withRecovery r

theorem process_served {s : Supervisor} (h : Served s) (g : Nat) (signal : Signal) :
    Served (s.process g signal) := by
  by_cases hc : s.session.isSome ∧ g = s.generation
  · obtain ⟨hs, rfl⟩ := hc
    rw [process_of_held s signal hs]
    cases signal with
    | connected => exact ⟨h.accepting, h.settled, h.held⟩
    | disconnected =>
      dsimp only
      split
      · exact h
      · exact ⟨h.accepting, h.settled, h.held⟩
    | expired =>
      exact tryStart_served (by simpa using h.accepting) (by simpa using h.settled)
  · rw [process_of_stale s g signal hc]
    exact h

theorem reconfigure_served {s : Supervisor} (hf : s.backend.connector.failuresLeft = 0)
    (hh : s.target.isSome → s.session.isSome) : Served s.reconfigure := by
  by_cases heq : s.target = s.desired
  · rw [reconfigure_of_eq s heq]
    exact ⟨hf, heq, hh⟩
  · rw [reconfigure_of_ne s heq]
    have hf' : { s with recovery := none }.release.backend.connector.failuresLeft = 0 := by
      simpa [release_eq] using hf
    split
    · exact tryStart_served hf' (by simp [release_eq])
    · rename_i hd
      exact ⟨hf', by simp [release_eq], by simp [hd]⟩

theorem configure_served {s : Supervisor} (h : Served s) (t : Option Target) :
    Served (s.configure t) := by
  unfold configure
  split
  · exact h
  · exact reconfigure_served h.accepting h.held

theorem shutdown_served {s : Supervisor} (h : Served s) : Served s.shutdown :=
  ⟨by simpa [shutdown] using h.accepting, by simp [shutdown], by simp [shutdown]⟩

theorem recover_served {s : Supervisor} (h : Served s) (now : Nat) : Served (s.recover now) := by
  by_cases hw : s.target.isSome ∧ s.phase = .unconfigured
  · obtain ⟨r, hr⟩ := recover_of_waiting s now hw.1 hw.2
    rw [hr]
    exact (start_served h.accepting h.settled).withRecovery r
  · rw [recover_of_idle s now hw]
    exact h.withRecovery none

theorem control_served {s : Supervisor} (h : Served s) (i : Nat) (c : Control) :
    Served (s.control i c) := by
  cases hs : s.backend.connector.session? i with
  | none => rw [control_of_none s i c hs]; exact h
  | some ss =>
    rw [control_of_some s i c hs]
    exact ⟨by simpa [withWorld] using h.accepting, by simpa [withWorld] using h.settled,
      by simpa [withWorld] using h.held⟩

theorem handleNext_served {s : Supervisor} (h : Served s) : Served s.handleNext := by
  cases he : s.events with
  | nil => rw [handleNext_nil s he]; exact h
  | cons e rest =>
    rw [handleNext_cons s (he.trans rfl)]
    exact process_served (s := { s with events := rest }) ⟨h.accepting, h.settled, h.held⟩
      e.1 e.2

theorem step_served {s : Supervisor} (h : Served s) {m : Move} (hm : m.accepting) :
    Served (s.step m) := by
  cases m with
  | configure t => exact configure_served h t
  | shutdown => exact shutdown_served h
  | refuse n =>
    have hn : n = 0 := by simpa [Move.accepting] using hm
    exact ⟨by simp [step, withWorld, Connector.failNext, hn], h.settled, h.held⟩
  | control i c => exact control_served h i c
  | inject g signal => exact process_served h g signal
  | pump => exact handleNext_served h
  | recover now =>
    simp only [step]
    split
    · exact recover_served h now
    · exact h
  | register l => exact ⟨h.accepting, h.settled, h.held⟩
  | unregister id => exact ⟨h.accepting, h.settled, h.held⟩
  | deliver => exact ⟨h.accepting, h.settled, h.held⟩

theorem run_served {s : Supervisor} (h : Served s) {ms : List Move}
    (hms : ∀ m ∈ ms, m.accepting) : Served (s.run ms) := by
  induction ms generalizing s with
  | nil => exact h
  | cons m ms ih =>
    obtain ⟨hm, hms⟩ := List.forall_mem_cons.mp hms
    exact ih (step_served h hm) hms

/-- One signal of the current generation moves a served supervisor with a target as the
phase table says. -/
theorem process_phase {s : Supervisor} (h : Served s) (ht : s.target.isSome) (signal : Signal) :
    (s.process s.generation signal).phase = s.phase.step signal := by
  rw [process_of_held s signal (h.held ht)]
  cases signal with
  | connected => simp [Phase.step, Phase.after]
  | disconnected =>
    by_cases hp : s.phase = .unconfigured <;> simp [hp, Phase.step, Phase.after]
  | expired =>
    obtain ⟨t, ht'⟩ := Option.isSome_iff_exists.mp ht
    obtain ⟨r, hr⟩ := tryStart_eq s.closeCurrent
    rw [hr, start_accepted _ t (by simpa using ht') (by simpa using h.accepting)]
    simp [phase, Phase.step, Phase.after]

/-- A served supervisor with a target passes, signal by signal, through the phases of the
table's fold. -/
theorem scanl_process_phase {s : Supervisor} (h : Served s) (ht : s.target.isSome)
    (es : List Signal) :
    (es.scanl (fun s e => s.process s.generation e) s).map phase =
      es.scanl Phase.step s.phase := by
  induction es generalizing s with
  | nil => simp
  | cons e es ih =>
    have ht' : (s.process s.generation e).target.isSome := by simpa using ht
    simp only [List.scanl_cons, List.map_cons, ih (process_served h _ e) ht',
      process_phase h ht e]

theorem configure_connecting {s : Supervisor} (h : Served s) {t : Target}
    (hd : s.desired ≠ some t) :
    (s.configure (some t)).phase = .connecting ∧ (s.configure (some t)).target.isSome := by
  have hne : s.target ≠ some t := h.settled ▸ hd
  simp only [configure, hd, if_false]
  rw [reconfigure_of_ne _ hne]
  simp only [Option.isSome_some, if_true]
  obtain ⟨r, hr⟩ := tryStart_eq
    { { { s with desired := some t } with recovery := none }.release with target := some t }
  rw [hr, start_accepted _ t rfl (by simpa [release_eq] using h.accepting)]
  simp [phase]

/-- Over a connector that accepts every connect, in every run, a configured supervisor
processes any sequence of signals tagged with the generation current when each is processed
as the phase table `Phase.after` folds them, a signal with no entry keeping the phase; after
configuring a new target the fold starts from connecting. -/
theorem phase_follows_signal_table (options : Options) (automatic : Bool) (ms : List Move)
    (hms : ∀ m ∈ ms, m.accepting) (es : List Signal) :
    let s := (init options automatic).run ms
    (s.desired.isSome →
      (es.scanl (fun s e => s.process s.generation e) s).map phase =
        es.scanl Phase.step s.phase) ∧
    ∀ t, s.desired ≠ some t →
      (es.scanl (fun s e => s.process s.generation e) (s.configure (some t))).map phase =
        es.scanl Phase.step .connecting := by
  intro s
  have h : Served s := run_served (init_served options automatic) hms
  refine ⟨fun hd => scanl_process_phase h (h.settled ▸ hd) es, fun t hd => ?_⟩
  obtain ⟨hp, ht⟩ := configure_connecting h hd
  rw [scanl_process_phase (configure_served h _) ht es, hp]

/-- Over an automatic connector: connected after the first signal is pumped, then a drop, an
expiry and a new connect; and a second target, then a connect and a drop. -/
theorem phase_follows_signal_table_twice :
    let s := (init ⟨Duration.ofMillis 20000, none⟩ true).run
      [.configure (some ⟨"mem:1", Duration.ofMillis 10000⟩), .pump]
    (∀ m ∈ [Move.configure (some ⟨"mem:1", Duration.ofMillis 10000⟩), .pump], m.accepting) ∧
    s.desired.isSome ∧
    ([Signal.disconnected, .expired, .connected].scanl (fun s e => s.process s.generation e)
      s).map phase = [.connected, .reconnecting, .connecting, .connected] ∧
    s.desired ≠ some ⟨"mem:2", Duration.ofMillis 10000⟩ ∧
    ([Signal.connected, .disconnected].scanl (fun s e => s.process s.generation e)
      (s.configure (some ⟨"mem:2", Duration.ofMillis 10000⟩))).map phase =
      [.connecting, .connected, .reconnecting] := by
  intro s
  have h := phase_follows_signal_table ⟨Duration.ofMillis 20000, none⟩ true
    [.configure (some ⟨"mem:1", Duration.ofMillis 10000⟩), .pump] (by decide)
  refine ⟨by decide, by decide, ?_, by decide, ?_⟩
  · rw [(h [.disconnected, .expired, .connected]).1 (by decide)]
    decide
  · rw [(h [.connected, .disconnected]).2 _ (by decide)]
    decide

end Supervisor

end Coordination
