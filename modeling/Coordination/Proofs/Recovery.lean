import Coordination.Proofs.Handles

/-!
Recovery in every run of a supervisor. The target followed is always the one asked for last,
and a recovery task exists exactly while a target is followed and the phase is unconfigured: a
start that is refused, by whichever operation, leaves one behind, and one that is accepted
leaves none (`run_recovering`). So the supervisor never stops trying to reconnect while it has
a target and no session, and each attempt of its recovery task is one connect to that target.

The single `recovery` slot stands for the one task whose cancellation has not been asked for;
recovery is reported active exactly while it is filled.

All of this rests on each `configure` being one step. The call records the target asked for
and cancels recovery (`ask`) before it takes the lifecycle lock, and follows the target under
the lock (`follow`), while recovery holds the lock across its pauses. Two calls whose first
halves both run during one pause, asking for another target and then for the followed one
again, each find the target followed once they get the lock, and return: the target stays
followed with no session and no recovery (`overlapping_configure_strands`).
-/

namespace Coordination.Supervisor

/-- Recovery follows the lifecycle: the target followed is the one asked for last, and a
recovery task exists exactly while a target is followed and no session could be started. -/
structure Recovering (s : Supervisor) : Prop where
  follows : s.target = s.desired
  active_iff : s.recovery.isSome ↔ s.target.isSome ∧ s.phase = .unconfigured

theorem init_recovering (options : Options) (automatic : Bool) :
    Recovering (init options automatic) where
  follows := rfl
  active_iff := by simp [init]

theorem Recovering.of_frame {s s' : Supervisor} (h : Recovering s) (ht : s'.target = s.target)
    (hd : s'.desired = s.desired) (hr : s'.recovery = s.recovery) (hp : s'.phase = s.phase) :
    Recovering s' :=
  ⟨by rw [ht, hd]; exact h.follows, by rw [ht, hr, hp]; exact h.active_iff⟩

theorem Recovering.recovery_of_held {s : Supervisor} (h : Recovering s) (hd : Disciplined s)
    (hs : s.session.isSome) : s.recovery = none := by
  have hp : s.phase ≠ .unconfigured := fun hp => by
    simp [hd.unconfigured_iff.mp hp] at hs
  cases hr : s.recovery with
  | none => rfl
  | some r => exact absurd (h.active_iff.mp (by simp [hr])).2 hp

/-! ## Starts and recovery attempts -/

@[simp] theorem release_desired (s : Supervisor) : s.release.desired = s.desired := by
  simp [release_eq]

@[simp] theorem release_recovery (s : Supervisor) : s.release.recovery = s.recovery := by
  simp [release_eq]

theorem tryStart_recovering {s : Supervisor} (hf : s.target = s.desired) (ht : s.target.isSome)
    (hr : s.recovery = none) : Recovering s.tryStart := by
  obtain ⟨t, ht'⟩ := Option.isSome_iff_exists.mp ht
  obtain ⟨r, hr'⟩ := tryStart_eq s
  have hframe : s.tryStart.target = s.target ∧ s.tryStart.desired = s.desired := by
    simp [hr']
  refine ⟨by rw [hframe.1, hframe.2, hf], ?_⟩
  rw [hframe.1]
  by_cases hfl : s.backend.connector.failuresLeft = 0
  · simp [tryStart, start_accepted s t ht' hfl, hr, phase]
  · simp [tryStart, start_refused s t ht' (Nat.pos_of_ne_zero hfl), ht', hr, phase]

/-- After every recovery attempt, recovery goes on exactly while a target is followed and the
phase is unconfigured: it ends when there is nothing to do or a start is accepted. -/
theorem recover_active_iff (s : Supervisor) (now : Nat) :
    (s.recover now).recovery.isSome ↔
      (s.recover now).target.isSome ∧ (s.recover now).phase = .unconfigured := by
  by_cases hw : s.target.isSome ∧ s.phase = .unconfigured
  · obtain ⟨t, ht⟩ := Option.isSome_iff_exists.mp hw.1
    have hp : s.machine.phase = .unconfigured := hw.2
    by_cases hfl : s.backend.connector.failuresLeft = 0
    · simp [recover, start_accepted s t ht hfl, ht, hp, phase]
    · simp [recover, start_refused s t ht (Nat.pos_of_ne_zero hfl), ht, hp, phase]
  · rw [recover_of_idle s now hw]
    simp only [Option.isSome_none, Bool.false_eq_true, false_iff]
    exact hw

/-- A recovery attempt while a target is followed and the phase is unconfigured is one
connect to that target. -/
theorem recover_attempts {s : Supervisor} {t : Target} (now : Nat) (ht : s.target = some t)
    (hp : s.phase = .unconfigured) :
    (s.recover now).backend.connector.attempts = s.backend.connector.attempts ++ [t] := by
  by_cases hfl : s.backend.connector.failuresLeft = 0
  · simp [recover, start_accepted s t ht hfl, ht, hp]
  · simp [recover, start_refused s t ht (Nat.pos_of_ne_zero hfl), ht, hp]

theorem recover_frame (s : Supervisor) (now : Nat) :
    (s.recover now).target = s.target ∧ (s.recover now).desired = s.desired := by
  by_cases hw : s.target.isSome ∧ s.phase = .unconfigured
  · obtain ⟨r, hr⟩ := recover_of_waiting s now hw.1 hw.2
    simp [hr]
  · simp [recover_of_idle s now hw]

theorem recover_recovering {s : Supervisor} (h : Recovering s) (now : Nat) :
    Recovering (s.recover now) :=
  ⟨by rw [(recover_frame s now).1, (recover_frame s now).2, h.follows], recover_active_iff s now⟩

/-! ## Every move -/

section Moves

variable {s : Supervisor}

theorem process_recovering (h : Recovering s) (hd : Disciplined s) (g : Nat) (signal : Signal) :
    Recovering (s.process g signal) := by
  by_cases hc : s.session.isSome ∧ g = s.generation
  · obtain ⟨hs, rfl⟩ := hc
    have hr := h.recovery_of_held hd hs
    rw [process_of_held s signal hs]
    -- a connect or disconnect of the held session moves away from unconfigured
    have hmove : ∀ p, p ≠ .unconfigured → Recovering (s.moveTo p) := fun p hp =>
      ⟨h.follows, by simp [hr, phase, hp]⟩
    cases signal with
    | connected => exact hmove .connected (by decide)
    | disconnected =>
      dsimp only
      split
      · exact h
      · exact hmove .reconnecting (by decide)
    | expired =>
      obtain ⟨i, hi⟩ := Option.isSome_iff_exists.mp hs
      exact tryStart_recovering (by simpa using h.follows) (by simpa using (hd.held i hi).1)
        (by simpa using hr)
  · rw [process_of_stale s g signal hc]
    exact h

/-- A configure that changes the target releases the lifecycle and starts over from no
recovery, or drops the target. -/
theorem configure_recovering (h : Recovering s) (t : Option Target) :
    Recovering (s.configure t) := by
  unfold configure
  split
  · exact h
  · rename_i hne
    have hne' : ({ s with desired := t } : Supervisor).target ≠ t := by
      simpa [h.follows] using hne
    rw [reconfigure_of_ne _ hne']
    dsimp only
    split
    · rename_i ht
      exact tryStart_recovering (by simp) ht (by simp)
    · rename_i ht
      have ht' : t = none := by simpa using ht
      subst ht'
      exact ⟨by simp, by simp⟩

theorem shutdown_recovering : Recovering s.shutdown := by
  rw [shutdown_eq]
  exact ⟨rfl, by simp⟩

theorem control_recovering (h : Recovering s) (i : Nat) (c : Control) :
    Recovering (s.control i c) := by
  cases hs : s.backend.connector.session? i with
  | none => rw [control_of_none s i c hs]; exact h
  | some ss =>
    rw [control_of_some s i c hs]
    exact h.of_frame (by simp [withWorld]) (by simp [withWorld]) (by cases (ss.control
      s.backend.service c).2.2 <;> rfl) (by simp [phase, withWorld])

theorem handleNext_recovering (h : Recovering s) (hd : Disciplined s) :
    Recovering s.handleNext := by
  cases he : s.events with
  | nil => rw [handleNext_nil s he]; exact h
  | cons e rest =>
    rw [handleNext_cons s (he.trans rfl)]
    exact process_recovering (s := { s with events := rest }) ⟨h.follows, h.active_iff⟩
      ⟨hd.unconfigured_iff, hd.held, hd.others⟩ e.1 e.2

theorem step_recovering (h : Recovering s) (hd : Disciplined s) (m : Move) :
    Recovering (s.step m) := by
  cases m with
  | configure t => exact configure_recovering h t
  | shutdown => exact shutdown_recovering
  | refuse n => exact h.of_frame rfl rfl rfl rfl
  | control i c => exact control_recovering h i c
  | inject g signal => exact process_recovering h hd g signal
  | pump => exact handleNext_recovering h hd
  | recover now =>
    simp only [step]
    split
    · exact recover_recovering h now
    · exact h
  | register l => exact h.of_frame rfl rfl rfl (Machine.register_phase s.machine l)
  | unregister id => exact h.of_frame rfl rfl rfl rfl
  | deliver => exact h.of_frame rfl rfl rfl rfl

/-- Every run keeps recovery following the lifecycle; the discipline over sessions, which every
run keeps too, says that no signal reaches a supervisor that holds no session. -/
theorem run_recovering (h : Recovering s) (hd : Disciplined s) (ms : List Move) :
    Recovering (s.run ms) := by
  induction ms generalizing s with
  | nil => exact h
  | cons m ms ih => exact ih (step_recovering h hd m) (step_disciplined hd m)

end Moves

/-- In every run of a supervisor, between moves: the target followed is the one asked for last;
a recovery task exists exactly while a target is followed and the phase is unconfigured, so the
supervisor never stops reconnecting while it has a target and no session; without a task no
attempt is made, and each attempt of the task connects once to the target, after which the task
goes on exactly when the start was refused. -/
theorem recovery_never_lost (options : Options) (automatic : Bool) (ms : List Move) :
    let s := (init options automatic).run ms
    s.target = s.desired ∧
      (s.recovery.isSome ↔ s.target.isSome ∧ s.phase = .unconfigured) ∧
      ∀ now, (s.recovery = none → s.step (.recover now) = s) ∧
        (s.recovery.isSome → ∃ t, s.target = some t ∧
          (s.step (.recover now)).backend.connector.attempts =
            s.backend.connector.attempts ++ [t] ∧
          ((s.step (.recover now)).recovery.isSome ↔
            (s.step (.recover now)).phase = .unconfigured)) := by
  intro s
  have h : Recovering s :=
    run_recovering (init_recovering options automatic) (init_disciplined options automatic) ms
  refine ⟨h.follows, h.active_iff, fun now => ⟨fun hr => by simp [step, hr], fun hr => ?_⟩⟩
  obtain ⟨ht, hp⟩ := h.active_iff.mp hr
  obtain ⟨t, ht⟩ := Option.isSome_iff_exists.mp ht
  have hstep : s.step (.recover now) = s.recover now := by simp [step, hr]
  have htarget : (s.recover now).target = some t := (recover_frame s now).1.trans ht
  refine ⟨t, ht, by rw [hstep, recover_attempts now ht hp], ?_⟩
  rw [hstep, recover_active_iff, htarget]
  simp

/-! ## Configure calls that overlap -/

/-- The half of `configure` that runs before the lifecycle lock is taken: the target asked for
is recorded and recovery cancelled; `none` when that target was asked for last, and the call
returns at once. -/
def ask (s : Supervisor) (t : Option Target) : Option Supervisor :=
  if s.desired = t then none else some { s with desired := t, recovery := none }

/-- The half of `configure` that runs under the lifecycle lock: the target asked for last is
read again and followed, unless it is followed already. -/
def follow (s : Supervisor) : Supervisor :=
  if s.target = s.desired then s
  else
    let s := { s.release with target := s.desired }
    if s.target.isSome then s.tryStart else { s with generation := s.generation + 1 }

theorem configure_eq_ask_follow (s : Supervisor) (t : Option Target) :
    s.configure t = ((s.ask t).map follow).getD s := by
  unfold configure ask
  split <;> rfl

/-- While recovery pauses on a followed target `a`, two configure calls whose first halves both
run before either takes the lock, the first asking for another target `b` and the second for
`a` again, leave `a` followed, the phase unconfigured and no recovery: each finds `a` followed
once it gets the lock, and returns. -/
theorem overlapping_configure_strands {s : Supervisor} {a b : Target} (h : Recovering s)
    (ht : s.target = some a) (hr : s.recovery.isSome) (hab : b ≠ a) :
    ∃ s', ((s.ask (some b)).bind fun s => s.ask (some a)) = some s' ∧
      s'.follow.follow = s' ∧ s'.target = some a ∧ s'.phase = .unconfigured ∧
      s'.recovery = none := by
  have hp := (h.active_iff.mp hr).2
  have hd : s.desired = some a := h.follows ▸ ht
  have hb : s.desired ≠ some b := by simpa [hd] using hab.symm
  refine ⟨{ s with desired := some a, recovery := none }, ?_, ?_, ht, hp, rfl⟩
  · simp [ask, hb, hab]
  · have hfollow : follow { s with desired := some a, recovery := none } =
        { s with desired := some a, recovery := none } := by
      simp [follow, ht]
    rw [hfollow, hfollow]

/-- Three refused connects put a supervisor into recovery on a target `a`. Asking for `b` and
then for `a` again, one call after the other, leaves it recovering; with both first halves run
before either takes the lock, the same two calls leave `a` followed, the phase unconfigured and
no recovery. -/
theorem recovery_stranded_by_overlapping_configure :
    let a : Target := ⟨"a:2181", .ofMillis 10000⟩
    let b : Target := ⟨"b:2181", .ofMillis 10000⟩
    let s := (init ⟨.ofMillis 1000, none⟩ false).run [.refuse 3, .configure (some a)]
    (s.run [.configure (some b), .configure (some a)]).recovery.isSome ∧
      ∃ s', ((s.ask (some b)).bind fun s => s.ask (some a)) = some s' ∧
        s'.follow.follow = s' ∧ s'.target = some a ∧ s'.phase = .unconfigured ∧
        s'.recovery = none := by
  intro a b s
  have h : Recovering s := run_recovering (init_recovering _ _) (init_disciplined _ _) _
  exact ⟨by decide, overlapping_configure_strands h (by decide) (by decide) (by decide)⟩

end Coordination.Supervisor
