import Mathlib.Algebra.GroupWithZero.Nat
import Coordination.Proofs.Reconfiguration
import Coordination.Scenario.Timeline

/-!
# The schedule of recovery attempts

A supervisor given a target while unconfigured starts a session at once; when the connector
refuses it, recovery takes over. Its first attempt is due at once, and after each refusal it
pauses for the reconnect interval. This module follows the supervisor through the timeline of a
scenario, a configure step and then only steps that let time pass, against a connector that
refuses its next `k` connects:

* `Supervisor.settle_attempt`: one recovery attempt, refused or accepted, and where it leaves
  the schedule;
* `Timeline.waitLoop_schedule`, `Timeline.foldl_advance_schedule`: the schedule is kept by every
  wait of the timeline and by every run of advances;
* `Timeline.recovery_attempts_on_interval`: after time `T` has passed, the connects made are
  `min (k + 1) (2 + T / I)`, all against the target, so the `j`-th (for `j ≥ 2`) is made at
  time `(j - 2) * I`; recovery is running and the phase unconfigured exactly while the count is
  at most `k`, and after the last attempt the phase is connected or connecting.

The stages are the predicates `Refused` (between attempts), `Finished` (after the accepted
one), `OnSchedule` (one of the two, with the wake-up time of the next attempt) and `AtClock`
(the count of attempts fits the clock).
-/

namespace Coordination.Supervisor

variable {s : Supervisor} {now : Nat}

/-! ## The rounds of the background -/

theorem settle_pump (f : Nat) (h : s.events ≠ []) : settle now (f + 1) s = settle now f s.pump := by
  simp [settle, h]

theorem settle_due (f : Nat) (h : s.events = []) (hr : s.recovery = some .due) :
    settle now (f + 1) s = settle now f (s.recover now) := by
  simp [settle, h, hr]

theorem settle_wake (f : Nat) {w : Nat} (h : s.events = []) (hr : s.recovery = some (.sleeping w))
    (hw : w ≤ now) : settle now (f + 1) s = settle now f { s with recovery := some .due } := by
  simp [settle, h, hr, hw]

theorem settle_asleep (f : Nat) {w : Nat} (h : s.events = []) (hr : s.recovery = some (.sleeping w))
    (hw : now < w) : settle now f s = s := by
  cases f <;> simp [settle, h, hr, Nat.not_le.mpr hw]

theorem settle_idle (f : Nat) (h : s.events = []) (hr : s.recovery = none) : settle now f s = s := by
  cases f <;> simp [settle, h, hr]

theorem recover_refused {t : Target} (ht : s.target = some t) (hp : s.phase = .unconfigured)
    (hf : 0 < s.backend.connector.failuresLeft) :
    s.recover now =
      { s.start.2 with recovery := some (.sleeping (now + s.options.reconnectInterval.millis)) } := by
  simp [recover, ht, hp, start_refused s t ht hf]

theorem recover_accepted {t : Target} (ht : s.target = some t) (hp : s.phase = .unconfigured)
    (hf : s.backend.connector.failuresLeft = 0) :
    s.recover now = { s.start.2 with recovery := none } := by
  simp [recover, ht, hp, start_accepted s t ht hf]

theorem pump_single {g : Nat} {e : Signal} (h : s.events = [(g, e)]) :
    s.pump = { s with events := [] }.process g e := by
  simp [pump, h]

/-! ## The stages of the schedule -/

section Schedule

/-- What recovery works through: the target, the connects made before it started, how many
connects the connector refuses, the pause between attempts in milliseconds, and whether the
connector establishes each session at once. -/
structure Plan where
  target : Target
  before : List Target
  refusals : Nat
  pause : Nat
  automatic : Bool

variable (p : Plan)

/-- What every stage of the plan shares: its target followed and asked for, `n` connects to it
made after the earlier ones, the refusals left, no signal queued, and the plan's pause and kind
of connector. -/
structure Course (s : Supervisor) (n : Nat) : Prop where
  interval : s.options.reconnectInterval.millis = p.pause
  automatic : s.backend.connector.automatic = p.automatic
  target : s.target = some p.target
  desired : s.desired = some p.target
  attempts : s.backend.connector.attempts = p.before ++ List.replicate n p.target
  failuresLeft : s.backend.connector.failuresLeft = p.refusals - n
  events : s.events = []

/-- After `n` refused connects: unconfigured with no session, recovery at `r`. -/
structure Refused (s : Supervisor) (n : Nat) (r : Recovery) : Prop extends Course p s n where
  le : n ≤ p.refusals
  phase : s.phase = .unconfigured
  session : s.session = none
  recovery : s.recovery = some r

/-- After the connect that was accepted, the last: connecting, or connected once the signal of
a session the connector established at once was processed, and no recovery. -/
structure Finished (s : Supervisor) : Prop extends Course p s (p.refusals + 1) where
  phase : s.phase = if p.automatic then .connected else .connecting
  recovery : s.recovery = none

/-- The plan after `n` connects: paused until `w` while refusals are left, finished once the
last was accepted. -/
def OnSchedule (s : Supervisor) (n w : Nat) : Prop :=
  Refused p s n (.sleeping w) ∨ (n = p.refusals + 1 ∧ Finished p s)

/-- Where the plan stands at time `D`, recovery having started at `c0`: `n` connects made, the
last of them no later than `D`, and the next, if any, due after `D`. -/
structure AtClock (s : Supervisor) (c0 D n : Nat) : Prop where
  schedule : OnSchedule p s n (c0 + (n - 1) * p.pause)
  two_le : 2 ≤ n
  made : c0 + (n - 2) * p.pause ≤ D
  pending : n ≤ p.refusals → D < c0 + (n - 1) * p.pause

variable {p}

/-- A due attempt at `now` connects once more: refused while refusals are left, when recovery
pauses for the interval, and accepted otherwise, when the session's signal is processed. -/
theorem settle_attempt {n : Nat} (h : Refused p s n .due) (hI : 0 < p.pause) (f : Nat) :
    OnSchedule p (settle now (f + 2) s) (n + 1) (now + p.pause) := by
  rw [settle_due (f + 1) h.events h.recovery]
  rcases Nat.lt_or_ge n p.refusals with hn | hn
  · -- refused: recovery pauses
    have hf : 0 < s.backend.connector.failuresLeft := by rw [h.failuresLeft]; omega
    rw [recover_refused h.target h.phase hf, start_refused s p.target h.target hf,
      settle_asleep (f + 1) (by simp [h.events]) rfl (by rw [h.interval]; omega)]
    refine .inl ⟨⟨?_, ?_, ?_, ?_, ?_, ?_, ?_⟩, hn, ?_, ?_, ?_⟩ <;>
      simp [h.interval, h.automatic, h.target, h.desired, h.attempts, h.failuresLeft, h.events,
        h.session, phase, List.replicate_succ']
    -- one refusal fewer is left
    omega
  · -- accepted: the last attempt, whose session an automatic connector establishes at once
    obtain rfl : n = p.refusals := Nat.le_antisymm h.le hn
    have hf : s.backend.connector.failuresLeft = 0 := by rw [h.failuresLeft, Nat.sub_self]
    rw [recover_accepted h.target h.phase hf, start_accepted s p.target h.target hf]
    refine .inr ⟨rfl, ?_⟩
    cases ha : p.automatic
    · rw [settle_idle _ (by simp [h.events, h.automatic, ha]) rfl]
      refine ⟨⟨?_, ?_, ?_, ?_, ?_, ?_, ?_⟩, ?_, ?_⟩ <;>
        simp [h.interval, h.automatic, h.target, h.desired, h.attempts, h.failuresLeft, h.events,
          ha, phase, List.replicate_succ']
    · rw [settle_pump _ (by simp [h.events, h.automatic, ha]),
        pump_single (g := s.generation + 1) (e := .connected) (by simp [h.events, h.automatic, ha]),
        process_of_held _ _ (by simp), settle_idle _ (by simp) (by simp)]
      refine ⟨⟨?_, ?_, ?_, ?_, ?_, ?_, ?_⟩, ?_, ?_⟩ <;>
        simp [h.interval, h.automatic, h.target, h.desired, h.attempts, h.failuresLeft, ha, phase,
          moveTo, List.replicate_succ']

theorem Refused.wake {n w : Nat} (h : Refused p s n (.sleeping w)) :
    Refused p { s with recovery := some .due } n .due :=
  ⟨⟨h.interval, h.automatic, h.target, h.desired, h.attempts, h.failuresLeft, h.events⟩, h.le,
    h.phase, h.session, rfl⟩

theorem quiesce_asleep {n w : Nat} (h : Refused p s n (.sleeping w)) (hw : now < w) :
    s.quiesce now = s :=
  settle_asleep _ h.events h.recovery hw

theorem quiesce_wake {n w : Nat} (h : Refused p s n (.sleeping w)) (hw : w ≤ now)
    (hI : 0 < p.pause) : OnSchedule p (s.quiesce now) (n + 1) (now + p.pause) := by
  have hfuel : s.settleFuel = 3 * s.backend.connector.failuresLeft + 3 + 2 + 1 := by
    simp only [settleFuel, h.events, List.length_nil]
    omega
  rw [quiesce, hfuel, settle_wake _ h.events h.recovery hw]
  exact settle_attempt h.wake hI _

theorem quiesce_finished (h : Finished p s) : s.quiesce now = s :=
  settle_idle _ h.events h.recovery

/-- Asking an unconfigured supervisor with no target for `t`, while the connector refuses its
next `k` connects, makes the first connect, which is refused, and leaves recovery due. -/
theorem configure_refused {t : Target} {k : Nat} (ht : s.target = none) (hd : s.desired = none)
    (hp : s.phase = .unconfigured) (hs : s.session = none) (hr : s.recovery = none)
    (he : s.events = []) (hk : 0 < k) (hf : s.backend.connector.failuresLeft = k) :
    Refused ⟨t, s.backend.connector.attempts, k, s.options.reconnectInterval.millis,
      s.backend.connector.automatic⟩ (s.configure (some t)) 1 .due := by
  have hrec : Recovering s := ⟨by rw [ht, hd], by simp [hr, ht]⟩
  have hf' : 0 < (s.handover (some t)).backend.connector.failuresLeft := by
    rw [handover_failuresLeft, hf]
    exact hk
  have hm : s.machine.phase = .unconfigured := hp
  rw [configure_of_ne hrec (by simp [hd]), if_pos Option.isSome_some, tryStart,
    start_refused _ t (handover_target _) hf']
  simp only [handover_recovery, Option.isSome_none, Bool.false_eq_true, if_false]
  refine ⟨⟨?_, ?_, ?_, ?_, ?_, ?_, ?_⟩, hk, ?_, ?_, rfl⟩ <;>
    simp [handover, release_eq, phase, moveTo, hm, hs, he, hf]

theorem quiesce_due {n : Nat} (h : Refused p s n .due) (hI : 0 < p.pause) :
    OnSchedule p (s.quiesce now) (n + 1) (now + p.pause) := by
  have hfuel : s.settleFuel = 3 * s.backend.connector.failuresLeft + 4 + 2 := by
    simp only [settleFuel, h.events, List.length_nil]
    omega
  rw [quiesce, hfuel]
  exact settle_attempt h hI _

theorem OnSchedule.toCourse {n w : Nat} (h : OnSchedule p s n w) : Course p s n := by
  rcases h with h | ⟨rfl, h⟩
  · exact h.toCourse
  · exact h.toCourse

theorem OnSchedule.le {n w : Nat} (h : OnSchedule p s n w) : n ≤ p.refusals + 1 := by
  rcases h with h | ⟨rfl, -⟩
  · exact Nat.le_succ_of_le h.le
  · exact Nat.le_refl _

theorem OnSchedule.recovery_isSome {n w : Nat} (h : OnSchedule p s n w) :
    s.recovery.isSome ↔ n ≤ p.refusals := by
  rcases h with h | ⟨rfl, h⟩
  · simp [h.recovery, h.le]
  · simp [h.recovery]

/-- Unconfigured while refusals are left; connecting after the last connect, or connected once
the connector established the session. -/
theorem OnSchedule.phase_eq {n w : Nat} (h : OnSchedule p s n w) :
    s.phase = if n ≤ p.refusals then .unconfigured
      else if p.automatic then .connected else .connecting := by
  rcases h with h | ⟨rfl, h⟩
  · simp [h.phase, h.le]
  · have hn : ¬p.refusals + 1 ≤ p.refusals := by omega
    simp [h.phase, hn]

/-- The number of connects made by time `D`: two at once, then one per pause, up to the one
accepted. -/
theorem AtClock.count {s : Supervisor} {c0 D n : Nat} (h : AtClock p s c0 D n)
    (hI : 0 < p.pause) : n = min (p.refusals + 1) (2 + (D - c0) / p.pause) := by
  have hle := OnSchedule.le h.schedule
  have hmade := h.made
  have h2 := h.two_le
  rcases Nat.lt_or_ge n (p.refusals + 1) with hn | hn
  · -- refusals are left: the next connect is due after `D`
    have hpend := h.pending (by omega)
    have hq : (D - c0) / p.pause = n - 2 := by
      apply Nat.div_eq_of_lt_le
      · omega
      · rw [show n - 2 + 1 = n - 1 by omega]
        omega
    omega
  · -- the last connect was made by `D`
    have hq : p.refusals - 1 ≤ (D - c0) / p.pause := by
      rw [Nat.le_div_iff_mul_le hI]
      have : (p.refusals - 1) * p.pause ≤ (n - 2) * p.pause :=
        Nat.mul_le_mul_right _ (by omega)
      omega
    omega

theorem OnSchedule.withDispatch {n w : Nat} (h : OnSchedule p s n w) (d : Dispatch) :
    OnSchedule p { s with machine := { s.machine with dispatch := d } } n w := by
  rcases h with h | ⟨rfl, h⟩
  · exact .inl ⟨⟨h.interval, h.automatic, h.target, h.desired, h.attempts, h.failuresLeft,
      h.events⟩, h.le, h.phase, h.session, h.recovery⟩
  · exact .inr ⟨rfl, ⟨h.interval, h.automatic, h.target, h.desired, h.attempts, h.failuresLeft,
      h.events⟩, h.phase, h.recovery⟩

end Schedule

end Coordination.Supervisor

namespace Coordination.Timeline

open Supervisor

variable {p : Plan} {c0 : Nat}

/-- What a step leaves: the background run to rest at the step's clock, and the dispatcher's
queue delivered. -/
theorem step_snd (tl : Timeline) (st : Step) :
    (tl.step st).2 = (tl.apply st).2.withSup
      { (tl.apply st).2.sup.quiesce (tl.apply st).2.clock with
        machine := { ((tl.apply st).2.sup.quiesce (tl.apply st).2.clock).machine with
          dispatch := ((tl.apply st).2.sup.quiesce (tl.apply st).2.clock).machine.dispatch.drain } } :=
  rfl

theorem apply_configure (tl : Timeline) (t : Option Target) :
    (tl.apply (.configure t)).2 = tl.withSup (tl.sup.configure t) :=
  rfl

theorem apply_advance (tl : Timeline) (m : Nat) :
    (tl.apply (.advance m)).2 = (tl.waitUntil (fun _ => false) (some (tl.clock + m))).2 := by
  simp only [apply]
  split <;> rename_i heq <;> rw [heq]

theorem pause_after {n I : Nat} (hn : 1 ≤ n) : (n - 1) * I + I = (n + 1 - 1) * I := by
  rw [← Nat.succ_mul, Nat.succ_eq_add_one, Nat.sub_add_cancel hn, Nat.add_sub_cancel]

/-- While nothing is waited for, time runs to the deadline `d`, and recovery makes each attempt
due before it at its wake. -/
theorem waitLoop_schedule {d limit : Nat} (hd : d ≤ limit) (hI : 0 < p.pause) :
    ∀ (fuel : Nat) (tl : Timeline) (n : Nat), AtClock p tl.sup c0 tl.clock n →
      tl.clock ≤ d → d ≤ tl.clock + fuel →
      ∃ n', OnSchedule p (waitLoop (fun _ => false) (some d) limit fuel tl).2.sup n'
          (c0 + (n' - 1) * p.pause) ∧
        (waitLoop (fun _ => false) (some d) limit fuel tl).2.clock = d ∧ 2 ≤ n' ∧
        c0 + (n' - 2) * p.pause ≤ d ∧ (n' ≤ p.refusals → d ≤ c0 + (n' - 1) * p.pause) := by
  intro fuel
  induction fuel with
  | zero =>
    intro tl n h hle hge
    have hloop : waitLoop (fun _ => false) (some d) limit 0 tl = (.deadline, { tl with clock := d }) := by
      simp [waitLoop, timeUp, hd]
    rw [hloop]
    exact ⟨n, h.schedule, rfl, h.two_le, by have := h.made; omega,
      fun hn => by have := h.pending hn; omega⟩
  | succ fuel ih =>
    intro tl n h hle hge
    -- the time is up at once, with nothing more made
    have hup : timeUp tl (some d) limit = (.deadline, { tl with clock := d }) := by
      simp [timeUp, hd]
    rcases h.schedule with hr | ⟨rfl, hf⟩
    · have hwake : tl.sup.wake = some (c0 + (n - 1) * p.pause) := by simp [wake, hr.recovery]
      have hstep := pause_after (I := p.pause) (n := n) (by have := h.two_le; omega)
      by_cases hw : c0 + (n - 1) * p.pause < d
      · -- the wake comes first: the next attempt is made then
        have hloop : waitLoop (fun _ => false) (some d) limit (fuel + 1) tl =
            waitLoop (fun _ => false) (some d) limit fuel (tl.advanceTo (c0 + (n - 1) * p.pause)) := by
          simp [waitLoop, hwake, hw, Nat.min_eq_left hd]
        have hnext := quiesce_wake hr (Nat.le_refl _) hI
        rw [Nat.add_assoc, hstep] at hnext
        have hmade : c0 + (n + 1 - 2) * p.pause = c0 + (n - 1) * p.pause := by
          congr 2
        have hpending : c0 + (n - 1) * p.pause < c0 + (n + 1 - 1) * p.pause := by omega
        have hbefore := h.pending hr.le
        rw [hloop]
        exact ih (tl.advanceTo (c0 + (n - 1) * p.pause)) (n + 1)
          ⟨hnext, by have := h.two_le; omega, Nat.le_of_eq hmade, fun _ => hpending⟩
          (Nat.le_of_lt hw) (by simp only [advanceTo]; omega)
      · -- the deadline comes first
        have hloop : waitLoop (fun _ => false) (some d) limit (fuel + 1) tl =
            (.deadline, { tl with clock := d }) := by
          simp [waitLoop, hwake, hw, Nat.min_eq_left hd, hup]
        rw [hloop]
        exact ⟨n, h.schedule, rfl, h.two_le, by have := h.made; omega, fun _ => by omega⟩
    · -- finished: recovery never wakes
      have hwake : tl.sup.wake = none := by simp [wake, hf.recovery]
      have hloop : waitLoop (fun _ => false) (some d) limit (fuel + 1) tl =
          (.deadline, { tl with clock := d }) := by
        simp [waitLoop, hwake, hup]
      rw [hloop]
      exact ⟨p.refusals + 1, h.schedule, rfl, h.two_le, by have := h.made; omega, fun hn => by omega⟩

/-- An `advance` step no longer than the guard, from a supervisor on schedule at its clock,
moves the clock on by the step's length and leaves the supervisor on schedule then. -/
theorem step_advance_schedule (hI : 0 < p.pause) {tl : Timeline} {n m : Nat}
    (h : AtClock p tl.sup c0 tl.clock n) (hm : m ≤ Machine.guardMs) :
    (tl.step (.advance m)).2.clock = tl.clock + m ∧
      ∃ n', AtClock p (tl.step (.advance m)).2.sup c0 (tl.clock + m) n' := by
  obtain ⟨n', hs, hclock, h2, hmade, hnext⟩ :=
    waitLoop_schedule (show tl.clock + m ≤ tl.clock + Machine.guardMs by omega) hI
      (Machine.guardMs + 1) tl n h (by omega) (by omega)
  rw [step_snd, apply_advance]
  unfold waitUntil
  generalize (waitLoop (fun _ => false) (some (tl.clock + m)) (tl.clock + Machine.guardMs)
    (Machine.guardMs + 1) tl).2 = W at hs hclock ⊢
  refine ⟨hclock, ?_⟩
  simp only [withSup]
  rw [hclock]
  -- the background runs once more at the deadline
  rcases hs with hr | ⟨rfl, hf⟩
  · rcases Nat.lt_or_ge (tl.clock + m) (c0 + (n' - 1) * p.pause) with hlt | hge
    · rw [quiesce_asleep hr hlt]
      exact ⟨n', OnSchedule.withDispatch (.inl hr) _, h2, hmade, fun _ => hlt⟩
    · -- the wake is the deadline itself
      have heq : c0 + (n' - 1) * p.pause = tl.clock + m := Nat.le_antisymm hge (hnext hr.le)
      have hpause := pause_after (I := p.pause) (n := n') (by omega)
      have hw : OnSchedule p (W.sup.quiesce (tl.clock + m)) (n' + 1) (c0 + (n' + 1 - 1) * p.pause) := by
        rw [show c0 + (n' + 1 - 1) * p.pause = tl.clock + m + p.pause by omega]
        exact quiesce_wake hr hge hI
      have hmade' : c0 + (n' + 1 - 2) * p.pause = c0 + (n' - 1) * p.pause := by
        congr 2
      exact ⟨n' + 1, OnSchedule.withDispatch hw _, by omega, by omega, fun _ => by omega⟩
  · rw [quiesce_finished hf]
    exact ⟨p.refusals + 1, OnSchedule.withDispatch (.inr ⟨rfl, hf⟩) _, h2, hmade, fun hn => by omega⟩

/-- The configure step, on an unconfigured supervisor with no target whose connector refuses its
next `k` connects, makes the first connect and at once recovery's first: the plan starts at the
step's clock. -/
theorem step_configure_schedule {tl : Timeline} {t : Target} {k : Nat}
    (ht : tl.sup.target = none) (hd : tl.sup.desired = none) (hp : tl.sup.phase = .unconfigured)
    (hs : tl.sup.session = none) (hr : tl.sup.recovery = none) (he : tl.sup.events = [])
    (hk : 0 < k) (hf : tl.sup.backend.connector.failuresLeft = k)
    (hI : 0 < tl.sup.options.reconnectInterval.millis) :
    (tl.step (.configure (some t))).2.clock = tl.clock ∧
      AtClock ⟨t, tl.sup.backend.connector.attempts, k, tl.sup.options.reconnectInterval.millis,
        tl.sup.backend.connector.automatic⟩ (tl.step (.configure (some t))).2.sup tl.clock tl.clock 2 := by
  refine ⟨rfl, ⟨?_, Nat.le_refl 2, by simp, fun _ => by simpa using hI⟩⟩
  rw [step_snd, apply_configure, show tl.clock + (2 - 1) * tl.sup.options.reconnectInterval.millis =
    tl.clock + tl.sup.options.reconnectInterval.millis by simp]
  exact OnSchedule.withDispatch
    (quiesce_due (configure_refused (t := t) ht hd hp hs hr he hk hf) hI) _

theorem foldl_advance_schedule (hI : 0 < p.pause) (ms : List Nat)
    (hms : ∀ m ∈ ms, m ≤ Machine.guardMs) :
    ∀ (tl : Timeline) (n : Nat), AtClock p tl.sup c0 tl.clock n →
      (ms.foldl (fun tl m => (tl.step (.advance m)).2) tl).clock = tl.clock + ms.sum ∧
        ∃ n', AtClock p (ms.foldl (fun tl m => (tl.step (.advance m)).2) tl).sup c0
          (tl.clock + ms.sum) n' := by
  induction ms with
  | nil => exact fun tl n h => ⟨rfl, n, h⟩
  | cons m ms ih =>
    intro tl n h
    obtain ⟨hclock, n', h'⟩ := step_advance_schedule hI h (hms m (by simp))
    rw [← hclock] at h'
    obtain ⟨hclock', n'', h''⟩ := ih (fun m hm => hms m (by simp [hm])) _ n' h'
    simp only [List.foldl_cons, List.sum_cons]
    rw [hclock', hclock, Nat.add_assoc] at *
    exact ⟨rfl, n'', h''⟩

/-- The `j`th connect, from the second on, is among the first `min (k + 1) (2 + E / I)` exactly
when it is due by `E`, at `(j - 2) * I`. -/
theorem le_count_iff {j k E I : Nat} (hI : 0 < I) (hj : 2 ≤ j) (hjk : j ≤ k + 1) :
    j ≤ min (k + 1) (2 + E / I) ↔ (j - 2) * I ≤ E := by
  rw [Nat.le_min, ← Nat.le_div_iff_mul_le hI]
  omega

/-- Recovery's schedule in virtual time. Configure a target `t` on an unconfigured supervisor
with no target whose connector refuses its next `k ≥ 1` connects, recovery pausing `I > 0`
milliseconds between attempts, and then let only time pass, by advance steps no longer than the
guard. The configure call makes the first connect, refused, and leaves recovery active; recovery
makes the second at once and one more every `I` milliseconds until the `k + 1`st is accepted:
after `E` milliseconds `min (k + 1) (2 + E / I)` connects were made, all to `t`, so the `j`th
(`j ≥ 2`) is made at `(j - 2) * I`. Until the last the supervisor is unconfigured and recovering;
after it, recovery is over and the supervisor is connecting, or connected once the session a
connector established at once reported it. -/
theorem recovery_attempts_on_interval (tl : Timeline) (t : Target) (k : Nat) (ms : List Nat)
    (hk : 0 < k) (hI : 0 < tl.sup.options.reconnectInterval.millis)
    (ht : tl.sup.target = none) (hd : tl.sup.desired = none) (hp : tl.sup.phase = .unconfigured)
    (hs : tl.sup.session = none) (hr : tl.sup.recovery = none) (he : tl.sup.events = [])
    (hf : tl.sup.backend.connector.failuresLeft = k) (hms : ∀ m ∈ ms, m ≤ Machine.guardMs) :
    let I := tl.sup.options.reconnectInterval.millis
    let A := tl.sup.backend.connector.attempts
    let called := (tl.apply (.configure (some t))).2.sup
    let tl' := ms.foldl (fun tl m => (tl.step (.advance m)).2) (tl.step (.configure (some t))).2
    let n := min (k + 1) (2 + ms.sum / I)
    (called.backend.connector.attempts = A ++ [t] ∧ called.phase = .unconfigured ∧
      called.recovery.isSome) ∧
    tl'.clock = tl.clock + ms.sum ∧
    tl'.sup.backend.connector.attempts = A ++ List.replicate n t ∧
    (∀ j, 2 ≤ j → j ≤ k + 1 → (j ≤ n ↔ (j - 2) * I ≤ ms.sum)) ∧
    (tl'.sup.recovery.isSome ↔ n ≤ k) ∧
    tl'.sup.phase = if n ≤ k then .unconfigured
      else if tl.sup.backend.connector.automatic then .connected else .connecting := by
  intro I A called tl' n
  have hcalled := configure_refused (t := t) ht hd hp hs hr he hk hf
  obtain ⟨hclock0, h0⟩ := step_configure_schedule (t := t) ht hd hp hs hr he hk hf hI
  have h0' : AtClock ⟨t, A, k, I, tl.sup.backend.connector.automatic⟩
      (tl.step (.configure (some t))).2.sup tl.clock
      (tl.step (.configure (some t))).2.clock 2 := by
    rw [hclock0]
    exact h0
  obtain ⟨hclock, n', h'⟩ := foldl_advance_schedule hI ms hms _ 2 h0'
  rw [hclock0] at hclock h'
  -- the connects made are the count the clock gives
  have hn : n' = n := by
    rw [h'.count hI, Nat.add_sub_cancel_left]
  subst hn
  refine ⟨⟨hcalled.attempts, hcalled.phase, Option.isSome_iff_exists.mpr ⟨_, hcalled.recovery⟩⟩,
    hclock,
    h'.schedule.toCourse.attempts, fun j hj hjk => le_count_iff hI hj hjk,
    h'.schedule.recovery_isSome, h'.schedule.phase_eq⟩

/-- Two refused connects and pauses of 20 s: the third connect, at 20 s, is accepted, and after
two advances of 20 s the supervisor is connected, three connects made and recovery over. -/
theorem recovery_attempts_two_refusals :
    let tl : Timeline :=
      ⟨{ options := ⟨.ofMillis 20000, none⟩
         backend := { service := {}, connector := { automatic := true, failuresLeft := 2 } } },
        0, []⟩
    let t : Target := ⟨"mem:1", .ofMillis 5000⟩
    let tl' := [20000, 20000].foldl (fun tl m => (tl.step (.advance m)).2)
      (tl.step (.configure (some t))).2
    tl'.clock = 40000 ∧ tl'.sup.backend.connector.attempts = [t, t, t] ∧
      tl'.sup.recovery = none ∧ tl'.sup.phase = .connected := by
  intro tl t tl'
  obtain ⟨-, hclock, hattempts, -, hrecovery, hphase⟩ :=
    recovery_attempts_on_interval tl t 2 [20000, 20000] (by decide) (by decide) rfl rfl rfl rfl rfl
      rfl rfl (by decide)
  have hn : min (2 + 1) (2 + [20000, 20000].sum / tl.sup.options.reconnectInterval.millis) = 3 := by
    decide
  rw [hn] at hattempts hrecovery hphase
  -- name the run itself: matching through tl' would make Lean evaluate the whole run
  simp only [tl']
  rw [hclock, hattempts, hphase, ← Option.not_isSome_iff_eq_none, hrecovery]
  exact ⟨by decide, rfl, by decide, rfl⟩

end Coordination.Timeline
