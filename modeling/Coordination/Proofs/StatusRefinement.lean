import Coordination.Proofs.Handles

/-!
The phase of a supervisor refines the status of the session it holds. The two machines drift
apart only while signals are queued: a session changes its status at once and queues the
signal that says so, and the phase follows when the pump processes the signal. So in every
run that forges no signal and closes no session behind the supervisor's back, the held
session's status is the phase that processing the queued signals of the current generation
leads to, or the session expired and its expiry is queued (`Refining`). With the queue empty
the phase is unconfigured exactly when no session is held, and otherwise connecting,
connected or reconnecting exactly as the held session is connecting, connected or
disconnected; the held session is then never expired or closed.
-/

namespace Coordination

/-- A move that forges no signal and closes no session behind the supervisor's back. -/
def Move.genuine : Move → Bool
  | .inject _ _ => false
  | .control _ .close => false
  | _ => true

/-- The phase a supervisor holding a session of this status stands in once the session's
signals are processed; an expired or closed session stands for none. -/
def Status.phase? : Status → Option Phase
  | .connecting => some .connecting
  | .connected => some .connected
  | .disconnected => some .reconnecting
  | .expired | .closed => none

theorem Status.phase?_eq_some {st : Status} {p : Phase} :
    st.phase? = some p ↔ st = .connecting ∧ p = .connecting ∨ st = .connected ∧ p = .connected ∨
      st = .disconnected ∧ p = .reconnecting := by
  cases st <;> simp [Status.phase?, eq_comm]

theorem Session.control_of_expired (s : Session) (svc : Service) {c : Control} (hc : c ≠ .close)
    (h : s.status = .expired) : s.control svc c = (s, svc, none) := by
  cases c <;> simp_all [Session.control, Session.establish, Session.dropConnection,
    Session.expire]

namespace Supervisor

/-- The signals queued with generation `g`, oldest first. -/
def pendingOf (events : List (Nat × Signal)) (g : Nat) : List Signal :=
  (events.filter fun e => e.1 == g).map Prod.snd

/-- A session of status `status` is tracked by the phase `p` while the signals `pending` of
its generation are queued: processing them leads from `p` to the phase the status stands
for, or the session expired and its expiry is among them. -/
def Tracks (p : Phase) (pending : List Signal) (status : Status) : Prop :=
  status.phase? = some (pending.foldl Phase.step p) ∨ (status = .expired ∧ .expired ∈ pending)

/-! ## Queued signals of one generation -/

@[simp] theorem pendingOf_nil (g : Nat) : pendingOf [] g = [] := rfl

@[simp] theorem pendingOf_append (es es' : List (Nat × Signal)) (g : Nat) :
    pendingOf (es ++ es') g = pendingOf es g ++ pendingOf es' g := by
  simp [pendingOf]

@[simp] theorem pendingOf_cons_self (signal : Signal) (es : List (Nat × Signal)) (g : Nat) :
    pendingOf ((g, signal) :: es) g = signal :: pendingOf es g := by
  simp [pendingOf]

theorem pendingOf_cons_ne {g g' : Nat} (signal : Signal) (es : List (Nat × Signal))
    (h : g' ≠ g) : pendingOf ((g', signal) :: es) g = pendingOf es g := by
  simp [pendingOf, h]

@[simp] theorem pendingOf_emitted (signal : Option Signal) (g : Nat) :
    pendingOf (signal.map (g, ·)).toList g = signal.toList := by
  cases signal <;> simp [pendingOf]

theorem pendingOf_of_lt {es : List (Nat × Signal)} {g : Nat} (h : ∀ e ∈ es, e.1 < g) :
    pendingOf es g = [] := by
  simp only [pendingOf, List.map_eq_nil_iff, List.filter_eq_nil_iff, beq_iff_eq]
  intro e he
  exact Nat.ne_of_lt (h e he)

/-! ## Tracking a status through pending signals -/

theorem tracks_nil {p : Phase} {status : Status} :
    Tracks p [] status ↔ status.phase? = some p := by
  simp [Tracks]

theorem Tracks.tail {p : Phase} {signal : Signal} {pending : List Signal} {status : Status}
    (h : Tracks p (signal :: pending) status) (hx : signal ≠ .expired) :
    Tracks (p.step signal) pending status := by
  rcases h with h | ⟨hst, hm⟩
  · exact Or.inl h
  · exact Or.inr ⟨hst, (List.mem_cons.mp hm).resolve_left (Ne.symm hx)⟩

/-- A control other than a close moves a session's status as the signal it queues moves the
phase. -/
theorem Tracks.control {p : Phase} {pending : List Signal} {ss : Session} (svc : Service)
    {c : Control} (hc : c ≠ .close) (h : Tracks p pending ss.status) :
    Tracks p (pending ++ (ss.control svc c).2.2.toList) (ss.control svc c).1.status := by
  rcases h with h | ⟨hx, hm⟩
  · -- a live session, standing for the phase `q` the pending signals lead to
    unfold Tracks
    rw [List.foldl_append]
    generalize pending.foldl Phase.step p = q at h ⊢
    rcases Status.phase?_eq_some.mp h with ⟨hs, rfl⟩ | ⟨hs, rfl⟩ | ⟨hs, rfl⟩ <;>
      cases c <;> simp_all [Session.control, Session.establish, Session.dropConnection,
        Session.expire, Status.phase?, Phase.step, Phase.after]
  · rw [Session.control_of_expired ss svc hc hx]
    exact Or.inr ⟨hx, by simp [hm]⟩

/-! ## The refinement and every move -/

/-- The refinement a supervisor keeps in every genuine run: it is disciplined, no signal is
queued with a generation later than the current one, and the held session is tracked by the
phase through the queued signals of the current generation. -/
structure Refining (s : Supervisor) : Prop where
  disciplined : Disciplined s
  queued : ∀ e ∈ s.events, e.1 ≤ s.generation
  tracks : ∀ i ss, s.session = some i → s.backend.connector.session? i = some ss →
    Tracks s.phase (pendingOf s.events s.generation) ss.status

theorem Refining.withRecovery {s : Supervisor} (h : Refining s) (r : Option Recovery) :
    Refining { s with recovery := r } :=
  ⟨h.disciplined.withRecovery r, h.queued, h.tracks⟩

theorem Refining.withDesired {s : Supervisor} (h : Refining s) (t : Option Target) :
    Refining { s with desired := t } :=
  ⟨h.disciplined.withDesired t, h.queued, h.tracks⟩

theorem init_refining (options : Options) (automatic : Bool) :
    Refining (init options automatic) where
  disciplined := init_disciplined options automatic
  queued := by simp [init]
  tracks := by simp [init]

/-- A start from a quiet state tracks the session it opens: connecting, or connected with its
connect queued under the new generation. -/
theorem start_refining {s : Supervisor} (hq : Quiet s) (hqd : ∀ e ∈ s.events, e.1 ≤ s.generation)
    (ht : s.target.isSome) : Refining s.start.2 := by
  have hd := start_disciplined hq ht
  obtain ⟨t, ht⟩ := Option.isSome_iff_exists.mp ht
  by_cases hf : s.backend.connector.failuresLeft = 0
  · rw [start_accepted s t ht hf] at hd ⊢
    have hold : pendingOf s.events (s.generation + 1) = [] :=
      pendingOf_of_lt fun e he => Nat.lt_succ_of_le (hqd e he)
    refine ⟨hd, fun e he => ?_, fun i ss hi hss => ?_⟩
    · simp only [List.mem_append] at he
      rcases he with he | he
      · exact Nat.le_succ_of_le (hqd e he)
      · split at he <;> simp_all
    · simp only [Option.some.injEq] at hi
      subst hi
      simp only [Connector.session?, List.getElem?_append_right (Nat.le_refl _), Nat.sub_self,
        List.getElem?_cons_zero, Option.some.injEq] at hss
      subst hss
      cases ha : s.backend.connector.automatic <;>
        simp [Tracks, hold, Status.phase?, phase, Phase.step, Phase.after]
  · rw [start_refused s t ht (Nat.pos_of_ne_zero hf)] at hd ⊢
    refine ⟨hd, fun e he => Nat.le_succ_of_le (hqd e he), fun i ss hi _ => ?_⟩
    simp [hq.none_held] at hi

theorem tryStart_refining {s : Supervisor} (hq : Quiet s)
    (hqd : ∀ e ∈ s.events, e.1 ≤ s.generation) (ht : s.target.isSome) : Refining s.tryStart := by
  obtain ⟨r, hr⟩ := tryStart_eq s
  rw [hr]
  exact (start_refining hq hqd ht).withRecovery r

/-- Processing the oldest queued signal, of the current generation and not an expiry, moves
the phase along it and keeps the refinement. -/
theorem advance_refining {s : Supervisor} {signal : Signal} {rest : List (Nat × Signal)}
    (h : Refining s) (hs : s.session.isSome) (he : s.events = (s.generation, signal) :: rest)
    (hx : signal ≠ .expired) :
    Refining ({ s with events := rest }.moveTo (s.phase.step signal)) := by
  have hp : s.phase ≠ .unconfigured := fun hp => by
    simp [h.disciplined.unconfigured_iff.mp hp] at hs
  have hn : s.session ≠ none := Option.isSome_iff_ne_none.mp hs
  refine ⟨⟨?_, h.disciplined.held, h.disciplined.others⟩,
    fun e he' => h.queued e (he ▸ List.mem_cons_of_mem _ he'), fun i ss hi hss => ?_⟩
  · simp only [moveTo_phase, moveTo_session, hn, iff_false]
    exact Phase.step_ne_unconfigured hp signal
  · have ht := h.tracks i ss hi hss
    rw [he, pendingOf_cons_self] at ht
    simp only [moveTo_phase, moveTo_events, moveTo_generation]
    exact ht.tail hx

/-- The pump's step: processing the oldest queued signal keeps the refinement. A signal of
the current generation moves the phase along it, or restarts after an expiry; any other is
not pending for the held session. -/
theorem process_head_refining {s : Supervisor} {g : Nat} {signal : Signal}
    {rest : List (Nat × Signal)} (h : Refining s) (he : s.events = (g, signal) :: rest) :
    Refining ({ s with events := rest }.process g signal) := by
  have hd : Disciplined { s with events := rest } :=
    ⟨h.disciplined.unconfigured_iff, h.disciplined.held, h.disciplined.others⟩
  have hq : ∀ e ∈ rest, e.1 ≤ s.generation :=
    fun e he' => h.queued e (he ▸ List.mem_cons_of_mem _ he')
  by_cases hc : s.session.isSome ∧ g = s.generation
  · obtain ⟨hs, rfl⟩ := hc
    rw [process_of_held { s with events := rest } signal hs]
    cases signal with
    | connected => exact advance_refining h hs he (by decide)
    | disconnected =>
      have hp : s.phase ≠ .unconfigured := fun hp => by
        simp [h.disciplined.unconfigured_iff.mp hp] at hs
      have hstep : s.phase.step .disconnected = .reconnecting := by
        simp [Phase.step, Phase.after, hp]
      dsimp only
      rw [if_neg (show ({ s with events := rest } : Supervisor).phase ≠ .unconfigured from hp),
        ← hstep]
      exact advance_refining h hs he (by decide)
    | expired =>
      obtain ⟨i, hi⟩ := Option.isSome_iff_exists.mp hs
      exact tryStart_refining (closeCurrent_quiet hd) (by simpa using hq)
        (by simpa using (h.disciplined.held i hi).1)
  · rw [process_of_stale { s with events := rest } g signal hc]
    refine ⟨hd, hq, fun i ss hi hss => ?_⟩
    have hg : g ≠ s.generation := fun hg => hc ⟨Option.isSome_iff_exists.mpr ⟨i, hi⟩, hg⟩
    have ht := h.tracks i ss hi hss
    rwa [he, pendingOf_cons_ne _ _ hg] at ht

theorem handleNext_refining {s : Supervisor} (h : Refining s) : Refining s.handleNext := by
  cases he : s.events with
  | nil => rw [handleNext_nil s he]; exact h
  | cons e rest =>
    rw [handleNext_cons s (he.trans rfl)]
    exact process_head_refining h (he.trans rfl)

theorem reconfigure_refining {s : Supervisor} (h : Refining s) : Refining s.reconfigure := by
  by_cases heq : s.target = s.desired
  · rw [reconfigure_of_eq s heq]
    exact h.withRecovery none
  · rw [reconfigure_of_ne s heq]
    -- releasing closes the held session and keeps the queue and the generation
    have hq := release_quiet (h.disciplined.withRecovery none)
    have hqd : ∀ e ∈ ({ s with recovery := none } : Supervisor).release.events,
        e.1 ≤ ({ s with recovery := none } : Supervisor).release.generation := by
      simpa [release_eq] using h.queued
    split
    · rename_i hd
      exact tryStart_refining (hq.withTarget s.desired) hqd hd
    · rename_i hd
      have hp : ({ s with recovery := none } : Supervisor).release.phase = .unconfigured := by
        simp [release_eq, phase, hd]
      refine ⟨bump_disciplined (hq.withTarget s.desired) hp,
        fun e he => Nat.le_succ_of_le (hqd e he), fun i ss hi _ => ?_⟩
      exact absurd (hq.none_held.symm.trans hi) (by simp)

theorem configure_refining {s : Supervisor} (h : Refining s) (t : Option Target) :
    Refining (s.configure t) := by
  unfold configure
  split
  · exact h
  · exact reconfigure_refining (h.withDesired t)

theorem shutdown_refining {s : Supervisor} (h : Refining s) : Refining s.shutdown := by
  refine ⟨shutdown_disciplined h.disciplined, fun e he => ?_, fun i ss hi _ => ?_⟩
  · rw [shutdown_eq] at he ⊢
    exact Nat.le_succ_of_le (h.queued e (by simpa using he))
  · simp [(shutdown_spec s).2.2.1] at hi

theorem recover_refining {s : Supervisor} (h : Refining s) (now : Nat) :
    Refining (s.recover now) := by
  by_cases hw : s.target.isSome ∧ s.phase = .unconfigured
  · obtain ⟨r, hr⟩ := recover_of_waiting s now hw.1 hw.2
    rw [hr]
    exact (start_refining (quiet_of_unconfigured h.disciplined hw.2) h.queued hw.1).withRecovery r
  · rw [recover_of_idle s now hw]
    exact h.withRecovery none

/-- A control other than a close keeps the refinement: on the held session it queues its
signal under the current generation, and every other session is closed and stays so. -/
theorem control_refining {s : Supervisor} (h : Refining s) (i : Nat) {c : Control}
    (hc : c ≠ .close) : Refining (s.control i c) := by
  have hd := control_disciplined h.disciplined i c
  cases hs : s.backend.connector.session? i with
  | none => rw [control_of_none s i c hs]; exact h
  | some ss =>
    by_cases hi : s.session = some i
    · obtain ⟨-, -, ss₀, hss₀, hg⟩ := h.disciplined.held i hi
      rw [hs, Option.some.injEq] at hss₀
      subst hss₀
      rw [control_of_some s i c hs] at hd ⊢
      refine ⟨hd, fun e he => ?_, fun j ss' hj hss' => ?_⟩
      · simp only [emit_events, emit_generation, withWorld, List.mem_append] at he ⊢
        rcases he with he | he
        · exact h.queued e he
        · cases hsig : (ss.control s.backend.service c).2.2 <;> simp_all
      · simp only [emit_session, withWorld, hi, Option.some.injEq] at hj
        subst hj
        simp only [emit_backend, withWorld, Connector.session?_setSession_self, hs,
          Option.map_some, Option.some.injEq] at hss'
        subst hss'
        simp only [phase, emit_machine, emit_events, emit_generation, withWorld,
          pendingOf_append, hg, pendingOf_emitted]
        exact (h.tracks i ss hi hs).control _ hc
    · rw [control_of_closed s i c hs (h.disciplined.others i ss hs hi).1]
      exact h

theorem step_refining {s : Supervisor} (h : Refining s) {m : Move} (hm : m.genuine) :
    Refining (s.step m) := by
  cases m with
  | configure t => exact configure_refining h t
  | shutdown => exact shutdown_refining h
  | refuse n => exact ⟨step_disciplined h.disciplined (.refuse n), h.queued, h.tracks⟩
  | control i c =>
    exact control_refining h i fun hc => by simp [hc, Move.genuine] at hm
  | inject g signal => simp [Move.genuine] at hm
  | pump => exact handleNext_refining h
  | recover now =>
    simp only [step]
    split
    · exact recover_refining h now
    · exact h
  | register l => exact ⟨step_disciplined h.disciplined (.register l), h.queued, h.tracks⟩
  | unregister id => exact ⟨step_disciplined h.disciplined (.unregister id), h.queued, h.tracks⟩
  | deliver => exact ⟨step_disciplined h.disciplined .deliver, h.queued, h.tracks⟩

theorem run_refining {s : Supervisor} (h : Refining s) {ms : List Move}
    (hms : ∀ m ∈ ms, m.genuine) : Refining (s.run ms) := by
  induction ms generalizing s with
  | nil => exact h
  | cons m ms ih =>
    obtain ⟨hm, hms⟩ := List.forall_mem_cons.mp hms
    exact ih (step_refining h hm) hms

/-- In every run that forges no signal and closes no session behind the supervisor's back,
whenever no signal is queued: the phase is unconfigured exactly when no session is held, and
a held session is connecting, connected or disconnected exactly as the phase is connecting,
connected or reconnecting, never expired or closed. -/
theorem phase_refines_session_status (options : Options) (automatic : Bool) (ms : List Move)
    (hms : ∀ m ∈ ms, m.genuine) :
    let s := (init options automatic).run ms
    s.events = [] →
      (s.phase = .unconfigured ↔ s.session = none) ∧
      ∀ i, s.session = some i →
        ∃ ss, s.backend.connector.session? i = some ss ∧ ss.status.phase? = some s.phase := by
  intro s he
  have h : Refining s := run_refining (init_refining options automatic) hms
  refine ⟨h.disciplined.unconfigured_iff, fun i hi => ?_⟩
  obtain ⟨-, -, ss, hss, -⟩ := h.disciplined.held i hi
  have ht := h.tracks i ss hi hss
  rw [he, pendingOf_nil, tracks_nil] at ht
  exact ⟨ss, hss, ht⟩

/-- Over a manual connector: a target configured, its session established and dropped, each
signal pumped; the queue is then empty and the held session disconnected. -/
theorem phase_refines_session_status_dropped :
    let ms := [Move.configure (some ⟨"mem:1", Duration.ofMillis 10000⟩), .control 0 .establish,
      .pump, .control 0 .dropConnection, .pump]
    let s := (init ⟨Duration.ofMillis 20000, none⟩ false).run ms
    (∀ m ∈ ms, m.genuine) ∧ s.events = [] ∧ s.session = some 0 ∧
      ((s.phase = .unconfigured ↔ s.session = none) ∧
        ∀ i, s.session = some i →
          ∃ ss, s.backend.connector.session? i = some ss ∧ ss.status.phase? = some s.phase) := by
  intro ms s
  have hms : ∀ m ∈ ms, m.genuine := by decide
  have he : s.events = [] := by decide
  exact ⟨hms, he, by decide,
    phase_refines_session_status ⟨Duration.ofMillis 20000, none⟩ false ms hms he⟩

end Supervisor

end Coordination
