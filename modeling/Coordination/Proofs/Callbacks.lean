import Coordination.Proofs.Delivery
import Coordination.Proofs.Lifecycle

/-!
The callbacks each registration hears in a run of the supervisor. Every move before shutdown
does one of four things to the phase machine (`step_machine`): it changes the phase and queues
exactly the change of connectivity between the phase it starts in and the one it ends in (no
operation passes through connected and back), or it registers a listener, removes a
registration, or lets the worker take one notice.

So a registration hears the edges of the values still waiting when it registered, followed by
the edges of the phase trace from its registration on (`registration_hears_edges`): they
strictly alternate and begin with a connect, a prefix of them is heard until the dispatcher
drains, all of them and ending with the current connectivity once it has, and a removed
registration heard a prefix of those up to its removal. The values still waiting matter: a
listener registered while a connect and a disconnect are queued hears both
(`registration_hears_queued_edges`).
-/

namespace Coordination.Supervisor

open Machine

section Reported

variable {s : Supervisor}

/-- A start reports its change of phase: to connecting, and back to unconfigured if the
connector refuses. -/
theorem start_reported (h : s.machine.dispatch.stopped = false) :
    Reported s.machine s.start.2.machine := by
  cases ht : s.target with
  | none =>
    rw [start_of_none s ht]
    exact Reported.refl _
  | some t =>
    by_cases hf : s.backend.connector.failuresLeft = 0
    · rw [start_accepted s t ht hf]
      exact reported_moveTo h .connecting
    · rw [start_refused s t ht (Nat.pos_of_ne_zero hf)]
      have h₁ := reported_moveTo h .connecting
      exact h₁.trans (reported_moveTo (h₁.stopped.trans h) .unconfigured)
        (by simp [Phase.isConnected]) (by simp [Phase.isConnected])

theorem start_disconnected (ht : s.target.isSome) : s.start.2.phase.isConnected = false := by
  obtain ⟨t, ht⟩ := Option.isSome_iff_exists.mp ht
  by_cases hf : s.backend.connector.failuresLeft = 0
  · rw [start_accepted s t ht hf]
    simp [phase, Phase.isConnected]
  · rw [start_refused s t ht (Nat.pos_of_ne_zero hf)]
    simp [phase, Phase.isConnected]

theorem tryStart_reported (h : s.machine.dispatch.stopped = false) :
    Reported s.machine s.tryStart.machine := by
  obtain ⟨r, hr⟩ := tryStart_eq s
  rw [hr]
  exact start_reported h

theorem tryStart_disconnected (ht : s.target.isSome) : s.tryStart.phase.isConnected = false := by
  obtain ⟨r, hr⟩ := tryStart_eq s
  rw [hr]
  exact start_disconnected ht

theorem release_reported (h : s.machine.dispatch.stopped = false) :
    Reported s.machine s.release.machine := by
  rw [release_eq]
  show Reported s.machine (s.closeCurrent.machine.moveTo _)
  rw [closeCurrent_machine]
  exact reported_moveTo h _

theorem release_disconnected : s.release.phase.isConnected = false := by
  rw [release_eq]
  show (s.closeCurrent.machine.moveTo _).phase.isConnected = false
  rw [Machine.moveTo_phase]
  split <;> rfl

theorem reconfigure_reported (h : s.machine.dispatch.stopped = false) :
    Reported s.machine s.reconfigure.machine := by
  by_cases heq : s.target = s.desired
  · rw [reconfigure_of_eq s heq]
    exact Reported.refl _
  · rw [reconfigure_of_ne s heq]
    -- the old lifecycle is released first, away from connected; a start follows it
    have hrel : Reported s.machine ({ s with recovery := none } : Supervisor).release.machine :=
      release_reported h
    split
    · rename_i hd
      exact hrel.trans
        (tryStart_reported (s := { { s with recovery := none }.release with target := s.desired })
          (hrel.stopped.trans h))
        release_disconnected (tryStart_disconnected hd)
    · exact hrel

theorem configure_reported (h : s.machine.dispatch.stopped = false) (t : Option Target) :
    Reported s.machine (s.configure t).machine := by
  unfold configure
  split
  · exact Reported.refl _
  · exact reconfigure_reported (s := { s with desired := t }) h

theorem process_reported (h : s.machine.dispatch.stopped = false) (g : Nat) (signal : Signal) :
    Reported s.machine (s.process g signal).machine := by
  by_cases hc : s.session.isSome ∧ g = s.generation
  · obtain ⟨hs, rfl⟩ := hc
    rw [process_of_held s signal hs]
    cases signal with
    | connected => exact reported_moveTo h _
    | disconnected =>
      dsimp only
      split
      · exact Reported.refl _
      · exact reported_moveTo h _
    | expired =>
      have hr := tryStart_reported (s := s.closeCurrent) (by rwa [closeCurrent_machine])
      rwa [closeCurrent_machine] at hr
  · rw [process_of_stale s g signal hc]
    exact Reported.refl _

theorem handleNext_reported (h : s.machine.dispatch.stopped = false) :
    Reported s.machine s.handleNext.machine := by
  cases he : s.events with
  | nil =>
    rw [handleNext_nil s he]
    exact Reported.refl _
  | cons e rest =>
    rw [handleNext_cons s (he.trans rfl)]
    exact process_reported (s := { s with events := rest }) h e.1 e.2

theorem recover_reported (h : s.machine.dispatch.stopped = false) (now : Nat) :
    Reported s.machine (s.recover now).machine := by
  by_cases hw : s.target.isSome ∧ s.phase = .unconfigured
  · obtain ⟨r, hr⟩ := recover_of_waiting s now hw.1 hw.2
    rw [hr]
    exact start_reported h
  · rw [recover_of_idle s now hw]
    exact Reported.refl _

theorem control_reported (i : Nat) (c : Control) : Reported s.machine (s.control i c).machine := by
  cases hs : s.backend.connector.session? i with
  | none =>
    rw [control_of_none s i c hs]
    exact Reported.refl _
  | some ss =>
    rw [control_of_some s i c hs, emit_machine]
    exact Reported.refl _

/-- What a move other than shutdown does to the phase machine: a change of phase reported to
the dispatcher, a registration, the removal of a registration, or a step of the worker. -/
theorem step_machine (s : Supervisor) (h : s.machine.dispatch.stopped = false) {m : Move}
    (hm : m ≠ .shutdown) :
    Reported s.machine (s.step m).machine ∨
      (∃ l, (s.step m).machine = (s.machine.register l).2) ∨
      (∃ id, m = .unregister id ∧
        (s.step m).machine = { s.machine with dispatch := (s.machine.dispatch.remove id).2 }) ∨
      (s.step m).machine = { s.machine with dispatch := s.machine.dispatch.work } := by
  cases m with
  | configure t => exact .inl (configure_reported h t)
  | shutdown => exact absurd rfl hm
  | refuse n => exact .inl (Reported.refl _)
  | control i c => exact .inl (control_reported i c)
  | inject g signal => exact .inl (process_reported h g signal)
  | pump => exact .inl (handleNext_reported h)
  | recover now =>
    left
    simp only [step]
    split
    · exact recover_reported h now
    · exact Reported.refl _
  | register l => exact .inr (.inl ⟨l, rfl⟩)
  | unregister id => exact .inr (.inr (.inl ⟨id, rfl, rfl⟩))
  | deliver => exact .inr (.inr (.inr rfl))

end Reported

/-- What registration `id` heard is a prefix of the edges of `L`, and stays one: it is still
registered and hears `L`, or it was removed having heard such a prefix. -/
def Tracked (m : Machine) (id : Nat) (L : List Bool) : Prop :=
  m.Hears id L ∨ ∃ heard, m.Heard id heard ∧ heard <+: edgesFrom false L

theorem Tracked.prefix_edgesFrom {m : Machine} {id : Nat} {L : List Bool} (h : Tracked m id L) :
    m.dispatch.heardBy id <+: edgesFrom false L := by
  rcases h with h | ⟨heard, hh, hp⟩
  · exact h.stream ▸ List.prefix_append _ _
  · exact hh.frozen ▸ hp

section Step

variable {s : Supervisor} {m : Move}

theorem step_live (h : Live s.machine) (hm : m ≠ .shutdown) : Live (s.step m).machine := by
  rcases step_machine s h.running hm with hr | ⟨l, he⟩ | ⟨id, -, he⟩ | he
  · exact h.reported hr
  · rw [he]
    exact h.register l
  · rw [he]
    exact h.remove id
  · rw [he]
    exact h.work

theorem step_hears (hl : Live s.machine) {id : Nat} {L : List Bool} (h : Hears s.machine id L)
    (hm : m ≠ .shutdown) (hu : m ≠ .unregister id) :
    Hears (s.step m).machine id (L ++ [(s.step m).phase.isConnected]) := by
  show Hears (s.step m).machine id (L ++ [(s.step m).machine.phase.isConnected])
  rcases step_machine s hl.running hm with hr | ⟨l, he⟩ | ⟨id', rfl, he⟩ | he
  · exact h.reported hr
  · rw [he]
    exact (h.register hl l).snoc
  · rw [he]
    exact (h.remove fun hid => hu (by rw [hid])).snoc
  · rw [he]
    exact (h.work hl).snoc

theorem step_heard (hl : Live s.machine) {id : Nat} {heard : List Bool}
    (h : Heard s.machine id heard) (hm : m ≠ .shutdown) : Heard (s.step m).machine id heard := by
  rcases step_machine s hl.running hm with hr | ⟨l, he⟩ | ⟨id', -, he⟩ | he
  · exact h.reported hr
  · rw [he]
    exact h.register l
  · rw [he]
    exact h.remove id'
  · rw [he]
    exact h.work

theorem unregister_heard (hl : Live s.machine) {id : Nat} {L : List Bool}
    (h : Tracked s.machine id L) :
    Heard (s.step (.unregister id)).machine id (s.machine.dispatch.heardBy id) := by
  rcases h with h | ⟨heard, hh, -⟩
  · exact h.removed hl
  · exact hh.frozen ▸ hh.remove id

theorem step_tracked (hl : Live s.machine) {id : Nat} {L : List Bool}
    (h : Tracked s.machine id L) (hm : m ≠ .shutdown) :
    Tracked (s.step m).machine id (L ++ [(s.step m).phase.isConnected]) := by
  by_cases hu : m = .unregister id
  · subst hu
    exact .inr ⟨_, unregister_heard hl h, h.prefix_edgesFrom.trans (prefix_edgesFrom_append _ _ _)⟩
  · rcases h with h | ⟨heard, hh, hp⟩
    · exact .inl (step_hears hl h hm hu)
    · exact .inr ⟨heard, step_heard hl hh hm, hp.trans (prefix_edgesFrom_append _ _ _)⟩

end Step

section Run

variable {s : Supervisor} {ms : List Move}

theorem run_live (h : Live s.machine) (hms : ∀ m ∈ ms, m ≠ .shutdown) :
    Live (s.run ms).machine := by
  induction ms generalizing s with
  | nil => exact h
  | cons m ms ih =>
    obtain ⟨hm, hms⟩ := List.forall_mem_cons.mp hms
    exact ih (step_live h hm) hms

/-- Along a run, a registration is due to hear the edges of the phase trace, after the values
`Q` it was due to hear before. -/
theorem run_tracked (hl : Live s.machine) {id : Nat} {Q : List Bool}
    (h : Tracked s.machine id (Q ++ [s.phase.isConnected])) (hms : ∀ m ∈ ms, m ≠ .shutdown) :
    Tracked (s.run ms).machine id (Q ++ (s.trace ms).map Phase.isConnected) := by
  induction ms generalizing s Q with
  | nil => simpa using h
  | cons m ms ih =>
    obtain ⟨hm, hms⟩ := List.forall_mem_cons.mp hms
    have h' := ih (step_live hl hm) (Q := Q ++ [s.phase.isConnected]) (step_tracked hl h hm) hms
    simpa using h'

theorem run_hears (hl : Live s.machine) {id : Nat} {Q : List Bool}
    (h : Hears s.machine id (Q ++ [s.phase.isConnected]))
    (hms : ∀ m ∈ ms, m ≠ .shutdown ∧ m ≠ .unregister id) :
    Hears (s.run ms).machine id (Q ++ (s.trace ms).map Phase.isConnected) := by
  induction ms generalizing s Q with
  | nil => simpa using h
  | cons m ms ih =>
    obtain ⟨⟨hm, hu⟩, hms⟩ := List.forall_mem_cons.mp hms
    have h' := ih (step_live hl hm) (Q := Q ++ [s.phase.isConnected]) (step_hears hl h hm hu) hms
    simpa using h'

theorem run_heard (hl : Live s.machine) {id : Nat} {heard : List Bool}
    (h : Heard s.machine id heard) (hms : ∀ m ∈ ms, m ≠ .shutdown) :
    Heard (s.run ms).machine id heard := by
  induction ms generalizing s with
  | nil => exact h
  | cons m ms ih =>
    obtain ⟨hm, hms⟩ := List.forall_mem_cons.mp hms
    exact ih (step_live hl hm) (step_heard hl h hm) hms

end Run

/-- In every run of a supervisor before shutdown, a listener registered anew hears, through the
registration the call returns, callbacks that strictly alternate and begin with a connect: a
prefix of the edges of the values still waiting when it registered followed by the phase's
connectivity from then on, and only up to its removal if it is removed; while it stays
registered, once the dispatcher has drained, exactly those edges, the last of them agreeing
with the phase. -/
theorem registration_hears_edges (options : Options) (automatic : Bool) (pre post : List Move)
    (l : String) (hrun : ∀ m ∈ pre ++ post, m ≠ .shutdown)
    (hnew : ∀ e ∈ ((init options automatic).run pre).machine.dispatch.registry, e.2 ≠ l) :
    let s := (init options automatic).run pre
    let r := s.register l
    let heard := (r.2.run post).machine.dispatch.heardBy r.1
    let edges := fun ms : List Move =>
      edgesFrom false (s.machine.dispatch.pending ++ (r.2.trace ms).map Phase.isConnected)
    (false :: heard).IsChain (· ≠ ·) ∧ heard <+: edges post ∧
      (∀ a b, post = a ++ .unregister r.1 :: b → heard <+: edges a) ∧
      (.unregister r.1 ∉ post → (r.2.run post).machine.dispatch.queue = [] →
        heard = edges post ∧ heard.getLastD false = (r.2.run post).phase.isConnected) := by
  intro s r heard edges
  have hl : Live s.machine := run_live live_init fun m hm => hrun m (List.mem_append_left _ hm)
  have hpost : ∀ m ∈ post, m ≠ .shutdown := fun m hm => hrun m (List.mem_append_right _ hm)
  have hfind : s.machine.dispatch.registry.find? (·.2 = l) = none := by
    rw [List.find?_eq_none]
    intro e he
    simpa using hnew e he
  -- the call registers anew, under the next number
  have hid : r.1 = s.machine.dispatch.nextId := by
    show (s.machine.dispatch.add l).1.1 = _
    rw [Dispatch.add_of_new _ _ hfind]
  have h₀ : Hears r.2.machine r.1 (s.machine.dispatch.pending ++ [r.2.phase.isConnected]) := by
    rw [hid]
    exact hears_register hl hfind
  have hl₀ : Live r.2.machine := hl.register l
  have ht : ∀ ms : List Move, (∀ m ∈ ms, m ≠ .shutdown) →
      Tracked (r.2.run ms).machine r.1
        (s.machine.dispatch.pending ++ (r.2.trace ms).map Phase.isConnected) :=
    fun ms hms => run_tracked hl₀ (.inl h₀) hms
  have hpre : heard <+: edges post := (ht post hpost).prefix_edgesFrom
  -- a prefix of an alternating stream alternates
  have hchain := List.IsChain.prefix (isChain_edgesFrom false _)
    ((List.prefix_cons_inj false).mpr hpre)
  refine ⟨hchain, hpre, ?_, ?_⟩
  · -- after its removal the registration hears nothing more
    intro a b hab
    have ha : ∀ m ∈ a, m ≠ .shutdown := fun m hm => hpost m (by rw [hab]; simp [hm])
    have hb : ∀ m ∈ b, m ≠ .shutdown := fun m hm => hpost m (by rw [hab]; simp [hm])
    have hla := run_live hl₀ ha
    have hfrozen := run_heard (step_live hla (by simp)) (unregister_heard hla (ht a ha)) hb
    show (r.2.run post).machine.dispatch.heardBy r.1 <+: edges a
    rw [hab, run_append, run_cons, hfrozen.frozen]
    exact (ht a ha).prefix_edgesFrom
  · -- once drained, nothing waits to be heard
    intro hu hq
    have hh := run_hears hl₀ h₀ fun m hm => ⟨hpost m hm, fun he => hu (he ▸ hm)⟩
    have hstream := hh.stream
    rw [Dispatch.pending, hq, List.filterMap_nil, edgesFrom_nil, List.append_nil] at hstream
    refine ⟨hstream, ?_⟩
    show ((r.2.run post).machine.dispatch.heardBy r.1).getLastD false = _
    rw [hstream, getLastD_edgesFrom, hh.current]
    rfl

/-- The values still waiting count: over an automatic connector, connected and then
disconnected with both notices still waiting, a listener registers while reconnecting; the
worker then hands it a connect and a disconnect, though the phase is never connected from its
registration on. -/
theorem registration_hears_queued_edges :
    let s := (init ⟨Duration.ofMillis 20000, none⟩ true).run
      [.configure (some ⟨"mem:1", Duration.ofMillis 10000⟩), .pump, .control 0 .dropConnection,
        .pump]
    let r := s.register "L"
    (r.2.run [.deliver, .deliver]).machine.dispatch.heardBy r.1 = [true, false] ∧
      (r.2.trace [.deliver, .deliver]).map Phase.isConnected = [false, false, false] := by
  decide

/-- The same run: once drained, the registration has heard exactly the edges of the values
waiting when it registered and of the phase after. -/
theorem registration_hears_edges_after_drop :
    let pre := [Move.configure (some ⟨"mem:1", Duration.ofMillis 10000⟩), .pump,
      .control 0 .dropConnection, .pump]
    let post := [Move.deliver, .deliver]
    let s := (init ⟨Duration.ofMillis 20000, none⟩ true).run pre
    let r := s.register "L"
    (∀ m ∈ pre ++ post, m ≠ .shutdown) ∧ (∀ e ∈ s.machine.dispatch.registry, e.2 ≠ "L") ∧
      (r.2.run post).machine.dispatch.heardBy r.1 =
        edgesFrom false (s.machine.dispatch.pending ++ (r.2.trace post).map Phase.isConnected) := by
  intro pre post s r
  have hrun : ∀ m ∈ pre ++ post, m ≠ .shutdown := by decide
  have hnew : ∀ e ∈ s.machine.dispatch.registry, e.2 ≠ "L" := by decide
  exact ⟨hrun, hnew,
    ((registration_hears_edges _ _ pre post "L" hrun hnew).2.2.2 (by decide) (by decide)).1⟩

end Coordination.Supervisor
