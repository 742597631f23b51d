import Coordination.Machine.Moves
import Coordination.Proofs.Delivery

/-!
The notices a phase machine queues and the callbacks its worker delivers, over every run of
moves. A change of phase says whether the phase differed and, while the dispatcher runs,
queues a connect exactly on entering the connected phase and a disconnect exactly on leaving
it (`Machine.change_dispatch`).

Whatever is queued (reports with any two phases and synthetic connects included) and however
registrations come and go, the worker remembers for each registration the last value it
heard (`Dispatch.Sound`); so every registration's callbacks alternate and begin with a connect,
and a registration that stays hears the edges of the values the worker takes while it is
registered (`Machine.heardBy_run`). After shutdown the worker takes exactly the notices queued
before it and then stops (`Machine.Draining`). Main statement: `callbacks_follow_notices`.
-/

namespace Coordination

/-- The value the worker takes next, if a notification heads the queue. -/
def Dispatch.next? (d : Dispatch) : Option Bool := d.queue.head?.bind Notice.value?

namespace Machine

/-- The values the worker takes along a run, oldest first. -/
def handled (m : Machine) : List Move → List Bool
  | [] => []
  | mv :: ms => (if mv = .work then m.dispatch.next?.toList else []) ++ (m.step mv).handled ms

@[simp] theorem handled_nil (m : Machine) : m.handled [] = [] := rfl

theorem handled_cons (m : Machine) (mv : Move) (ms : List Move) :
    m.handled (mv :: ms) = m.handled [mv] ++ (m.step mv).handled ms := by
  simp [handled]

theorem handled_append (m : Machine) (ms ms' : List Move) :
    m.handled (ms ++ ms') = m.handled ms ++ (m.run ms).handled ms' := by
  induction ms generalizing m with
  | nil => rfl
  | cons mv ms ih =>
    rw [List.cons_append, handled_cons, ih, handled_cons m mv ms, List.append_assoc]
    rfl

theorem handled_single_of_ne (m : Machine) {mv : Move} (h : mv ≠ .work) : m.handled [mv] = [] := by
  simp [handled, h]

end Machine

namespace Dispatch

/-- Two dispatchers with the same registrations, numbers handed out, worker's memory and
callbacks: they differ at most in the queue and in whether they stopped. -/
structure Agrees (d d' : Dispatch) : Prop where
  registry : d'.registry = d.registry
  history : d'.history = d.history
  nextId : d'.nextId = d.nextId
  delivered : d'.delivered = d.delivered

theorem Agrees.rfl' (d : Dispatch) : Agrees d d := ⟨rfl, rfl, rfl, rfl⟩

theorem agrees_push (d : Dispatch) (n : Notice) : Agrees d (d.push n) := by
  unfold push
  split
  · exact Agrees.rfl' d
  · exact ⟨rfl, rfl, rfl, rfl⟩

theorem agrees_phaseChanged (d : Dispatch) (old new : Phase) : Agrees d (d.phaseChanged old new) := by
  unfold phaseChanged
  split
  · exact agrees_push d _
  · split
    · exact agrees_push d _
    · exact Agrees.rfl' d

theorem agrees_shutdown (d : Dispatch) : Agrees d d.shutdown := by
  unfold shutdown
  split
  · exact Agrees.rfl' d
  · exact ⟨rfl, rfl, rfl, rfl⟩

theorem Agrees.heardBy_eq {d d' : Dispatch} (h : Agrees d d') (id : Nat) :
    d'.heardBy id = d.heardBy id := by
  simp only [heardBy, h.delivered]

/-- A dispatcher's bookkeeping: every number it mentions was handed out, each registration
appears once, the worker remembers for each registration the last value it heard, and every
number's callbacks alternate from disconnected. -/
structure Sound (d : Dispatch) : Prop where
  registered : ∀ e ∈ d.registry, e.1 < d.nextId
  distinct : (d.registry.map Prod.fst).Nodup
  delivered : ∀ dl ∈ d.delivered, dl.id < d.nextId
  remembered : ∀ e ∈ d.history, e.1 < d.nextId
  last : ∀ e ∈ d.registry, lastOf d.history e.1 = (d.heardBy e.1).getLastD false
  alternates : ∀ id, (false :: d.heardBy id).IsChain (· ≠ ·)

section Sound

variable {d d' : Dispatch}

theorem sound_empty : Sound {} where
  registered := by simp
  distinct := by simp
  delivered := by simp
  remembered := by simp
  last := by simp
  alternates _ := List.isChain_singleton false

theorem Sound.agrees (h : Sound d) (ha : Agrees d d') : Sound d' where
  registered e he := ha.nextId ▸ h.registered e (ha.registry ▸ he)
  distinct := ha.registry ▸ h.distinct
  delivered dl hd := ha.nextId ▸ h.delivered dl (ha.delivered ▸ hd)
  remembered e he := ha.nextId ▸ h.remembered e (ha.history ▸ he)
  last e he := by
    rw [ha.history, ha.heardBy_eq]
    exact h.last e (ha.registry ▸ he)
  alternates id := ha.heardBy_eq id ▸ h.alternates id

theorem nodup_append_fresh {rs : List (Nat × String)} {n : Nat} (hd : (rs.map Prod.fst).Nodup)
    (hr : ∀ e ∈ rs, e.1 < n) (l : String) : ((rs ++ [(n, l)]).map Prod.fst).Nodup := by
  rw [List.map_append, List.map_singleton]
  refine List.nodup_append.mpr ⟨hd, List.nodup_singleton n, ?_⟩
  intro a ha b hb
  obtain ⟨e, he, rfl⟩ := List.mem_map.mp ha
  rw [List.mem_singleton.mp hb]
  exact Nat.ne_of_lt (hr e he)

theorem Sound.add (h : Sound d) (l : String) : Sound (d.add l).2 := by
  cases hf : d.registry.find? (·.2 = l) with
  | some e =>
    rw [add_of_known _ _ hf]
    exact h
  | none =>
    rw [add_of_new _ _ hf]
    -- the newcomer's number is fresh: it has heard nothing and nothing is remembered for it
    have hheard := heardBy_of_fresh d h.delivered
    have hlast := lastOf_of_fresh h.remembered
    refine ⟨?_, nodup_append_fresh h.distinct h.registered l,
      fun dl hd => Nat.lt_succ_of_lt (h.delivered dl hd),
      fun e he => Nat.lt_succ_of_lt (h.remembered e he), ?_, h.alternates⟩
    · intro e he
      rcases List.mem_append.mp he with he | he
      · exact Nat.lt_succ_of_lt (h.registered e he)
      · rw [List.mem_singleton.mp he]
        exact Nat.lt_succ_self _
    · intro e he
      rcases List.mem_append.mp he with he | he
      · exact h.last e he
      · rw [List.mem_singleton.mp he]
        show lastOf d.history d.nextId = (d.heardBy d.nextId).getLastD false
        rw [hheard, hlast]
        rfl

theorem Sound.remove (h : Sound d) (id : Nat) : Sound (d.remove id).2 where
  registered e he := h.registered e (List.mem_of_mem_filter he)
  distinct := h.distinct.sublist (List.filter_sublist.map _)
  delivered := h.delivered
  remembered := h.remembered
  last e he := h.last e (List.mem_of_mem_filter he)
  alternates := h.alternates

/-- One more value after a stream that alternates from disconnected keeps it alternating when
the value differs from the last. -/
theorem isChain_concat {xs : List Bool} {c : Bool} (h : (false :: xs).IsChain (· ≠ ·))
    (hc : xs.getLastD false ≠ c) : (false :: (xs ++ [c])).IsChain (· ≠ ·) := by
  rw [← List.cons_append]
  refine h.append (List.isChain_singleton c) ?_
  intro x hx y hy
  rw [List.getLast?_cons, Option.mem_def, Option.some.injEq] at hx
  rw [List.head?_cons, Option.mem_def, Option.some.injEq] at hy
  rw [← hx, ← hy, ← List.getLastD_eq_getLast?]
  exact hc

theorem Sound.deliver (h : Sound d) (c : Bool) : Sound (d.deliver c) := by
  refine ⟨h.registered, h.distinct, ?_, ?_, ?_, ?_⟩
  · intro dl hd
    rw [deliver_delivered] at hd
    rcases List.mem_append.mp hd with hd | hd
    · exact h.delivered dl hd
    · obtain ⟨e, he, rfl⟩ := List.mem_map.mp hd
      exact h.registered e (List.mem_of_mem_filter he)
  · intro e he
    rw [deliver_history] at he
    obtain ⟨e', he', rfl⟩ := List.mem_map.mp he
    exact h.registered e' he'
  · intro e he
    rw [lastOf_deliver d c he, heardBy_deliver d c h.distinct he]
    split
    · rename_i hs
      rw [List.append_nil, ← h.last e he, hs]
    · exact List.getLastD_concat.symm
  · intro id
    by_cases hr : ∃ l, (id, l) ∈ d.registry
    · obtain ⟨l, hr⟩ := hr
      rw [heardBy_deliver d c h.distinct hr]
      split
      · rw [List.append_nil]
        exact h.alternates id
      · rename_i hs
        exact isChain_concat (h.alternates id) (h.last _ hr ▸ hs)
    · rw [heardBy_deliver_of_gone d c fun e he hid => hr ⟨e.2, by rw [← hid]; exact he⟩]
      exact h.alternates id

theorem Sound.work (h : Sound d) : Sound d.work := by
  unfold Dispatch.work
  split
  · exact h
  · exact h.agrees ⟨rfl, rfl, rfl, rfl⟩
  · exact (h.deliver _).agrees ⟨rfl, rfl, rfl, rfl⟩

end Sound

theorem registry_work (d : Dispatch) : d.work.registry = d.registry := by
  unfold Dispatch.work
  split <;> rfl

theorem work_of_nil {d : Dispatch} (h : d.queue = []) : d.work = d := by
  simp [Dispatch.work, h]

theorem work_of_stop {d : Dispatch} {rest : List Notice} (h : d.queue = .stop :: rest) :
    d.work = { d with queue := [], halted := true } := by
  simp [Dispatch.work, h]

theorem work_of_notify {d : Dispatch} {c : Bool} {rest : List Notice}
    (h : d.queue = .notify c :: rest) : d.work = { d.deliver c with queue := rest } := by
  simp [Dispatch.work, h]

theorem phaseChanged_of_stopped {d : Dispatch} (h : d.stopped = true) (old new : Phase) :
    d.phaseChanged old new = d := by
  unfold phaseChanged
  split
  · exact push_of_stopped d _ h
  · split
    · exact push_of_stopped d _ h
    · rfl

theorem shutdown_of_stopped {d : Dispatch} (h : d.stopped = true) : d.shutdown = d := by
  simp [shutdown, h]

end Dispatch

namespace Machine

variable {m : Machine}

/-- A change of phase: while the dispatcher runs, a connect is queued on entering the connected
phase and a disconnect on leaving it, and nothing else; once it is shut down nothing is
queued. -/
theorem change_dispatch (m : Machine) (new : Phase) :
    (m.change new).2.dispatch = { m.dispatch with queue := m.dispatch.queue ++
      if m.dispatch.stopped then [] else
      if m.phase ≠ .connected ∧ new = .connected then [.notify true]
      else if m.phase = .connected ∧ new ≠ .connected then [.notify false] else [] } := by
  obtain ⟨p, ⟨registry, queue, history, stopped, halted, nextId, delivered⟩⟩ := m
  unfold change
  by_cases hp : p = new
  · subst hp
    simp
  · rw [if_neg hp]
    cases stopped <;> cases p <;> cases new <;>
      simp_all [Dispatch.phaseChanged, Dispatch.push, Phase.isConnected]

theorem agrees_moveTo (m : Machine) (q : Phase) : m.dispatch.Agrees (m.moveTo q).dispatch := by
  unfold moveTo change
  split
  · exact .rfl' _
  · exact Dispatch.agrees_phaseChanged _ _ _

theorem moveTo_dispatch_of_stopped (h : m.dispatch.stopped = true) (q : Phase) :
    (m.moveTo q).dispatch = m.dispatch := by
  unfold moveTo change
  split
  · rfl
  · exact Dispatch.phaseChanged_of_stopped h _ _

theorem step_sound (h : m.dispatch.Sound) (mv : Move) : (m.step mv).dispatch.Sound := by
  cases mv with
  | change new => exact h.agrees (agrees_moveTo m new)
  | changed old new => exact h.agrees (Dispatch.agrees_phaseChanged _ old new)
  | add l => exact h.add l
  | remove id => exact h.remove id
  | notifyConnected => exact h.agrees (Dispatch.agrees_push _ _)
  | shutdown => exact h.agrees (Dispatch.agrees_shutdown _)
  | work => exact h.work

theorem run_sound (h : m.dispatch.Sound) (ms : List Move) : (m.run ms).dispatch.Sound := by
  induction ms generalizing m with
  | nil => exact h
  | cons mv ms ih => exact ih (step_sound h mv)

theorem step_registered {id : Nat} {l : String} (hr : (id, l) ∈ m.dispatch.registry) {mv : Move}
    (hu : mv ≠ .remove id) : (id, l) ∈ (m.step mv).dispatch.registry := by
  cases mv with
  | change new =>
    show (id, l) ∈ (m.moveTo new).dispatch.registry
    rw [(agrees_moveTo m new).registry]
    exact hr
  | changed old new =>
    show (id, l) ∈ (m.dispatch.phaseChanged old new).registry
    rw [(Dispatch.agrees_phaseChanged _ old new).registry]
    exact hr
  | add l' =>
    show (id, l) ∈ (m.dispatch.add l').2.registry
    cases hf : m.dispatch.registry.find? (·.2 = l') with
    | some e => rw [Dispatch.add_of_known _ _ hf]; exact hr
    | none => rw [Dispatch.add_of_new _ _ hf]; exact List.mem_append_left _ hr
  | remove id' =>
    have hne : id ≠ id' := fun he => hu (he ▸ rfl)
    exact List.mem_filter.mpr ⟨hr, by simpa using hne⟩
  | notifyConnected =>
    show (id, l) ∈ (m.dispatch.push _).registry
    rw [(Dispatch.agrees_push _ _).registry]
    exact hr
  | shutdown =>
    show (id, l) ∈ m.dispatch.shutdown.registry
    rw [(Dispatch.agrees_shutdown _).registry]
    exact hr
  | work =>
    show (id, l) ∈ m.dispatch.work.registry
    rw [Dispatch.registry_work]
    exact hr

/-- One move adds to what a registration heard the edges of the value the worker takes in it,
if any, seen from the value the registration heard last. -/
theorem heardBy_step (h : m.dispatch.Sound) {id : Nat} {l : String}
    (hr : (id, l) ∈ m.dispatch.registry) (mv : Move) :
    (m.step mv).dispatch.heardBy id =
      m.dispatch.heardBy id ++ edgesFrom ((m.dispatch.heardBy id).getLastD false) (m.handled [mv]) := by
  by_cases hw : mv = .work
  · subst hw
    show m.dispatch.work.heardBy id = _
    simp only [handled, if_true, List.append_nil, Dispatch.next?]
    cases hq : m.dispatch.queue with
    | nil => simp [Dispatch.work_of_nil hq]
    | cons n rest =>
      cases n with
      | stop =>
        rw [Dispatch.work_of_stop hq]
        simp only [List.head?_cons, Option.bind_some, Notice.value?, Option.toList_none,
          edgesFrom_nil, List.append_nil]
        rfl
      | notify c =>
        rw [Dispatch.work_of_notify hq, Dispatch.heardBy_with_queue,
          Dispatch.heardBy_deliver _ _ h.distinct hr, h.last _ hr]
        simp [Notice.value?, edgesFrom_cons, eq_comm]
  · rw [handled_single_of_ne m hw, edgesFrom_nil, List.append_nil]
    cases mv with
    | change new => exact (agrees_moveTo m new).heardBy_eq id
    | changed old new => exact (Dispatch.agrees_phaseChanged _ old new).heardBy_eq id
    | add l' =>
      show (m.dispatch.add l').2.heardBy id = _
      cases hf : m.dispatch.registry.find? (·.2 = l') with
      | some e => rw [Dispatch.add_of_known _ _ hf]
      | none => rw [Dispatch.add_of_new _ _ hf]; rfl
    | remove id' => rfl
    | notifyConnected => exact (Dispatch.agrees_push _ _).heardBy_eq id
    | shutdown => exact (Dispatch.agrees_shutdown _).heardBy_eq id
    | work => exact absurd rfl hw

/-- A registration that is not removed hears, after what it heard already, the edges of the
values the worker takes, seen from the value it heard last. -/
theorem heardBy_run (h : m.dispatch.Sound) {id : Nat} {l : String}
    (hr : (id, l) ∈ m.dispatch.registry) {ms : List Move} (hu : ∀ mv ∈ ms, mv ≠ .remove id) :
    (m.run ms).dispatch.heardBy id =
      m.dispatch.heardBy id ++ edgesFrom ((m.dispatch.heardBy id).getLastD false) (m.handled ms) := by
  induction ms generalizing m with
  | nil => simp
  | cons mv ms ih =>
    obtain ⟨hmv, hms⟩ := List.forall_mem_cons.mp hu
    have hstep := heardBy_step h hr mv
    -- the value heard last after the move is the last value the move handed out, if any
    have hlast : ((m.step mv).dispatch.heardBy id).getLastD false =
        (m.handled [mv]).getLastD ((m.dispatch.heardBy id).getLastD false) := by
      rw [hstep, getLastD_append, getLastD_edgesFrom]
    rw [run_cons, ih (step_sound h mv) (step_registered hr hmv) hms, hlast, hstep,
      handled_cons m mv ms, edgesFrom_append, List.append_assoc]

/-- A dispatcher before shutdown: it runs, the worker has not stopped, and only notifications
wait. -/
structure Running (d : Dispatch) : Prop where
  running : d.stopped = false
  working : d.halted = false
  notices : ∀ n ∈ d.queue, n ≠ .stop

theorem running_empty : Running {} := ⟨rfl, rfl, by simp⟩

theorem Running.push {d : Dispatch} (h : Running d) (c : Bool) : Running (d.push (.notify c)) := by
  rw [Dispatch.push, if_neg (by simp [h.running])]
  refine ⟨h.running, h.working, fun n hn => ?_⟩
  rcases List.mem_append.mp hn with hn | hn
  · exact h.notices n hn
  · rw [List.mem_singleton.mp hn]
    exact Notice.noConfusion

theorem Running.phaseChanged {d : Dispatch} (h : Running d) (old new : Phase) :
    Running (d.phaseChanged old new) := by
  unfold Dispatch.phaseChanged
  split
  · exact h.push true
  · split
    · exact h.push false
    · exact h

theorem step_running (h : Running m.dispatch) {mv : Move} (hs : mv ≠ .shutdown) :
    Running (m.step mv).dispatch := by
  cases mv with
  | change new =>
    show Running (m.moveTo new).dispatch
    unfold moveTo change
    split
    · exact h
    · exact h.phaseChanged _ _
  | changed old new => exact h.phaseChanged old new
  | add l =>
    show Running (m.dispatch.add l).2
    cases hf : m.dispatch.registry.find? (·.2 = l) with
    | some e => rw [Dispatch.add_of_known _ _ hf]; exact h
    | none => rw [Dispatch.add_of_new _ _ hf]; exact ⟨h.running, h.working, h.notices⟩
  | remove id => exact ⟨h.running, h.working, h.notices⟩
  | notifyConnected => exact h.push true
  | shutdown => exact absurd rfl hs
  | work =>
    show Running m.dispatch.work
    cases hq : m.dispatch.queue with
    | nil => rw [Dispatch.work_of_nil hq]; exact h
    | cons n rest =>
      cases n with
      | stop => exact absurd rfl (h.notices _ (by simp [hq]))
      | notify c =>
        rw [Dispatch.work_of_notify hq]
        exact ⟨h.running, h.working, fun n hn => h.notices n (by simp [hq, hn])⟩

theorem run_running (h : Running m.dispatch) {ms : List Move} (hs : .shutdown ∉ ms) :
    Running (m.run ms).dispatch := by
  induction ms generalizing m with
  | nil => exact h
  | cons mv ms ih =>
    rw [List.mem_cons, not_or] at hs
    exact ih (step_running h fun he => hs.1 he.symm) hs.2

theorem queue_eq_pending {d : Dispatch} (h : ∀ n ∈ d.queue, n ≠ .stop) :
    d.queue = d.pending.map Notice.notify := by
  unfold Dispatch.pending
  generalize d.queue = q at h ⊢
  induction q with
  | nil => rfl
  | cons n q ih =>
    obtain ⟨hn, hq⟩ := List.forall_mem_cons.mp h
    cases n with
    | stop => exact absurd rfl hn
    | notify c =>
      simp only [List.filterMap_cons, Notice.value?, List.map_cons]
      rw [← ih hq]

/-- A dispatcher after shutdown with the notifications `vs` still to take: they wait in order,
with the stop behind them until the worker takes it. -/
structure Draining (d : Dispatch) (vs : List Bool) : Prop where
  stopped : d.stopped = true
  queue : d.queue = vs.map Notice.notify ++ if d.halted then [] else [.stop]
  halted : d.halted = true → vs = []

theorem Running.shutdown {d : Dispatch} (h : Running d) : Draining d.shutdown d.pending := by
  rw [Dispatch.shutdown, if_neg (by simp [h.running])]
  refine ⟨rfl, ?_, fun hh => absurd hh (by simp [h.working])⟩
  show d.queue ++ [.stop] = d.pending.map Notice.notify ++ if d.halted then [] else [.stop]
  rw [h.working, if_neg Bool.false_ne_true, ← queue_eq_pending h.notices]

theorem step_draining {vs : List Bool} (h : Draining m.dispatch vs) (mv : Move) :
    ∃ vs', vs = m.handled [mv] ++ vs' ∧ Draining (m.step mv).dispatch vs' := by
  by_cases hw : mv = .work
  · subst hw
    show ∃ vs', vs = m.dispatch.next?.toList ++ [] ++ vs' ∧ Draining m.dispatch.work vs'
    cases vs with
    | cons c rest =>
      have hq := h.queue
      rw [List.map_cons, List.cons_append] at hq
      refine ⟨rest, by simp [Dispatch.next?, hq, Notice.value?], ?_⟩
      rw [Dispatch.work_of_notify hq]
      exact ⟨h.stopped, rfl, fun hh => absurd (h.halted hh) (List.cons_ne_nil c rest)⟩
    | nil =>
      cases hh : m.dispatch.halted
      · have hq : m.dispatch.queue = [.stop] := by simpa [hh] using h.queue
        refine ⟨[], by simp [Dispatch.next?, hq, Notice.value?], ?_⟩
        rw [Dispatch.work_of_stop hq]
        exact ⟨h.stopped, by simp, fun _ => rfl⟩
      · have hq : m.dispatch.queue = [] := by simpa [hh] using h.queue
        refine ⟨[], by simp [Dispatch.next?, hq], ?_⟩
        rw [Dispatch.work_of_nil hq]
        exact h
  · refine ⟨vs, by rw [handled_single_of_ne m hw, List.nil_append], ?_⟩
    -- after shutdown nothing is queued, and registrations leave the queue alone
    cases mv with
    | change new => rw [step, moveTo_dispatch_of_stopped h.stopped]; exact h
    | changed old new => rw [step, Dispatch.phaseChanged_of_stopped h.stopped]; exact h
    | add l =>
      show Draining (m.dispatch.add l).2 vs
      cases hf : m.dispatch.registry.find? (·.2 = l) with
      | some e => rw [Dispatch.add_of_known _ _ hf]; exact h
      | none => rw [Dispatch.add_of_new _ _ hf]; exact ⟨h.stopped, h.queue, h.halted⟩
    | remove id => exact ⟨h.stopped, h.queue, h.halted⟩
    | notifyConnected =>
      rw [step, Dispatch.notifyConnected, Dispatch.push_of_stopped _ _ h.stopped]; exact h
    | shutdown => rw [step, Dispatch.shutdown_of_stopped h.stopped]; exact h
    | work => exact absurd rfl hw

theorem run_draining {vs : List Bool} (h : Draining m.dispatch vs) (ms : List Move) :
    ∃ vs', vs = m.handled ms ++ vs' ∧ Draining (m.run ms).dispatch vs' := by
  induction ms generalizing m vs with
  | nil => exact ⟨vs, rfl, h⟩
  | cons mv ms ih =>
    obtain ⟨vs₁, hv₁, h₁⟩ := step_draining h mv
    obtain ⟨vs₂, hv₂, h₂⟩ := ih h₁
    exact ⟨vs₂, by rw [hv₁, hv₂, handled_cons m mv ms, List.append_assoc], h₂⟩

theorem run_work_halts {vs : List Bool} (h : Draining m.dispatch vs) :
    (m.run (List.replicate (vs.length + 1) .work)).dispatch.halted = true := by
  induction vs generalizing m with
  | nil =>
    rw [List.length_nil, List.replicate_one, run_cons, run_nil]
    show m.dispatch.work.halted = true
    cases hh : m.dispatch.halted
    · have hq : m.dispatch.queue = [.stop] := by simpa [hh] using h.queue
      rw [Dispatch.work_of_stop hq]
    · have hq : m.dispatch.queue = [] := by simpa [hh] using h.queue
      rw [Dispatch.work_of_nil hq, hh]
  | cons c rest ih =>
    obtain ⟨vs', hv, h'⟩ := step_draining h .work
    have hrest : vs' = rest := by
      have hq := h.queue
      rw [List.map_cons, List.cons_append] at hq
      simpa [handled, Dispatch.next?, hq, Notice.value?] using hv.symm
    rw [List.length_cons, List.replicate_succ, run_cons]
    exact ih (hrest ▸ h')

end Machine

open Machine

/-- Over every run of a phase machine and its dispatcher, whatever is reported directly and
however registrations come and go: a change of phase says whether the phase differed and
queues a connect exactly on entering the connected phase and a disconnect exactly on leaving it
(nothing once shut down); every registration's callbacks alternate and begin with a connect (a
callback that panics is still delivered); a listener registered before the worker took any
notification and never removed hears exactly the values the worker took, each one that differs
from the one before, the first compared with disconnected; and after shutdown the worker takes
exactly the notifications waiting then, and stops after them. -/
theorem callbacks_follow_notices :
    (∀ (m : Machine) (new : Phase), (m.change new).1 = decide (m.phase ≠ new) ∧
      (m.change new).2.phase = new ∧
      (m.change new).2.dispatch = { m.dispatch with queue := m.dispatch.queue ++
        if m.dispatch.stopped then [] else
        if m.phase ≠ .connected ∧ new = .connected then [.notify true]
        else if m.phase = .connected ∧ new ≠ .connected then [.notify false] else [] }) ∧
    (∀ (ms : List Move) (id : Nat),
      (false :: (({} : Machine).run ms).dispatch.heardBy id).IsChain (· ≠ ·)) ∧
    (∀ (pre post : List Move) (l : String),
      let m := ({} : Machine).run pre
      ({} : Machine).handled pre = [] → (m.dispatch.add l).1.2 = true →
      (∀ mv ∈ post, mv ≠ .remove (m.dispatch.add l).1.1) →
      ((m.step (.add l)).run post).dispatch.heardBy (m.dispatch.add l).1.1 =
        edgesFrom false (({} : Machine).handled (pre ++ .add l :: post))) ∧
    (∀ (pre post : List Move), .shutdown ∉ pre →
      let m := ({} : Machine).run pre
      let s := m.step .shutdown
      ((s.run post).dispatch.halted = true → s.handled post = m.dispatch.pending) ∧
        (s.run (List.replicate (m.dispatch.pending.length + 1) .work)).dispatch.halted = true) := by
  refine ⟨fun m new => ⟨change_fst m new, change_phase m new, change_dispatch m new⟩,
    fun ms id => (run_sound Dispatch.sound_empty ms).alternates id, ?_, ?_⟩
  · intro pre post l m hpre hnew hpost
    have hs : m.dispatch.Sound := run_sound Dispatch.sound_empty pre
    -- the listener is new: it gets the next number, and that number has heard nothing
    have hfind : m.dispatch.registry.find? (·.2 = l) = none := by
      cases hf : m.dispatch.registry.find? (·.2 = l) with
      | none => rfl
      | some e => rw [Dispatch.add_of_known _ _ hf] at hnew; exact absurd hnew Bool.false_ne_true
    have hid : (m.dispatch.add l).1.1 = m.dispatch.nextId := by rw [Dispatch.add_of_new _ _ hfind]
    have hreg : (m.dispatch.nextId, l) ∈ (m.step (.add l)).dispatch.registry := by
      show _ ∈ (m.dispatch.add l).2.registry
      rw [Dispatch.add_of_new _ _ hfind]
      exact List.mem_append_right _ (List.mem_singleton_self _)
    have hfresh : (m.step (.add l)).dispatch.heardBy m.dispatch.nextId = [] := by
      show (m.dispatch.add l).2.heardBy _ = []
      rw [Dispatch.add_of_new _ _ hfind]
      exact Dispatch.heardBy_of_fresh m.dispatch hs.delivered
    rw [hid] at hpost ⊢
    rw [heardBy_run (step_sound hs _) hreg hpost, hfresh, handled_append, hpre, List.nil_append,
      handled_cons, handled_single_of_ne _ (by simp), List.nil_append, List.nil_append]
    rfl
  · intro pre post hpre m s
    have hd : Draining s.dispatch m.dispatch.pending := (run_running running_empty hpre).shutdown
    refine ⟨fun hh => ?_, run_work_halts hd⟩
    obtain ⟨vs, hv, hend⟩ := run_draining hd post
    rw [hv, hend.halted hh, List.append_nil]

/-- The first listener hears a connect for a connect, a repeated synthetic connect and the
connect of a change, and a disconnect when the phase leaves connected. -/
theorem callbacks_follow_notices_first_listener :
    let m := ({} : Machine).run []
    let post := [Move.change .connecting, .change .connected, .notifyConnected, .work, .work,
      .change .reconnecting, .work]
    ({} : Machine).handled [] = [] ∧ (m.dispatch.add "A").1.2 = true ∧
      (∀ mv ∈ post, mv ≠ .remove (m.dispatch.add "A").1.1) ∧
      ((m.step (.add "A")).run post).dispatch.heardBy (m.dispatch.add "A").1.1 =
        edgesFrom false (({} : Machine).handled ([] ++ .add "A" :: post)) := by
  intro m post
  have h₁ : ({} : Machine).handled [] = [] := rfl
  have h₂ : (m.dispatch.add "A").1.2 = true := by decide
  have h₃ : ∀ mv ∈ post, mv ≠ .remove (m.dispatch.add "A").1.1 := by decide
  exact ⟨h₁, h₂, h₃, callbacks_follow_notices.2.2.1 [] post "A" h₁ h₂ h₃⟩

end Coordination
