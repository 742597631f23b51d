import Mathlib.Data.List.Destutter
import Coordination.Machine

/-!
What each registration hears from the dispatcher. The edges of a stream of connectivity values
are the values that differ from the one before them, the first compared with disconnected;
they strictly alternate and begin with a connect (`isChain_edgesFrom`).

The worker hands every notice to the registrations of the moment it takes the notice. So a
registration hears the edges of the notices that were waiting when it registered, followed by
the edges of the phase from then on (`Machine.Hears`): every change of phase queues the new
connectivity when it changes, and a synthetic connect for a newcomer repeats the current one.
Until the queue drains it has heard a prefix of them; a removed registration hears nothing
more (`Machine.Heard`). Both are kept by every step of the machine before shutdown, under the
invariant `Machine.Live` of a running dispatcher.
-/

namespace Coordination

/-- The edges of a stream of connectivity values: each value that differs from the one before
it, the first compared with `prev`. -/
def edgesFrom (prev : Bool) (xs : List Bool) : List Bool := (xs.destutter' (· ≠ ·) prev).tail

theorem destutter'_eq_cons_edgesFrom (p : Bool) (xs : List Bool) :
    xs.destutter' (· ≠ ·) p = p :: edgesFrom p xs := by
  induction xs generalizing p with
  | nil => rfl
  | cons x xs ih =>
    unfold edgesFrom
    by_cases h : p ≠ x
    · rw [List.destutter'_cons_pos xs h]
      rfl
    · rw [List.destutter'_cons_neg xs h, ih]
      rfl

@[simp] theorem edgesFrom_nil (p : Bool) : edgesFrom p [] = [] := rfl

theorem edgesFrom_cons (p x : Bool) (xs : List Bool) :
    edgesFrom p (x :: xs) = if x = p then edgesFrom p xs else x :: edgesFrom x xs := by
  by_cases h : x = p
  · rw [if_pos h]
    exact congrArg List.tail (List.destutter'_cons_neg xs fun hne => hne h.symm)
  · rw [if_neg h]
    show (List.destutter' (· ≠ ·) p (x :: xs)).tail = x :: edgesFrom x xs
    rw [List.destutter'_cons_pos xs fun he => h he.symm, List.tail_cons,
      destutter'_eq_cons_edgesFrom]

theorem isChain_edgesFrom (p : Bool) (xs : List Bool) :
    (p :: edgesFrom p xs).IsChain (· ≠ ·) := by
  rw [← destutter'_eq_cons_edgesFrom]
  exact List.isChain_destutter' _ xs p

theorem edgesFrom_append (p : Bool) (xs ys : List Bool) :
    edgesFrom p (xs ++ ys) = edgesFrom p xs ++ edgesFrom (xs.getLastD p) ys := by
  induction xs generalizing p with
  | nil => rfl
  | cons x xs ih =>
    rw [List.cons_append, edgesFrom_cons, edgesFrom_cons, List.getLastD_cons]
    by_cases h : x = p
    · subst h
      rw [if_pos rfl, if_pos rfl, ih]
    · rw [if_neg h, if_neg h, ih, List.cons_append]

theorem getLastD_edgesFrom (p : Bool) (xs : List Bool) :
    (edgesFrom p xs).getLastD p = xs.getLastD p := by
  induction xs generalizing p with
  | nil => rfl
  | cons x xs ih =>
    rw [edgesFrom_cons, List.getLastD_cons]
    by_cases h : x = p
    · subst h
      rw [if_pos rfl, ih]
    · rw [if_neg h, List.getLastD_cons, ih]

theorem edgesFrom_append_last {p c : Bool} {xs : List Bool} (h : xs.getLastD p = c) :
    edgesFrom p (xs ++ [c]) = edgesFrom p xs := by
  rw [edgesFrom_append, h, edgesFrom_cons, if_pos rfl, edgesFrom_nil, List.append_nil]

theorem prefix_edgesFrom_append (p : Bool) (xs ys : List Bool) :
    edgesFrom p xs <+: edgesFrom p (xs ++ ys) := by
  rw [edgesFrom_append]
  exact List.prefix_append _ _

/-- The value a notice carries, if it is a notification. -/
def Notice.value? : Notice → Option Bool
  | .notify c => some c
  | .stop => none

/-- The notices a change of phase from `p` to `q` queues: the new connectivity, when it
changes. -/
def Phase.changeNotices (p q : Phase) : List Notice :=
  if p.isConnected = q.isConnected then [] else [.notify q.isConnected]

@[simp] theorem Phase.changeNotices_self (p : Phase) : p.changeNotices p = [] := by
  simp [Phase.changeNotices]

theorem Phase.filterMap_changeNotices (p q : Phase) :
    (p.changeNotices q).filterMap Notice.value? =
      if p.isConnected = q.isConnected then [] else [q.isConnected] := by
  unfold Phase.changeNotices
  split <;> rfl

namespace Dispatch

/-- The values of the notifications waiting in the queue, oldest first. -/
def pending (d : Dispatch) : List Bool := d.queue.filterMap Notice.value?

/-- The callbacks delivered to a registration, oldest first: `true` for a connect. -/
def heardBy (d : Dispatch) (id : Nat) : List Bool :=
  (d.delivered.filter (·.id == id)).map (·.connected)

@[simp] theorem pending_queue_append (d : Dispatch) (ns : List Notice) :
    { d with queue := d.queue ++ ns }.pending = d.pending ++ ns.filterMap Notice.value? := by
  simp [pending]

theorem filter_registry_eq {rs : List (Nat × String)} (hd : (rs.map Prod.fst).Nodup)
    {id : Nat} {l : String} (hr : (id, l) ∈ rs) : rs.filter (·.1 == id) = [(id, l)] := by
  induction rs with
  | nil => simp at hr
  | cons e rs ih =>
    obtain ⟨he, hd'⟩ := List.nodup_cons.mp hd
    rcases List.mem_cons.mp hr with rfl | hr'
    · have hnone : rs.filter (·.1 == id) = [] := by
        simp only [List.filter_eq_nil_iff, beq_iff_eq]
        intro e' he' hid
        exact he (List.mem_map.mpr ⟨e', he', hid⟩)
      simp [hnone]
    · have hne : e.1 ≠ id := fun h => he (h ▸ List.mem_map_of_mem hr')
      simp [hne, ih hd' hr']

theorem lastOf_deliver (d : Dispatch) (c : Bool) {id : Nat} {l : String}
    (hr : (id, l) ∈ d.registry) : lastOf (d.deliver c).history id = c := by
  rw [deliver_history]
  generalize d.registry = rs at hr ⊢
  induction rs with
  | nil => simp at hr
  | cons e rs ih =>
    obtain ⟨i, l'⟩ := e
    by_cases he : i = id
    · simp [lastOf, he]
    · have hr' : (id, l) ∈ rs := by
        rcases List.mem_cons.mp hr with h | h
        · exact absurd (Prod.mk.inj h).1.symm he
        · exact h
      simpa [lastOf, he] using ih hr'

theorem heardBy_deliver (d : Dispatch) (c : Bool) {id : Nat} {l : String}
    (hd : (d.registry.map Prod.fst).Nodup) (hr : (id, l) ∈ d.registry) :
    (d.deliver c).heardBy id = d.heardBy id ++ if lastOf d.history id = c then [] else [c] := by
  simp only [heardBy, deliver_delivered, List.filter_append, List.map_append, List.filter_map,
    List.map_map, List.filter_filter, Function.comp_def]
  congr 1
  -- only the registration numbered `id` passes the first test
  have hf : d.registry.filter (fun a => (a.1 == id) && (lastOf d.history a.1 != c)) =
      (d.registry.filter (·.1 == id)).filter (fun a => lastOf d.history a.1 != c) := by
    rw [List.filter_filter]
    congr 1
    funext a
    exact Bool.and_comm _ _
  rw [hf, filter_registry_eq hd hr]
  by_cases h : lastOf d.history id = c <;> simp [h]

theorem heardBy_deliver_of_gone (d : Dispatch) (c : Bool) {id : Nat}
    (hg : ∀ e ∈ d.registry, e.1 ≠ id) : (d.deliver c).heardBy id = d.heardBy id := by
  simp only [heardBy, deliver_delivered, List.filter_append, List.map_append, List.filter_map,
    List.map_map, List.filter_filter, Function.comp_def]
  have hnone : d.registry.filter (fun a => (a.1 == id) && (lastOf d.history a.1 != c)) = [] := by
    simp only [List.filter_eq_nil_iff, Bool.and_eq_true, beq_iff_eq, not_and]
    intro a ha hid
    exact absurd hid (hg a ha)
  simp [hnone]

@[simp] theorem heardBy_with_queue (d : Dispatch) (q : List Notice) (id : Nat) :
    { d with queue := q }.heardBy id = d.heardBy id := rfl

theorem heardBy_of_fresh (d : Dispatch) {id : Nat} (h : ∀ dl ∈ d.delivered, dl.id < id) :
    d.heardBy id = [] := by
  simp only [heardBy, List.map_eq_nil_iff, List.filter_eq_nil_iff, beq_iff_eq]
  intro dl hdl hid
  exact Nat.ne_of_lt (h dl hdl) hid

theorem lastOf_of_fresh {history : List (Nat × Bool)} {id : Nat}
    (h : ∀ e ∈ history, e.1 < id) : lastOf history id = false := by
  have hnone : history.find? (·.1 = id) = none := by
    simp only [List.find?_eq_none, decide_eq_true_eq]
    intro e he hid
    exact Nat.ne_of_lt (h e he) hid
  simp [lastOf, hnone]

theorem add_of_new (d : Dispatch) (l : String) (h : d.registry.find? (·.2 = l) = none) :
    d.add l = ((d.nextId, true),
      { d with registry := d.registry ++ [(d.nextId, l)], nextId := d.nextId + 1 }) := by
  simp [add, h]

theorem add_of_known (d : Dispatch) (l : String) {e : Nat × String}
    (h : d.registry.find? (·.2 = l) = some e) : d.add l = ((e.1, false), d) := by
  simp [add, h]

end Dispatch

theorem getLastD_append (xs ys : List Bool) (d : Bool) :
    (xs ++ ys).getLastD d = ys.getLastD (xs.getLastD d) := by
  simp only [List.getLastD_eq_getLast?, List.getLast?_append]
  cases ys.getLast? <;> rfl

namespace Machine

theorem moveTo_dispatch (m : Machine) (q : Phase) (h : m.dispatch.stopped = false) :
    (m.moveTo q).dispatch =
      { m.dispatch with queue := m.dispatch.queue ++ m.phase.changeNotices q } := by
  obtain ⟨p, ⟨registry, queue, history, stopped, halted, nextId, delivered⟩⟩ := m
  subst h
  unfold moveTo change
  split
  · rename_i hq
    subst hq
    simp
  · rename_i hq
    cases p <;> cases q <;>
      simp_all [Dispatch.phaseChanged, Dispatch.push, Phase.changeNotices, Phase.isConnected]

/-- The dispatcher of `m'` is that of `m` with the change of connectivity between their
phases queued, and nothing else changed. -/
def Reported (m m' : Machine) : Prop :=
  m'.dispatch = { m.dispatch with queue := m.dispatch.queue ++ m.phase.changeNotices m'.phase }

theorem Reported.stopped {m m' : Machine} (h : Reported m m') :
    m'.dispatch.stopped = m.dispatch.stopped := by
  unfold Reported at h
  rw [h]

theorem Reported.refl (m : Machine) : Reported m m := by
  simp [Reported]

theorem reported_moveTo {m : Machine} (h : m.dispatch.stopped = false) (q : Phase) :
    Reported m (m.moveTo q) := by
  rw [Reported, moveTo_phase]
  exact moveTo_dispatch m q h

/-- Two changes that pass through a phase away from connected and end away from it queue
what one change does. -/
theorem Reported.trans {m₁ m₂ m₃ : Machine} (h₁ : Reported m₁ m₂) (h₂ : Reported m₂ m₃)
    (hm : m₂.phase.isConnected = false) (he : m₃.phase.isConnected = false) :
    Reported m₁ m₃ := by
  unfold Reported at *
  rw [h₂, h₁]
  simp [Phase.changeNotices, hm, he]

/-- Registering gives the registry a new entry, or leaves the dispatcher as it is; a newcomer
registered while connected has a connect queued for it. -/
theorem register_eq (m : Machine) (l : String) :
    (m.register l).2 = { m with dispatch :=
      if (m.dispatch.add l).1.2 && m.phase.isConnected then (m.dispatch.add l).2.notifyConnected
      else (m.dispatch.add l).2 } := rfl

/-- A machine whose dispatcher runs: only notifications wait, the newest of them carries the
current connectivity, and registrations, callbacks and the worker's memory name only numbers
handed out already, each registration once. -/
structure Live (m : Machine) : Prop where
  running : m.dispatch.stopped = false
  notices : ∀ n ∈ m.dispatch.queue, n ≠ .stop
  newest : m.dispatch.pending.getLastD m.phase.isConnected = m.phase.isConnected
  registered : ∀ e ∈ m.dispatch.registry, e.1 < m.dispatch.nextId
  distinct : (m.dispatch.registry.map Prod.fst).Nodup
  delivered : ∀ dl ∈ m.dispatch.delivered, dl.id < m.dispatch.nextId
  remembered : ∀ e ∈ m.dispatch.history, e.1 < m.dispatch.nextId

theorem live_init : Live {} where
  running := rfl
  notices := by simp
  newest := rfl
  registered := by simp
  distinct := by simp
  delivered := by simp
  remembered := by simp

theorem Live.reported {m m' : Machine} (h : Live m) (hr : Reported m m') : Live m' := by
  unfold Reported at hr
  refine ⟨by rw [hr]; exact h.running, ?_, ?_, by rw [hr]; exact h.registered,
    by rw [hr]; exact h.distinct, by rw [hr]; exact h.delivered, by rw [hr]; exact h.remembered⟩
  · rw [hr]
    intro n hn
    rcases List.mem_append.mp hn with hn | hn
    · exact h.notices n hn
    · unfold Phase.changeNotices at hn
      split at hn <;> simp_all
  · rw [hr, Dispatch.pending_queue_append, Phase.filterMap_changeNotices]
    split
    · rename_i hc
      rw [List.append_nil, ← hc]
      exact h.newest
    · exact List.getLastD_concat

theorem Live.add {m : Machine} (h : Live m) (l : String) :
    Live { m with dispatch := (m.dispatch.add l).2 } := by
  cases hf : m.dispatch.registry.find? (·.2 = l) with
  | some e => rw [Dispatch.add_of_known _ _ hf]; exact h
  | none =>
    rw [Dispatch.add_of_new _ _ hf]
    refine ⟨h.running, h.notices, h.newest, fun e he => ?_, ?_,
      fun dl hd => Nat.lt_succ_of_lt (h.delivered dl hd),
      fun e he => Nat.lt_succ_of_lt (h.remembered e he)⟩
    · rcases List.mem_append.mp he with he | he
      · exact Nat.lt_succ_of_lt (h.registered e he)
      · simp at he
        simp [he]
    · simp only [List.map_append, List.map_cons, List.map_nil]
      refine List.nodup_append.mpr ⟨h.distinct, List.nodup_singleton _, ?_⟩
      intro a ha b hb
      simp only [List.mem_singleton] at hb
      obtain ⟨e, he, rfl⟩ := List.mem_map.mp ha
      exact hb ▸ Nat.ne_of_lt (h.registered e he)

theorem Live.notifyConnected {m : Machine} (h : Live m) (hc : m.phase.isConnected = true) :
    Live { m with dispatch := m.dispatch.notifyConnected } := by
  rw [Dispatch.notifyConnected, Dispatch.push, if_neg (by simp [h.running])]
  refine ⟨h.running, ?_, ?_, h.registered, h.distinct, h.delivered, h.remembered⟩
  · intro n hn
    rcases List.mem_append.mp hn with hn | hn
    · exact h.notices n hn
    · simp at hn
      simp [hn]
  · simp [Dispatch.pending, hc, Notice.value?]

theorem Live.register {m : Machine} (h : Live m) (l : String) : Live (m.register l).2 := by
  rw [register_eq]
  split
  · rename_i hc
    exact (h.add l).notifyConnected (Bool.and_eq_true_iff.mp hc).2
  · exact h.add l

theorem Live.remove {m : Machine} (h : Live m) (id : Nat) :
    Live { m with dispatch := (m.dispatch.remove id).2 } :=
  ⟨h.running, h.notices, h.newest, fun e he => h.registered e (List.mem_of_mem_filter he),
    h.distinct.sublist ((List.filter_sublist).map _), h.delivered, h.remembered⟩

theorem Live.work {m : Machine} (h : Live m) :
    Live { m with dispatch := m.dispatch.work } := by
  unfold Dispatch.work
  split
  · exact h
  · rename_i rest hq
    exact absurd rfl (h.notices _ (by simp [hq]))
  · rename_i c rest hq
    have hnew := h.newest
    simp only [Dispatch.pending, hq, List.filterMap_cons, Notice.value?] at hnew
    refine ⟨h.running, fun n hn => h.notices n (by simp [hq, hn]), ?_, h.registered, h.distinct,
      ?_, ?_⟩
    · -- the newest waiting value stays the newest
      show (rest.filterMap Notice.value?).getLastD _ = _
      cases hr : rest.filterMap Notice.value? with
      | nil => rfl
      | cons x xs =>
        rw [hr, List.getLastD_cons, List.getLastD_cons] at hnew
        rw [List.getLastD_cons]
        exact hnew
    · intro dl hd
      rw [Dispatch.deliver_delivered] at hd
      rcases List.mem_append.mp hd with hd | hd
      · exact h.delivered dl hd
      · obtain ⟨e, he, rfl⟩ := List.mem_map.mp hd
        exact h.registered e (List.mem_of_mem_filter he)
    · intro e he
      rw [Dispatch.deliver_history] at he
      obtain ⟨e', he', rfl⟩ := List.mem_map.mp he
      exact h.registered e' he'

/-- What registration `id` has heard against the connectivity values `L` it is due to hear:
it is registered; what it heard, followed by the edges of the waiting notices seen from the
value it last heard, is the edges of `L`; and `L` ends with the current connectivity. -/
structure Hears (m : Machine) (id : Nat) (L : List Bool) : Prop where
  registered : ∃ l, (id, l) ∈ m.dispatch.registry
  stream : m.dispatch.heardBy id ++
      edgesFrom (Dispatch.lastOf m.dispatch.history id) m.dispatch.pending = edgesFrom false L
  last : (m.dispatch.heardBy id).getLastD false = Dispatch.lastOf m.dispatch.history id
  current : L.getLastD false = m.phase.isConnected

/-- A registration that was removed after hearing `heard`: it is gone for good and hears
nothing more. -/
structure Heard (m : Machine) (id : Nat) (heard : List Bool) : Prop where
  gone : ∀ e ∈ m.dispatch.registry, e.1 ≠ id
  old : id < m.dispatch.nextId
  frozen : m.dispatch.heardBy id = heard

section Hears

variable {m : Machine} {id : Nat} {L : List Bool}

/-- Once the waiting notices are handed out, the registration will have heard the current
connectivity last. -/
theorem Hears.settled (h : Hears m id L) :
    m.dispatch.pending.getLastD (Dispatch.lastOf m.dispatch.history id) = m.phase.isConnected := by
  have hs := congrArg (fun xs => List.getLastD xs false) h.stream
  simp only [getLastD_append, h.last, getLastD_edgesFrom, h.current] at hs
  exact hs

theorem Hears.snoc (h : Hears m id L) : Hears m id (L ++ [m.phase.isConnected]) :=
  ⟨h.registered, by rw [edgesFrom_append_last h.current]; exact h.stream, h.last,
    List.getLastD_concat⟩

theorem Hears.reported {m' : Machine} (h : Hears m id L) (hr : Reported m m') :
    Hears m' id (L ++ [m'.phase.isConnected]) := by
  unfold Reported at hr
  have hE : edgesFrom m.phase.isConnected
      ((m.phase.changeNotices m'.phase).filterMap Notice.value?) =
      edgesFrom m.phase.isConnected [m'.phase.isConnected] := by
    rw [Phase.filterMap_changeNotices]
    split <;> simp_all [edgesFrom_cons]
  refine ⟨by rw [hr]; exact h.registered, ?_, ?_, List.getLastD_concat⟩
  · rw [hr, Dispatch.heardBy_with_queue, Dispatch.pending_queue_append, edgesFrom_append,
      ← List.append_assoc, h.stream, h.settled, hE, edgesFrom_append, h.current]
  · rw [hr, Dispatch.heardBy_with_queue]
    exact h.last

theorem Hears.add (h : Hears m id L) (l : String) :
    Hears { m with dispatch := (m.dispatch.add l).2 } id L := by
  cases hf : m.dispatch.registry.find? (·.2 = l) with
  | some e => rw [Dispatch.add_of_known _ _ hf]; exact h
  | none =>
    rw [Dispatch.add_of_new _ _ hf]
    obtain ⟨l', hr⟩ := h.registered
    exact ⟨⟨l', List.mem_append_left _ hr⟩, h.stream, h.last, h.current⟩

theorem Hears.notifyConnected (h : Hears m id L) (hl : Live m) (hc : m.phase.isConnected = true) :
    Hears { m with dispatch := m.dispatch.notifyConnected } id L := by
  rw [Dispatch.notifyConnected, Dispatch.push, if_neg (by simp [hl.running])]
  refine ⟨h.registered, ?_, h.last, h.current⟩
  rw [Dispatch.heardBy_with_queue, Dispatch.pending_queue_append, edgesFrom_append,
    h.settled, hc, ← h.stream]
  simp [Notice.value?, edgesFrom_cons]

theorem Hears.register (h : Hears m id L) (hl : Live m) (l : String) :
    Hears (m.register l).2 id L := by
  rw [register_eq]
  split
  · rename_i hc
    exact (h.add l).notifyConnected (hl.add l) (Bool.and_eq_true_iff.mp hc).2
  · exact h.add l

theorem Hears.remove (h : Hears m id L) {id' : Nat} (hne : id' ≠ id) :
    Hears { m with dispatch := (m.dispatch.remove id').2 } id L := by
  obtain ⟨l, hr⟩ := h.registered
  exact ⟨⟨l, List.mem_filter.mpr ⟨hr, by simpa using hne.symm⟩⟩, h.stream, h.last, h.current⟩

/-- The worker's step hands the oldest waiting value to the registration, if it differs from
the last value it heard. -/
theorem Hears.work (h : Hears m id L) (hl : Live m) :
    Hears { m with dispatch := m.dispatch.work } id L := by
  unfold Dispatch.work
  split
  · exact h
  · rename_i rest hq
    exact absurd rfl (hl.notices _ (by simp [hq]))
  · rename_i c rest hq
    obtain ⟨l, hr⟩ := h.registered
    have hs := h.stream
    have hlast := h.last
    simp only [Dispatch.pending, hq, List.filterMap_cons, Notice.value?, edgesFrom_cons] at hs
    refine ⟨⟨l, hr⟩, ?_, ?_, h.current⟩
    · show (m.dispatch.deliver c).heardBy id ++
        edgesFrom (Dispatch.lastOf (m.dispatch.deliver c).history id)
          (rest.filterMap Notice.value?) = edgesFrom false L
      rw [Dispatch.heardBy_deliver _ _ hl.distinct hr, Dispatch.lastOf_deliver _ _ hr, ← hs]
      by_cases he : Dispatch.lastOf m.dispatch.history id = c
      · rw [if_pos he, if_pos he.symm, he, List.append_nil]
      · rw [if_neg he, if_neg (Ne.symm he), List.append_assoc, List.singleton_append]
    · show ((m.dispatch.deliver c).heardBy id).getLastD false =
        Dispatch.lastOf (m.dispatch.deliver c).history id
      rw [Dispatch.heardBy_deliver _ _ hl.distinct hr, Dispatch.lastOf_deliver _ _ hr]
      split
      · rename_i he
        rw [List.append_nil, hlast, he]
      · exact List.getLastD_concat

theorem Hears.removed (h : Hears m id L) (hl : Live m) :
    Heard { m with dispatch := (m.dispatch.remove id).2 } id (m.dispatch.heardBy id) := by
  obtain ⟨l, hr⟩ := h.registered
  refine ⟨fun e he => ?_, hl.registered _ hr, rfl⟩
  simpa using (List.mem_filter.mp he).2

/-- A new registration has heard nothing yet and is due to hear the edges of the values waiting
when it registered, then of the connectivity from then on. -/
theorem hears_register (hl : Live m) {l : String}
    (hnew : m.dispatch.registry.find? (·.2 = l) = none) :
    Hears (m.register l).2 m.dispatch.nextId (m.dispatch.pending ++ [m.phase.isConnected]) := by
  have hheard := Dispatch.heardBy_of_fresh m.dispatch fun dl hdl => hl.delivered dl hdl
  have hlast := Dispatch.lastOf_of_fresh fun e he => hl.remembered e he
  -- whatever is queued for it, the newcomer has heard nothing and nothing is remembered for it
  have hstart : (m.dispatch.heardBy m.dispatch.nextId).getLastD false =
      Dispatch.lastOf m.dispatch.history m.dispatch.nextId := by
    rw [hheard, hlast]
    rfl
  rw [register_eq, Dispatch.add_of_new _ _ hnew]
  cases hc : m.phase.isConnected
  · -- registered while disconnected: due to hear the waiting values alone
    have hnewest : m.dispatch.pending.getLastD false = false := by simpa [hc] using hl.newest
    refine ⟨⟨l, by simp⟩, ?_, hstart, by rw [List.getLastD_concat]; exact hc.symm⟩
    show m.dispatch.heardBy _ ++
      edgesFrom (Dispatch.lastOf m.dispatch.history _) m.dispatch.pending = _
    rw [hheard, hlast, List.nil_append, edgesFrom_append_last hnewest]
  · -- registered while connected: a connect is queued for it
    simp only [Bool.and_true, if_true, Dispatch.notifyConnected, Dispatch.push, hl.running,
      Bool.false_eq_true, if_false]
    refine ⟨⟨l, by simp⟩, ?_, hstart, by rw [List.getLastD_concat]; exact hc.symm⟩
    show m.dispatch.heardBy _ ++ edgesFrom (Dispatch.lastOf m.dispatch.history _)
      ((m.dispatch.queue ++ [Notice.notify true]).filterMap Notice.value?) = _
    rw [hheard, hlast, List.nil_append, List.filterMap_append]
    rfl

end Hears

section Heard

variable {m : Machine} {id : Nat} {heard : List Bool}

theorem Heard.reported {m' : Machine} (h : Heard m id heard) (hr : Reported m m') :
    Heard m' id heard := by
  unfold Reported at hr
  exact ⟨by rw [hr]; exact h.gone, by rw [hr]; exact h.old,
    by rw [hr, Dispatch.heardBy_with_queue]; exact h.frozen⟩

theorem Heard.add (h : Heard m id heard) (l : String) :
    Heard { m with dispatch := (m.dispatch.add l).2 } id heard := by
  cases hf : m.dispatch.registry.find? (·.2 = l) with
  | some e => rw [Dispatch.add_of_known _ _ hf]; exact h
  | none =>
    rw [Dispatch.add_of_new _ _ hf]
    refine ⟨fun e he => ?_, Nat.lt_succ_of_lt h.old, h.frozen⟩
    rcases List.mem_append.mp he with he | he
    · exact h.gone e he
    · simp only [List.mem_singleton] at he
      subst he
      exact Nat.ne_of_gt h.old

theorem Heard.notifyConnected (h : Heard m id heard) :
    Heard { m with dispatch := m.dispatch.notifyConnected } id heard := by
  unfold Dispatch.notifyConnected Dispatch.push
  split
  · exact h
  · exact ⟨h.gone, h.old, by rw [Dispatch.heardBy_with_queue]; exact h.frozen⟩

theorem Heard.register (h : Heard m id heard) (l : String) : Heard (m.register l).2 id heard := by
  rw [register_eq]
  split
  · exact (h.add l).notifyConnected
  · exact h.add l

theorem Heard.remove (h : Heard m id heard) (id' : Nat) :
    Heard { m with dispatch := (m.dispatch.remove id').2 } id heard :=
  ⟨fun e he => h.gone e (List.mem_of_mem_filter he), h.old, h.frozen⟩

theorem Heard.work (h : Heard m id heard) : Heard { m with dispatch := m.dispatch.work } id heard := by
  unfold Dispatch.work
  split
  · exact h
  · exact ⟨h.gone, h.old, h.frozen⟩
  · exact ⟨h.gone, h.old, by
      show (m.dispatch.deliver _).heardBy id = heard
      rw [Dispatch.heardBy_deliver_of_gone _ _ h.gone]
      exact h.frozen⟩

end Heard

end Machine

end Coordination
