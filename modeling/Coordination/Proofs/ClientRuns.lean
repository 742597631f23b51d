import Mathlib.Algebra.Group.Nat.Defs
import Coordination.Client

/-!
Client calls run against one live session. A client step is run from a backend (`Op.exec`); on a
connected session every session operation reaches the service, where it takes the fault queued
first for its kind. Here the queued faults are lost connections, before or after the change, and
other clients' changes that a predicate allows (`Fault.Within`): an operation then either ends as
it would on the tree those changes left, or ends in a lost connection with one fault fewer queued,
having changed the tree or not (`Service.apply_within`, `Op.exec_sessionRun`). The retry loop of
the client, run with a budget above the faults queued, ends as the attempt that does not lose its
connection ends (`Op.exec_retrying`).

For any way of finding the session, the loop has a rule of its own (`Op.Rounds`): an invariant
indexed by the losses so far, kept by each round that loses its connection, gives the outcome of
the first round that does not, with one retry counted per loss (`Op.exec_retrying_rounds`).
-/

namespace Coordination

@[simp] theorem throw_except {α : Type} (e : Failure) :
    (MonadExceptOf.throw e : Except Failure α) = .error e := rfl

namespace Tree

/-- The tree after a change that may fail: the changed tree, or the same tree on failure. -/
def after {α : Type} (f : Tree → Except Failure (α × Tree × List Fired)) (t : Tree) : Tree :=
  match f t with
  | .ok (_, t', _) => t'
  | .error _ => t

/-- The tree after a change another client makes. -/
def direct (t : Tree) : DirectChange → Tree
  | .create p d m => after (·.create p d m 0) t
  | .setData p d => after (·.setData p d none) t
  | .delete p => after (fun t => (t.delete p none).map fun (t', f) => ((), t', f)) t

theorem after_of_ok {α : Type} {f : Tree → Except Failure (α × Tree × List Fired)} {t : Tree}
    {a : α} {t' : Tree} {fired : List Fired} (h : f t = .ok (a, t', fired)) : after f t = t' := by
  simp [after, h]

theorem after_of_error {α : Type} {f : Tree → Except Failure (α × Tree × List Fired)} {t : Tree}
    {e : Failure} (h : f t = .error e) : after f t = t := by
  simp [after, h]

@[simp] theorem after_read {β : Type} (read : Tree → Except Failure β) (t : Tree) :
    after (fun t => (read t).map fun r => (r, t, [])) t = t := by
  unfold after
  cases h : read t <;> simp [h, Except.map]

end Tree

/-- The faults of a script: a lost connection, before or after the change, or other clients'
changes that `W` allows. -/
def Fault.Within (W : DirectChange → Prop) : Fault → Prop
  | .loseBeforeCommit | .loseAfterCommit => True
  | .interleave cs => ∀ c ∈ cs, W c
  | .fail _ => False

/-- A lost connection, before or after the change. -/
def Fault.IsLoss : Fault → Prop
  | .loseBeforeCommit | .loseAfterCommit => True
  | _ => False

namespace Service

/-- Every fault still queued, kind after kind. -/
def queued (s : Service) : List Fault := s.faults.flatMap (·.2)

/-- Every queued fault is one that `ok` allows. -/
def Scripted (ok : Fault → Prop) (s : Service) : Prop := ∀ f ∈ s.queued, ok f

variable {α : Type} {s : Service}

@[simp] theorem change_tree (f : Tree → Except Failure (α × Tree × List Fired)) :
    (s.change f).2.tree = Tree.after f s.tree := by
  unfold change Tree.after
  cases f s.tree <;> rfl

@[simp] theorem change_queued (f : Tree → Except Failure (α × Tree × List Fired)) :
    (s.change f).2.queued = s.queued := by
  simp [queued]

@[simp] theorem change_result (f : Tree → Except Failure (α × Tree × List Fired)) :
    (s.change f).1 = (f s.tree).map (·.1) := by
  unfold change
  split <;> rename_i h <;> simp [h, Except.map]

@[simp] theorem applyDirect_tree (c : DirectChange) : (s.applyDirect c).tree = s.tree.direct c := by
  cases c <;> simp [applyDirect, createDirect, setDataDirect, deleteDirect, Tree.direct]

@[simp] theorem applyDirect_queued (c : DirectChange) : (s.applyDirect c).queued = s.queued := by
  cases c <;> simp [applyDirect, createDirect, setDataDirect, deleteDirect]

theorem foldl_applyDirect (cs : List DirectChange) :
    (cs.foldl applyDirect s).tree = cs.foldl Tree.direct s.tree ∧
      (cs.foldl applyDirect s).queued = s.queued := by
  induction cs generalizing s with
  | nil => exact ⟨rfl, rfl⟩
  | cons c cs ih =>
    obtain ⟨ht, hq⟩ := ih (s := s.applyDirect c)
    exact ⟨by simpa using ht, by simpa using hq⟩

theorem queued_length_split (faults : List (OpKind × List Fault)) (k : OpKind) :
    (faults.flatMap (·.2)).length =
      ((faults.filter (·.1 = k)).flatMap (·.2)).length +
        ((faults.filter (·.1 ≠ k)).flatMap (·.2)).length := by
  induction faults with
  | nil => rfl
  | cons e rest ih =>
    by_cases he : e.1 = k <;> simp [he, ih] <;> omega

/-- Taking the oldest fault of a kind: none, and the service is as it was, or one of the queued
faults, leaving fewer queued, all of them queued before, and the tree as it was. -/
theorem takeFault_cases (k : OpKind) :
    s.takeFault k = (none, s) ∨
      ∃ f s', s.takeFault k = (some f, s') ∧ f ∈ s.queued ∧ (∀ g ∈ s'.queued, g ∈ s.queued) ∧
        s'.queued.length < s.queued.length ∧ s'.tree = s.tree := by
  unfold takeFault
  split
  · rename_i f rest h
    right
    obtain ⟨e, he, hk, he2⟩ : ∃ e, s.faults.find? (·.1 = k) = some e ∧ e.1 = k ∧ e.2 = f :: rest := by
      simp only [Option.map_eq_some_iff] at h
      obtain ⟨e, he, he2⟩ := h
      exact ⟨e, he, by simpa using List.find?_some he, he2⟩
    have hmem : e ∈ s.faults := List.mem_of_find?_eq_some he
    have hsub : ∀ g ∈ e.2, g ∈ s.queued := fun g hg => List.mem_flatMap.mpr ⟨e, hmem, hg⟩
    refine ⟨f, _, rfl, hsub f (by simp [he2]), ?_, ?_, rfl⟩
    · intro g hg
      simp only [queued, List.flatMap_cons, List.mem_append, List.mem_flatMap,
        List.mem_filter] at hg
      rcases hg with hg | ⟨e', ⟨he', -⟩, hg⟩
      · exact hsub g (by rw [he2]; exact List.mem_cons_of_mem _ hg)
      · exact List.mem_flatMap.mpr ⟨e', he', hg⟩
    · -- the kind's own faults, with `f` among them, are no longer all counted
      have hk' : e ∈ s.faults.filter (·.1 = k) := List.mem_filter.mpr ⟨hmem, by simpa using hk⟩
      have hle : e.2.length ≤ ((s.faults.filter (·.1 = k)).flatMap (·.2)).length :=
        (List.sublist_flatten_of_mem (List.mem_map_of_mem (f := (·.2)) hk')).length_le
      have hsplit := queued_length_split s.faults k
      simp only [queued, List.flatMap_cons, List.length_append] at hsplit ⊢
      rw [he2] at hle
      simp only [List.length_cons] at hle
      omega
  · left
    rfl

/-- A session operation queues no fault: those left after it were all queued before, and no
more of them. -/
theorem apply_queued (k : OpKind) (f : Tree → Except Failure (α × Tree × List Fired)) :
    (∀ g ∈ (s.apply k f).2.queued, g ∈ s.queued) ∧
      (s.apply k f).2.queued.length ≤ s.queued.length := by
  have hops : ({ s with ops := s.ops + 1 } : Service).queued = s.queued := rfl
  unfold apply
  dsimp only
  rcases takeFault_cases (s := { s with ops := s.ops + 1 }) k with hnone | ⟨g, s', hsome, -, hsub, hlt, -⟩
  · rw [hnone]
    simp [hops]
  · rw [hsome]
    rw [hops] at hsub hlt
    cases g with
    | loseBeforeCommit => exact ⟨hsub, Nat.le_of_lt hlt⟩
    | loseAfterCommit => simpa using And.intro hsub (Nat.le_of_lt hlt)
    | interleave cs =>
      obtain ⟨-, hfq⟩ := foldl_applyDirect (s := s') cs
      simpa [hfq] using And.intro hsub (Nat.le_of_lt hlt)
    | fail e => exact ⟨hsub, Nat.le_of_lt hlt⟩

theorem Scripted.apply {ok : Fault → Prop} (hs : s.Scripted ok) (k : OpKind)
    (f : Tree → Except Failure (α × Tree × List Fired)) : (s.apply k f).2.Scripted ok :=
  fun g hg => hs g ((apply_queued k f).1 g hg)

theorem apply_of_unfaulted {k : OpKind} (h : (s.takeFault k).1 = none)
    (f : Tree → Except Failure (α × Tree × List Fired)) : (s.apply k f).1 = (f s.tree).map (·.1) := by
  have hnone : ({ s with ops := s.ops + 1 } : Service).takeFault k = (none, { s with ops := s.ops + 1 }) := by
    rcases takeFault_cases (s := { s with ops := s.ops + 1 }) k with hnone | ⟨g, s', hsome, -⟩
    · exact hnone
    · -- the faults queued do not depend on the count of operations
      have hsame : (({ s with ops := s.ops + 1 } : Service).takeFault k).1 = (s.takeFault k).1 := by
        unfold takeFault
        dsimp only
        split <;> rfl
      rw [hsome, h] at hsame
      cases hsame
  unfold apply
  dsimp only
  rw [hnone]
  simp

/-- A session operation of kind `k` under a script of lost connections and changes `W` allows:
the changes of an interleaved fault come first, and the operation then ends as on the tree they
leave, or ends in a lost connection with one fault fewer queued, before or after its change. -/
theorem apply_within {W : DirectChange → Prop} (hs : s.Scripted (Fault.Within W)) (k : OpKind)
    (f : Tree → Except Failure (α × Tree × List Fired)) :
    (∃ cs : List DirectChange, (∀ c ∈ cs, W c) ∧
        (s.apply k f).1 = (f (cs.foldl Tree.direct s.tree)).map (·.1) ∧
        (s.apply k f).2.tree = Tree.after f (cs.foldl Tree.direct s.tree)) ∨
      ((s.apply k f).1 = .error .connectionLoss ∧
        (s.apply k f).2.queued.length < s.queued.length ∧
        ((s.apply k f).2.tree = s.tree ∨ (s.apply k f).2.tree = Tree.after f s.tree)) := by
  have hops : ({ s with ops := s.ops + 1 } : Service).queued = s.queued := rfl
  unfold apply
  dsimp only
  rcases takeFault_cases (s := { s with ops := s.ops + 1 }) k with hnone | ⟨g, s', hsome, hg, -, hlt, hs'⟩
  · rw [hnone]
    exact .inl ⟨[], by simp, by simp, by simp⟩
  · rw [hsome]
    rw [hops] at hg hlt
    have hwithin := hs g hg
    cases g with
    | loseBeforeCommit => exact .inr ⟨rfl, hlt, .inl hs'⟩
    | loseAfterCommit => exact .inr ⟨rfl, by simpa using hlt, .inr (by simp [hs'])⟩
    | interleave cs =>
      obtain ⟨hft, -⟩ := foldl_applyDirect (s := s') cs
      exact .inl ⟨cs, hwithin, by simp [hft, hs'], by simp [hft, hs']⟩
    | fail e => exact hwithin.elim

/-- Under a script of lost connections alone, a session operation ends as on the tree it finds,
or in a lost connection with one fault fewer queued, before or after its change. -/
theorem apply_losses (hs : s.Scripted Fault.IsLoss) (k : OpKind)
    (f : Tree → Except Failure (α × Tree × List Fired)) :
    ((s.apply k f).1 = (f s.tree).map (·.1) ∧ (s.apply k f).2.tree = Tree.after f s.tree) ∨
      ((s.apply k f).1 = .error .connectionLoss ∧
        (s.apply k f).2.queued.length < s.queued.length ∧
        ((s.apply k f).2.tree = s.tree ∨ (s.apply k f).2.tree = Tree.after f s.tree)) := by
  have hw : s.Scripted (Fault.Within fun _ => False) := fun g hg => by
    have := hs g hg
    cases g <;> simp_all [Fault.IsLoss, Fault.Within]
  rcases apply_within hw k f with ⟨cs, hcs, hres, htree⟩ | hloss
  · -- no change of another client is allowed, so the operation finds the tree as it was
    have hnil : cs = [] := List.eq_nil_iff_forall_not_mem.mpr fun c hc => hcs c hc
    subst hnil
    exact .inl ⟨hres, htree⟩
  · exact .inr hloss

end Service

/-- A session found at index `i` of the connector, and connected. -/
structure Backend.Live (b : Backend) (i : Nat) (s : Session) : Prop where
  found : b.connector.session? i = some s
  connected : s.status = .connected

theorem Backend.Live.withService {b : Backend} {i : Nat} {s : Session} (h : b.Live i s)
    (svc : Service) : Backend.Live { b with service := svc } i s :=
  ⟨h.found, h.connected⟩

theorem Session.run_of_connected {α : Type} {s : Session} (h : s.status = .connected) (svc : Service)
    (k : OpKind) (f : Tree → Except Failure (α × Tree × List Fired)) : s.run svc k f = svc.apply k f := by
  simp [Session.run, (Session.refusal_eq_none s).mpr h]

theorem Backend.Live.of_connector {b b' : Backend} {i : Nat} {s : Session} (h : b.Live i s)
    (hc : b'.connector = b.connector) : b'.Live i s :=
  ⟨hc ▸ h.found, h.connected⟩

namespace Op

/-- A client step run from a backend: its outcome and the backend it leaves. -/
def exec {α : Type} (x : Op α) (b : Backend) : Except Failure α × Backend := x.run.run b

variable {α β : Type} {b : Backend}

@[simp] theorem exec_pure (a : α) (b : Backend) : (pure a : Op α).exec b = (.ok a, b) := rfl

@[simp] theorem exec_throw (e : Failure) (b : Backend) : (throw e : Op α).exec b = (.error e, b) :=
  rfl

@[simp] theorem exec_get (b : Backend) : (get : Op Backend).exec b = (.ok b, b) := rfl

@[simp] theorem exec_set (b' b : Backend) : (set b' : Op Unit).exec b = (.ok (), b') := rfl

@[simp] theorem exec_modify (f : Backend → Backend) (b : Backend) :
    (modify f : Op Unit).exec b = (.ok (), f b) := rfl

theorem exec_bind (x : Op α) (f : α → Op β) (b : Backend) :
    (x >>= f).exec b = match x.exec b with
      | (.ok a, b') => (f a).exec b'
      | (.error e, b') => (.error e, b') := by
  simp only [exec, ExceptT.run_bind, StateT.run_bind]
  rcases h : x.run.run b with ⟨r, b'⟩
  cases r <;> rfl

theorem exec_bind_ok {x : Op α} {f : α → Op β} {a : α} {b' : Backend} (h : x.exec b = (.ok a, b')) :
    (x >>= f).exec b = (f a).exec b' := by
  rw [exec_bind, h]

theorem exec_bind_error {x : Op α} {f : α → Op β} {e : Failure} {b' : Backend}
    (h : x.exec b = (.error e, b')) : (x >>= f).exec b = (.error e, b') := by
  rw [exec_bind, h]

theorem exec_tryCatch (x : Op α) (h : Failure → Op α) (b : Backend) :
    (tryCatch x h).exec b = match x.exec b with
      | (.ok a, b') => (.ok a, b')
      | (.error e, b') => (h e).exec b' := by
  show (ExceptT.tryCatch x h).run.run b = _
  simp only [ExceptT.tryCatch, ExceptT.run_mk, StateT.run_bind]
  rcases hx : x.exec b with ⟨r, b'⟩
  have hx' : StateT.run x b = (r, b') := hx
  rw [hx']
  cases r <;> rfl

theorem exec_map (g : α → β) (x : Op α) (b : Backend) :
    (g <$> x).exec b = ((x.exec b).1.map g, (x.exec b).2) := by
  rw [← bind_pure_comp, exec_bind]
  rcases x.exec b with ⟨r, b'⟩
  cases r <;> rfl

theorem exec_map_error {g : α → β} {x : Op α} {e : Failure} {b' : Backend}
    (h : x.exec b = (.error e, b')) : (g <$> x).exec b = (.error e, b') := by
  rw [exec_map, h]
  rfl

/-- A session operation on the session at index `i` runs on the service and changes nothing
else. -/
theorem exec_onSession {i : Nat} {s : Session} (h : b.connector.session? i = some s)
    (f : Session → Service → Except Failure α × Service) :
    (onSession i f).exec b = ((f s b.service).1, { b with service := (f s b.service).2 }) := by
  simp only [onSession, exec_bind, exec_get, h]
  rcases f s b.service with ⟨r, svc⟩
  cases r <;> rfl

section Loop

/-! ### The loop rule

The loop tells the attempt after `n` lost connections the flag `n % 2 ^ 32 != 0`: its count of
losses has 32 bits. -/

theorem ofNat_add_one (k : Nat) : UInt32.ofNat k + 1 = UInt32.ofNat (k + 1) := by
  apply UInt32.toNat_inj.mp
  simp [UInt32.toNat_add, UInt32.toNat_ofNat, Nat.add_mod]

theorem ofNat_ne_zero (k : Nat) : (UInt32.ofNat k != 0) = (k % 2 ^ 32 != 0) := by
  have h : UInt32.ofNat k = 0 ↔ k % 2 ^ 32 = 0 := by
    rw [← UInt32.toNat_inj]
    simp [UInt32.toNat_ofNat]
  by_cases hk : k % 2 ^ 32 = 0
  · rw [h.mpr hk, hk]
    rfl
  · rw [bne_iff_ne.mpr (fun h0 => hk (h.mp h0)), bne_iff_ne.mpr hk]

/-- Two backends with the same client counters. -/
structure SameCounters (b b' : Backend) : Prop where
  retries : b'.retries = b.retries
  budget : b'.budget = b.budget
  exhausted : b'.exhausted = b.exhausted

variable {α : Type} (access : Op Nat) (attempt : Nat → Bool → Op α)
  {inv : Nat → Backend → Prop} {post : Nat → Except Failure α → Backend → Prop} {N : Nat}

/-- What each round of a call can do from a backend in `inv n`, after `n` lost connections:
finding the session fails, and the call ends in `post n`; or the attempt, told
`n % 2 ^ 32 != 0`, loses the connection, at most `N` times in all, and the backend with the
loss counted is in `inv (n + 1)`; or the attempt ends otherwise, in `post n`. Neither step
touches the client's counters. -/
def Rounds (inv : Nat → Backend → Prop) (post : Nat → Except Failure α → Backend → Prop)
    (N : Nat) : Prop :=
  ∀ n b, inv n b →
    (∃ e b', access.exec b = (.error e, b') ∧ SameCounters b b' ∧ post n (.error e) b') ∨
    ∃ i b₁ r b₂, access.exec b = (.ok i, b₁) ∧ (attempt i (n % 2 ^ 32 != 0)).exec b₁ = (r, b₂) ∧
      SameCounters b b₂ ∧
      (r = .error .connectionLoss ∧ n < N ∧
          inv (n + 1) { b₂ with retries := b₂.retries + 1, budget := b₂.budget - 1 } ∨
        r ≠ .error .connectionLoss ∧ post n r b₂)

theorem isConnectionLoss_eq_false {e : Failure} (h : e ≠ .connectionLoss) :
    e.isConnectionLoss = false := by
  cases e <;> simp_all [Failure.isConnectionLoss]

/-- The loop from round `n`, with fuel equal to the budget left and the budget outlasting the
losses still possible, ends as some round `m` from `n` on does, in `post m`, having counted
the `m - n` losses on the way. -/
theorem exec_go_rounds (h : Rounds access attempt inv post N) (fuel : Nat) :
    ∀ n b, inv n b → n ≤ N → fuel = b.budget → N < n + b.budget →
      ∃ m r b', (retrying.go access attempt fuel (UInt32.ofNat n)).exec b = (r, b') ∧
        post m r b' ∧ n ≤ m ∧ m ≤ N ∧ b'.retries = b.retries + (m - n) ∧
        b'.budget = b.budget - (m - n) ∧ b'.exhausted = b.exhausted := by
  induction fuel with
  | zero =>
    intro n b _ hn hfuel hN
    omega
  | succ fuel ih =>
    intro n b hinv hn hfuel hN
    rcases h n b hinv with ⟨e, b', hacc, hc, hpost⟩ | ⟨i, b₁, r, b₂, hacc, hatt, hc, hend⟩
    · -- finding the session failed: the call ends at once, before any attempt
      refine ⟨n, .error e, b', ?_, hpost, Nat.le_refl n, hn, by simp [hc.retries],
        by simp [hc.budget], hc.exhausted⟩
      simp only [retrying.go, exec_bind, hacc]
    · simp only [retrying.go, exec_bind, hacc, exec_tryCatch, ofNat_ne_zero, hatt]
      rcases hend with ⟨rfl, hnN, hinv'⟩ | ⟨hne, hpost⟩
      · -- the loss is counted and, the budget outlasting the losses, the loop goes on
        have hleft : b₂.budget - 1 ≠ 0 := by rw [hc.budget]; omega
        simp only [Failure.isConnectionLoss, Bool.not_true, Bool.false_eq_true, ↓reduceIte,
          exec_bind, exec_modify, exec_get, hleft, ofNat_add_one]
        obtain ⟨m, r, b', hrun, hpost, hm, hmN, hr, hb, hx⟩ :=
          ih (n + 1) _ hinv' (by omega) (by simp only [hc.budget]; omega)
            (by simp only [hc.budget]; omega)
        refine ⟨m, r, b', hrun, hpost, by omega, hmN, ?_, ?_, ?_⟩
        · rw [hr]
          simp only [hc.retries]
          omega
        · rw [hb]
          simp only [hc.budget]
          omega
        · rw [hx]
          exact hc.exhausted
      · -- any other outcome ends the call as it is
        refine ⟨n, r, b₂, ?_, hpost, Nat.le_refl n, hn, by simp [hc.retries], by simp [hc.budget],
          hc.exhausted⟩
        cases r with
        | ok a => rfl
        | error e =>
          have he : e ≠ .connectionLoss := fun he => hne (by rw [he])
          simp [isConnectionLoss_eq_false he]

/-- The loop rule of a whole call: with a budget above the losses its rounds allow, the call
ends as its first round that does not lose the connection, or whose finding of the session
fails, in `post m` after `m` losses, each counted as one retry and one unit of budget. -/
theorem exec_retrying_rounds (h : Rounds access attempt inv post N) (b : Backend) (hinv : inv 0 b)
    (hN : N < b.budget) :
    ∃ m r b', (retrying access attempt).exec b = (r, b') ∧ post m r b' ∧ m ≤ N ∧
      b'.retries = b.retries + m ∧ b'.budget = b.budget - m ∧ b'.exhausted = b.exhausted := by
  obtain ⟨m, r, b', hrun, hpost, -, hmN, hr, hb, hx⟩ :=
    exec_go_rounds access attempt h b.budget 0 b hinv (Nat.zero_le N) rfl (by omega)
  refine ⟨m, r, b', ?_, hpost, hmN, by simpa using hr, by simpa using hb, hx⟩
  simp only [retrying, exec_bind, exec_get]
  exact hrun

/-- A call whose finding of the session fails ends with that failure at once: no attempt runs
and nothing is counted. -/
theorem exec_retrying_access_error {b b' : Backend} {e : Failure} (hb : 0 < b.budget)
    (h : access.exec b = (.error e, b')) : (retrying access attempt).exec b = (.error e, b') := by
  obtain ⟨fuel, hfuel⟩ : ∃ fuel, b.budget = fuel + 1 := ⟨b.budget - 1, by omega⟩
  simp only [retrying, exec_bind, exec_get, hfuel, retrying.go, h]

end Loop

section Retry

variable {α : Type} (i : Nat) (attempt : Nat → Bool → Op α) (c : Connector)
  (inv : Bool → Service → Prop) (post : Except Failure α → Service → Prop)

/-- What the attempts of a retry loop on the session at `i` do, from a backend with connector `c`
whose service satisfies `inv r` for the flag `r` the attempt is told: they change the service
alone, never queue more faults, and either lose the connection, leaving fewer faults queued and a
service a retry may start from, or end otherwise in `post`. -/
def Attempts : Prop :=
  ∀ (r : Bool) (b : Backend), b.connector = c → inv r b.service →
    ∃ res svc, (attempt i r).exec b = (res, { b with service := svc }) ∧
      svc.queued.length ≤ b.service.queued.length ∧
      ((res = .error .connectionLoss ∧ svc.queued.length < b.service.queued.length ∧ inv true svc) ∨
        (res ≠ .error .connectionLoss ∧ post res svc))

/-- Attempts that do as `Attempts` says make rounds of the loop rule: after `n` losses the backend
keeps connector `c`, its service is one the attempt told `n % 2 ^ 32 != 0` may start from, and
each loss has used up a queued fault, so `n` and the faults left stay within the `q` queued at the
start. The flag is right while fewer than 2^32 connections were lost, or does not matter. -/
theorem Attempts.rounds (h : Attempts i attempt c inv post) {q : Nat}
    (hflag : q < 2 ^ 32 ∨ ∀ svc, inv true svc → inv false svc) :
    Rounds (pure i) attempt
      (fun n b => b.connector = c ∧ inv (n % 2 ^ 32 != 0) b.service ∧
        n + b.service.queued.length ≤ q)
      (fun m r b => post r b.service ∧ b.connector = c ∧ m + b.service.queued.length ≤ q) q := by
  rintro n b ⟨hc, hinv, hq⟩
  obtain ⟨res, svc, hrun, hle, hend⟩ := h _ b hc hinv
  right
  refine ⟨i, b, res, { b with service := svc }, rfl, hrun, ⟨rfl, rfl, rfl⟩, ?_⟩
  rcases hend with ⟨rfl, hlt, hinv'⟩ | ⟨hne, hpost⟩
  · left
    refine ⟨rfl, by omega, hc, ?_, by simp only; omega⟩
    -- the next attempt is told it is a retry, unless the count of 32 bits wrapped
    by_cases h0 : (n + 1) % 2 ^ 32 = 0
    · have hbig : ¬q < 2 ^ 32 := by omega
      rw [h0]
      exact hflag.resolve_left hbig _ hinv'
    · rw [bne_iff_ne.mpr h0]
      exact hinv'
  · right
    exact ⟨hne, hpost, hc, by simp only; omega⟩

/-- The retry loop on a live session, with a budget above the faults queued, ends as its attempts
say, having lost fewer connections than its budget. -/
theorem exec_retrying (h : Attempts i attempt c inv post) (b : Backend) (hc : b.connector = c)
    (hinv : inv false b.service) (hq : b.service.queued.length < b.budget)
    (hflag : b.service.queued.length < 2 ^ 32 ∨ ∀ svc, inv true svc → inv false svc) :
    ∃ res b', (retrying (pure i) attempt).exec b = (res, b') ∧ post res b'.service ∧
      b'.connector = c ∧ b'.exhausted = b.exhausted ∧ b'.service.queued.length < b'.budget := by
  have hstart : b.connector = c ∧ inv (0 % 2 ^ 32 != 0) b.service ∧
      0 + b.service.queued.length ≤ b.service.queued.length := ⟨hc, hinv, by omega⟩
  obtain ⟨m, r, b', hrun, ⟨hpost, hc', hq'⟩, hm, -, hb, hx⟩ :=
    exec_retrying_rounds (pure i) attempt (Attempts.rounds i attempt c inv post h hflag) b hstart hq
  exact ⟨r, b', hrun, hpost, hc', hx, by omega⟩

theorem exec_retrying_first {b b' : Backend} {res : Except Failure α}
    (hfirst : (attempt i false).exec b = (res, b')) (hres : res ≠ .error .connectionLoss)
    (hbudget : 0 < b.budget) : (retrying (pure i) attempt).exec b = (res, b') := by
  obtain ⟨fuel, hfuel⟩ : ∃ fuel, b.budget = fuel + 1 := ⟨b.budget - 1, by omega⟩
  simp only [retrying, exec_bind, exec_get, hfuel, retrying.go, exec_pure, exec_tryCatch]
  have hflag : ((0 : UInt32) != 0) = false := rfl
  rw [hflag, hfirst]
  cases res with
  | ok a => rfl
  | error e =>
    have he : e ≠ .connectionLoss := fun he => hres (by rw [he])
    simp [isConnectionLoss_eq_false he]

end Retry

end Op

end Coordination
