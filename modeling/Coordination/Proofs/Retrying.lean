import Coordination.Proofs.ClientRuns
import Coordination.Proofs.Handles
import Coordination.Scenario.Request

/-!
The contract of the retrying client's loop. Every round first finds the session; when that
fails the call ends with the failure at once, before any attempt. Otherwise the attempt runs,
told whether it is a retry: a lost connection is counted as one retry and the next round
starts, and any other outcome ends the call as it is (`Op.exec_retrying_rounds`). With the
supervisor's way of finding the session, which fails only with `notConfigured`, a call whose
budget outlasts its losses never ends in a lost connection, and a call made while the supervisor
is unconfigured fails with `notConfigured`, the backend untouched (`retrying_contract`).

The flag is a 32-bit count of the call's losses, so round `k` (from 0) is told it is a retry
when `k` is not a multiple of 2^32 (`Op.retrying_eq_rounds`): the attempt after 2^32 losses in
a row is told it is a first attempt (`Op.retry_flag_lost_after_wrap`).
-/

namespace Coordination

namespace Op

variable {α : Type} (told : Nat → Bool) (access : Op Nat) (attempt : Nat → Bool → Op α)

/-- The retry loop with its rounds counted in whole numbers from `round`: the attempt of a round
is told it is a retry when `told` says so of the round. -/
def rounds : Nat → Nat → Op α
  | _, 0 => do
    modify fun b => { b with exhausted := true }
    throw .connectionLoss
  | round, fuel + 1 => do
    let i ← access
    tryCatch (attempt i (told round)) fun e => do
      if !e.isConnectionLoss then throw e
      modify fun b => { b with retries := b.retries + 1, budget := b.budget - 1 }
      if (← get).budget = 0 then
        modify fun b => { b with exhausted := true }
        throw e
      rounds (round + 1) fuel

/-- The client's loop after `k` lost connections is the loop counting rounds from `k` that
tells a round it is a retry when its number is not a multiple of 2^32. -/
theorem go_eq_rounds (fuel k : Nat) :
    retrying.go access attempt fuel (UInt32.ofNat k) =
      rounds (fun j => j % 2 ^ 32 != 0) access attempt k fuel := by
  induction fuel generalizing k with
  | zero => rfl
  | succ fuel ih =>
    simp only [retrying.go, rounds, ofNat_ne_zero, ofNat_add_one, ih]

theorem retrying_eq_rounds :
    retrying access attempt =
      (do rounds (fun k => k % 2 ^ 32 != 0) access attempt 0 (← get).budget) := by
  unfold retrying
  congr 1
  funext b
  exact go_eq_rounds access attempt b.budget 0

variable {access attempt} {inv : Nat → Backend → Prop}
  {post : Nat → Except Failure α → Backend → Prop} {N : Nat}

theorem Rounds.not_lost (h : Rounds access attempt inv post N)
    (hacc : ∀ b e b', access.exec b = (.error e, b') → e ≠ .connectionLoss) :
    Rounds access attempt inv (fun m r b => post m r b ∧ r ≠ .error .connectionLoss) N := by
  intro n b hinv
  rcases h n b hinv with ⟨e, b', he, hc, hpost⟩ | ⟨i, b₁, r, b₂, he, hatt, hc, hend⟩
  · refine .inl ⟨e, b', he, hc, hpost, fun hl => hacc b e b' he ?_⟩
    cases hl
    rfl
  · refine .inr ⟨i, b₁, r, b₂, he, hatt, hc, ?_⟩
    rcases hend with hlost | ⟨hne, hpost⟩
    · exact .inl hlost
    · exact .inr ⟨hne, hpost, hne⟩

end Op

namespace Supervisor

open Op

/-- The supervisor's finding of the session fails only with `notConfigured`, and then leaves
the backend as it is. -/
theorem access_error {s : Supervisor} {b b' : Backend} {e : Failure}
    (h : s.access.exec b = (.error e, b')) : e = .notConfigured ∧ b' = b := by
  cases hs : s.session <;> simp_all [access]

end Supervisor

namespace Request

open Op

/-- A request whose finding of the session fails with `e` fails with it, with the backend as it
was: no operation reaches the service and nothing is retried. -/
theorem exec_run_throw (req : Request) (e : Failure) (b : Backend) (hb : 0 < b.budget) :
    (req.run (throw e)).exec b = (.error e, b) := by
  have hcall : ∀ {β : Type} (attempt : Nat → Bool → Op β),
      (retrying (throw e) attempt).exec b = (.error e, b) :=
    fun attempt => exec_retrying_access_error (throw e) attempt hb (exec_throw e b)
  cases req with
  | getStringData p => exact exec_map_error (exec_bind_error (hcall _))
  | getStringDataWithStat p w => exact exec_map_error (exec_bind_error (hcall _))
  | createOrSet p d m => exact exec_map_error (exec_bind_error (hcall _))
  | getAllChildren p =>
    -- the walk reads its bound off the backend, then lists the top node first
    obtain ⟨n, hn⟩ : ∃ n, walkBound.exec b = (.ok (n + 1), b) := ⟨_, rfl⟩
    refine exec_map_error ?_
    rw [Op.getAllChildren, exec_bind_ok hn]
    exact exec_bind_error (hcall _)
  | _ => exact exec_map_error (hcall _)

end Request

/-- The contract of the retrying client, for every way of finding the session and every attempt:
a failure to find the session ends the call at once with that failure, before any attempt; the
attempt after `n` lost connections is told `n % 2 ^ 32 != 0`, and the call ends as its first
round that does not lose the connection, after `m` losses counted as `m` retries; with the
supervisor's way of finding the session a call whose budget outlasts its losses never ends in a
lost connection; and in every run of the supervisor, a request made while it is unconfigured
fails with `notConfigured`, the backend, its service and its retries untouched. -/
theorem retrying_contract {α : Type} :
    (∀ (access : Op Nat) (attempt : Nat → Bool → Op α) (b b' : Backend) (e : Failure),
      0 < b.budget → access.exec b = (.error e, b') →
        (Op.retrying access attempt).exec b = (.error e, b')) ∧
    (∀ (access : Op Nat) (attempt : Nat → Bool → Op α) (inv : Nat → Backend → Prop)
        (post : Nat → Except Failure α → Backend → Prop) (N : Nat) (b : Backend),
      Op.Rounds access attempt inv post N → inv 0 b → N < b.budget →
        ∃ m r b', (Op.retrying access attempt).exec b = (r, b') ∧ post m r b' ∧ m ≤ N ∧
          b'.retries = b.retries + m ∧ b'.budget = b.budget - m ∧ b'.exhausted = b.exhausted) ∧
    (∀ (s : Supervisor) (attempt : Nat → Bool → Op α) (inv : Nat → Backend → Prop)
        (post : Nat → Except Failure α → Backend → Prop) (N : Nat) (b : Backend),
      Op.Rounds s.access attempt inv post N → inv 0 b → N < b.budget →
        ((Op.retrying s.access attempt).exec b).1 ≠ .error .connectionLoss) ∧
    (∀ (options : Options) (automatic : Bool) (ms : List Move) (req : Request) (b : Backend),
      ((Supervisor.init options automatic).run ms).phase = .unconfigured → 0 < b.budget →
        (req.run ((Supervisor.init options automatic).run ms).access).exec b =
          (.error .notConfigured, b)) := by
  refine ⟨fun access attempt b b' e hb h => Op.exec_retrying_access_error access attempt hb h,
    fun access attempt inv post N b h hinv hN => Op.exec_retrying_rounds access attempt h b hinv hN,
    fun s attempt inv post N b h hinv hN => ?_, fun options automatic ms req b hp hb => ?_⟩
  · -- the supervisor never fails to find the session with a lost connection
    have hne := h.not_lost fun b e b' he => by
      rw [(Supervisor.access_error he).1]
      exact Failure.noConfusion
    obtain ⟨m, r, b', hrun, ⟨-, hr⟩, -⟩ := Op.exec_retrying_rounds s.access attempt hne b hinv hN
    rw [hrun]
    exact hr
  · -- unconfigured is exactly holding no session, so finding it fails at once
    have hd := Supervisor.run_disciplined (Supervisor.init_disciplined options automatic) ms
    have hnone : ((Supervisor.init options automatic).run ms).access = throw .notConfigured := by
      simp [Supervisor.access, hd.unconfigured_iff.mp hp]
    rw [hnone]
    exact req.exec_run_throw .notConfigured b hb

namespace Op

/-- An attempt that loses the connection while fewer than `n` retries were made, and then
reports whether it was told it is a retry. -/
def loseUntil (n : Nat) : Nat → Bool → Op Bool := fun _ retry => do
  if (← get).retries < n then throw .connectionLoss
  pure retry

theorem exec_loseUntil (n i : Nat) (retry : Bool) (b : Backend) :
    (loseUntil n i retry).exec b =
      if b.retries < n then (.error .connectionLoss, b) else (.ok retry, b) := by
  by_cases h : b.retries < n <;> simp [loseUntil, exec_bind, h]

end Op

/-- Two lost connections, counted, then the third round reports that it was told it is a retry;
and a request made after the target was dropped again fails with `notConfigured`. -/
theorem retrying_contract_two_losses :
    let b : Backend := { service := {}, connector := { automatic := true }, budget := 3 }
    let inv : Nat → Backend → Prop := fun n b' =>
      b' = { b with retries := n, budget := 3 - n } ∧ n ≤ 2
    let post : Nat → Except Failure Bool → Backend → Prop := fun m r _ => m = 2 ∧ r = .ok true
    let ms := [Move.configure (some ⟨"mem:1", Duration.ofMillis 10000⟩), .configure none]
    let s := (Supervisor.init ⟨Duration.ofMillis 20000, none⟩ true).run ms
    (Op.Rounds (pure 0) (Op.loseUntil 2) inv post 2 ∧ inv 0 b ∧ 2 < b.budget ∧
      ∃ m r b', (Op.retrying (pure 0) (Op.loseUntil 2)).exec b = (r, b') ∧ post m r b' ∧
        m ≤ 2 ∧ b'.retries = b.retries + m ∧ b'.budget = b.budget - m ∧
        b'.exhausted = b.exhausted) ∧
    (s.phase = .unconfigured ∧ 0 < b.budget ∧
      ((Request.exists "/a").run s.access).exec b = (.error .notConfigured, b)) := by
  intro b inv post ms s
  have hrounds : Op.Rounds (pure 0) (Op.loseUntil 2) inv post 2 := by
    rintro n b' ⟨rfl, hn⟩
    right
    by_cases hlt : n < 2
    · -- the first two rounds lose the connection
      refine ⟨0, _, .error .connectionLoss, _, rfl, ?_, ⟨rfl, rfl, rfl⟩,
        .inl ⟨rfl, hlt, ?_, by omega⟩⟩
      · rw [Op.exec_loseUntil, if_pos hlt]
      · simp only [b, Backend.mk.injEq, true_and, and_true]
        omega
    · -- the third finds two retries made and reports its flag
      obtain rfl : n = 2 := by omega
      refine ⟨0, _, .ok true, _, rfl, ?_, ⟨rfl, rfl, rfl⟩, .inr ⟨by simp, rfl, rfl⟩⟩
      rw [Op.exec_loseUntil, if_neg hlt]
      rfl
  have hp : s.phase = .unconfigured := by decide
  have hb : 0 < b.budget := by decide
  exact ⟨⟨hrounds, ⟨rfl, by decide⟩, by decide,
      (retrying_contract (α := Bool)).2.1 (pure 0) (Op.loseUntil 2) inv post 2 b hrounds
        ⟨rfl, by decide⟩ (by decide)⟩,
    hp, hb, (retrying_contract (α := Bool)).2.2.2 _ _ ms (.exists "/a") b hp hb⟩

namespace Op

variable {α : Type} (told : Nat → Bool) (access : Op Nat) (attempt : Nat → Bool → Op α)

theorem run_get (b : Backend) : StateT.run (ExceptT.run (get : Op Backend)) b = pure (.ok b, b) :=
  rfl

theorem run_modify (f : Backend → Backend) (b : Backend) :
    StateT.run (ExceptT.run (modify f : Op Unit)) b = pure (.ok (), f b) :=
  rfl

theorem run_from_budget (b : Backend) :
    (do rounds told access attempt 0 (← get).budget : Op α).run.run b =
      (rounds told access attempt 0 b.budget).run.run b :=
  rfl

theorem rounds_lose_once (n fuel round : Nat) (b : Backend) (hlt : b.retries < n)
    (hleft : b.budget - 1 ≠ 0) :
    (rounds told (pure 0) (loseUntil n) round (fuel + 1)).run.run b =
      (rounds told (pure 0) (loseUntil n) (round + 1) fuel).run.run
        { b with retries := b.retries + 1, budget := b.budget - 1 } := by
  simp [rounds, loseUntil, ExceptT.run_tryCatch, ExceptT.run_bind, run_get, run_modify, hlt, hleft,
    Failure.isConnectionLoss]

/-- While retries stay below `n` and the budget lasts, every round of `loseUntil n` loses the
connection and is counted. -/
theorem rounds_loseUntil (n k fuel round : Nat) (b : Backend) (hk : b.retries + k ≤ n)
    (hb : k < b.budget) :
    (rounds told (pure 0) (loseUntil n) round (fuel + k)).run.run b =
      (rounds told (pure 0) (loseUntil n) (round + k) fuel).run.run
        { b with retries := b.retries + k, budget := b.budget - k } := by
  induction k generalizing round b with
  | zero => rfl
  | succ k ih =>
    have hone := rounds_lose_once told n (fuel + k) round b (by omega) (by omega)
    have hrest := ih (round + 1) { b with retries := b.retries + 1, budget := b.budget - 1 }
      (by simp only; omega) (by simp only; omega)
    rw [← Nat.add_assoc, hone, hrest]
    simp only [Nat.add_assoc, Nat.add_comm 1 k, Nat.sub_sub]

theorem rounds_loseUntil_settles (n round : Nat) (b : Backend) (hn : b.retries = n) :
    ((rounds told (pure 0) (loseUntil n) round 1).run.run b).1 = .ok (told round) := by
  simp [rounds, loseUntil, ExceptT.run_tryCatch, ExceptT.run_bind, run_get, hn]
  rfl

/-- After 2^32 lost connections in a row the next attempt of the retrying client is told it
is not a retry, where every attempt after the first should be. -/
theorem retry_flag_lost_after_wrap :
    let b : Backend := { service := {}, connector := { automatic := true }, budget := 2 ^ 32 + 1 }
    ((retrying (pure 0) (loseUntil (2 ^ 32))).run.run b).1 = .ok false ∧
      ((rounds (fun k => k != 0) (pure 0) (loseUntil (2 ^ 32)) 0 b.budget).run.run b).1 =
        .ok true := by
  intro b
  -- the first 2^32 rounds lose the connection, the next one reports its flag
  have hlose : ∀ told : Nat → Bool,
      ((rounds told (pure 0) (loseUntil (2 ^ 32)) 0 b.budget).run.run b).1 =
        .ok (told (2 ^ 32)) := by
    intro told
    rw [show b.budget = 1 + 2 ^ 32 from Nat.add_comm _ _,
      rounds_loseUntil told (2 ^ 32) (2 ^ 32) 1 0 b (by simp [b]) (by simp [b]), Nat.zero_add]
    exact rounds_loseUntil_settles told (2 ^ 32) (2 ^ 32) _ rfl
  refine ⟨?_, by rw [hlose]; rfl⟩
  rw [retrying_eq_rounds, run_from_budget, hlose]
  rfl

end Op

end Coordination
