import Coordination.Proofs.IdempotentWrites
import Coordination.Proofs.Subtrees

/-!
Writing a node whatever stands at its path, under lost connections and other clients' writes.
The call probes the path: a stored node has its data replaced, and a missing one is created with
its missing ancestors, or has its data replaced when the create finds it made meanwhile, by
another client or by an earlier attempt whose reply was lost.

Other clients' writes here create nodes, at any path and in any mode, or replace data, and remove
nothing (`DirectChange.IsWrite`). They keep a tree open for `p` (`Tree.OpenFor`): well formed,
with no node strictly above `p` owned by a session, so that each create on the way down to `p`
finds a parent that may hold children; so do the session's own creates and data changes. Each
step of the call is stated once against that invariant (`Service.apply_keeps`), the climb that
lists the missing ancestors and the pass that creates them top down by induction
(`exec_missingAncestors`, `exec_createMissingAll`), and each retried phase as the attempts of a
retry loop. On a live session with a budget above the faults queued the call returns, never with
a failure, and leaves `p` holding the data with every path above it stored; none means that the
session's own create made the node, and metadata are those of the session's last data change
of `p` (`createOrSet_stores_data`).
-/

namespace Coordination

namespace Path

theorem Under.of_parent {a q c : String} (h : Under a q) (hc : parent a = some c) : Under c q := by
  induction h with
  | refl => exact .child hc .refl
  | child hk _ ih => exact .child hk ih

/-- `a` lies strictly above `p`: at or above the parent of `p`. -/
def Above (p a : String) : Prop := ∃ q, parent p = some q ∧ Under a q

theorem above_parent {p q : String} (h : parent p = some q) : Above p q := ⟨q, h, .refl⟩

theorem Above.parent {p a c : String} (h : Above p a) (hc : Path.parent a = some c) : Above p c := by
  obtain ⟨q, hq, hu⟩ := h
  exact ⟨q, hq, hu.of_parent hc⟩

theorem Above.under {p a : String} (h : Above p a) : Under a p := by
  obtain ⟨q, hq, hu⟩ := h
  exact .child hq hu

theorem Above.ne {p a : String} (h : Above p a) : a ≠ p := by
  rintro rfl
  obtain ⟨q, hq, hu⟩ := h
  exact Under.not_parent hq hu

end Path

/-- A change of another client that creates a node or replaces data, and so removes nothing. -/
def DirectChange.IsWrite : DirectChange → Prop
  | .create _ _ _ | .setData _ _ => True
  | .delete _ => False

namespace Tree

variable {t : Tree} {p x : String} {d : List UInt8} {m : Mode} {o : Nat}

/-- Every node stored in `t` is stored in `t'`. -/
def Grows (t t' : Tree) : Prop := ∀ k, (lookup k t.nodes).isSome → (lookup k t'.nodes).isSome

theorem grows_refl (t : Tree) : Grows t t := fun _ h => h

theorem Grows.trans {t₁ t₂ t₃ : Tree} (h₁ : Grows t₁ t₂) (h₂ : Grows t₂ t₃) : Grows t₁ t₃ :=
  fun k hk => h₂ k (h₁ k hk)

/-- A tree where `p` and its missing ancestors can be created: well formed, with no stored node
strictly above `p` belonging to a session. -/
structure OpenFor (p : String) (t : Tree) : Prop where
  wellFormed : WellFormed t.nodes
  above : ∀ a n, Path.Above p a → lookup a t.nodes = some n → n.stat.isEphemeral = false

/-- A create that succeeds stores a fresh node holding its data at the path it returns, which
is the requested one in a mode without sequence numbers. -/
theorem create_result {r : String × Tree × List Fired} (h : t.create x d m o = .ok r) :
    (m.sequential = false → r.1 = x) ∧
      lookup r.1 r.2.1.nodes =
        some (freshNode d (wrapI64 (t.zxid + 1)) (if m.ephemeral then o else 0)) := by
  obtain ⟨q, par, -, hpar, -, hr1, -, -, hfree, hr, -⟩ := create_ok_spec h
  -- the created path is free, so it is not the parent's
  have hne : r.1 ≠ q := by
    intro heq
    rw [heq, hpar] at hfree
    cases hfree
  refine ⟨fun hm => by simp [hr1, hm], ?_⟩
  rw [hr]
  simp [lookup_update_append hfree, hne]

theorem setData_result {v : Option Int} {r : Stat × Tree × List Fired}
    (h : t.setData x d v = .ok r) : ∃ n, lookup x r.2.1.nodes = some n ∧ n.data = d ∧ n.stat = r.1 := by
  obtain ⟨n, -, -, -, hr, -⟩ := setData_ok_spec h
  rw [hr]
  simp

theorem setData_of_lookup (hw : WellFormed t.nodes) {n : TreeNode} (hn : lookup x t.nodes = some n) :
    ∃ r, t.setData x d none = .ok r := by
  simp [Tree.setData, Tree.node, validate_of_isValid (Op.isValid_of_lookup hw hn), hn, bind,
    Except.bind, pure, Except.pure]

/-- A create of a well-formed path whose parent, if it has one, is stored and belongs to no
session, in a mode without sequence numbers, creates the path or finds it stored. -/
theorem create_cases (hw : WellFormed t.nodes) (hx : Path.IsValid x)
    (hpar : ∀ c, Path.parent x = some c →
      ∃ par, lookup c t.nodes = some par ∧ par.stat.isEphemeral = false)
    (hm : m.sequential = false) :
    (∃ t' fired, t.create x d m o = .ok (x, t', fired)) ∨
      ((lookup x t.nodes).isSome ∧ t.create x d m o = .error (.nodeExists x)) := by
  cases hl : lookup x t.nodes with
  | some n => exact .inr ⟨rfl, Op.create_stored hw hm (by simp [hl])⟩
  | none =>
    -- the root is always stored, so a missing path has a parent
    have hroot : x ≠ "/" := by
      rintro rfl
      obtain ⟨n, hn, -⟩ := hw.root
      rw [hn] at hl
      cases hl
    obtain ⟨c, hc⟩ := Path.parent_of_isValid hx hroot
    obtain ⟨par, hpar, heph⟩ := hpar c hc
    exact .inl (Op.create_free hx hc hpar heph hl hm)

theorem create_grows {r : String × Tree × List Fired} (h : t.create x d m o = .ok r) :
    Grows t r.2.1 :=
  fun k hk => (Op.lookup_created h k).mpr (.inr hk)

theorem setData_grows {v : Option Int} {r : Stat × Tree × List Fired}
    (h : t.setData x d v = .ok r) : Grows t r.2.1 := by
  obtain ⟨n, n', hn, -, -, hnodes⟩ := setData_ok h
  intro k hk
  rw [hnodes, lookup_update]
  split <;> simp_all

theorem OpenFor.create (hf : OpenFor p t) {r : String × Tree × List Fired}
    (h : t.create x d m o = .ok r) (hnew : (if m.ephemeral then o else 0) = 0 ∨ r.1 = p) :
    OpenFor p r.2.1 := by
  obtain ⟨q, par, par', fresh, hpar, -, -, hfree, -, hown, -, hnodes⟩ := create_ok h
  refine ⟨create_wellFormed hf.wellFormed h, fun a n ha hn => ?_⟩
  by_cases hq : a = q
  · -- the parent, which now lists the new node
    subst hq
    rw [hnodes, lookup_update_append hfree, if_pos rfl] at hn
    cases hn
    simp [Stat.isEphemeral, hown]
  · by_cases hr : a = r.1
    · subst hr
      rw [(create_result h).2] at hn
      cases hn
      rcases hnew with hzero | hp
      · simp [freshNode, Stat.isEphemeral, hzero]
      · exact absurd hp ha.ne
    · rw [hnodes, lookup_update_append hfree, if_neg hq, if_neg hr] at hn
      exact hf.above a n ha hn

theorem OpenFor.setData (hf : OpenFor p t) {v : Option Int} {r : Stat × Tree × List Fired}
    (h : t.setData x d v = .ok r) : OpenFor p r.2.1 := by
  obtain ⟨n₀, n', hn₀, -, hown, hnodes⟩ := setData_ok h
  refine ⟨setData_wellFormed hf.wellFormed h, fun a n ha hn => ?_⟩
  rw [hnodes, lookup_update] at hn
  split at hn
  · rename_i hax
    cases hn
    subst hax
    simpa [Stat.isEphemeral, hown] using hf.above _ n₀ ha hn₀
  · exact hf.above a n ha hn

/-- A change that keeps every tree open for `p` open for it, and removes no node. -/
def Keeps (p : String) {α : Type} (f : Tree → Except Failure (α × Tree × List Fired)) : Prop :=
  ∀ t a t' fired, OpenFor p t → f t = .ok (a, t', fired) → OpenFor p t' ∧ Grows t t'

theorem Keeps.after {α : Type} {f : Tree → Except Failure (α × Tree × List Fired)}
    (hk : Keeps p f) (ht : OpenFor p t) : OpenFor p (after f t) ∧ Grows t (after f t) := by
  cases hf : f t with
  | ok r =>
    obtain ⟨a, t', fired⟩ := r
    rw [after_of_ok hf]
    exact hk t a t' fired ht hf
  | error e =>
    rw [after_of_error hf]
    exact ⟨ht, grows_refl t⟩

/-- A create keeps trees open for `p` when it gives no node to a session, or creates `p`
itself. -/
theorem keeps_create (hnew : (if m.ephemeral then o else 0) = 0 ∨ (m.sequential = false ∧ x = p)) :
    Keeps p (·.create x d m o) := by
  intro t a t' fired ht h
  refine ⟨ht.create h ?_, create_grows h⟩
  rcases hnew with hzero | ⟨hm, rfl⟩
  · exact .inl hzero
  · exact .inr ((create_result h).1 hm)

theorem keeps_setData {v : Option Int} : Keeps p (·.setData x d v) :=
  fun _ _ _ _ ht h => ⟨ht.setData h, setData_grows h⟩

theorem keeps_read {β : Type} (read : Tree → Except Failure β) :
    Keeps p fun t => (read t).map fun r => (r, t, []) := by
  intro t a t' fired ht h
  cases hr : read t with
  | error e => simp [hr, Except.map] at h
  | ok r =>
    simp only [hr, Except.map, Except.ok.injEq, Prod.mk.injEq] at h
    obtain ⟨-, rfl, -⟩ := h
    exact ⟨ht, grows_refl t⟩

theorem openFor_foldl_direct {cs : List DirectChange} (hcs : ∀ c ∈ cs, c.IsWrite)
    (ht : OpenFor p t) : OpenFor p (cs.foldl direct t) ∧ Grows t (cs.foldl direct t) := by
  induction cs generalizing t with
  | nil => exact ⟨ht, grows_refl t⟩
  | cons c cs ih =>
    -- one write, then the rest from the tree it leaves
    have hone : OpenFor p (t.direct c) ∧ Grows t (t.direct c) := by
      cases c with
      | create q d' m' => exact (keeps_create (.inl (by split <;> rfl))).after ht
      | setData q d' => exact keeps_setData.after ht
      | delete q => exact (hcs _ List.mem_cons_self).elim
    obtain ⟨hrest, hgrow⟩ := ih (fun c hc => hcs c (List.mem_cons_of_mem _ hc)) hone.1
    exact ⟨hrest, hone.2.trans hgrow⟩

/-- The ancestors that a climb from `a` finds missing in `t`, nearest first: none when `a` is
stored, else `a` and then those of its parent. -/
def Missing (t : Tree) (a : String) : List String → Prop
  | [] => (lookup a t.nodes).isSome
  | x :: rest => x = a ∧ ∃ c, Path.parent a = some c ∧ Missing t c rest

end Tree

open Coordination.Tree

/-- The service between the steps of a write of `p`: only lost connections and other clients'
writes are queued, and the tree is open for `p`. -/
structure Service.Admits (p : String) (svc : Service) : Prop where
  scripted : svc.Scripted (Fault.Within DirectChange.IsWrite)
  openFor : svc.tree.OpenFor p

namespace Service

variable {svc : Service} {p : String} {α : Type} {f : Tree → Except Failure (α × Tree × List Fired)}

/-- A session operation that keeps trees open for `p`, on a service that admits a write of `p`:
other clients' writes come first, and the operation ends as on the tree they leave, or loses
its connection with one fault fewer queued; the service still admits the write and holds every
node it held. -/
theorem apply_keeps (ha : svc.Admits p) (k : OpKind) (hk : Keeps p f) :
    (svc.apply k f).2.Admits p ∧ Grows svc.tree (svc.apply k f).2.tree ∧
      (svc.apply k f).2.queued.length ≤ svc.queued.length ∧
      ((∃ u, OpenFor p u ∧ Grows svc.tree u ∧ (svc.apply k f).1 = (f u).map (·.1) ∧
          (svc.apply k f).2.tree = after f u) ∨
        ((svc.apply k f).1 = .error .connectionLoss ∧
          (svc.apply k f).2.queued.length < svc.queued.length)) := by
  have hsc := ha.scripted.apply k f
  have hle := (apply_queued (s := svc) k f).2
  rcases apply_within ha.scripted k f with ⟨cs, hcs, hres, htree⟩ | ⟨hres, hlt, htree⟩
  · obtain ⟨hu, hgu⟩ := openFor_foldl_direct hcs ha.openFor
    obtain ⟨ho, hg⟩ := hk.after hu
    rw [← htree] at ho hg
    exact ⟨⟨hsc, ho⟩, hgu.trans hg, hle, .inl ⟨_, hu, hgu, hres, htree⟩⟩
  · -- the connection is lost before the change or after it
    obtain ⟨ho, hg⟩ : OpenFor p (svc.apply k f).2.tree ∧ Grows svc.tree (svc.apply k f).2.tree := by
      rcases htree with htree | htree <;> rw [htree]
      · exact ⟨ha.openFor, grows_refl _⟩
      · exact hk.after ha.openFor
    exact ⟨⟨hsc, ho⟩, hg, hle, .inr ⟨hres, hlt⟩⟩

theorem Admits.stored_above (ha : svc.Admits p) {n : TreeNode}
    (hn : lookup p svc.tree.nodes = some n) : ∀ q, Path.Under q p → (lookup q svc.tree.nodes).isSome :=
  fun _ hq => stored_of_under ha.openFor.wellFormed hq (by simp [hn])

end Service

namespace Op

variable {b : Backend} {i : Nat} {s : Session} {p x : String}

section Steps

/-- A probe of a well-formed path on a live session, under a script that admits a write of `p`:
it reports the path as the tree it leaves has it, or loses its connection. -/
theorem exec_exists_admits (hlive : b.Live i s) (ha : b.service.Admits p) (hx : Path.IsValid x) :
    ∃ res svc, (onSession i (·.exists? · x)).exec b = (res, { b with service := svc }) ∧
      svc.Admits p ∧ svc.queued.length ≤ b.service.queued.length ∧
      (res = .ok ((lookup x svc.tree.nodes).map (·.stat)) ∨
        (res = .error .connectionLoss ∧ svc.queued.length < b.service.queued.length)) := by
  rw [exec_onSession hlive.found]
  simp only [Session.exists?, Session.run_of_connected hlive.connected]
  obtain ⟨ha', -, hle, hend⟩ := Service.apply_keeps ha .exists (keeps_read fun t => t.exists? x)
  refine ⟨_, _, rfl, ha', hle, ?_⟩
  rcases hend with ⟨u, -, -, hres, htree⟩ | hloss
  · left
    rw [hres, htree, after_read, exists?_of_isValid hx]
    rfl
  · exact .inr hloss

/-- A create of a well-formed path, `p` or one strictly above it, with its parent stored, on a
live session under a script that admits a write of `p`, in a mode without sequence numbers that
gives a node above `p` to no session: it creates the path from the tree other clients' writes
leave, or finds the path stored, or loses its connection. -/
theorem exec_create_admits (hlive : b.Live i s) (ha : b.service.Admits p) (hx : Path.IsValid x)
    (hplace : x = p ∨ Path.Above p x)
    (hpar : ∀ c, Path.parent x = some c → (lookup c b.service.tree.nodes).isSome)
    {d : List UInt8} {m : Mode} (hm : m.sequential = false) (hown : m.ephemeral = false ∨ x = p) :
    ∃ res svc, (onSession i (·.create · x d m)).exec b = (res, { b with service := svc }) ∧
      svc.Admits p ∧ svc.queued.length ≤ b.service.queued.length ∧
      ((∃ (u : Tree) (fired : List Fired), res = .ok x ∧ u.create x d m s.id = .ok (x, svc.tree, fired)) ∨
        (res = .error (.nodeExists x) ∧ (lookup x svc.tree.nodes).isSome) ∨
        (res = .error .connectionLoss ∧ svc.queued.length < b.service.queued.length)) := by
  have hk : Keeps p (·.create x d m s.id) := by
    apply keeps_create
    rcases hown with h | h
    · exact .inl (by simp [h])
    · exact .inr ⟨hm, h⟩
  rw [exec_onSession hlive.found]
  simp only [Session.create, Session.run_of_connected hlive.connected]
  obtain ⟨ha', -, hle, hend⟩ := Service.apply_keeps ha .create hk
  refine ⟨_, _, rfl, ha', hle, ?_⟩
  rcases hend with ⟨u, hu, hgu, hres, htree⟩ | hloss
  · -- after other clients' writes the parent is still stored, and belongs to no session
    have hparent : ∀ c, Path.parent x = some c →
        ∃ par, lookup c u.nodes = some par ∧ par.stat.isEphemeral = false := by
      intro c hc
      obtain ⟨par, hpar'⟩ := Option.isSome_iff_exists.mp (hgu c (hpar c hc))
      have habove : Path.Above p c := by
        rcases hplace with rfl | h
        · exact Path.above_parent hc
        · exact h.parent hc
      exact ⟨par, hpar', hu.above c par habove hpar'⟩
    rcases create_cases hu.wellFormed hx hparent hm (d := d) (o := s.id) with
      ⟨t', fired, hok⟩ | ⟨hstored, herr⟩
    · refine .inl ⟨u, fired, by rw [hres, hok]; rfl, ?_⟩
      rw [htree, after_of_ok hok]
      exact hok
    · refine .inr (.inl ⟨by rw [hres, herr]; rfl, ?_⟩)
      rw [htree, after_of_error herr]
      exact hstored
  · exact .inr (.inr hloss)

/-- A data change of a stored `p` on a live session, under a script that admits a write of
`p`: it replaces the data on the tree other clients' writes leave, or loses its connection;
`p` stays stored. -/
theorem exec_setData_admits (hlive : b.Live i s) (ha : b.service.Admits p)
    (hp : (lookup p b.service.tree.nodes).isSome) (d : List UInt8) :
    ∃ res svc, (onSession i (·.setData · p d none)).exec b = (res, { b with service := svc }) ∧
      svc.Admits p ∧ (lookup p svc.tree.nodes).isSome ∧
      svc.queued.length ≤ b.service.queued.length ∧
      ((∃ (st : Stat) (u : Tree) (fired : List Fired), res = .ok st ∧ u.setData p d none = .ok (st, svc.tree, fired)) ∨
        (res = .error .connectionLoss ∧ svc.queued.length < b.service.queued.length)) := by
  rw [exec_onSession hlive.found]
  simp only [Session.setData, Session.run_of_connected hlive.connected]
  obtain ⟨ha', hg, hle, hend⟩ := Service.apply_keeps ha .setData keeps_setData
  refine ⟨_, _, rfl, ha', hg p hp, hle, ?_⟩
  rcases hend with ⟨u, hu, hgu, hres, htree⟩ | hloss
  · obtain ⟨n, hn⟩ := Option.isSome_iff_exists.mp (hgu p hp)
    obtain ⟨⟨st, t', fired⟩, hok⟩ := setData_of_lookup hu.wellFormed hn (d := d)
    refine .inl ⟨st, u, fired, by rw [hres, hok]; rfl, ?_⟩
    rw [htree, after_of_ok hok]
    exact hok
  · exact .inr hloss

end Steps

section Ancestors

/-- One create of a missing ancestor; a node found at its path is as good. -/
def createMissing (i : Nat) (a : String) : Op Unit :=
  tryCatch (discard <| onSession i (·.create · a [] Mode.persistent)) fun e =>
    match e with
    | .nodeExists _ => pure ()
    | e => throw e

theorem createAncestors_eq (i : Nat) (p : String) : createAncestors i p = (do
    let missing ← missingAncestors i (p.length + 1) (Path.parent p)
    for a in missing.reverse do createMissing i a) := rfl

theorem forIn_reverse_eq_foldrM (l : List String) (body : String → Op Unit) :
    (forIn l.reverse PUnit.unit fun a _ => do body a; pure (ForInStep.yield PUnit.unit)) =
      l.foldrM (fun a _ => body a) PUnit.unit := by
  simp only [bind_pure_comp]
  rw [List.forIn_yield_eq_foldlM, List.foldlM_reverse]
  simp

/-- The climb from a well-formed path `a`, with fuel above its length, on a live session under a
script that admits a write of `p`: it lists the ancestors of `a` missing from the tree it leaves,
or loses its connection. -/
theorem exec_missingAncestors (fuel : Nat) :
    ∀ (a : String) (b : Backend), b.Live i s → b.service.Admits p → Path.IsValid a →
      a.length < fuel →
      ∃ res svc, (missingAncestors i fuel (some a)).exec b = (res, { b with service := svc }) ∧
        svc.Admits p ∧ svc.queued.length ≤ b.service.queued.length ∧
        ((∃ ms, res = .ok ms ∧ Missing svc.tree a ms) ∨
          (res = .error .connectionLoss ∧ svc.queued.length < b.service.queued.length)) := by
  induction fuel with
  | zero =>
    intro a b _ _ _ hlen
    omega
  | succ fuel ih =>
    intro a b hlive ha hv hlen
    simp only [missingAncestors]
    by_cases hroot : a = "/"
    · -- the root is always stored
      subst hroot
      obtain ⟨n, hn, -⟩ := ha.openFor.wellFormed.root
      refine ⟨.ok [], b.service, by simp, ha, Nat.le_refl _, .inl ⟨[], rfl, by simp [Missing, hn]⟩⟩
    · obtain ⟨res₁, svc₁, hrun₁, ha₁, hle₁, hend₁⟩ := exec_exists_admits hlive ha hv
      rw [if_neg hroot, exec_bind, hrun₁]
      rcases hend₁ with rfl | ⟨rfl, hlt₁⟩
      · dsimp only
        cases hl : lookup a svc₁.tree.nodes with
        | some n =>
          refine ⟨.ok [], svc₁, by simp, ha₁, hle₁, .inl ⟨[], rfl, by simp [Missing, hl]⟩⟩
        | none =>
          -- a missing path other than the root: climb on from its parent
          obtain ⟨c, hc⟩ := Path.parent_of_isValid hv hroot
          have hlenc : c.length < fuel := by
            have := Path.length_lt_of_parent hc
            simp only [String.length_toList] at this
            omega
          obtain ⟨res, svc, hrun, ha', hle, hend⟩ := ih c { b with service := svc₁ }
            (hlive.withService svc₁) ha₁ (Path.isValid_parent hv hc) hlenc
          simp only [Option.map_none, Option.isSome_none, Bool.false_eq_true, ↓reduceIte]
          rw [hc, exec_bind, hrun]
          rcases hend with ⟨ms, rfl, hms⟩ | ⟨rfl, hlt⟩
          · exact ⟨_, svc, rfl, ha', Nat.le_trans hle hle₁, .inl ⟨a :: ms, rfl, rfl, c, hc, hms⟩⟩
          · exact ⟨_, svc, rfl, ha', Nat.le_trans hle hle₁, .inr ⟨rfl, Nat.lt_of_lt_of_le hlt hle₁⟩⟩
      · exact ⟨_, svc₁, rfl, ha₁, hle₁, .inr ⟨rfl, hlt₁⟩⟩

/-- A create of a missing ancestor strictly above `p`, with its parent stored: the ancestor is
stored after it, or the connection is lost. -/
theorem exec_createMissing (hlive : b.Live i s) (ha : b.service.Admits p) (hx : Path.IsValid x)
    (habove : Path.Above p x)
    (hpar : ∀ c, Path.parent x = some c → (lookup c b.service.tree.nodes).isSome) :
    ∃ res svc, (createMissing i x).exec b = (res, { b with service := svc }) ∧
      svc.Admits p ∧ svc.queued.length ≤ b.service.queued.length ∧
      ((res = .ok () ∧ (lookup x svc.tree.nodes).isSome) ∨
        (res = .error .connectionLoss ∧ svc.queued.length < b.service.queued.length)) := by
  obtain ⟨res₁, svc₁, hrun₁, ha₁, hle₁, hend₁⟩ := exec_create_admits hlive ha hx (.inr habove) hpar
    (d := []) (m := Mode.persistent) rfl (.inl rfl)
  unfold createMissing
  rw [exec_tryCatch, Functor.discard, LawfulFunctor.map_const, Function.comp_apply, exec_map, hrun₁]
  rcases hend₁ with ⟨u, fired, rfl, hok⟩ | ⟨rfl, hstored⟩ | ⟨rfl, hlt⟩
  · exact ⟨_, svc₁, rfl, ha₁, hle₁, .inl ⟨rfl, by simp [(create_result hok).2]⟩⟩
  · -- a node found at the path is as good as one created
    exact ⟨_, svc₁, rfl, ha₁, hle₁, .inl ⟨rfl, hstored⟩⟩
  · exact ⟨_, svc₁, rfl, ha₁, hle₁, .inr ⟨rfl, hlt⟩⟩

/-- Creating the missing ancestors of `a` from the top down: `a` is stored after it, or the
connection is lost. -/
theorem exec_createMissingAll (ms : List String) :
    ∀ (a : String) (b : Backend), b.Live i s → b.service.Admits p → Path.IsValid a →
      Path.Above p a → Missing b.service.tree a ms →
      ∃ res svc, (ms.foldrM (fun x _ => createMissing i x) PUnit.unit).exec b =
          (res, { b with service := svc }) ∧
        svc.Admits p ∧ svc.queued.length ≤ b.service.queued.length ∧
        ((res = .ok () ∧ (lookup a svc.tree.nodes).isSome) ∨
          (res = .error .connectionLoss ∧ svc.queued.length < b.service.queued.length)) := by
  induction ms with
  | nil =>
    intro a b _ ha _ _ hmiss
    exact ⟨.ok (), b.service, rfl, ha, Nat.le_refl _, .inl ⟨rfl, hmiss⟩⟩
  | cons x rest ih =>
    intro a b hlive ha hv habove hmiss
    obtain ⟨rfl, c, hc, hrest⟩ := hmiss
    rw [List.foldrM_cons, exec_bind]
    -- the ancestors above come first; then the parent of `x` is stored
    obtain ⟨res₁, svc₁, hrun₁, ha₁, hle₁, hend₁⟩ :=
      ih c b hlive ha (Path.isValid_parent hv hc) (habove.parent hc) hrest
    rw [hrun₁]
    rcases hend₁ with ⟨rfl, hstored⟩ | ⟨rfl, hlt₁⟩
    · have hpar : ∀ c', Path.parent x = some c' → (lookup c' svc₁.tree.nodes).isSome := by
        intro c' hc'
        rw [hc] at hc'
        cases hc'
        exact hstored
      obtain ⟨res, svc, hrun, ha', hle, hend⟩ :=
        exec_createMissing (hlive.withService svc₁) ha₁ hv habove hpar
      refine ⟨res, svc, by simpa using hrun, ha', Nat.le_trans hle hle₁, ?_⟩
      rcases hend with h | ⟨hres, hlt⟩
      · exact .inl h
      · exact .inr ⟨hres, Nat.lt_of_lt_of_le hlt hle₁⟩
    · exact ⟨_, svc₁, rfl, ha₁, hle₁, .inr ⟨rfl, hlt₁⟩⟩

/-- Creating the missing ancestors of a well-formed `p` on a live session, under a script that
admits a write of `p`: the parent of `p` is stored after it, or the connection is lost. -/
theorem exec_createAncestors (hlive : b.Live i s) (ha : b.service.Admits p) (hp : Path.IsValid p) :
    ∃ res svc, (createAncestors i p).exec b = (res, { b with service := svc }) ∧
      svc.Admits p ∧ svc.queued.length ≤ b.service.queued.length ∧
      ((res = .ok () ∧ ∀ q, Path.parent p = some q → (lookup q svc.tree.nodes).isSome) ∨
        (res = .error .connectionLoss ∧ svc.queued.length < b.service.queued.length)) := by
  rw [createAncestors_eq, exec_bind]
  cases hq : Path.parent p with
  | none =>
    -- the root has no ancestors to create
    have hnil : missingAncestors i (p.length + 1) none = pure [] := rfl
    rw [hnil, exec_pure]
    exact ⟨.ok (), b.service, rfl, ha, Nat.le_refl _, .inl ⟨rfl, by simp⟩⟩
  | some q =>
    have hlen : q.length < p.length + 1 := by
      have := Path.length_lt_of_parent hq
      simp only [String.length_toList] at this
      omega
    obtain ⟨res₁, svc₁, hrun₁, ha₁, hle₁, hend₁⟩ :=
      exec_missingAncestors _ q b hlive ha (Path.isValid_parent hp hq) hlen
    rw [hrun₁]
    rcases hend₁ with ⟨ms, rfl, hms⟩ | ⟨rfl, hlt₁⟩
    · dsimp only
      rw [forIn_reverse_eq_foldrM]
      obtain ⟨res, svc, hrun, ha', hle, hend⟩ := exec_createMissingAll ms q _
        (hlive.withService svc₁) ha₁ (Path.isValid_parent hp hq) (Path.above_parent hq) hms
      refine ⟨res, svc, by simpa using hrun, ha', Nat.le_trans hle hle₁, ?_⟩
      rcases hend with ⟨hres, hstored⟩ | ⟨hres, hlt⟩
      · refine .inl ⟨hres, fun q' hq' => ?_⟩
        cases hq'
        exact hstored
      · exact .inr ⟨hres, Nat.lt_of_lt_of_le hlt hle₁⟩
    · exact ⟨_, svc₁, rfl, ha₁, hle₁, .inr ⟨rfl, hlt₁⟩⟩

end Ancestors

section Phases

/-- The attempts of a probe of a well-formed `p`: each reports `p` as the tree it leaves has
it. -/
theorem probe_attempts (hlive : b.Live i s) (hp : Path.IsValid p) :
    Attempts i (fun i _ => onSession i (·.exists? · p)) b.connector (fun _ svc => svc.Admits p)
      (fun res svc => svc.Admits p ∧ res = .ok ((lookup p svc.tree.nodes).map (·.stat))) := by
  intro r b' hc ha
  obtain ⟨res, svc, hrun, ha', hle, hend⟩ := exec_exists_admits (hlive.of_connector hc) ha hp
  refine ⟨res, svc, hrun, hle, ?_⟩
  rcases hend with rfl | ⟨rfl, hlt⟩
  · exact .inr ⟨by simp, ha', rfl⟩
  · exact .inl ⟨rfl, hlt, ha'⟩

/-- The attempts of a data change of a stored `p`: each that does not lose its connection
replaces the data. -/
theorem setData_attempts (hlive : b.Live i s) (p : String) (d : List UInt8) :
    Attempts i (fun i _ => onSession i (·.setData · p d none)) b.connector
      (fun _ svc => svc.Admits p ∧ (lookup p svc.tree.nodes).isSome)
      (fun res svc => svc.Admits p ∧ ∃ (st : Stat) (u : Tree) (fired : List Fired),
        res = .ok st ∧ u.setData p d none = .ok (st, svc.tree, fired)) := by
  intro r b' hc ⟨ha, hstored⟩
  obtain ⟨res, svc, hrun, ha', hstored', hle, hend⟩ :=
    exec_setData_admits (hlive.of_connector hc) ha hstored d
  refine ⟨res, svc, hrun, hle, ?_⟩
  rcases hend with ⟨st, u, fired, rfl, hok⟩ | ⟨rfl, hlt⟩
  · exact .inr ⟨by simp, ha', st, u, fired, rfl, hok⟩
  · exact .inl ⟨rfl, hlt, ha', hstored'⟩

/-- The attempts of a create of `p` with its ancestors: each that does not lose its connection
creates `p` or finds it stored. -/
theorem create_attempts (hlive : b.Live i s) (hp : Path.IsValid p) (d : List UInt8) {m : Mode}
    (hm : m.sequential = false) :
    Attempts i (fun i _ => do createAncestors i p; onSession i (·.create · p d m)) b.connector
      (fun _ svc => svc.Admits p)
      (fun res svc => svc.Admits p ∧
        ((∃ (u : Tree) (fired : List Fired), res = .ok p ∧ u.create p d m s.id = .ok (p, svc.tree, fired)) ∨
          (res = .error (.nodeExists p) ∧ (lookup p svc.tree.nodes).isSome))) := by
  intro r b' hc ha
  have hlive' := hlive.of_connector hc
  obtain ⟨res₁, svc₁, hrun₁, ha₁, hle₁, hend₁⟩ := exec_createAncestors hlive' ha hp
  rw [exec_bind, hrun₁]
  rcases hend₁ with ⟨rfl, hpar⟩ | ⟨rfl, hlt₁⟩
  · dsimp only
    obtain ⟨res, svc, hrun, ha', hle, hend⟩ :=
      exec_create_admits (hlive'.withService svc₁) ha₁ hp (.inl rfl) hpar hm (.inr rfl)
    refine ⟨res, svc, by simpa using hrun, Nat.le_trans hle hle₁, ?_⟩
    rcases hend with ⟨u, fired, rfl, hok⟩ | ⟨rfl, hstored⟩ | ⟨rfl, hlt⟩
    · exact .inr ⟨by simp, ha', .inl ⟨u, fired, rfl, hok⟩⟩
    · exact .inr ⟨by simp, ha', .inr ⟨rfl, hstored⟩⟩
    · exact .inl ⟨rfl, Nat.lt_of_lt_of_le hlt hle₁, ha'⟩
  · exact ⟨_, svc₁, rfl, hle₁, .inl ⟨rfl, hlt₁, ha₁⟩⟩

/-- The data change that ends a write of a stored `p`, with a budget above the faults queued:
it returns the metadata of the data it leaves at `p`. -/
theorem exec_setData_stored (hlive : b.Live i s) (ha : b.service.Admits p)
    (hp : (lookup p b.service.tree.nodes).isSome) (hbudget : b.service.queued.length < b.budget)
    (d : List UInt8) :
    ∃ st b', (setData (pure i) p d).exec b = (.ok st, b') ∧ b'.connector = b.connector ∧
      b'.exhausted = b.exhausted ∧ b'.service.Admits p ∧
      ∃ (u : Tree) (fired : List Fired), u.setData p d none = .ok (st, b'.service.tree, fired) := by
  obtain ⟨res, b', hrun, ⟨ha', st, u, fired, rfl, hok⟩, hc, hex, -⟩ :=
    exec_retrying i _ b.connector _ _ (setData_attempts hlive p d) b rfl ⟨ha, hp⟩ hbudget
      (.inr fun _ h => h)
  exact ⟨st, b', hrun, hc, hex, ha', u, fired, hok⟩

end Phases

section Main

/-- A write of `p` that does not fail. On a live session, over a well-formed tree where no node
strictly above the well-formed path `p` is ephemeral, with every queued fault a lost connection
or other clients' creates and data changes, fewer faults than the retry budget, and a create mode
without sequence numbers: setting `p` to `d` or creating it with its ancestors returns, within
the retry budget; it leaves a well-formed tree where `p` holds `d` and every path at or above `p`
is stored. It returns none only when the last change was the session's own create of
`p` with `d`, and metadata only as returned by the session's last data change of `p`, which
left the tree. -/
theorem createOrSet_stores_data (b : Backend) (i : Nat) (s : Session) (hlive : b.Live i s)
    (hw : WellFormed b.service.tree.nodes) (p : String) (hp : Path.IsValid p)
    (hanc : ∀ q n, Path.Under q p → q ≠ p → lookup q b.service.tree.nodes = some n →
      n.stat.isEphemeral = false)
    (hs : b.service.Scripted (Fault.Within DirectChange.IsWrite))
    (hbudget : b.service.queued.length < b.budget) (d : List UInt8) (m : Mode)
    (hm : m.sequential = false) :
    ∃ r b', (createOrSetWithParents (pure i) p d m).exec b = (.ok r, b') ∧
      b'.exhausted = b.exhausted ∧ WellFormed b'.service.tree.nodes ∧
      (∃ n, lookup p b'.service.tree.nodes = some n ∧ n.data = d) ∧
      (∀ q, Path.Under q p → (lookup q b'.service.tree.nodes).isSome) ∧
      (r = none → ∃ (u : Tree) (fired : List Fired),
        u.create p d m s.id = .ok (p, b'.service.tree, fired)) ∧
      (∀ st, r = some st → ∃ (u : Tree) (fired : List Fired),
        u.setData p d none = .ok (st, b'.service.tree, fired)) := by
  have ha : b.service.Admits p :=
    ⟨hs, hw, fun a n habove hn => hanc a n habove.under habove.ne hn⟩
  -- first the probe of `p`
  obtain ⟨res₁, b₁, hrun₁, ⟨ha₁, rfl⟩, hc₁, hex₁, hq₁⟩ :=
    exec_retrying i _ b.connector _ _ (probe_attempts hlive hp) b rfl ha hbudget (.inr fun _ h => h)
  have hlive₁ : b₁.Live i s := hlive.of_connector hc₁
  simp only [createOrSetWithParents, Op.exists?]
  rw [exec_bind, hrun₁]
  dsimp only
  cases hl : lookup p b₁.service.tree.nodes with
  | some n =>
    -- `p` is stored: its data is replaced
    obtain ⟨st, b₂, hrun₂, -, hex₂, ha₂, u, fired, hok⟩ :=
      exec_setData_stored hlive₁ ha₁ (by simp [hl]) hq₁ d
    obtain ⟨n', hn', hd, -⟩ := setData_result hok
    simp only [Option.map_some, Option.isSome_some, ↓reduceIte]
    rw [exec_bind, hrun₂]
    refine ⟨some st, b₂, rfl, hex₂.trans hex₁, ha₂.openFor.wellFormed, ⟨n', hn', hd⟩,
      ha₂.stored_above hn', nofun, ?_⟩
    rintro st' ⟨⟩
    exact ⟨u, fired, hok⟩
  | none =>
    -- `p` is missing: it is created with its ancestors, or found made meanwhile
    obtain ⟨res₂, b₂, hrun₂, ⟨ha₂, hpost⟩, hc₂, hex₂, hq₂⟩ :=
      exec_retrying i _ b.connector _ _ (create_attempts hlive hp d hm) b₁ hc₁ ha₁ hq₁
        (.inr fun _ h => h)
    simp only [Option.map_none, Option.isSome_none, Bool.false_eq_true, ↓reduceIte]
    rw [exec_bind, exec_tryCatch, exec_map, hrun₂]
    rcases hpost with ⟨u, fired, rfl, hok⟩ | ⟨rfl, hstored⟩
    · -- the session's own create made `p`
      have hn' := (create_result hok).2
      refine ⟨none, b₂, rfl, hex₂.trans hex₁, ha₂.openFor.wellFormed, ⟨_, hn', rfl⟩,
        ha₂.stored_above hn', fun _ => ⟨u, fired, hok⟩, nofun⟩
    · obtain ⟨st, b₃, hrun₃, -, hex₃, ha₃, u, fired, hok⟩ :=
        exec_setData_stored (hlive.of_connector hc₂) ha₂ hstored hq₂ d
      obtain ⟨n', hn', hd, -⟩ := setData_result hok
      simp only [Except.map, exec_pure]
      rw [exec_map, hrun₃]
      refine ⟨some st, b₃, rfl, hex₃.trans (hex₂.trans hex₁), ha₃.openFor.wellFormed, ⟨n', hn', hd⟩,
        ha₃.stored_above hn', nofun, ?_⟩
      rintro st' ⟨⟩
      exact ⟨u, fired, hok⟩

/-- The session creates the missing `/a` and loses the reply; on the retry another client makes
`/a/b` just before the session's create, and the call replaces that node's data, losing one more
connection on the way. -/
theorem createOrSet_after_rival_create :
    let b : Backend :=
      { service := ((({} : Service).inject .create .loseAfterCommit).inject .create
            (.interleave [.create "/a/b" [1] Mode.persistent])).inject .setData .loseBeforeCommit,
        connector := { automatic := true, sessions := [⟨1, 0, .connected⟩] }, budget := 10 }
    let r := (createOrSetWithParents (pure 0) "/a/b" [7] Mode.persistent).exec b
    (lookup "/a/b" r.2.service.tree.nodes).map (·.data) = some [7] ∧
      (lookup "/a" r.2.service.tree.nodes).isSome := by
  intro b r
  have hs : b.service.Scripted (Fault.Within DirectChange.IsWrite) := by
    simp [b, Service.Scripted, Service.queued, Service.inject, Fault.Within, DirectChange.IsWrite]
  have hanc : ∀ q n, Path.Under q "/a/b" → q ≠ "/a/b" → lookup q b.service.tree.nodes = some n →
      n.stat.isEphemeral = false := by
    intro q n _ _ hn
    obtain ⟨-, rfl⟩ := lookup_empty hn
    rfl
  obtain ⟨res, b', hrun, -, -, ⟨n, hn, hd⟩, hup, -, -⟩ :=
    createOrSet_stores_data b 0 ⟨1, 0, .connected⟩ ⟨rfl, rfl⟩ wellFormed_empty "/a/b" (by decide)
      hanc hs (by decide) [7] .persistent rfl
  have hr : r.2 = b' := by simp [r, hrun]
  rw [hr]
  exact ⟨by simp [hn, hd], hup "/a" (.child (by decide) .refl)⟩

/-- In that run two connections are lost, and the call answers with the metadata of its own data
change over the other client's node. -/
example :
    let b : Backend :=
      { service := ((({} : Service).inject .create .loseAfterCommit).inject .create
            (.interleave [.create "/a/b" [1] Mode.persistent])).inject .setData .loseBeforeCommit,
        connector := { automatic := true, sessions := [⟨1, 0, .connected⟩] }, budget := 10 }
    let r := (createOrSetWithParents (pure 0) "/a/b" [7] Mode.persistent).exec b
    r.2.retries = 2 ∧ (match r.1 with | .ok (some st) => decide (st.version = 1) | _ => false) = true := by
  decide +kernel

end Main

end Op

end Coordination
