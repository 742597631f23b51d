import Coordination.Proofs.CreateOrSet
import Coordination.Proofs.Preorder

/-!
Creating a node with its missing ancestors under lost connections, with no other writer. An
attempt climbs from the parent of `p` to the nearest stored ancestor, creates the ancestors it
found missing from the top down as empty persistent nodes, then creates `p`; a retry first probes
`p` and returns when it is stored. Every step leaves the tree an extension toward `p` of the tree
the call started from (`Tree.Extends`): the nodes it held keep their data and metadata but for
the counts of their children, and every node added lies strictly above `p`, empty and
persistent. A lost connection leaves such an extension too, so a retry only finishes the chain
(`exec_createAncestors_losses`).

For a well-formed `p` missing from a well-formed tree whose nearest stored ancestor belongs to no
session, the call returns `p` and leaves an extension with `p` created in it
(`createWithParents_builds_chain`). Neither the climb nor the creates of the ancestors look at
`p` itself: for a `p` that is not well formed but whose parent is, the missing ancestors are
created before the create of `p` is refused, so the call fails with the tree changed. Below a
stored node that belongs to a session nothing can be added (`Tree.Settled`): the call is then
refused with the tree as it was.
-/

namespace Coordination

namespace Tree

variable {t u : Tree} {p x : String}

/-- `u` is `t` with nodes added on the way to `p`: the nodes of `t` keep their data and metadata
but for the counts of their children, every node added lies strictly above `p`, empty and
persistent, and no node strictly above `p` belongs to a session. -/
structure Extends (t : Tree) (p : String) (u : Tree) : Prop where
  openFor : u.OpenFor p
  kept : ∀ k n, lookup k t.nodes = some n → ∃ n', lookup k u.nodes = some n' ∧ n'.data = n.data ∧
    n'.stat = { n.stat with cversion := n'.stat.cversion, numChildren := n'.stat.numChildren }
  added : ∀ k n', lookup k u.nodes = some n' → lookup k t.nodes = none →
    Path.Above p k ∧ n'.data = [] ∧ n'.stat.ephemeralOwner = 0

/-- `u` is an extension of `t` toward `p` with `p` then created in it, holding `d` in mode `m`
for session `o`. -/
def Builds (t : Tree) (p : String) (d : List UInt8) (m : Mode) (o : Nat) (u : Tree) : Prop :=
  ∃ v fired, t.Extends p v ∧ v.create p d m o = .ok (p, u, fired)

theorem Extends.refl (h : t.OpenFor p) : t.Extends p t where
  openFor := h
  kept _ n hn := ⟨n, hn, rfl, rfl⟩
  added _ _ hn hnone := by simp [hn] at hnone

theorem Extends.lookup_self (he : t.Extends p u) (hp : lookup p t.nodes = none) :
    lookup p u.nodes = none := by
  cases hu : lookup p u.nodes with
  | none => rfl
  | some n' => exact ((he.added p n' hu hp).1.ne rfl).elim

/-- A create that succeeds changes no stored node but the parent, which keeps its data and
metadata but for the counts of its children. -/
theorem create_keeps {d : List UInt8} {m : Mode} {o : Nat} {r : String × Tree × List Fired}
    (h : t.create x d m o = .ok r) {k : String} {n : TreeNode} (hk : lookup k t.nodes = some n) :
    ∃ n', lookup k r.2.1.nodes = some n' ∧ n'.data = n.data ∧
      n'.stat = { n.stat with cversion := n'.stat.cversion, numChildren := n'.stat.numChildren } := by
  obtain ⟨q, par, -, hpar, -, -, -, -, hfree, hr, -⟩ := create_ok_spec h
  rw [hr]
  -- a stored node is not the one created; of the stored ones only the parent's record changes
  have hkx : k ≠ r.1 := by
    rintro rfl
    rw [hk] at hfree
    cases hfree
  by_cases hkq : k = q
  · subst hkq
    rw [hpar] at hk
    cases hk
    simp [lookup_update_append hfree]
  · exact ⟨n, by simp [lookup_update_append hfree, hkq, hkx, hk], rfl, rfl⟩

theorem Extends.create (he : t.Extends p u) {o : Nat} {r : String × Tree × List Fired}
    (h : u.create x [] Mode.persistent o = .ok r) (habove : Path.Above p r.1) :
    t.Extends p r.2.1 where
  openFor := he.openFor.create h (.inl rfl)
  kept k n hk := by
    obtain ⟨n₁, hn₁, hd₁, hs₁⟩ := he.kept k n hk
    obtain ⟨n', hn', hd', hs'⟩ := create_keeps h hn₁
    exact ⟨n', hn', hd'.trans hd₁, by rw [hs', hs₁]⟩
  added k n' hk hnone := by
    by_cases hkr : k = r.1
    · -- the node just created
      subst hkr
      rw [(create_result h).2] at hk
      cases hk
      exact ⟨habove, rfl, rfl⟩
    · -- a node added by an earlier step
      obtain ⟨n₁, hn₁⟩ := Option.isSome_iff_exists.mp
        (((Op.lookup_created h k).mp (by simp [hk])).resolve_left hkr)
      obtain ⟨habove', hd₁, ho₁⟩ := he.added k n₁ hn₁ hnone
      obtain ⟨n'', hn'', hd'', hs''⟩ := create_keeps h hn₁
      rw [hk] at hn''
      cases hn''
      refine ⟨habove', hd''.trans hd₁, ?_⟩
      rw [hs'']
      exact ho₁

/-- Whatever a create of an empty persistent node strictly above `p` does, the tree stays an
extension toward `p`. -/
theorem Extends.after_create (he : t.Extends p u) {o : Nat} (habove : Path.Above p x) :
    t.Extends p (after (·.create x [] Mode.persistent o) u) := by
  cases h : u.create x [] Mode.persistent o with
  | ok r =>
    obtain ⟨a, u', fired⟩ := r
    rw [after_of_ok h]
    have hx : a = x := (create_result h).1 rfl
    subst hx
    exact he.create h habove
  | error e =>
    rw [after_of_error h]
    exact he

theorem Builds.node {d : List UInt8} {m : Mode} {o : Nat} (hb : t.Builds p d m o u) :
    ∃ n, lookup p u.nodes = some n ∧ n.data = d ∧
      n.stat.ephemeralOwner = if m.ephemeral then o else 0 := by
  obtain ⟨v, fired, -, hok⟩ := hb
  exact ⟨_, (create_result hok).2, rfl, rfl⟩

theorem Builds.stored_above {d : List UInt8} {m : Mode} {o : Nat} (hb : t.Builds p d m o u) :
    ∀ q, Path.Under q p → (lookup q u.nodes).isSome := by
  obtain ⟨v, fired, he, hok⟩ := hb
  intro q hq
  exact stored_of_under (create_wellFormed he.openFor.wellFormed hok) hq
    (by simp [(create_result hok).2])

/-- The stored node nearest to `p` strictly above it belongs to no session. -/
def NearestOpen (t : Tree) (p : String) : Prop :=
  ∀ a n, Path.Above p a → lookup a t.nodes = some n →
    (∀ c, Path.Above p c → Path.Under a c → c ≠ a → lookup c t.nodes = none) →
    n.stat.isEphemeral = false

/-- A stored node that belongs to a session is a leaf, so no stored node lies strictly under
it. -/
theorem eq_of_under_ephemeral (hw : WellFormed t.nodes) {a y : String} {na : TreeNode}
    (ha : lookup a t.nodes = some na) (heph : na.stat.isEphemeral = true) (hu : Path.Under a y)
    (hy : (lookup y t.nodes).isSome) : y = a := by
  by_contra hne
  obtain ⟨k, hk, -⟩ := exists_kid_under hw hy hu hne
  have hleaf := hw.leaf a na ha (by simpa [Stat.isEphemeral] using heph)
  simp [kidsOf_of_lookup ha, hleaf] at hk

/-- In a well-formed tree an ephemeral node has no children, so of the stored nodes strictly
above `p` only the one nearest to `p` can belong to a session. -/
theorem openFor_of_nearest (hw : WellFormed t.nodes) (hnear : t.NearestOpen p) : t.OpenFor p where
  wellFormed := hw
  above a n ha hn := by
    by_cases hbetween : ∃ c, Path.Above p c ∧ Path.Under a c ∧ c ≠ a ∧ (lookup c t.nodes).isSome
    · -- a stored node below `a` makes `a` a parent, and parents belong to no session
      obtain ⟨c, -, hac, hca, hc⟩ := hbetween
      cases heph : n.stat.isEphemeral
      · rfl
      · exact absurd (eq_of_under_ephemeral hw hn heph hac hc) hca
    · refine hnear a n ha hn fun c hc hac hca => ?_
      cases hl : lookup c t.nodes with
      | none => rfl
      | some _ => exact absurd ⟨c, hc, hac, hca, by simp [hl]⟩ hbetween

/-- No create can add `y`: whenever its parent is stored and belongs to no session, `y` is
stored already. -/
def Settled (t : Tree) (y : String) : Prop :=
  ∀ c par, Path.parent y = some c → lookup c t.nodes = some par → par.stat.isEphemeral = false →
    (lookup y t.nodes).isSome

/-- Under a stored node `a` that belongs to a session nothing can be added on the way up from a
path `x` below `a`: every path at or above `x` is settled. -/
theorem settled_of_ephemeral (hw : WellFormed t.nodes) {a x y : String} {na : TreeNode}
    (ha : lookup a t.nodes = some na) (heph : na.stat.isEphemeral = true) (hax : Path.Under a x)
    (hyx : Path.Under y x) : t.Settled y := by
  intro c par hc hpar hopen
  have hca : c ≠ a := by
    rintro rfl
    rw [ha] at hpar
    cases hpar
    simp [heph] at hopen
  rcases Path.Under.total hyx hax with hya | hay
  · -- `y` lies at or above the stored `a`
    exact stored_of_under hw hya (by simp [ha])
  · by_cases hya : y = a
    · simp [hya, ha]
    · -- `y` strictly under `a` would put its stored parent under `a` too
      obtain ⟨c', hc', hac⟩ := hay.parent_of_ne hya
      rw [hc] at hc'
      cases hc'
      exact absurd (eq_of_under_ephemeral hw ha heph hac (by simp [hpar])) hca

end Tree

namespace Op

open Coordination.Tree

variable {b : Backend} {i : Nat} {s : Session} {t : Tree} {p q x : String}

section Steps

theorem exists?_of_defect {u : Tree} {dx : Path.Defect} (hd : Path.defect? x = some dx) :
    u.exists? x = .error (.invalidPath x dx.reason) := by
  simp [Tree.exists?, Path.validate, hd, bind, Except.bind]

theorem create_of_defect {u : Tree} {dx : Path.Defect} (hd : Path.defect? x = some dx)
    {d : List UInt8} {m : Mode} {o : Nat} : u.create x d m o = .error (.invalidPath x dx.reason) := by
  simp [Tree.create, Path.validate, hd, bind, Except.bind]

/-- A create on a live session under lost connections: it ends as the create on the tree it
finds, leaving the tree that create leaves, or loses its connection having made the create or
not. -/
theorem exec_create_losses (hlive : b.Live i s) (hs : b.service.Scripted Fault.IsLoss)
    (x : String) (d : List UInt8) (m : Mode) :
    ∃ res svc, (onSession i (·.create · x d m)).exec b = (res, { b with service := svc }) ∧
      svc.Scripted Fault.IsLoss ∧ svc.queued.length ≤ b.service.queued.length ∧
      ((res = (b.service.tree.create x d m s.id).map (·.1) ∧
          svc.tree = after (·.create x d m s.id) b.service.tree) ∨
        (res = .error .connectionLoss ∧ svc.queued.length < b.service.queued.length ∧
          (svc.tree = b.service.tree ∨ svc.tree = after (·.create x d m s.id) b.service.tree))) := by
  rw [exec_onSession hlive.found]
  simp only [Session.create, Session.run_of_connected hlive.connected]
  exact ⟨_, _, rfl, hs.apply _ _, (Service.apply_queued _ _).2, Service.apply_losses hs _ _⟩

/-- A create of a path that is not well formed, on a live session under lost connections: it is
refused, or loses its connection, and leaves the tree. -/
theorem exec_create_defect_losses (hlive : b.Live i s) (hs : b.service.Scripted Fault.IsLoss)
    {dx : Path.Defect} (hd : Path.defect? x = some dx) (d : List UInt8) (m : Mode) :
    ∃ res svc, (onSession i (·.create · x d m)).exec b = (res, { b with service := svc }) ∧
      svc.Scripted Fault.IsLoss ∧ svc.tree = b.service.tree ∧
      svc.queued.length ≤ b.service.queued.length ∧
      (res = .error (.invalidPath x dx.reason) ∨
        (res = .error .connectionLoss ∧ svc.queued.length < b.service.queued.length)) := by
  obtain ⟨res, svc, hrun, hs', hle, hend⟩ := exec_create_losses hlive hs x d m
  have hkeep : after (·.create x d m s.id) b.service.tree = b.service.tree :=
    after_of_error (create_of_defect hd)
  refine ⟨res, svc, hrun, hs', ?_, hle, ?_⟩
  · rcases hend with ⟨-, htree⟩ | ⟨-, -, htree | htree⟩
    · rw [htree, hkeep]
    · exact htree
    · rw [htree, hkeep]
  · rcases hend with ⟨hres, -⟩ | ⟨hres, hlt, -⟩
    · exact .inl (by rw [hres, create_of_defect hd]; rfl)
    · exact .inr ⟨hres, hlt⟩

/-- Creating a missing ancestor strictly above `p` whose parent is stored, under lost
connections: the tree stays an extension toward `p`, and the ancestor is stored after it, or the
connection is lost. -/
theorem exec_createMissing_losses (hlive : b.Live i s) (hs : b.service.Scripted Fault.IsLoss)
    (he : t.Extends p b.service.tree) (hx : Path.IsValid x) (habove : Path.Above p x)
    (hpar : ∀ c, Path.parent x = some c → (lookup c b.service.tree.nodes).isSome) :
    ∃ res svc, (createMissing i x).exec b = (res, { b with service := svc }) ∧
      svc.Scripted Fault.IsLoss ∧ t.Extends p svc.tree ∧
      svc.queued.length ≤ b.service.queued.length ∧
      ((res = .ok () ∧ (lookup x svc.tree.nodes).isSome) ∨
        (res = .error .connectionLoss ∧ svc.queued.length < b.service.queued.length)) := by
  obtain ⟨res₁, svc₁, hrun₁, hs₁, hle₁, hend₁⟩ := exec_create_losses hlive hs x [] Mode.persistent
  have hafter := he.after_create habove (o := s.id)
  unfold createMissing
  rw [exec_tryCatch, Functor.discard, LawfulFunctor.map_const, Function.comp_apply, exec_map, hrun₁]
  rcases hend₁ with ⟨rfl, htree⟩ | ⟨rfl, hlt, htree⟩
  · rw [← htree] at hafter
    -- the parent is stored and belongs to no session: the create makes `x` or finds it stored
    have hparent : ∀ c, Path.parent x = some c →
        ∃ par, lookup c b.service.tree.nodes = some par ∧ par.stat.isEphemeral = false := by
      intro c hc
      obtain ⟨par, hpar'⟩ := Option.isSome_iff_exists.mp (hpar c hc)
      exact ⟨par, hpar', he.openFor.above c par (habove.parent hc) hpar'⟩
    rcases create_cases he.openFor.wellFormed hx hparent rfl (d := []) (m := Mode.persistent)
        (o := s.id) with
      ⟨u', fired, hok⟩ | ⟨hstored, herr⟩
    · refine ⟨_, svc₁, by simp [hok, Except.map], hs₁, hafter, hle₁, .inl ⟨rfl, ?_⟩⟩
      rw [htree, after_of_ok hok]
      simp [(create_result hok).2]
    · refine ⟨_, svc₁, by simp [herr, Except.map], hs₁, hafter, hle₁, .inl ⟨rfl, ?_⟩⟩
      rw [htree, after_of_error herr]
      exact hstored
  · refine ⟨_, svc₁, rfl, hs₁, ?_, hle₁, .inr ⟨rfl, hlt⟩⟩
    rcases htree with htree | htree <;> rw [htree]
    · exact he
    · exact hafter

/-- Creating the missing ancestors of `a` from the top down under lost connections: the tree
stays an extension toward `p`, and `a` is stored after it, or the connection is lost. -/
theorem exec_createMissingAll_losses (ms : List String) :
    ∀ (a : String) (b : Backend), b.Live i s → b.service.Scripted Fault.IsLoss →
      t.Extends p b.service.tree → Path.IsValid a → Path.Above p a → Missing b.service.tree a ms →
      ∃ res svc, (ms.foldrM (fun x _ => createMissing i x) PUnit.unit).exec b =
          (res, { b with service := svc }) ∧
        svc.Scripted Fault.IsLoss ∧ t.Extends p svc.tree ∧
        svc.queued.length ≤ b.service.queued.length ∧
        ((res = .ok () ∧ (lookup a svc.tree.nodes).isSome) ∨
          (res = .error .connectionLoss ∧ svc.queued.length < b.service.queued.length)) := by
  induction ms with
  | nil =>
    intro a b _ hs he _ _ hmiss
    exact ⟨.ok (), b.service, rfl, hs, he, Nat.le_refl _, .inl ⟨rfl, hmiss⟩⟩
  | cons x rest ih =>
    intro a b hlive hs he hv habove hmiss
    obtain ⟨rfl, c, hc, hrest⟩ := hmiss
    rw [List.foldrM_cons, exec_bind]
    -- the ancestors above come first; then the parent of `x` is stored
    obtain ⟨res₁, svc₁, hrun₁, hs₁, he₁, hle₁, hend₁⟩ :=
      ih c b hlive hs he (Path.isValid_parent hv hc) (habove.parent hc) hrest
    rw [hrun₁]
    rcases hend₁ with ⟨rfl, hstored⟩ | ⟨rfl, hlt₁⟩
    · have hpar : ∀ c', Path.parent x = some c' → (lookup c' svc₁.tree.nodes).isSome := by
        intro c' hc'
        rw [hc] at hc'
        cases hc'
        exact hstored
      obtain ⟨res, svc, hrun, hs', he', hle, hend⟩ :=
        exec_createMissing_losses (hlive.withService svc₁) hs₁ he₁ hv habove hpar
      refine ⟨res, svc, by simpa using hrun, hs', he', Nat.le_trans hle hle₁, ?_⟩
      rcases hend with h | ⟨hres, hlt⟩
      · exact .inl h
      · exact .inr ⟨hres, Nat.lt_of_lt_of_le hlt hle₁⟩
    · exact ⟨_, svc₁, rfl, hs₁, he₁, hle₁, .inr ⟨rfl, hlt₁⟩⟩

/-- The climb from a well-formed path `a` under lost connections, with fuel above its length:
it leaves the tree, and lists the ancestors of `a` missing from it, or loses its connection. -/
theorem exec_missingAncestors_losses (hw : WellFormed t.nodes) (fuel : Nat) :
    ∀ (a : String) (b : Backend), b.Live i s → b.service.Scripted Fault.IsLoss →
      b.service.tree = t → Path.IsValid a → a.length < fuel →
      ∃ res svc, (missingAncestors i fuel (some a)).exec b = (res, { b with service := svc }) ∧
        svc.Scripted Fault.IsLoss ∧ svc.tree = t ∧ svc.queued.length ≤ b.service.queued.length ∧
        ((∃ ms, res = .ok ms ∧ Missing t a ms) ∨
          (res = .error .connectionLoss ∧ svc.queued.length < b.service.queued.length)) := by
  induction fuel with
  | zero =>
    intro a b _ _ _ _ hlen
    omega
  | succ fuel ih =>
    intro a b hlive hs ht hv hlen
    simp only [missingAncestors]
    by_cases hroot : a = "/"
    · -- the root is always stored
      subst hroot
      obtain ⟨n, hn, -⟩ := hw.root
      exact ⟨.ok [], b.service, by simp, hs, ht, Nat.le_refl _, .inl ⟨[], rfl, by simp [Missing, hn]⟩⟩
    · obtain ⟨res₁, svc₁, hrun₁, hs₁, ht₁, hend₁⟩ := exec_probe hlive hs hv
      rw [ht] at hend₁ ht₁
      rw [if_neg hroot, exec_bind, hrun₁]
      rcases hend₁ with ⟨rfl, hle₁⟩ | ⟨rfl, hlt₁⟩
      · dsimp only
        cases hl : lookup a t.nodes with
        | some n =>
          exact ⟨.ok [], svc₁, by simp, hs₁, ht₁, hle₁, .inl ⟨[], rfl, by simp [Missing, hl]⟩⟩
        | none =>
          -- a missing path other than the root: climb on from its parent
          obtain ⟨c, hc⟩ := Path.parent_of_isValid hv hroot
          have hlenc : c.length < fuel := by
            have := Path.length_lt_of_parent hc
            simp only [String.length_toList] at this
            omega
          obtain ⟨res, svc, hrun, hs', ht', hle, hend⟩ := ih c { b with service := svc₁ }
            (hlive.withService svc₁) hs₁ ht₁ (Path.isValid_parent hv hc) hlenc
          simp only [Option.map_none, Option.isSome_none, Bool.false_eq_true, ↓reduceIte]
          rw [hc, exec_bind, hrun]
          rcases hend with ⟨ms, rfl, hms⟩ | ⟨rfl, hlt⟩
          · exact ⟨_, svc, rfl, hs', ht', Nat.le_trans hle hle₁, .inl ⟨a :: ms, rfl, rfl, c, hc, hms⟩⟩
          · exact ⟨_, svc, rfl, hs', ht', Nat.le_trans hle hle₁,
              .inr ⟨rfl, Nat.lt_of_lt_of_le hlt hle₁⟩⟩
      · exact ⟨_, svc₁, rfl, hs₁, ht₁, Nat.le_of_lt hlt₁, .inr ⟨rfl, hlt₁⟩⟩

/-- Creating the missing ancestors of `p`, whose parent `q` is a well-formed path, under lost
connections: the tree stays an extension toward `p`, and `q` is stored after it, or the
connection is lost. Nothing here looks at `p` itself. -/
theorem exec_createAncestors_losses (hlive : b.Live i s) (hs : b.service.Scripted Fault.IsLoss)
    (he : t.Extends p b.service.tree) (hq : Path.parent p = some q) (hv : Path.IsValid q) :
    ∃ res svc, (createAncestors i p).exec b = (res, { b with service := svc }) ∧
      svc.Scripted Fault.IsLoss ∧ t.Extends p svc.tree ∧
      svc.queued.length ≤ b.service.queued.length ∧
      ((res = .ok () ∧ (lookup q svc.tree.nodes).isSome) ∨
        (res = .error .connectionLoss ∧ svc.queued.length < b.service.queued.length)) := by
  have hlen : q.length < p.length + 1 := by
    have := Path.length_lt_of_parent hq
    simp only [String.length_toList] at this
    omega
  obtain ⟨res₁, svc₁, hrun₁, hs₁, ht₁, hle₁, hend₁⟩ :=
    exec_missingAncestors_losses he.openFor.wellFormed _ q b hlive hs rfl hv hlen
  have he₁ : t.Extends p svc₁.tree := by rw [ht₁]; exact he
  rw [createAncestors_eq, exec_bind, hq, hrun₁]
  rcases hend₁ with ⟨ms, rfl, hms⟩ | ⟨rfl, hlt₁⟩
  · dsimp only
    rw [forIn_reverse_eq_foldrM]
    obtain ⟨res, svc, hrun, hs', he', hle, hend⟩ := exec_createMissingAll_losses ms q _
      (hlive.withService svc₁) hs₁ he₁ hv (Path.above_parent hq) (by rw [ht₁]; exact hms)
    refine ⟨res, svc, by simpa using hrun, hs', he', Nat.le_trans hle hle₁, ?_⟩
    rcases hend with h | ⟨hres, hlt⟩
    · exact .inl h
    · exact .inr ⟨hres, Nat.lt_of_lt_of_le hlt hle₁⟩
  · exact ⟨_, svc₁, rfl, hs₁, he₁, hle₁, .inr ⟨rfl, hlt₁⟩⟩

/-- Creating the ancestors of `p` when its parent `q` is not a well-formed path: the climb's
first probe is refused, or loses its connection, and the tree stays. -/
theorem exec_createAncestors_refused (hlive : b.Live i s) (hs : b.service.Scripted Fault.IsLoss)
    (hq : Path.parent p = some q) {dq : Path.Defect} (hd : Path.defect? q = some dq) :
    ∃ res svc, (createAncestors i p).exec b = (res, { b with service := svc }) ∧
      svc.Scripted Fault.IsLoss ∧ svc.tree = b.service.tree ∧
      svc.queued.length ≤ b.service.queued.length ∧
      (res = .error (.invalidPath q dq.reason) ∨
        (res = .error .connectionLoss ∧ svc.queued.length < b.service.queued.length)) := by
  have hroot : q ≠ "/" := by
    rintro rfl
    rw [Path.isValid_root] at hd
    cases hd
  obtain ⟨res₁, svc₁, hrun₁, hs₁, ht₁, hend₁⟩ := exec_exists hlive hs q
  rw [createAncestors_eq, exec_bind, hq]
  simp only [missingAncestors, if_neg hroot]
  rw [exec_bind, hrun₁]
  rcases hend₁ with ⟨rfl, hle₁⟩ | ⟨rfl, hlt₁⟩
  · rw [exists?_of_defect hd]
    exact ⟨_, svc₁, rfl, hs₁, ht₁, hle₁, .inl rfl⟩
  · exact ⟨_, svc₁, rfl, hs₁, ht₁, Nat.le_of_lt hlt₁, .inr ⟨rfl, hlt₁⟩⟩

/-- Creating a missing ancestor `x` that no create can add, under a stored parent, under lost
connections: it finds `x` stored, is refused under a parent that belongs to a session, or loses
its connection; the tree stays. -/
theorem exec_createMissing_settled (hlive : b.Live i s) (hs : b.service.Scripted Fault.IsLoss)
    (hw : WellFormed b.service.tree.nodes) (hset : b.service.tree.Settled x) (hx : Path.IsValid x)
    {c : String} {par : TreeNode} (hc : Path.parent x = some c)
    (hpar : lookup c b.service.tree.nodes = some par) :
    ∃ res svc, (createMissing i x).exec b = (res, { b with service := svc }) ∧
      svc.Scripted Fault.IsLoss ∧ svc.tree = b.service.tree ∧
      svc.queued.length ≤ b.service.queued.length ∧
      ((res = .ok () ∧ (lookup x b.service.tree.nodes).isSome) ∨
        res = .error (.noChildrenForEphemerals x) ∨
        (res = .error .connectionLoss ∧ svc.queued.length < b.service.queued.length)) := by
  -- the create of `x` is refused whatever it finds, so it changes nothing
  obtain ⟨e, hcreate, he⟩ : ∃ e, b.service.tree.create x [] Mode.persistent s.id = .error e ∧
      ((e = .nodeExists x ∧ (lookup x b.service.tree.nodes).isSome) ∨
        e = .noChildrenForEphemerals x) := by
    cases heph : par.stat.isEphemeral
    · have hstored := hset c par hc hpar heph
      exact ⟨_, Op.create_stored hw rfl hstored, .inl ⟨rfl, hstored⟩⟩
    · refine ⟨_, ?_, .inr rfl⟩
      simp [Tree.create, validate_of_isValid hx, hc, hpar, heph, bind, Except.bind, throw,
        throwThe, MonadExcept.throw]
  have hkeep : after (·.create x [] Mode.persistent s.id) b.service.tree = b.service.tree :=
    after_of_error hcreate
  obtain ⟨res₁, svc₁, hrun₁, hs₁, hle₁, hend₁⟩ := exec_create_losses hlive hs x [] Mode.persistent
  unfold createMissing
  rw [exec_tryCatch, Functor.discard, LawfulFunctor.map_const, Function.comp_apply, exec_map, hrun₁]
  rcases hend₁ with ⟨rfl, htree⟩ | ⟨rfl, hlt, htree⟩
  · rw [hkeep] at htree
    rcases he with ⟨rfl, hstored⟩ | rfl
    · exact ⟨_, svc₁, by simp [hcreate, Except.map], hs₁, htree, hle₁, .inl ⟨rfl, hstored⟩⟩
    · exact ⟨_, svc₁, by simp [hcreate, Except.map], hs₁, htree, hle₁, .inr (.inl rfl)⟩
  · refine ⟨_, svc₁, rfl, hs₁, ?_, hle₁, .inr (.inr ⟨rfl, hlt⟩)⟩
    rcases htree with htree | htree
    · exact htree
    · rw [htree, hkeep]

/-- Creating the missing ancestors of `x` from the top down when nothing at or above `x` can be
added, under lost connections: each create finds its path stored, until one is refused under a
parent that belongs to a session or loses its connection; the tree stays. -/
theorem exec_createMissingAll_settled (hlive : b.Live i s) (hs : b.service.Scripted Fault.IsLoss)
    (hw : WellFormed b.service.tree.nodes) (ms : List String) :
    ∀ x, (∀ y, Path.Under y x → b.service.tree.Settled y) → Path.IsValid x →
      Missing b.service.tree x ms →
      ∃ res svc, (ms.foldrM (fun x _ => createMissing i x) PUnit.unit).exec b =
          (res, { b with service := svc }) ∧
        svc.Scripted Fault.IsLoss ∧ svc.tree = b.service.tree ∧
        svc.queued.length ≤ b.service.queued.length ∧
        ((res = .ok () ∧ (lookup x b.service.tree.nodes).isSome) ∨
          (∃ y, res = .error (.noChildrenForEphemerals y)) ∨
          (res = .error .connectionLoss ∧ svc.queued.length < b.service.queued.length)) := by
  induction ms with
  | nil =>
    intro x _ _ hmiss
    exact ⟨.ok (), b.service, rfl, hs, rfl, Nat.le_refl _, .inl ⟨rfl, hmiss⟩⟩
  | cons x rest ih =>
    intro a hset hv hmiss
    obtain ⟨rfl, c, hc, hrest⟩ := hmiss
    rw [List.foldrM_cons, exec_bind]
    -- the ancestors above come first; then the parent of `x` is stored
    obtain ⟨res₁, svc₁, hrun₁, hs₁, ht₁, hle₁, hend₁⟩ :=
      ih c (fun y hy => hset y (hy.trans (.child hc .refl))) (Path.isValid_parent hv hc) hrest
    rw [hrun₁]
    rcases hend₁ with ⟨rfl, hstored⟩ | ⟨y, rfl⟩ | ⟨rfl, hlt₁⟩
    · obtain ⟨par, hpar⟩ := Option.isSome_iff_exists.mp hstored
      obtain ⟨res, svc, hrun, hs', ht', hle, hend⟩ :=
        exec_createMissing_settled (hlive.withService svc₁) hs₁ (by rw [ht₁]; exact hw)
          (by rw [ht₁]; exact hset x .refl) hv hc (by rw [ht₁]; exact hpar)
      refine ⟨res, svc, by simpa using hrun, hs', ht'.trans ht₁, Nat.le_trans hle hle₁, ?_⟩
      rcases hend with ⟨hres, hx⟩ | hres | ⟨hres, hlt⟩
      · exact .inl ⟨hres, by rw [← ht₁]; exact hx⟩
      · exact .inr (.inl ⟨x, hres⟩)
      · exact .inr (.inr ⟨hres, Nat.lt_of_lt_of_le hlt hle₁⟩)
    · exact ⟨_, svc₁, rfl, hs₁, ht₁, hle₁, .inr (.inl ⟨y, rfl⟩)⟩
    · exact ⟨_, svc₁, rfl, hs₁, ht₁, hle₁, .inr (.inr ⟨rfl, hlt₁⟩)⟩

/-- Creating the ancestors of `p`, whose parent `q` is a well-formed path, when nothing at or
above `q` can be added, under lost connections: the tree stays, and `q` is found stored, or a
create is refused under a parent that belongs to a session, or the connection is lost. -/
theorem exec_createAncestors_settled (hlive : b.Live i s) (hs : b.service.Scripted Fault.IsLoss)
    (hw : WellFormed b.service.tree.nodes) (hq : Path.parent p = some q) (hv : Path.IsValid q)
    (hset : ∀ y, Path.Under y q → b.service.tree.Settled y) :
    ∃ res svc, (createAncestors i p).exec b = (res, { b with service := svc }) ∧
      svc.Scripted Fault.IsLoss ∧ svc.tree = b.service.tree ∧
      svc.queued.length ≤ b.service.queued.length ∧
      ((res = .ok () ∧ (lookup q b.service.tree.nodes).isSome) ∨
        (∃ y, res = .error (.noChildrenForEphemerals y)) ∨
        (res = .error .connectionLoss ∧ svc.queued.length < b.service.queued.length)) := by
  have hlen : q.length < p.length + 1 := by
    have := Path.length_lt_of_parent hq
    simp only [String.length_toList] at this
    omega
  obtain ⟨res₁, svc₁, hrun₁, hs₁, ht₁, hle₁, hend₁⟩ :=
    exec_missingAncestors_losses hw _ q b hlive hs rfl hv hlen
  rw [createAncestors_eq, exec_bind, hq, hrun₁]
  rcases hend₁ with ⟨ms, rfl, hms⟩ | ⟨rfl, hlt₁⟩
  · dsimp only
    rw [forIn_reverse_eq_foldrM]
    obtain ⟨res, svc, hrun, hs', ht', hle, hend⟩ :=
      exec_createMissingAll_settled (hlive.withService svc₁) hs₁ (by rw [ht₁]; exact hw) ms q
        (by rw [ht₁]; exact hset) hv (by rw [ht₁]; exact hms)
    refine ⟨res, svc, by simpa using hrun, hs', ht'.trans ht₁, Nat.le_trans hle hle₁, ?_⟩
    rcases hend with ⟨hres, hstored⟩ | h | ⟨hres, hlt⟩
    · exact .inl ⟨hres, by rw [← ht₁]; exact hstored⟩
    · exact .inr (.inl h)
    · exact .inr (.inr ⟨hres, Nat.lt_of_lt_of_le hlt hle₁⟩)
  · exact ⟨_, svc₁, rfl, hs₁, ht₁, hle₁, .inr (.inr ⟨rfl, hlt₁⟩)⟩

end Steps

section Attempts

variable {d : List UInt8} {m : Mode}

/-- One attempt of a create with parents: a retry first probes `p` and returns it when stored. -/
def parentsAttempt (p : String) (d : List UInt8) (m : Mode) (i : Nat) (retry : Bool) :
    Op String := do
  if retry then
    if (← onSession i (·.exists? · p)).isSome then return p
  createAncestors i p
  onSession i (·.create · p d m)

theorem parentsAttempt_false (i : Nat) :
    parentsAttempt p d m i false = (do createAncestors i p; onSession i (·.create · p d m)) := rfl

theorem parentsAttempt_true (i : Nat) :
    parentsAttempt p d m i true = (do
      if (← onSession i (·.exists? · p)).isSome then pure p else parentsAttempt p d m i false) := by
  simp [parentsAttempt]

/-- The work of an attempt after its guard, from an extension toward a well-formed `p` missing
from `t`: it creates `p` with its ancestors, or loses its connection, leaving an extension with
`p` created in it or not. -/
theorem exec_parentsBody (hlive : b.Live i s) (hs : b.service.Scripted Fault.IsLoss)
    (he : t.Extends p b.service.tree) (hp : Path.IsValid p) (hfree : lookup p t.nodes = none)
    (hm : m.sequential = false) :
    ∃ res svc, (parentsAttempt p d m i false).exec b = (res, { b with service := svc }) ∧
      svc.Scripted Fault.IsLoss ∧ svc.queued.length ≤ b.service.queued.length ∧
      ((res = .ok p ∧ t.Builds p d m s.id svc.tree) ∨
        (res = .error .connectionLoss ∧ svc.queued.length < b.service.queued.length ∧
          (t.Extends p svc.tree ∨ t.Builds p d m s.id svc.tree))) := by
  have hfree' := he.lookup_self hfree
  -- the root is stored, so the missing `p` is not the root and has a parent
  have hroot : p ≠ "/" := by
    rintro rfl
    obtain ⟨n, hn, -⟩ := he.openFor.wellFormed.root
    rw [hn] at hfree'
    cases hfree'
  obtain ⟨q, hq⟩ := Path.parent_of_isValid hp hroot
  obtain ⟨res₁, svc₁, hrun₁, hs₁, he₁, hle₁, hend₁⟩ :=
    exec_createAncestors_losses hlive hs he hq (Path.isValid_parent hp hq)
  rw [parentsAttempt_false, exec_bind, hrun₁]
  rcases hend₁ with ⟨rfl, hstored⟩ | ⟨rfl, hlt₁⟩
  · -- the parent is stored and belongs to no session, and `p` is still missing
    obtain ⟨par, hpar⟩ := Option.isSome_iff_exists.mp hstored
    obtain ⟨u', fired, hok⟩ := create_free hp hq hpar
      (he₁.openFor.above q par (Path.above_parent hq) hpar) (he₁.lookup_self hfree) hm
      (d := d) (o := s.id)
    obtain ⟨res, svc, hrun, hs', hle, hend⟩ :=
      exec_create_change (hlive.withService svc₁) hs₁ rfl hok
    refine ⟨res, svc, by simpa using hrun, hs', Nat.le_trans hle hle₁, ?_⟩
    rcases hend with ⟨rfl, rfl⟩ | ⟨rfl, hlt, htree⟩
    · exact .inl ⟨rfl, _, fired, he₁, hok⟩
    · refine .inr ⟨rfl, Nat.lt_of_lt_of_le hlt hle₁, ?_⟩
      rcases htree with htree | htree <;> rw [htree]
      · exact .inl he₁
      · exact .inr ⟨_, fired, he₁, hok⟩
  · exact ⟨_, svc₁, rfl, hs₁, hle₁, .inr ⟨rfl, hlt₁, .inl he₁⟩⟩

/-- The attempts of a create with parents of a well-formed `p` missing from `t`. An attempt
starts from an extension toward `p`, or on a retry also from one with `p` created in it; it
returns `p` with `p` created in an extension, or loses its connection leaving one of those. -/
theorem parents_attempts (hlive : b.Live i s) (hp : Path.IsValid p)
    (hfree : lookup p t.nodes = none) (hm : m.sequential = false) :
    Attempts i (parentsAttempt p d m) b.connector
      (fun r svc => svc.Scripted Fault.IsLoss ∧
        (t.Extends p svc.tree ∨ (r = true ∧ t.Builds p d m s.id svc.tree)))
      (fun res svc => res = .ok p ∧ t.Builds p d m s.id svc.tree) := by
  intro r b' hc ⟨hs, hinv⟩
  have hlive' := hlive.of_connector hc
  -- the work after the guard, from an extension, ends as the attempts say
  have hbody : ∀ svc₀ : Service, svc₀.Scripted Fault.IsLoss → t.Extends p svc₀.tree →
      svc₀.queued.length ≤ b'.service.queued.length →
      ∃ res svc, (parentsAttempt p d m i false).exec { b' with service := svc₀ } =
          (res, { b' with service := svc }) ∧ svc.queued.length ≤ b'.service.queued.length ∧
        ((res = .error .connectionLoss ∧ svc.queued.length < b'.service.queued.length ∧
            svc.Scripted Fault.IsLoss ∧
            (t.Extends p svc.tree ∨ (true = true ∧ t.Builds p d m s.id svc.tree))) ∨
          (res ≠ .error .connectionLoss ∧ res = .ok p ∧ t.Builds p d m s.id svc.tree)) := by
    intro svc₀ hs₀ he₀ hle₀
    obtain ⟨res, svc, hrun, hs', hle, hend⟩ :=
      exec_parentsBody (hlive'.withService svc₀) hs₀ he₀ hp hfree hm (d := d)
    refine ⟨res, svc, hrun, Nat.le_trans hle hle₀, ?_⟩
    rcases hend with ⟨rfl, hb⟩ | ⟨rfl, hlt, hex⟩
    · exact .inr ⟨by simp, rfl, hb⟩
    · exact .inl ⟨rfl, Nat.lt_of_lt_of_le hlt hle₀, hs', hex.imp id fun h => ⟨rfl, h⟩⟩
  cases r with
  | false =>
    have he : t.Extends p b'.service.tree := hinv.resolve_right fun h => Bool.false_ne_true h.1
    exact hbody b'.service hs he (Nat.le_refl _)
  | true =>
    obtain ⟨res₁, svc₁, hrun₁, hs₁, ht₁, hend₁⟩ := exec_probe hlive' hs hp
    rw [parentsAttempt_true, exec_bind, hrun₁]
    rcases hend₁ with ⟨rfl, hle₁⟩ | ⟨rfl, hlt₁⟩
    · dsimp only
      rcases hinv with he | ⟨-, hb⟩
      · -- `p` is missing: the attempt goes on as a first one would
        rw [he.lookup_self hfree]
        rw [if_neg (by simp)]
        exact hbody svc₁ hs₁ (by rw [ht₁]; exact he) hle₁
      · -- `p` was created by an attempt whose reply was lost: the retry returns it
        obtain ⟨n, hn, -⟩ := hb.node
        rw [hn]
        exact ⟨_, svc₁, rfl, hle₁, .inr ⟨by simp, rfl, by rw [ht₁]; exact hb⟩⟩
    · exact ⟨_, svc₁, rfl, Nat.le_of_lt hlt₁, .inl ⟨rfl, hlt₁, hs₁, by rw [ht₁]; exact hinv⟩⟩

/-- One attempt of a create with parents of a `p` that is not well formed but whose parent `q`
is, from an extension toward `p`: it is refused as not well formed, or loses its connection,
leaving an extension; a first attempt that does not lose its connection has stored `q`. -/
theorem exec_refusedAttempt (hlive : b.Live i s) (hs : b.service.Scripted Fault.IsLoss)
    (he : t.Extends p b.service.tree) {dp : Path.Defect} (hd : Path.defect? p = some dp)
    (hq : Path.parent p = some q) (hv : Path.IsValid q) (r : Bool) :
    ∃ res svc, (parentsAttempt p d m i r).exec b = (res, { b with service := svc }) ∧
      svc.Scripted Fault.IsLoss ∧ t.Extends p svc.tree ∧
      svc.queued.length ≤ b.service.queued.length ∧
      ((res = .error .connectionLoss ∧ svc.queued.length < b.service.queued.length) ∨
        (res = .error (.invalidPath p dp.reason) ∧
          (r = false → (lookup q svc.tree.nodes).isSome))) := by
  cases r with
  | true =>
    -- the probe of `p` is refused
    obtain ⟨res₁, svc₁, hrun₁, hs₁, ht₁, hend₁⟩ := exec_exists hlive hs p
    have he₁ : t.Extends p svc₁.tree := by rw [ht₁]; exact he
    rw [parentsAttempt_true, exec_bind, hrun₁]
    rcases hend₁ with ⟨rfl, hle₁⟩ | ⟨rfl, hlt₁⟩
    · rw [exists?_of_defect hd]
      exact ⟨_, svc₁, rfl, hs₁, he₁, hle₁, .inr ⟨rfl, nofun⟩⟩
    · exact ⟨_, svc₁, rfl, hs₁, he₁, Nat.le_of_lt hlt₁, .inl ⟨rfl, hlt₁⟩⟩
  | false =>
    obtain ⟨res₁, svc₁, hrun₁, hs₁, he₁, hle₁, hend₁⟩ :=
      exec_createAncestors_losses hlive hs he hq hv
    rw [parentsAttempt_false, exec_bind, hrun₁]
    rcases hend₁ with ⟨rfl, hstored⟩ | ⟨rfl, hlt₁⟩
    · -- the ancestors are in place; the create of `p` itself is refused and changes nothing
      obtain ⟨res, svc, hrun, hs', htree, hle, hend⟩ :=
        exec_create_defect_losses (hlive.withService svc₁) hs₁ hd d m
      dsimp only at htree hle hend
      refine ⟨res, svc, by simpa using hrun, hs', by rw [htree]; exact he₁,
        Nat.le_trans hle hle₁, ?_⟩
      rcases hend with hres | ⟨hres, hlt⟩
      · exact .inr ⟨hres, fun _ => by rw [htree]; exact hstored⟩
      · exact .inl ⟨hres, Nat.lt_of_lt_of_le hlt hle₁⟩
    · exact ⟨_, svc₁, rfl, hs₁, he₁, hle₁, .inl ⟨rfl, hlt₁⟩⟩

/-- One attempt of a create with parents of a `p` that is not well formed and has no parent that
is: it is refused, or loses its connection, and leaves the tree. -/
theorem exec_unchangedAttempt (hlive : b.Live i s) (hs : b.service.Scripted Fault.IsLoss)
    {dp : Path.Defect} (hd : Path.defect? p = some dp)
    (hpar : ∀ q, Path.parent p = some q → ¬ Path.IsValid q) (r : Bool) :
    ∃ res svc, (parentsAttempt p d m i r).exec b = (res, { b with service := svc }) ∧
      svc.Scripted Fault.IsLoss ∧ svc.tree = b.service.tree ∧
      svc.queued.length ≤ b.service.queued.length ∧
      ((res = .error .connectionLoss ∧ svc.queued.length < b.service.queued.length) ∨
        ∃ x reason, res = .error (.invalidPath x reason)) := by
  cases r with
  | true =>
    obtain ⟨res₁, svc₁, hrun₁, hs₁, ht₁, hend₁⟩ := exec_exists hlive hs p
    rw [parentsAttempt_true, exec_bind, hrun₁]
    rcases hend₁ with ⟨rfl, hle₁⟩ | ⟨rfl, hlt₁⟩
    · rw [exists?_of_defect hd]
      exact ⟨_, svc₁, rfl, hs₁, ht₁, hle₁, .inr ⟨p, _, rfl⟩⟩
    · exact ⟨_, svc₁, rfl, hs₁, ht₁, Nat.le_of_lt hlt₁, .inl ⟨rfl, hlt₁⟩⟩
  | false =>
    rw [parentsAttempt_false]
    cases hq : Path.parent p with
    | none =>
      -- no ancestor to create: the create of `p` is refused and changes nothing
      have hnone : createAncestors i p = pure () := by
        simp [createAncestors_eq, hq, missingAncestors]
      obtain ⟨res, svc, hrun, hs', htree, hle, hend⟩ := exec_create_defect_losses hlive hs hd d m
      rw [hnone, exec_bind, exec_pure]
      refine ⟨res, svc, hrun, hs', htree, hle, ?_⟩
      rcases hend with hres | ⟨hres, hlt⟩
      · exact .inr ⟨p, _, hres⟩
      · exact .inl ⟨hres, hlt⟩
    | some q =>
      -- the climb's first probe, of the parent, is refused
      obtain ⟨dq, hdq⟩ := Option.ne_none_iff_exists'.mp (hpar q hq)
      obtain ⟨res₁, svc₁, hrun₁, hs₁, ht₁, hle₁, hend₁⟩ :=
        exec_createAncestors_refused hlive hs hq hdq
      rw [exec_bind, hrun₁]
      rcases hend₁ with rfl | ⟨rfl, hlt₁⟩
      · exact ⟨_, svc₁, rfl, hs₁, ht₁, hle₁, .inr ⟨q, _, rfl⟩⟩
      · exact ⟨_, svc₁, rfl, hs₁, ht₁, hle₁, .inl ⟨rfl, hlt₁⟩⟩

theorem refused_attempts (hlive : b.Live i s) {dp : Path.Defect} (hd : Path.defect? p = some dp)
    (hq : Path.parent p = some q) (hv : Path.IsValid q) :
    Attempts i (parentsAttempt p d m) b.connector
      (fun _ svc => svc.Scripted Fault.IsLoss ∧ t.Extends p svc.tree)
      (fun res svc => res = .error (.invalidPath p dp.reason) ∧ t.Extends p svc.tree) := by
  intro r b' hc ⟨hs, he⟩
  obtain ⟨res, svc, hrun, hs', he', hle, hend⟩ :=
    exec_refusedAttempt (hlive.of_connector hc) hs he hd hq hv r (d := d) (m := m)
  refine ⟨res, svc, hrun, hle, ?_⟩
  rcases hend with ⟨rfl, hlt⟩ | ⟨rfl, -⟩
  · exact .inl ⟨rfl, hlt, hs', he'⟩
  · exact .inr ⟨by simp, rfl, he'⟩

theorem unchanged_attempts (hlive : b.Live i s) {dp : Path.Defect} (hd : Path.defect? p = some dp)
    (hpar : ∀ q, Path.parent p = some q → ¬ Path.IsValid q) :
    Attempts i (parentsAttempt p d m) b.connector
      (fun _ svc => svc.Scripted Fault.IsLoss ∧ svc.tree = t)
      (fun res svc => (∃ x reason, res = .error (.invalidPath x reason)) ∧ svc.tree = t) := by
  intro r b' hc ⟨hs, ht⟩
  obtain ⟨res, svc, hrun, hs', ht', hle, hend⟩ :=
    exec_unchangedAttempt (hlive.of_connector hc) hs hd hpar r (d := d) (m := m)
  refine ⟨res, svc, hrun, hle, ?_⟩
  rcases hend with ⟨rfl, hlt⟩ | ⟨x, reason, rfl⟩
  · exact .inl ⟨rfl, hlt, hs', ht'.trans ht⟩
  · exact .inr ⟨by simp, ⟨x, reason, rfl⟩, ht'.trans ht⟩

/-- One attempt of a create with parents of a `p` that is not well formed but whose parent `q`
is, when nothing at or above `q` can be added: it is refused, as not well formed or under a
parent that belongs to a session, or loses its connection, and leaves the tree. -/
theorem exec_settledAttempt (hlive : b.Live i s) (hs : b.service.Scripted Fault.IsLoss)
    (hw : WellFormed b.service.tree.nodes) {dp : Path.Defect} (hd : Path.defect? p = some dp)
    (hq : Path.parent p = some q) (hv : Path.IsValid q)
    (hset : ∀ y, Path.Under y q → b.service.tree.Settled y) (r : Bool) :
    ∃ res svc, (parentsAttempt p d m i r).exec b = (res, { b with service := svc }) ∧
      svc.Scripted Fault.IsLoss ∧ svc.tree = b.service.tree ∧
      svc.queued.length ≤ b.service.queued.length ∧
      ((res = .error .connectionLoss ∧ svc.queued.length < b.service.queued.length) ∨
        (∃ y, res = .error (.noChildrenForEphemerals y)) ∨
        res = .error (.invalidPath p dp.reason)) := by
  cases r with
  | true =>
    -- the probe of `p` is refused
    obtain ⟨res₁, svc₁, hrun₁, hs₁, ht₁, hend₁⟩ := exec_exists hlive hs p
    rw [parentsAttempt_true, exec_bind, hrun₁]
    rcases hend₁ with ⟨rfl, hle₁⟩ | ⟨rfl, hlt₁⟩
    · rw [exists?_of_defect hd]
      exact ⟨_, svc₁, rfl, hs₁, ht₁, hle₁, .inr (.inr rfl)⟩
    · exact ⟨_, svc₁, rfl, hs₁, ht₁, Nat.le_of_lt hlt₁, .inl ⟨rfl, hlt₁⟩⟩
  | false =>
    obtain ⟨res₁, svc₁, hrun₁, hs₁, ht₁, hle₁, hend₁⟩ :=
      exec_createAncestors_settled hlive hs hw hq hv hset
    rw [parentsAttempt_false, exec_bind, hrun₁]
    rcases hend₁ with ⟨rfl, -⟩ | ⟨y, rfl⟩ | ⟨rfl, hlt₁⟩
    · -- nothing was added; the create of `p` itself is refused and changes nothing
      obtain ⟨res, svc, hrun, hs', htree, hle, hend⟩ :=
        exec_create_defect_losses (hlive.withService svc₁) hs₁ hd d m
      dsimp only at htree hle hend
      refine ⟨res, svc, by simpa using hrun, hs', htree.trans ht₁, Nat.le_trans hle hle₁, ?_⟩
      rcases hend with hres | ⟨hres, hlt⟩
      · exact .inr (.inr hres)
      · exact .inl ⟨hres, Nat.lt_of_lt_of_le hlt hle₁⟩
    · exact ⟨_, svc₁, rfl, hs₁, ht₁, hle₁, .inr (.inl ⟨y, rfl⟩)⟩
    · exact ⟨_, svc₁, rfl, hs₁, ht₁, hle₁, .inl ⟨rfl, hlt₁⟩⟩

theorem settled_attempts (hlive : b.Live i s) (hw : WellFormed t.nodes) {dp : Path.Defect}
    (hd : Path.defect? p = some dp) (hq : Path.parent p = some q) (hv : Path.IsValid q)
    (hset : ∀ y, Path.Under y q → t.Settled y) :
    Attempts i (parentsAttempt p d m) b.connector
      (fun _ svc => svc.Scripted Fault.IsLoss ∧ svc.tree = t)
      (fun res svc => ((∃ y, res = .error (.noChildrenForEphemerals y)) ∨
        res = .error (.invalidPath p dp.reason)) ∧ svc.tree = t) := by
  intro r b' hc ⟨hs, ht⟩
  obtain ⟨res, svc, hrun, hs', ht', hle, hend⟩ :=
    exec_settledAttempt (hlive.of_connector hc) hs (by rw [ht]; exact hw) hd hq hv
      (by rw [ht]; exact hset) r (d := d) (m := m)
  refine ⟨res, svc, hrun, hle, ?_⟩
  rcases hend with ⟨rfl, hlt⟩ | ⟨y, rfl⟩ | rfl
  · exact .inl ⟨rfl, hlt, hs', ht'.trans ht⟩
  · exact .inr ⟨by simp, .inl ⟨y, rfl⟩, ht'.trans ht⟩
  · exact .inr ⟨by simp, .inr rfl, ht'.trans ht⟩

end Attempts

section Main

/-- Creating a node with its missing ancestors, under lost connections alone. On a live session
over a well-formed tree, with fewer queued faults than the retry budget allows and than 2^32, in
a mode without sequence numbers: when the nearest stored ancestor of `p` belongs to no session,
a well-formed `p` that is missing is created, and the call returns it, leaving the tree extended
toward `p` (the nodes it held keep their data and metadata but for the counts of their children;
the ancestors that were missing are added, empty and persistent) with `p` then created in it,
holding `d`, owned by the session exactly when `m` is ephemeral. A `p` that is not well formed
is refused; the tree stays as it was when the parent of `p` is not a well-formed path either,
or when a stored node above `p` belongs to a session, but otherwise the refusal comes after the
missing ancestors were created: with no fault queued the parent of `p` is stored after the
call. -/
theorem createWithParents_builds_chain (b : Backend) (i : Nat) (s : Session) (hlive : b.Live i s)
    (hw : WellFormed b.service.tree.nodes) (hs : b.service.Scripted Fault.IsLoss)
    (hbudget : b.service.queued.length < b.budget) (hwrap : b.service.queued.length < 2 ^ 32)
    (p : String) (d : List UInt8) (m : Mode) (hm : m.sequential = false) :
    let t := b.service.tree
    let r := (createWithParents (pure i) p d m).exec b
    (t.NearestOpen p → Path.IsValid p → lookup p t.nodes = none →
      r.1 = .ok p ∧ t.Builds p d m s.id r.2.service.tree ∧
        (∀ q, Path.Under q p → (lookup q r.2.service.tree.nodes).isSome) ∧
        ∃ n, lookup p r.2.service.tree.nodes = some n ∧ n.data = d ∧
          n.stat.ephemeralOwner = if m.ephemeral then s.id else 0) ∧
    (∀ dp, Path.defect? p = some dp →
      ((∀ q, Path.parent p = some q → ¬ Path.IsValid q) →
        (∃ x reason, r.1 = .error (.invalidPath x reason)) ∧ r.2.service.tree = t) ∧
      (∀ q, Path.parent p = some q → Path.IsValid q →
        (t.NearestOpen p →
          r.1 = .error (.invalidPath p dp.reason) ∧ t.Extends p r.2.service.tree ∧
            (b.service.queued = [] → (lookup q r.2.service.tree.nodes).isSome)) ∧
        ((∃ a n, Path.Above p a ∧ lookup a t.nodes = some n ∧ n.stat.isEphemeral = true) →
          ((∃ x, r.1 = .error (.noChildrenForEphemerals x)) ∨
            r.1 = .error (.invalidPath p dp.reason)) ∧ r.2.service.tree = t))) := by
  intro t r
  refine ⟨fun hnear hp hfree => ?_, fun dp hd => ⟨fun hpar => ?_, fun q hq hv =>
    ⟨fun hnear => ?_, fun ⟨a, n, ha, hn, heph⟩ => ?_⟩⟩⟩
  · obtain ⟨res, b', hrun, ⟨rfl, hb⟩, -, -, -⟩ :=
      exec_retrying i _ b.connector _ _ (parents_attempts hlive hp hfree hm) b rfl
        ⟨hs, .inl (Extends.refl (openFor_of_nearest hw hnear))⟩ hbudget (.inl hwrap)
    have hr : r = (.ok p, b') := hrun
    rw [hr]
    exact ⟨rfl, hb, hb.stored_above, hb.node⟩
  · obtain ⟨res, b', hrun, ⟨hres, ht'⟩, -, -, -⟩ :=
      exec_retrying i _ b.connector _ _ (unchanged_attempts hlive hd hpar) b rfl ⟨hs, rfl⟩ hbudget
        (.inr fun _ h => h)
    have hr : r = (res, b') := hrun
    rw [hr]
    exact ⟨hres, ht'⟩
  · have hopen := openFor_of_nearest hw hnear
    obtain ⟨res, b', hrun, ⟨rfl, he'⟩, -, -, -⟩ :=
      exec_retrying i _ b.connector _ _ (refused_attempts hlive hd hq hv) b rfl
        ⟨hs, Extends.refl hopen⟩ hbudget (.inr fun _ h => h)
    have hr : r = (_, b') := hrun
    rw [hr]
    refine ⟨rfl, he', fun hnil => ?_⟩
    -- with no fault queued the first attempt loses no connection, and it is the whole call
    obtain ⟨res₀, svc₀, hrun₀, -, -, -, hend₀⟩ :=
      exec_refusedAttempt hlive hs (Extends.refl hopen) hd hq hv false (d := d) (m := m)
    rcases hend₀ with ⟨-, hlt⟩ | ⟨hres₀, hstored⟩
    · rw [hnil] at hlt
      exact absurd hlt (Nat.not_lt_zero _)
    · have hfirst := exec_retrying_first i (parentsAttempt p d m) hrun₀ (by rw [hres₀]; simp)
        (by omega)
      rw [hrun] at hfirst
      rw [(Prod.mk.inj hfirst).2]
      exact hstored rfl
  · -- under the stored node of a session above `p` nothing can be added
    obtain ⟨q', hq', haq⟩ := ha
    rw [hq] at hq'
    cases hq'
    have hset : ∀ y, Path.Under y q → t.Settled y :=
      fun y hy => settled_of_ephemeral hw hn heph haq hy
    obtain ⟨res, b', hrun, ⟨hres, ht'⟩, -, -, -⟩ :=
      exec_retrying i _ b.connector _ _ (settled_attempts hlive hw hd hq hv hset) b rfl ⟨hs, rfl⟩
        hbudget (.inr fun _ h => h)
    have hr : r = (res, b') := hrun
    rw [hr]
    exact ⟨hres, ht'⟩

/-- The reply to the create of the missing `/a` is lost after it committed; the retry finds `/a`
stored, creates `/a/b` and returns it. -/
theorem createWithParents_after_lost_ancestor :
    let b : Backend :=
      { service := ({} : Service).inject .create .loseAfterCommit,
        connector := { automatic := true, sessions := [⟨1, 0, .connected⟩] }, budget := 10 }
    ((createWithParents (pure 0) "/a/b" [7] Mode.persistent).exec b).1 = .ok "/a/b" := by
  intro b
  have hq : b.service.queued = [.loseAfterCommit] := rfl
  have hs : b.service.Scripted Fault.IsLoss := by
    intro f hf
    rw [hq, List.mem_singleton] at hf
    rw [hf]
    trivial
  have hnear : b.service.tree.NearestOpen "/a/b" := by
    intro a n _ hn _
    obtain ⟨-, rfl⟩ := lookup_empty hn
    rfl
  exact ((createWithParents_builds_chain b 0 ⟨1, 0, .connected⟩ ⟨rfl, rfl⟩ wellFormed_empty hs
    (by rw [hq]; decide) (by rw [hq]; decide) "/a/b" [7] .persistent rfl).1 hnear
    (by decide) (by decide)).1

/-- A path with a trailing slash is refused only after its parent was created: over the bare
root, the call on `/a/` fails as not well formed and leaves `/a` stored. -/
theorem createWithParents_trailing_slash :
    let b : Backend :=
      { service := {}, connector := { automatic := true, sessions := [⟨1, 0, .connected⟩] },
        budget := 10 }
    let r := (createWithParents (pure 0) "/a/" [] Mode.persistent).exec b
    r.1 = .error (.invalidPath "/a/" "path must not end with /") ∧
      (lookup "/a" r.2.service.tree.nodes).isSome := by
  decide +kernel

end Main

end Op

end Coordination
