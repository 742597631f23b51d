import Coordination.Proofs.IdempotentWrites
import Coordination.Proofs.ServiceShape
import Coordination.Proofs.Subtrees

/-!
Removing a subtree with the retrying client. An attempt lists the subtree breadth first from `p`,
reading each node's children, and deletes the listing from its end, deepest nodes first; a lost
connection starts the attempt over from a fresh listing, once a probe finds `p` still stored.
Under lost connections alone, on a well-formed tree, a listing names the subtree as it stands
(`exec_listTree`), and a pass over the reversed listing deletes a prefix of it
(`exec_removeLoop`), so each attempt only ever deletes nodes under `p`.

Below any path but the root, the removal returns and leaves the pruned tree, where exactly the
nodes under `p` are gone, or fails on a missing path and leaves the tree as it was; on a stored
path it returns (`deleteWithChildren_prunes`). The root is listed and emptied like any node, but
its own delete is refused: the removal of the root fails after deleting every other node
(`deleteWithChildren_root_fails`).
-/

namespace Coordination.Op

open Coordination.Tree

variable {b : Backend} {i : Nat} {s : Session}

section Reads

variable {t : Tree} {x : String} {n : TreeNode}

theorem children_of_lookup (hw : WellFormed t.nodes) (hx : lookup x t.nodes = some n) :
    t.children x = .ok (n.children, n.stat) := by
  simp [Tree.children, Tree.node, validate_of_isValid (isValid_of_lookup hw hx), hx, bind,
    Except.bind, pure, Except.pure]

/-- Reading the children of a missing node fails: the node is missing, or its path is not
well formed. -/
theorem children_of_missing (hx : lookup x t.nodes = none) :
    t.children x = .error (.noNode x) ∨ ∃ r, t.children x = .error (.invalidPath x r) := by
  unfold Tree.children Tree.node Path.validate
  cases hd : Path.defect? x with
  | none => exact .inl (by simp [hx, bind, Except.bind, throw, throwThe, MonadExcept.throw])
  | some d => exact .inr ⟨d.reason, by simp [bind, Except.bind]⟩

/-- A read of the children of `x` on a live session under lost connections: the tree stays, and
the read ends as on that tree or loses its connection. -/
theorem exec_children (hlive : b.Live i s) (hs : b.service.Scripted Fault.IsLoss) (x : String) :
    ∃ res svc, ((·.1) <$> onSession i (·.children · x none)).exec b =
        (res, { b with service := svc }) ∧
      svc.Scripted Fault.IsLoss ∧ svc.tree = b.service.tree ∧
      ((res = (b.service.tree.children x).map (·.1) ∧
          svc.queued.length ≤ b.service.queued.length) ∨
        (res = .error .connectionLoss ∧ svc.queued.length < b.service.queued.length)) := by
  rw [exec_map, exec_onSession hlive.found]
  simp only [Session.children, Session.run_of_connected hlive.connected]
  refine ⟨_, _, rfl, hs.apply _ _, ?_, ?_⟩
  · rcases Service.apply_losses hs .getChildren fun t => (t.children x).map fun r => (r, t, []) with
      ⟨-, htree⟩ | ⟨-, -, htree | htree⟩ <;> simpa using htree
  · rcases Service.apply_losses hs .getChildren fun t => (t.children x).map fun r => (r, t, []) with
      ⟨hres, -⟩ | ⟨hres, hlt, -⟩
    · left
      refine ⟨?_, (Service.apply_queued _ _).2⟩
      rw [hres]
      cases b.service.tree.children x <;> rfl
    · exact .inr ⟨by rw [hres]; rfl, hlt⟩

/-- A probe of `p` on a live session under lost connections: the tree stays, and the probe ends
as on that tree or loses its connection. -/
theorem exec_exists (hlive : b.Live i s) (hs : b.service.Scripted Fault.IsLoss) (p : String) :
    ∃ res svc, (onSession i (·.exists? · p)).exec b = (res, { b with service := svc }) ∧
      svc.Scripted Fault.IsLoss ∧ svc.tree = b.service.tree ∧
      ((res = b.service.tree.exists? p ∧ svc.queued.length ≤ b.service.queued.length) ∨
        (res = .error .connectionLoss ∧ svc.queued.length < b.service.queued.length)) := by
  rw [exec_onSession hlive.found]
  simp only [Session.exists?, Session.run_of_connected hlive.connected]
  refine ⟨_, _, rfl, hs.apply _ _, ?_, ?_⟩
  · rcases Service.apply_losses hs .exists fun t => (t.exists? p).map fun r => (r, t, []) with
      ⟨-, htree⟩ | ⟨-, -, htree | htree⟩ <;> simpa using htree
  · rcases Service.apply_losses hs .exists fun t => (t.exists? p).map fun r => (r, t, []) with
      ⟨hres, -⟩ | ⟨hres, hlt, -⟩
    · left
      refine ⟨?_, (Service.apply_queued _ _).2⟩
      rw [hres]
      cases b.service.tree.exists? p <;> rfl
    · exact .inr ⟨hres, hlt⟩

end Reads

section Listing

variable {u : Tree}

theorem exec_walkBound (b : Backend) :
    ∃ fuel, walkBound.exec b = (.ok fuel, b) ∧ b.service.tree.nodes.length < fuel := by
  refine ⟨_, rfl, ?_⟩
  omega

/-- Listing stored nodes on a live session under lost connections: the tree stays, and the
listing is the walk of the tree, or the connection is lost. -/
theorem exec_listTree (hw : WellFormed u.nodes) (top : String) (fuel : Nat) :
    ∀ (order : List String) (next : Nat) (b : Backend), b.Live i s →
      b.service.Scripted Fault.IsLoss → b.service.tree = u →
      (∀ k ∈ order, (lookup k u.nodes).isSome) →
      ∃ res svc, (listTree i top fuel order next).exec b = (res, { b with service := svc }) ∧
        svc.Scripted Fault.IsLoss ∧ svc.tree = u ∧ svc.queued.length ≤ b.service.queued.length ∧
        (res = .ok (u.walk fuel order next) ∨
          (res = .error .connectionLoss ∧ svc.queued.length < b.service.queued.length)) := by
  induction fuel with
  | zero =>
    intro order next b _ hs htree _
    exact ⟨_, b.service, rfl, hs, htree, Nat.le_refl _, .inl rfl⟩
  | succ fuel ih =>
    intro order next b hlive hs htree hstored
    rw [listTree]
    cases hx : order[next]? with
    | none =>
      refine ⟨.ok order, b.service, rfl, hs, htree, Nat.le_refl _, .inl ?_⟩
      simp [walk, hx]
    | some x =>
      obtain ⟨n, hn⟩ := Option.isSome_iff_exists.mp (hstored x (List.mem_of_getElem? hx))
      obtain ⟨res₁, svc₁, hrun₁, hs₁, htree₁, hend₁⟩ := exec_children hlive hs x
      dsimp only [hx]
      rw [exec_bind, exec_tryCatch, hrun₁]
      rcases hend₁ with ⟨hres₁, hle₁⟩ | ⟨rfl, hlt₁⟩
      · -- the children of a stored node are read, and the walk goes on past them
        rw [htree, children_of_lookup hw hn] at hres₁
        subst hres₁
        have hkids : ∀ k ∈ order ++ n.children.map (Path.join x), (lookup k u.nodes).isSome := by
          intro k hk
          rcases List.mem_append.mp hk with hk | hk
          · exact hstored k hk
          · obtain ⟨c, hc, rfl⟩ := List.mem_map.mp hk
            exact (hw.child x n c hn hc).1
        obtain ⟨res, svc, hrun, hs', htree', hle, hend⟩ :=
          ih _ (next + 1) _ (hlive.withService svc₁) hs₁ (htree₁.trans htree) hkids
        refine ⟨res, svc, by simpa [Except.map] using hrun, hs', htree', Nat.le_trans hle hle₁, ?_⟩
        have hwalk : u.walk (fuel + 1) order next =
            u.walk fuel (order ++ n.children.map (Path.join x)) (next + 1) := by
          simp [walk, hx, kidsOf, hn]
        rw [hwalk]
        exact hend.imp_right (And.imp_right fun h2 => Nat.lt_of_lt_of_le h2 hle₁)
      · -- a lost connection is not a missing node: the listing stops
        dsimp only
        simp only [exec_throw]
        exact ⟨_, svc₁, rfl, hs₁, htree₁.trans htree, Nat.le_of_lt hlt₁, .inr ⟨rfl, hlt₁⟩⟩

theorem exec_listTree_missing (hlive : b.Live i s) (hs : b.service.Scripted Fault.IsLoss)
    {top : String} (htop : lookup top b.service.tree.nodes = none) (fuel : Nat) :
    ∃ res svc, (listTree i top (fuel + 1) [top] 0).exec b = (res, { b with service := svc }) ∧
      svc.Scripted Fault.IsLoss ∧ svc.tree = b.service.tree ∧
      svc.queued.length ≤ b.service.queued.length ∧
      ((res = .error .connectionLoss ∧ svc.queued.length < b.service.queued.length) ∨
        ∃ e, res = .error e ∧ e ≠ .connectionLoss) := by
  obtain ⟨res₁, svc₁, hrun₁, hs₁, htree₁, hend₁⟩ := exec_children hlive hs top
  rw [listTree]
  simp only [List.getElem?_cons_zero]
  rw [exec_bind, exec_tryCatch, hrun₁]
  rcases hend₁ with ⟨hres₁, hle₁⟩ | ⟨rfl, hlt₁⟩
  · -- the read finds the top node missing, or its path ill formed, and that is thrown
    rcases children_of_missing htop with he | ⟨r, he⟩ <;> rw [he] at hres₁ <;> subst hres₁ <;>
      simp only [Except.map, ite_true, exec_throw] <;>
      exact ⟨_, svc₁, rfl, hs₁, htree₁, hle₁, .inr ⟨_, rfl, by simp⟩⟩
  · dsimp only
    simp only [exec_throw]
    exact ⟨_, svc₁, rfl, hs₁, htree₁, Nat.le_of_lt hlt₁, .inl ⟨rfl, hlt₁⟩⟩

end Listing

section Loop

variable {u : Tree}

/-- One delete of a subtree removal: a node found missing is fine, unless it is the top one. -/
def removeOne (i : Nat) (p q : String) : Op Unit :=
  tryCatch (onSession i (·.delete · q none)) fun e =>
    match e with
    | .noNode _ => if q = p then throw e else pure ()
    | e => throw e

theorem deleteTree_eq (i : Nat) (p : String) :
    deleteTree i p = (do
      let order ← listTree i p (← walkBound) [p] 0
      for q in order.reverse do removeOne i p q) := rfl

/-- What a step of a subtree removal does to a stored leaf `q` of the tree it finds, on a
session under lost connections: below the root it deletes `q`, or loses its connection having
deleted `q` or not; at the root it is refused as the delete is, or loses its connection, and
leaves the tree. -/
def RemovesLeaf (c : Connector) (body : String → Op Unit) : Prop :=
  ∀ (q : String) (b : Backend) (n : TreeNode), b.connector = c →
    b.service.Scripted Fault.IsLoss → WellFormed b.service.tree.nodes →
    lookup q b.service.tree.nodes = some n → n.children = [] →
    ∃ res svc, (body q).exec b = (res, { b with service := svc }) ∧ svc.Scripted Fault.IsLoss ∧
      svc.queued.length ≤ b.service.queued.length ∧
      ((q ≠ "/" ∧ ∃ t' f, b.service.tree.delete q none = .ok (t', f) ∧
          ((res = .ok () ∧ svc.tree = t') ∨
            (res = .error .connectionLoss ∧ svc.queued.length < b.service.queued.length ∧
              (svc.tree = b.service.tree ∨ svc.tree = t')))) ∨
        (q = "/" ∧ svc.tree = b.service.tree ∧
          (res = .error (.invalidPath "/" rootReason) ∨
            (res = .error .connectionLoss ∧ svc.queued.length < b.service.queued.length))))

theorem delete_root {t : Tree} {n : TreeNode} (hn : lookup "/" t.nodes = some n) :
    t.delete "/" none = .error (.invalidPath "/" rootReason) := by
  simp [Tree.delete, Tree.node, validate_of_isValid Path.isValid_root, hn, parent_root, bind,
    Except.bind, throw, throwThe, MonadExcept.throw, pure, Except.pure]

/-- A change that fails on the tree it finds, run by the service under lost connections: it
leaves the tree, and fails as on that tree or loses its connection. -/
theorem apply_failing {α : Type} {svc : Service} (hs : svc.Scripted Fault.IsLoss) (k : OpKind)
    (f : Tree → Except Failure (α × Tree × List Fired)) {e : Failure}
    (hfail : f svc.tree = .error e) :
    (svc.apply k f).2.tree = svc.tree ∧
      ((svc.apply k f).1 = .error e ∨
        ((svc.apply k f).1 = .error .connectionLoss ∧
          (svc.apply k f).2.queued.length < svc.queued.length)) := by
  rcases Service.apply_losses hs k f with ⟨hres, htree⟩ | ⟨hres, hlt, htree⟩
  · rw [hfail] at hres
    exact ⟨by rw [htree, after_of_error hfail], .inl hres⟩
  · refine ⟨?_, .inr ⟨hres, hlt⟩⟩
    rcases htree with htree | htree
    · exact htree
    · rw [htree, after_of_error hfail]

theorem exec_delete_root (hlive : b.Live i s) (hs : b.service.Scripted Fault.IsLoss) {n : TreeNode}
    (hn : lookup "/" b.service.tree.nodes = some n) :
    ∃ res svc, (onSession i (·.delete · "/" none)).exec b = (res, { b with service := svc }) ∧
      svc.Scripted Fault.IsLoss ∧ svc.queued.length ≤ b.service.queued.length ∧
      svc.tree = b.service.tree ∧
      (res = .error (.invalidPath "/" rootReason) ∨
        (res = .error .connectionLoss ∧ svc.queued.length < b.service.queued.length)) := by
  rw [exec_onSession hlive.found]
  simp only [Session.delete, Session.run_of_connected hlive.connected]
  exact ⟨_, _, rfl, hs.apply _ _, (Service.apply_queued _ _).2, apply_failing hs .delete _
    (by simp [delete_root hn, Except.map] : _ = Except.error (Failure.invalidPath "/" rootReason))⟩

theorem removesLeaf_removeOne (hlive : b.Live i s) (p : String) :
    RemovesLeaf b.connector (removeOne i p) := by
  intro q b' n hc hs hw hn hleaf
  have hlive' : b'.Live i s := hlive.of_connector hc
  unfold removeOne
  rw [exec_tryCatch]
  by_cases hroot : q = "/"
  · subst hroot
    obtain ⟨res, svc, hrun, hs', hle, htree, hend⟩ := exec_delete_root hlive' hs hn
    rw [hrun]
    refine ⟨res, svc, ?_, hs', hle, .inr ⟨rfl, htree, hend⟩⟩
    -- neither failure is a missing node, so both are thrown again
    rcases hend with rfl | ⟨rfl, -⟩ <;> rfl
  · obtain ⟨⟨t', f⟩, hdel⟩ := delete_leaf hw hn hleaf hroot
    obtain ⟨res, svc, hrun, hs', hle, hend⟩ := exec_delete_change hlive' hs rfl hdel
    rw [hrun]
    refine ⟨res, svc, ?_, hs', hle, .inl ⟨hroot, t', f, hdel, hend⟩⟩
    rcases hend with ⟨rfl, -⟩ | ⟨rfl, -⟩ <;> rfl

/-- A pass of the removal over paths ready to delete: it deletes a prefix of them, all of them
when it returns; it stops at a lost connection, and at the root, which it cannot delete. -/
theorem exec_removeLoop {c : Connector} {body : String → Op Unit} (hbody : RemovesLeaf c body)
    (hw : WellFormed u.nodes) (qs : List String) :
    ∀ (done : List String) (b : Backend), b.connector = c → b.service.Scripted Fault.IsLoss →
      u.deleteAll done = some b.service.tree → Ready u done qs →
      ∃ res svc, (forIn qs PUnit.unit fun q _ => do
            body q
            pure (ForInStep.yield PUnit.unit)).exec b = (res, { b with service := svc }) ∧
        svc.Scripted Fault.IsLoss ∧ svc.queued.length ≤ b.service.queued.length ∧
        ∃ xs, xs <+: qs ∧ u.deleteAll (done ++ xs) = some svc.tree ∧
          ((res = .ok () ∧ xs = qs) ∨
            (res = .error .connectionLoss ∧ svc.queued.length < b.service.queued.length) ∨
            (res = .error (.invalidPath "/" rootReason) ∧ xs ++ ["/"] <+: qs)) := by
  induction qs with
  | nil =>
    intro done b _ hs hdone _
    exact ⟨.ok (), b.service, rfl, hs, Nat.le_refl _, [], List.prefix_refl _, by simpa using hdone,
      .inl ⟨rfl, rfl⟩⟩
  | cons q qs ih =>
    intro done b hc hs hdone hready
    obtain ⟨n, hn, hleaf⟩ := hready.leaf hw hdone
    obtain ⟨res₁, svc₁, hrun₁, hs₁, hle₁, hend₁⟩ :=
      hbody q b n hc hs (deleteAll_wellFormed hw hdone) hn hleaf
    rw [List.forIn_cons, exec_bind, exec_bind, hrun₁]
    -- the deletes so far, with `q` deleted or not
    have hkeep : u.deleteAll (done ++ []) = some b.service.tree := by simpa using hdone
    rcases hend₁ with ⟨hroot, t', f, hdel, hend⟩ | ⟨rfl, htree, hend⟩
    · have hdone' : u.deleteAll (done ++ [q]) = some t' := by
        rw [deleteAll_append, hdone, Option.bind_some, deleteAll_cons_of_ok hdel]
        rfl
      rcases hend with ⟨rfl, htree⟩ | ⟨rfl, hlt, htree⟩
      · -- `q` is deleted and the pass goes on
        dsimp only
        obtain ⟨res, svc, hrun, hs', hle, xs, hpre, hxs, hcases⟩ :=
          ih (done ++ [q]) { b with service := svc₁ } hc hs₁ (by rw [htree]; exact hdone')
            hready.tail
        refine ⟨res, svc, by simpa using hrun, hs', Nat.le_trans hle hle₁, q :: xs,
          (List.prefix_cons_inj q).mpr hpre, by simpa using hxs, ?_⟩
        rcases hcases with ⟨rfl, rfl⟩ | ⟨rfl, hlt⟩ | ⟨rfl, hpre'⟩
        · exact .inl ⟨rfl, rfl⟩
        · exact .inr (.inl ⟨rfl, Nat.lt_of_lt_of_le hlt hle₁⟩)
        · exact .inr (.inr ⟨rfl, by simpa using (List.prefix_cons_inj q).mpr hpre'⟩)
      · dsimp only
        rcases htree with htree | htree
        · exact ⟨_, svc₁, rfl, hs₁, hle₁, [], List.nil_prefix, by rw [htree]; exact hkeep,
            .inr (.inl ⟨rfl, hlt⟩)⟩
        · exact ⟨_, svc₁, rfl, hs₁, hle₁, [q], by simp, by rw [htree]; exact hdone',
            .inr (.inl ⟨rfl, hlt⟩)⟩
    · rcases hend with rfl | ⟨rfl, hlt⟩
      · dsimp only
        exact ⟨_, svc₁, rfl, hs₁, hle₁, [], List.nil_prefix, by rw [htree]; exact hkeep,
          .inr (.inr ⟨rfl, by simp⟩)⟩
      · dsimp only
        exact ⟨_, svc₁, rfl, hs₁, hle₁, [], List.nil_prefix, by rw [htree]; exact hkeep,
          .inr (.inl ⟨rfl, hlt⟩)⟩

end Loop

section Removal

variable {t : Tree} {p : String}

/-- One attempt's removal of a stored subtree, on a live session under lost connections: it
deletes nodes under `p` only, and it returns with `p` gone, loses its connection, or, at the
root, fails with every other node deleted. -/
theorem exec_deleteTree_stored (hlive : b.Live i s) (hs : b.service.Scripted Fault.IsLoss)
    (hw : WellFormed b.service.tree.nodes) (hp : (lookup p b.service.tree.nodes).isSome) :
    ∃ res svc, (deleteTree i p).exec b = (res, { b with service := svc }) ∧
      svc.Scripted Fault.IsLoss ∧ svc.queued.length ≤ b.service.queued.length ∧
      Pruned b.service.tree p svc.tree ∧
      ((res = .ok () ∧ lookup p svc.tree.nodes = none) ∨
        (res = .error .connectionLoss ∧ svc.queued.length < b.service.queued.length) ∨
        (p = "/" ∧ res = .error (.invalidPath "/" rootReason) ∧
          ∀ k, (lookup k svc.tree.nodes).isSome → k = "/")) := by
  obtain ⟨fuel, hwalk, hfuel⟩ := exec_walkBound b
  obtain ⟨res₁, svc₁, hrun₁, hs₁, htree₁, hle₁, hend₁⟩ :=
    exec_listTree hw p fuel [p] 0 b hlive hs rfl (by simpa using hp)
  rw [deleteTree_eq, exec_bind_ok hwalk]
  rcases hend₁ with rfl | ⟨rfl, hlt₁⟩
  · -- the listing names the subtree, and the pass deletes it from its end
    have hl := walk_listing hw hp hfuel
    set order := b.service.tree.walk fuel [p] 0
    rw [exec_bind_ok hrun₁]
    obtain ⟨res, svc, hrun, hs', hle, xs, hpre, hxs, hcases⟩ :=
      exec_removeLoop (removesLeaf_removeOne hlive p) hw order.reverse [] { b with service := svc₁ }
        rfl hs₁ (by rw [htree₁]; rfl) (hl.ready hw)
    rw [List.nil_append] at hxs
    have hunder : ∀ k ∈ xs, Path.Under p k := fun k hk =>
      ((hl.mem k).mp (List.mem_reverse.mp (hpre.subset hk))).2
    refine ⟨res, svc, by simpa using hrun, hs', Nat.le_trans hle hle₁, ⟨xs, hxs, hunder⟩, ?_⟩
    rcases hcases with ⟨rfl, rfl⟩ | ⟨rfl, hlt⟩ | ⟨rfl, hpre'⟩
    · -- every listed node is deleted, `p` among them
      have hpmem : p ∈ order.reverse := List.mem_reverse.mpr ((hl.mem p).mpr ⟨hp, .refl⟩)
      refine .inl ⟨rfl, ?_⟩
      have := (deleteAll_present hw hxs p).not.mpr (by simp [hpmem])
      simpa using this
    · exact .inr (.inl ⟨rfl, Nat.lt_of_lt_of_le hlt hle₁⟩)
    · -- the pass stopped at the root, which is listed last: everything else is deleted
      obtain ⟨rest, hrest⟩ := hpre'
      have hroot : p = "/" := eq_root_of_under
        ((hl.mem "/").mp (List.mem_reverse.mp (by rw [← hrest]; simp))).2
      subst hroot
      have hrev : order.reverse = xs ++ "/" :: rest := by rw [← hrest]; simp
      have hnil := hl.rest_nil hrev
      subst hnil
      refine .inr (.inr ⟨rfl, rfl, fun k hk => ?_⟩)
      obtain ⟨hkt, hkxs⟩ := (deleteAll_present hw hxs k).mp hk
      have hkmem : k ∈ order.reverse :=
        List.mem_reverse.mpr ((hl.mem k).mpr ⟨hkt, under_root hw k hkt⟩)
      rw [hrev] at hkmem
      simpa [hkxs] using hkmem
  · rw [exec_bind_error hrun₁]
    exact ⟨_, svc₁, rfl, hs₁, hle₁, by rw [htree₁]; exact pruned_refl _ p,
      .inr (.inl ⟨rfl, hlt₁⟩)⟩

/-- One attempt's removal under a missing path fails, or loses its connection, and leaves the
tree. -/
theorem exec_deleteTree_missing (hlive : b.Live i s) (hs : b.service.Scripted Fault.IsLoss)
    (hp : lookup p b.service.tree.nodes = none) :
    ∃ res svc, (deleteTree i p).exec b = (res, { b with service := svc }) ∧
      svc.Scripted Fault.IsLoss ∧ svc.queued.length ≤ b.service.queued.length ∧
      svc.tree = b.service.tree ∧
      ((res = .error .connectionLoss ∧ svc.queued.length < b.service.queued.length) ∨
        ∃ e, res = .error e ∧ e ≠ .connectionLoss) := by
  obtain ⟨fuel, hwalk, hfuel⟩ := exec_walkBound b
  obtain ⟨fuel', rfl⟩ : ∃ fuel', fuel = fuel' + 1 := ⟨fuel - 1, by omega⟩
  obtain ⟨res₁, svc₁, hrun₁, hs₁, htree₁, hle₁, hend₁⟩ := exec_listTree_missing hlive hs hp fuel'
  rw [deleteTree_eq, exec_bind_ok hwalk]
  rcases hend₁ with ⟨rfl, hlt₁⟩ | ⟨e, rfl, hne⟩
  · rw [exec_bind_error hrun₁]
    exact ⟨_, svc₁, rfl, hs₁, hle₁, htree₁, .inl ⟨rfl, hlt₁⟩⟩
  · rw [exec_bind_error hrun₁]
    exact ⟨_, svc₁, rfl, hs₁, hle₁, htree₁, .inr ⟨e, rfl, hne⟩⟩

/-- The attempts of a subtree removal from `t`: a retry first probes `p` and returns when it is
missing. Each attempt starts from `t` with some nodes under `p` deleted (a first one from `t`
itself), and the one that does not lose its connection returns with `p` gone, fails on a
missing `p` leaving `t`, or fails at the root with every other node deleted. -/
theorem removal_attempts (hlive : b.Live i s) (hw : WellFormed t.nodes) (p : String) :
    Attempts i (fun i retry => do
        if retry then
          if (← onSession i (·.exists? · p)).isNone then return
        deleteTree i p)
      b.connector
      (fun r svc => svc.Scripted Fault.IsLoss ∧ Pruned t p svc.tree ∧ (r = false → svc.tree = t))
      (fun res svc => Pruned t p svc.tree ∧
        ((res = .ok () ∧ lookup p svc.tree.nodes = none) ∨
          (res ≠ .ok () ∧ lookup p t.nodes = none ∧ svc.tree = t) ∨
          (p = "/" ∧ res = .error (.invalidPath "/" rootReason) ∧
            ∀ k, (lookup k svc.tree.nodes).isSome → k = "/"))) := by
  -- the removal run from a pruned tree where `p` is still stored
  have hremove : ∀ b' : Backend, b'.Live i s → b'.service.Scripted Fault.IsLoss →
      Pruned t p b'.service.tree → (lookup p b'.service.tree.nodes).isSome →
      ∃ res svc, (deleteTree i p).exec b' = (res, { b' with service := svc }) ∧
        svc.queued.length ≤ b'.service.queued.length ∧
        ((res = .error .connectionLoss ∧ svc.queued.length < b'.service.queued.length ∧
            svc.Scripted Fault.IsLoss ∧ Pruned t p svc.tree ∧ (true = false → svc.tree = t)) ∨
          (res ≠ .error .connectionLoss ∧ Pruned t p svc.tree ∧
            ((res = .ok () ∧ lookup p svc.tree.nodes = none) ∨
              (res ≠ .ok () ∧ lookup p t.nodes = none ∧ svc.tree = t) ∨
              (p = "/" ∧ res = .error (.invalidPath "/" rootReason) ∧
                ∀ k, (lookup k svc.tree.nodes).isSome → k = "/")))) := by
    intro b' hlive' hs hpr hp
    obtain ⟨res, svc, hrun, hs', hle, hpr', hend⟩ :=
      exec_deleteTree_stored hlive' hs (hpr.wellFormed hw) hp
    obtain ⟨ds, hds, hdsu⟩ := hpr'
    have hpr'' : Pruned t p svc.tree := hpr.trans hds hdsu
    refine ⟨res, svc, hrun, hle, ?_⟩
    rcases hend with ⟨rfl, hgone⟩ | ⟨rfl, hlt⟩ | ⟨hroot, rfl, honly⟩
    · exact .inr ⟨by simp, hpr'', .inl ⟨rfl, hgone⟩⟩
    · exact .inl ⟨rfl, hlt, hs', hpr'', by simp⟩
    · exact .inr ⟨by simp, hpr'', .inr (.inr ⟨hroot, rfl, honly⟩)⟩
  intro r b' hc ⟨hs, hpr, hfirst⟩
  have hlive' : b'.Live i s := hlive.of_connector hc
  cases r with
  | false =>
    simp only [Bool.false_eq_true, ↓reduceIte]
    have htree := hfirst rfl
    by_cases hp : (lookup p b'.service.tree.nodes).isSome
    · exact hremove b' hlive' hs hpr hp
    · -- a first attempt on a missing path fails at once, or loses its connection
      have hp' : lookup p b'.service.tree.nodes = none := by simpa using hp
      obtain ⟨res, svc, hrun, hs', hle, htree', hend⟩ := exec_deleteTree_missing hlive' hs hp'
      refine ⟨res, svc, hrun, hle, ?_⟩
      rcases hend with ⟨rfl, hlt⟩ | ⟨e, rfl, hne⟩
      · exact .inl ⟨rfl, hlt, hs', by rw [htree']; exact hpr, by simp⟩
      · refine .inr ⟨by simpa using hne, by rw [htree']; exact hpr, .inr (.inl ⟨by simp, ?_, ?_⟩)⟩
        · rwa [← htree]
        · rw [htree', htree]
  | true =>
    simp only [↓reduceIte]
    obtain ⟨res₁, svc₁, hrun₁, hs₁, htree₁, hend₁⟩ := exec_exists hlive' hs p
    rcases hend₁ with ⟨rfl, hle₁⟩ | ⟨rfl, hlt₁⟩
    · by_cases hvalid : Path.IsValid p
      · rw [exec_bind_ok (by rw [hrun₁, exists?_of_isValid hvalid])]
        cases hp : lookup p b'.service.tree.nodes with
        | none =>
          -- the probe finds `p` gone: an earlier attempt removed it
          simp only [Option.map_none, Option.isNone_none, ↓reduceIte]
          exact ⟨.ok (), svc₁, rfl, hle₁, .inr ⟨by simp, by rw [htree₁]; exact hpr,
            .inl ⟨rfl, by rw [htree₁]; exact hp⟩⟩⟩
        | some n =>
          simp only [Option.map_some, Option.isNone_some, Bool.false_eq_true, ↓reduceIte]
          obtain ⟨res, svc, hrun, hle, hend⟩ := hremove { b' with service := svc₁ }
            (hlive'.withService svc₁) hs₁ (by rw [htree₁]; exact hpr) (by simp [htree₁, hp])
          refine ⟨res, svc, by simpa using hrun, Nat.le_trans hle hle₁, ?_⟩
          rcases hend with ⟨h1, h2, h3⟩ | h
          · exact .inl ⟨h1, Nat.lt_of_lt_of_le h2 hle₁, h3⟩
          · exact .inr h
      · -- a path that is not well formed is refused by the probe, and nothing lies under it
        have hmissing : lookup p t.nodes = none := by
          cases hp : lookup p t.nodes with
          | none => rfl
          | some n => exact absurd (isValid_of_lookup hw hp) hvalid
        have hfail : b'.service.tree.exists? p = .error (.invalidPath p
            ((Path.defect? p).map Path.Defect.reason |>.getD "")) := by
          unfold Tree.exists? Path.validate
          cases hd : Path.defect? p with
          | none => exact absurd hd hvalid
          | some d => simp [bind, Except.bind]
        rw [exec_bind_error (by rw [hrun₁, hfail])]
        have htree : b'.service.tree = t := hpr.eq_of_missing hw hmissing
        exact ⟨_, svc₁, rfl, hle₁, .inr ⟨by simp, by rw [htree₁]; exact hpr,
          .inr (.inl ⟨by simp, hmissing, by rw [htree₁, htree]⟩)⟩⟩
    · rw [exec_bind_error hrun₁]
      exact ⟨_, svc₁, rfl, Nat.le_of_lt hlt₁, .inl ⟨rfl, hlt₁, hs₁, by rw [htree₁]; exact hpr,
        by simp⟩⟩

end Removal

section Main

/-- Removing a subtree with the retrying client, under lost connections alone. On a live
session over a well-formed tree, with fewer queued faults than the retry budget allows and than
2^32: the listing of a stored subtree names each node under `p` once, before the nodes under it;
below any path but the root, the removal returns and leaves the pruned tree, that listing
deleted from its end, where exactly the nodes under `p` are gone, or fails on a missing `p`
leaving the tree as it was, and it returns on a stored `p`. The removal of the root is refused,
after every other node is deleted. -/
theorem deleteWithChildren_prunes (b : Backend) (i : Nat) (s : Session) (hlive : b.Live i s)
    (hw : WellFormed b.service.tree.nodes) (hs : b.service.Scripted Fault.IsLoss)
    (hbudget : b.service.queued.length < b.budget) (hwrap : b.service.queued.length < 2 ^ 32)
    (p : String) :
    ((lookup p b.service.tree.nodes).isSome → b.service.tree.Listing p (b.service.tree.below p)) ∧
      (p ≠ "/" → ∃ t', b.service.tree.prune p = some t' ∧
        (∀ k, (lookup k t'.nodes).isSome ↔
          (lookup k b.service.tree.nodes).isSome ∧ ¬ Path.Under p k) ∧
        ((((deleteWithChildren (pure i) p).exec b).1 = .ok () ∧
            ((deleteWithChildren (pure i) p).exec b).2.service.tree = t') ∨
          (((deleteWithChildren (pure i) p).exec b).1 ≠ .ok () ∧
            lookup p b.service.tree.nodes = none ∧
            ((deleteWithChildren (pure i) p).exec b).2.service.tree = b.service.tree)) ∧
        ((lookup p b.service.tree.nodes).isSome →
          ((deleteWithChildren (pure i) p).exec b).1 = .ok ())) ∧
      (p = "/" →
        ((deleteWithChildren (pure i) p).exec b).1 = .error (.invalidPath "/" rootReason) ∧
        ∀ k, (lookup k ((deleteWithChildren (pure i) p).exec b).2.service.tree.nodes).isSome ↔
          k = "/") := by
  obtain ⟨res, b', hrun, ⟨hpr, hend⟩, -, -, -⟩ :=
    exec_retrying i _ _ _ _ (removal_attempts hlive hw p) b rfl
      ⟨hs, pruned_refl _ p, fun _ => rfl⟩ hbudget (.inl hwrap)
  simp only [deleteWithChildren]
  rw [hrun]
  refine ⟨below_listing hw, fun hroot => ?_, fun hroot => ?_⟩
  · obtain ⟨t', hprune, hchar⟩ := prune_spec hw hroot
    refine ⟨t', hprune, hchar, ?_, fun hp => ?_⟩
    · rcases hend with ⟨rfl, hgone⟩ | ⟨hne, hmissing, htree⟩ | ⟨hroot', -⟩
      · -- `p` gone: the nodes removed are exactly those under it
        rw [hpr.prune hw hroot hgone] at hprune
        exact .inl ⟨rfl, Option.some.inj hprune⟩
      · exact .inr ⟨hne, hmissing, htree⟩
      · exact absurd hroot' hroot
    · rcases hend with ⟨rfl, -⟩ | ⟨-, hmissing, -⟩ | ⟨hroot', -⟩
      · rfl
      · simp [hmissing] at hp
      · exact absurd hroot' hroot
  · subst hroot
    -- the root stays in every tree the removal leaves
    obtain ⟨r, hr, -⟩ := (hpr.wellFormed hw).root
    rcases hend with ⟨-, hgone⟩ | ⟨-, hmissing, -⟩ | ⟨-, hres, honly⟩
    · simp [hgone] at hr
    · obtain ⟨r₀, hr₀, -⟩ := hw.root
      simp [hmissing] at hr₀
    · exact ⟨hres, fun k => ⟨honly k, fun hk => by simp [hk, hr]⟩⟩

/-- Lost replies on a listing and on a committed delete: the removal of `/a` retries twice and
returns. -/
theorem deleteWithChildren_after_lost_replies :
    let b : Backend :=
      { service := ({} : Service).run [.direct (.create "/a" [] Mode.persistent),
          .direct (.create "/a/b" [] Mode.persistent), .inject .getChildren .loseBeforeCommit,
          .inject .delete .loseAfterCommit],
        connector := { automatic := true, sessions := [⟨1, 0, .connected⟩] }, budget := 10 }
    ((deleteWithChildren (pure 0) "/a").exec b).1 = .ok () := by
  intro b
  have hq : b.service.queued = [.loseAfterCommit, .loseBeforeCommit] := rfl
  have hs : b.service.Scripted Fault.IsLoss := by
    intro f hf
    rw [hq] at hf
    rcases List.mem_pair.mp hf with rfl | rfl <;> trivial
  obtain ⟨-, -, -, -, hok⟩ := (deleteWithChildren_prunes b 0 ⟨1, 0, .connected⟩ ⟨rfl, rfl⟩
    (Service.run_wellFormed wellFormed_empty _) hs (by rw [hq]; decide) (by rw [hq]; decide)
    "/a").2.1 (by decide)
  exact hok (by decide +kernel)

/-- The root is listed and emptied like any node, but its own delete is refused: the removal of
`/` over a tree holding `/a` fails, and `/a` is gone. -/
theorem deleteWithChildren_root_fails :
    let b : Backend :=
      { service := ({} : Service).run [.direct (.create "/a" [] Mode.persistent)],
        connector := { automatic := true, sessions := [⟨1, 0, .connected⟩] }, budget := 10 }
    let r := (deleteWithChildren (pure 0) "/").exec b
    (lookup "/a" b.service.tree.nodes).isSome ∧
      r.1 = .error (.invalidPath "/" rootReason) ∧ (lookup "/a" r.2.service.tree.nodes).isNone := by
  decide +kernel

end Main

end Coordination.Op
