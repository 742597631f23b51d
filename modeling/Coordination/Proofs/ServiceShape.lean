import Coordination.Service.Moves
import Coordination.Proofs.EphemeralRemoval

/-!
The node tree of the service keeps its shape along every run. The service changes its tree only
through the tree's own operations, run on a session's request (under whatever fault is queued
for it), run directly, or run one delete after the other when a session ends; each of them keeps
`Tree.WellFormed`, so every tree reachable from the fresh service is well formed
(`run_wellFormed`). A change that fails leaves the service as it was (`change_of_error`), and
when a session other than the owner 0 of persistent nodes ends, its nodes are removed as
`Tree.removeEphemerals_spec` says (`node_tree_invariant`).
-/

namespace Coordination.Service

open Coordination.Tree

/-- A change of the tree that gives a well-formed tree whenever it succeeds on one. -/
def KeepsShape {α : Type} (f : Tree → Except Failure (α × Tree × List Fired)) : Prop :=
  ∀ t r, WellFormed t.nodes → f t = .ok r → WellFormed r.2.1.nodes

theorem map_eq_ok {ε α β : Type} {g : α → β} {x : Except ε α} {b : β} (h : x.map g = .ok b) :
    ∃ a, x = .ok a ∧ b = g a := by
  cases x with
  | error e => simp [Except.map] at h
  | ok a =>
    simp only [Except.map, Except.ok.injEq] at h
    exact ⟨a, rfl, h.symm⟩

theorem keepsShape_of_nodes {α β : Type} (read : Tree → Except Failure β)
    (g : Tree → β → α × Tree × List Fired) (hg : ∀ t b, (g t b).2.1.nodes = t.nodes) :
    KeepsShape fun t => (read t).map (g t) := by
  intro t r hw h
  obtain ⟨b, -, rfl⟩ := map_eq_ok h
  rw [hg]
  exact hw

theorem keepsShape_create (p : String) (d : List UInt8) (m : Mode) (owner : Nat) :
    KeepsShape (·.create p d m owner) :=
  fun _ _ hw h => create_wellFormed hw h

theorem keepsShape_setData (p : String) (d : List UInt8) (v : Option Int) :
    KeepsShape (·.setData p d v) :=
  fun _ _ hw h => setData_wellFormed hw h

theorem keepsShape_delete (p : String) (v : Option Int) :
    KeepsShape fun t => (t.delete p v).map fun (t', f) => ((), t', f) := by
  intro t r hw h
  obtain ⟨⟨t', f⟩, hdel, rfl⟩ := map_eq_ok h
  exact delete_wellFormed hw hdel

theorem change_of_error {α : Type} (s : Service) (f : Tree → Except Failure (α × Tree × List Fired))
    {e : Failure} (h : (s.change f).1 = .error e) : (s.change f).2 = s := by
  unfold change at h ⊢
  split
  · rename_i heq
    rw [heq] at h
    cases h
  · rfl

section Steps

variable {s : Service}

theorem change_wellFormed {α : Type} {f : Tree → Except Failure (α × Tree × List Fired)}
    (hf : KeepsShape f) (hs : WellFormed s.tree.nodes) : WellFormed (s.change f).2.tree.nodes := by
  unfold change
  split
  · rename_i a t fired h
    exact hf _ (a, t, fired) hs h
  · exact hs

theorem applyDirect_wellFormed (hs : WellFormed s.tree.nodes) (c : DirectChange) :
    WellFormed (s.applyDirect c).tree.nodes := by
  cases c with
  | create p d m => exact change_wellFormed (keepsShape_create p d m 0) hs
  | setData p d => exact change_wellFormed (keepsShape_setData p d none) hs
  | delete p => exact change_wellFormed (keepsShape_delete p none) hs

theorem foldl_applyDirect_wellFormed (cs : List DirectChange) (hs : WellFormed s.tree.nodes) :
    WellFormed (cs.foldl applyDirect s).tree.nodes := by
  induction cs generalizing s with
  | nil => exact hs
  | cons c cs ih => exact ih (applyDirect_wellFormed hs c)

theorem takeFault_tree (k : OpKind) : (s.takeFault k).2.tree = s.tree := by
  unfold takeFault
  split <;> rfl

/-- A session operation keeps the shape under every fault: the faults run direct changes or
the operation itself, or nothing. -/
theorem apply_wellFormed {α : Type} {f : Tree → Except Failure (α × Tree × List Fired)}
    (hf : KeepsShape f) (hs : WellFormed s.tree.nodes) (k : OpKind) :
    WellFormed (s.apply k f).2.tree.nodes := by
  have hfault := takeFault_tree (s := { s with ops := s.ops + 1 }) k
  unfold apply
  dsimp only
  split <;> rename_i s' heq <;> rw [heq] at hfault <;> simp only at hfault
  · exact change_wellFormed hf (hfault ▸ hs)
  · exact hfault ▸ hs
  · exact change_wellFormed hf (hfault ▸ hs)
  · rename_i cs
    exact change_wellFormed hf (foldl_applyDirect_wellFormed cs (hfault ▸ hs))
  · exact hfault ▸ hs

/-- An ending session keeps the shape: forgetting watches leaves the nodes, and the removal of
its nodes is a series of deletes. -/
theorem endSession_wellFormed (hs : WellFormed s.tree.nodes) (o : Nat) :
    WellFormed (s.endSession o).tree.nodes :=
  removeEphemerals_wellFormed (t := s.tree.forgetWatches o) hs o

theorem sessionRun_wellFormed {α : Type} {f : Tree → Except Failure (α × Tree × List Fired)}
    (hf : KeepsShape f) (hs : WellFormed s.tree.nodes) (sess : Session) (k : OpKind) :
    WellFormed (sess.run s k f).2.tree.nodes := by
  unfold Session.run
  split
  · exact hs
  · exact apply_wellFormed hf hs k

theorem sessionRequest_wellFormed (hs : WellFormed s.tree.nodes) (sess : Session)
    (r : SessionRequest) : WellFormed (r.run sess s).2.tree.nodes := by
  cases r with
  | «exists» p =>
    apply sessionRun_wellFormed _ hs
    exact keepsShape_of_nodes _ _ fun _ _ => rfl
  | getChildren p =>
    apply sessionRun_wellFormed _ hs
    exact keepsShape_of_nodes _ _ fun _ _ => rfl
  | getChildrenWithStat p w =>
    apply sessionRun_wellFormed _ hs
    exact keepsShape_of_nodes _ _ fun _ _ => by cases w <;> rfl
  | getData p =>
    apply sessionRun_wellFormed _ hs
    exact keepsShape_of_nodes _ _ fun _ _ => rfl
  | getDataWithStat p w =>
    apply sessionRun_wellFormed _ hs
    exact keepsShape_of_nodes _ _ fun _ _ => by cases w <;> rfl
  | setData p d v => exact sessionRun_wellFormed (keepsShape_setData p d v) hs sess _
  | create p d m => exact sessionRun_wellFormed (keepsShape_create p d m sess.id) hs sess _
  | delete p v => exact sessionRun_wellFormed (keepsShape_delete p v) hs sess _

theorem directRequest_wellFormed (hs : WellFormed s.tree.nodes) (r : DirectRequest) :
    WellFormed (r.run s).2.tree.nodes := by
  cases r with
  | create p d m => exact change_wellFormed (keepsShape_create p d m 0) hs
  | setData p d => exact change_wellFormed (keepsShape_setData p d none) hs
  | delete p => exact change_wellFormed (keepsShape_delete p none) hs
  | «exists» p =>
    simp only [DirectRequest.run]
    split <;> exact hs
  | getData p => exact hs
  | getChildren p => exact hs

theorem control_wellFormed (hs : WellFormed s.tree.nodes) (sess : Session) (c : Control) :
    WellFormed (sess.control s c).2.1.tree.nodes := by
  cases c with
  | establish => exact hs
  | dropConnection => exact hs
  | expire =>
    simp only [Session.control, Session.expire]
    split
    · exact hs
    · exact hs
    · exact endSession_wellFormed hs sess.id
  | close =>
    simp only [Session.control, Session.close]
    split
    · exact hs
    · exact endSession_wellFormed hs sess.id

theorem step_wellFormed (hs : WellFormed s.tree.nodes) (mv : Move) :
    WellFormed (s.step mv).tree.nodes := by
  cases mv with
  | session sess r => exact sessionRequest_wellFormed hs sess r
  | direct r => exact directRequest_wellFormed hs r
  | control sess c => exact control_wellFormed hs sess c
  | inject k f => exact hs
  | openSession => exact hs

theorem run_wellFormed (hs : WellFormed s.tree.nodes) (ms : List Move) :
    WellFormed (s.run ms).tree.nodes := by
  induction ms generalizing s with
  | nil => exact hs
  | cons mv ms ih => exact ih (step_wellFormed hs mv)

end Steps

/-- The node tree of the service: every tree reachable from the fresh service is well formed; a
create, data change or delete that fails leaves the service as it was; and when a session other
than 0 ends on a reachable tree, the removal of its nodes deletes each of them, in whatever order
they are taken and always to the same tree, counts them, and leaves exactly the nodes the session
does not own. -/
theorem node_tree_invariant :
    (∀ ms : List Move, WellFormed (({} : Service).run ms).tree.nodes) ∧
      (∀ (s : Service) (p : String) (d : List UInt8) (m : Mode) (owner : Nat) (v : Option Int)
          (e : Failure),
        ((s.change (·.create p d m owner)).1 = .error e → (s.change (·.create p d m owner)).2 = s) ∧
        ((s.change (·.setData p d v)).1 = .error e → (s.change (·.setData p d v)).2 = s) ∧
        ((s.change fun t => (t.delete p v).map fun (t', f) => ((), t', f)).1 = .error e →
          (s.change fun t => (t.delete p v).map fun (t', f) => ((), t', f)).2 = s)) ∧
      ∀ (ms : List Move) (o : Nat), o ≠ 0 →
        let t := (({} : Service).run ms).tree
        (t.removeEphemerals o).1 = (t.ownedBy o).length ∧
          (∀ ps, ps.Perm (t.ownedBy o) → t.deleteAll ps = some (t.removeEphemerals o).2.1) ∧
          ∀ k, (lookup k (t.removeEphemerals o).2.1.nodes).isSome ↔
            ∃ n, lookup k t.nodes = some n ∧ n.stat.ephemeralOwner ≠ o := by
  have hreach : ∀ ms : List Move, WellFormed (({} : Service).run ms).tree.nodes :=
    run_wellFormed wellFormed_empty
  refine ⟨hreach, fun s p d m owner v e => ?_, fun ms o ho => removeEphemerals_spec (hreach ms) ho⟩
  exact ⟨change_of_error s _, change_of_error s _, change_of_error s _⟩

/-- Session 1 makes one ephemeral node: ending it removes that one node, and a create at the
root, which has no parent, fails and changes nothing. -/
theorem node_tree_invariant_one_session :
    let s := ({} : Service).run [.session ⟨1, 0, .connected⟩ (.create "/e" [] Mode.ephemeralPlain)]
    (s.tree.removeEphemerals 1).1 = 1 ∧
      (s.change (·.create "/" [] Mode.persistent 1)).1 = .error (.nodeExists "/") ∧
      (s.change (·.create "/" [] Mode.persistent 1)).2 = s := by
  intro s
  have howned : s.tree.ownedBy 1 = ["/e"] := by decide
  have hfail : (s.change (·.create "/" [] Mode.persistent 1)).1 = .error (.nodeExists "/") := rfl
  refine ⟨?_, hfail, (node_tree_invariant.2.1 s "/" [] Mode.persistent 1 none _).1 hfail⟩
  rw [(node_tree_invariant.2.2 _ 1 Nat.one_ne_zero).1, howned]
  rfl

end Coordination.Service
