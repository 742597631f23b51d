import Coordination.Proofs.ClientRuns
import Coordination.Proofs.TreeShape

/-!
Creates and deletes of the retrying client under lost replies. A retried create first looks
whether its path exists and takes a node there as its own; a retried delete takes a missing node
as deleted. With no other writer, a create of a free path under a parent of no session, in a mode
without sequence numbers, and a delete of a leaf other than the root, end as one fault-free
operation from the same session ends, whatever connections are lost before or after their
changes; and a first attempt that loses nothing reports a node that exists to a create and a
missing node to a delete (`create_delete_idempotent`).

The guard looks at the requested path, which a sequential create only prefixes: a sequential
create whose reply is lost after its change creates a second node (`sequential_create_twice`).
-/

namespace Coordination.Op

open Coordination.Tree

variable {b : Backend} {i : Nat} {s : Session}

theorem exists?_of_isValid {t : Tree} {p : String} (hp : Path.IsValid p) :
    t.exists? p = .ok ((lookup p t.nodes).map (·.stat)) := by
  simp [Tree.exists?, validate_of_isValid hp, bind, Except.bind, pure, Except.pure]

theorem isValid_of_lookup {t : Tree} (hw : WellFormed t.nodes) {p : String} {n : TreeNode}
    (hn : lookup p t.nodes = some n) : Path.IsValid p := by
  by_cases hroot : p = "/"
  · subst hroot
    exact Path.isValid_root
  · exact (hw.parent p n hn hroot).1

section Guarded

variable {p : String} {t t' : Tree}

/-- A probe of `p` on a live session under lost connections: the tree stays, and the probe
reports `p` as the tree has it or loses its connection. -/
theorem exec_probe (hlive : b.Live i s) (hs : b.service.Scripted Fault.IsLoss) (hp : Path.IsValid p) :
    ∃ res svc, (onSession i (·.exists? · p)).exec b = (res, { b with service := svc }) ∧
      svc.Scripted Fault.IsLoss ∧ svc.tree = b.service.tree ∧
      ((res = .ok ((lookup p b.service.tree.nodes).map (·.stat)) ∧
          svc.queued.length ≤ b.service.queued.length) ∨
        (res = .error .connectionLoss ∧ svc.queued.length < b.service.queued.length)) := by
  rw [exec_onSession hlive.found]
  simp only [Session.exists?, Session.run_of_connected hlive.connected]
  refine ⟨_, _, rfl, hs.apply _ _, ?_, ?_⟩
  · rcases Service.apply_losses hs .exists fun t => (t.exists? p).map fun r => (r, t, []) with
      ⟨-, htree⟩ | ⟨-, -, htree | htree⟩ <;> simpa using htree
  · rcases Service.apply_losses hs .exists fun t => (t.exists? p).map fun r => (r, t, []) with
      ⟨hres, -⟩ | ⟨hres, hlt, -⟩
    · left
      refine ⟨?_, (Service.apply_queued _ _).2⟩
      rw [hres]
      simp [exists?_of_isValid hp, Except.map]
    · exact .inr ⟨hres, hlt⟩

/-- A change that turns `t` into `t'`, run by the service under lost connections from tree `t`:
it ends as on `t`, or loses its connection having changed the tree to `t'` or not. -/
theorem apply_change {α : Type} {svc : Service} (hs : svc.Scripted Fault.IsLoss) (k : OpKind)
    (f : Tree → Except Failure (α × Tree × List Fired)) (htree : svc.tree = t) {a : α}
    {fired : List Fired} (hok : f t = .ok (a, t', fired)) :
    (svc.apply k f).2.Scripted Fault.IsLoss ∧ (svc.apply k f).2.queued.length ≤ svc.queued.length ∧
      (((svc.apply k f).1 = .ok a ∧ (svc.apply k f).2.tree = t') ∨
        ((svc.apply k f).1 = .error .connectionLoss ∧
          (svc.apply k f).2.queued.length < svc.queued.length ∧
          ((svc.apply k f).2.tree = t ∨ (svc.apply k f).2.tree = t'))) := by
  refine ⟨hs.apply k f, (Service.apply_queued k f).2, ?_⟩
  have hend := Service.apply_losses hs k f
  rw [htree, after_of_ok hok, hok] at hend
  rcases hend with ⟨hres, htree'⟩ | hloss
  · exact .inl ⟨hres, htree'⟩
  · exact .inr hloss

theorem exec_create_change (hlive : b.Live i s) (hs : b.service.Scripted Fault.IsLoss)
    (htree : b.service.tree = t) {d : List UInt8} {m : Mode} {fired : List Fired}
    (hok : t.create p d m s.id = .ok (p, t', fired)) :
    ∃ res svc, (onSession i (·.create · p d m)).exec b = (res, { b with service := svc }) ∧
      svc.Scripted Fault.IsLoss ∧ svc.queued.length ≤ b.service.queued.length ∧
      ((res = .ok p ∧ svc.tree = t') ∨
        (res = .error .connectionLoss ∧ svc.queued.length < b.service.queued.length ∧
          (svc.tree = t ∨ svc.tree = t'))) := by
  rw [exec_onSession hlive.found]
  simp only [Session.create, Session.run_of_connected hlive.connected]
  exact ⟨_, _, rfl, apply_change hs .create _ htree hok⟩

theorem exec_delete_change (hlive : b.Live i s) (hs : b.service.Scripted Fault.IsLoss)
    (htree : b.service.tree = t) {fired : List Fired} (hok : t.delete p none = .ok (t', fired)) :
    ∃ res svc, (onSession i (·.delete · p none)).exec b = (res, { b with service := svc }) ∧
      svc.Scripted Fault.IsLoss ∧ svc.queued.length ≤ b.service.queued.length ∧
      ((res = .ok () ∧ svc.tree = t') ∨
        (res = .error .connectionLoss ∧ svc.queued.length < b.service.queued.length ∧
          (svc.tree = t ∨ svc.tree = t'))) := by
  rw [exec_onSession hlive.found]
  simp only [Session.delete, Session.run_of_connected hlive.connected]
  exact ⟨_, _, rfl, apply_change hs .delete _ htree
    (by simp [hok, Except.map] : _ = Except.ok ((), t', fired))⟩

end Guarded

section Tree

variable {t : Tree} {p q : String} {d : List UInt8} {m : Mode} {o : Nat} {par : TreeNode}

/-- A create of a free well-formed path under a stored parent of no session, in a mode without
sequence numbers, succeeds and creates that path. -/
theorem create_free (hp : Path.IsValid p) (hq : Path.parent p = some q)
    (hpar : lookup q t.nodes = some par) (heph : par.stat.isEphemeral = false)
    (hfree : lookup p t.nodes = none) (hm : m.sequential = false) :
    ∃ t' fired, t.create p d m o = .ok (p, t', fired) := by
  simp [Tree.create, validate_of_isValid hp, hq, hpar, heph, hfree, hm, bind, Except.bind, pure,
    Except.pure]

theorem lookup_created {r : String × Tree × List Fired} (h : t.create p d m o = .ok r) (k : String) :
    (lookup k r.2.1.nodes).isSome ↔ k = r.1 ∨ (lookup k t.nodes).isSome := by
  obtain ⟨q, par, par', fresh, hpar, -, -, hfree, -, -, -, hnodes⟩ := create_ok h
  rw [hnodes, lookup_update_append hfree]
  by_cases hkq : k = q
  · subst hkq
    simp [hpar]
  · by_cases hkp : k = r.1
    · subst hkp
      simp [hkq]
    · simp [hkq, hkp]

theorem lookup_deleted (hw : WellFormed t.nodes) {v : Option Int} {r : Tree × List Fired}
    (h : t.delete p v = .ok r) : lookup p r.1.nodes = none := by
  obtain ⟨n, q, par, hn, hleaf, hroot, hq, -, hr⟩ := delete_ok_of_wellFormed hw h
  have hqp : q ≠ p := hw.parent_ne_leaf hn hroot hq hn hleaf
  rw [hr]
  simp [lookup_update_without hw.nodup, Ne.symm hqp]

end Tree

section Guard

variable {α : Type} {p : String} {t t' : Tree}

/-- The attempts of a write guarded by a probe of `p`, whose change turns `t` into `t'`: a retry
first probes `p` and ends with `v` when `done` holds of what the probe finds; `done` fails on `t`
and holds on `t'`. Each attempt starts from `t` or, as a retry, from `t'`, and the one that does
not lose its connection ends with `v` in `t'`. -/
theorem guarded_attempts (hlive : b.Live i s) (hp : Path.IsValid p) (done : Option Stat → Bool)
    (v : α) (op : Nat → Op α) (hbefore : done ((lookup p t.nodes).map (·.stat)) = false)
    (hafter : done ((lookup p t'.nodes).map (·.stat)) = true)
    (hop : ∀ b' : Backend, b'.connector = b.connector → b'.service.Scripted Fault.IsLoss →
      b'.service.tree = t → ∃ res svc, (op i).exec b' = (res, { b' with service := svc }) ∧
        svc.Scripted Fault.IsLoss ∧ svc.queued.length ≤ b'.service.queued.length ∧
        ((res = .ok v ∧ svc.tree = t') ∨
          (res = .error .connectionLoss ∧ svc.queued.length < b'.service.queued.length ∧
            (svc.tree = t ∨ svc.tree = t')))) :
    Attempts i (fun i retry => do
        if retry then
          if done (← onSession i (·.exists? · p)) then return v
        op i)
      b.connector (fun r svc => svc.Scripted Fault.IsLoss ∧ (svc.tree = t ∨ r = true ∧ svc.tree = t'))
      (fun res svc => res = .ok v ∧ svc.tree = t') := by
  -- the guarded write itself, from `t`, as the invariant of the next attempt sees it
  have hwrite : ∀ b' : Backend, b'.connector = b.connector → b'.service.Scripted Fault.IsLoss →
      b'.service.tree = t → ∃ res svc, (op i).exec b' = (res, { b' with service := svc }) ∧
        svc.queued.length ≤ b'.service.queued.length ∧
        ((res = .error .connectionLoss ∧ svc.queued.length < b'.service.queued.length ∧
            svc.Scripted Fault.IsLoss ∧ (svc.tree = t ∨ True ∧ svc.tree = t')) ∨
          (res ≠ .error .connectionLoss ∧ res = .ok v ∧ svc.tree = t')) := by
    intro b' hc hs htree
    obtain ⟨res, svc, hrun, hsc, hle, hend⟩ := hop b' hc hs htree
    refine ⟨res, svc, hrun, hle, ?_⟩
    rcases hend with ⟨rfl, htree'⟩ | ⟨rfl, hlt, htree'⟩
    · exact .inr ⟨by simp, rfl, htree'⟩
    · exact .inl ⟨rfl, hlt, hsc, by simpa using htree'⟩
  intro r b' hc ⟨hs, htree⟩
  cases r with
  | false =>
    obtain ⟨res, svc, hrun, hle, hend⟩ := hwrite b' hc hs (by simpa using htree)
    exact ⟨res, svc, by simpa using hrun, hle, by simpa using hend⟩
  | true =>
    have hlive' : b'.Live i s := ⟨hc ▸ hlive.found, hlive.connected⟩
    obtain ⟨res₁, svc₁, hrun₁, hsc₁, htree₁, hend₁⟩ := exec_probe hlive' hs hp
    simp only [↓reduceIte]
    rcases hend₁ with ⟨rfl, hle₁⟩ | ⟨rfl, hlt₁⟩
    · rw [exec_bind_ok hrun₁]
      rcases htree with htree | ⟨-, htree⟩
      · -- the probe finds `t`: the write runs
        simp only [htree, hbefore, Bool.false_eq_true, ↓reduceIte]
        obtain ⟨res, svc, hrun, hle, hend⟩ := hwrite { b' with service := svc₁ } hc hsc₁
          (by rw [htree₁, htree])
        refine ⟨res, svc, by simpa using hrun, Nat.le_trans hle hle₁, ?_⟩
        rcases hend with ⟨h1, h2, h3, h4⟩ | h
        · exact .inl ⟨h1, Nat.lt_of_lt_of_le h2 hle₁, h3, h4⟩
        · exact .inr ⟨h.1, h.2⟩
      · -- the probe finds what an earlier attempt left: the write is done
        simp only [htree, hafter, ↓reduceIte]
        exact ⟨.ok v, svc₁, rfl, hle₁, .inr ⟨by simp, rfl, by rw [htree₁, htree]⟩⟩
    · rw [exec_bind_error hrun₁]
      exact ⟨_, svc₁, rfl, Nat.le_of_lt hlt₁, .inl ⟨rfl, hlt₁, hsc₁, by rw [htree₁]; simpa using htree⟩⟩

end Guard

section Idempotence

variable {t : Tree} {p : String} {d : List UInt8} {m : Mode} {o : Nat}

/-- In a well-formed tree a create of a stored path, in a mode without sequence numbers, finds
the node there. -/
theorem create_stored (hw : WellFormed t.nodes) (hm : m.sequential = false)
    (hstored : (lookup p t.nodes).isSome) : t.create p d m o = .error (.nodeExists p) := by
  obtain ⟨n, hn⟩ := Option.isSome_iff_exists.mp hstored
  by_cases hroot : p = "/"
  · subst hroot
    simp [Tree.create, validate_of_isValid Path.isValid_root, parent_root, bind, Except.bind, throw,
      throwThe, MonadExcept.throw]
  · obtain ⟨hp, q, par, hq, hpar, hname⟩ := hw.parent p n hn hroot
    -- the parent lists a child, so it belongs to no session
    have heph : par.stat.isEphemeral = false := by
      by_contra hne
      have hleaf := hw.leaf q par hpar (by simpa [Stat.isEphemeral] using hne)
      simp [hleaf] at hname
    simp [Tree.create, validate_of_isValid hp, hq, hpar, heph, hm, hn, bind, Except.bind, throw,
      throwThe, MonadExcept.throw]

theorem delete_missing (hp : Path.IsValid p) (hfree : lookup p t.nodes = none) :
    t.delete p none = .error (.noNode p) := by
  simp [Tree.delete, Tree.node, validate_of_isValid hp, hfree, bind, Except.bind, throw, throwThe,
    MonadExcept.throw]

/-- Creates and deletes of the retrying client are idempotent under lost replies. On a live
session, over a well-formed tree, with every queued fault a connection lost before or after the
change (no other writer), fewer of them than the retry budget allows and than 2^32, and a create
mode without sequence numbers: a create of a free well-formed path under a stored parent of no
session returns the path and leaves the tree one fault-free create from the session leaves, one
node more; a delete of a leaf other than the root returns and leaves the tree one fault-free
delete leaves; and when no fault is queued for the first attempt's operation, a create of a stored
path reports that it exists and a delete of a missing well-formed path that it is missing. -/
theorem create_delete_idempotent (b : Backend) (i : Nat) (s : Session) (hlive : b.Live i s)
    (hw : WellFormed b.service.tree.nodes) (hs : b.service.Scripted Fault.IsLoss)
    (hbudget : b.service.queued.length < b.budget) (hwrap : b.service.queued.length < 2 ^ 32)
    (p : String) (d : List UInt8) (m : Mode) (hm : m.sequential = false) :
    ((Path.IsValid p ∧ lookup p b.service.tree.nodes = none ∧
        ∃ q par, Path.parent p = some q ∧ lookup q b.service.tree.nodes = some par ∧
          par.stat.isEphemeral = false) →
      ∃ t' fired, b.service.tree.create p d m s.id = .ok (p, t', fired) ∧
        (∀ k, (lookup k t'.nodes).isSome ↔ k = p ∨ (lookup k b.service.tree.nodes).isSome) ∧
        ((create (pure i) p d m).exec b).1 = .ok p ∧
        ((create (pure i) p d m).exec b).2.service.tree = t') ∧
    (∀ n, lookup p b.service.tree.nodes = some n → p ≠ "/" → n.children = [] →
      ∃ t' fired, b.service.tree.delete p none = .ok (t', fired) ∧
        ((delete (pure i) p).exec b).1 = .ok () ∧
        ((delete (pure i) p).exec b).2.service.tree = t') ∧
    ((b.service.takeFault .create).1 = none → (lookup p b.service.tree.nodes).isSome →
      ((create (pure i) p d m).exec b).1 = .error (.nodeExists p)) ∧
    ((b.service.takeFault .delete).1 = none → Path.IsValid p → lookup p b.service.tree.nodes = none →
      ((delete (pure i) p).exec b).1 = .error (.noNode p)) := by
  have hpos : 0 < b.budget := Nat.lt_of_le_of_lt (Nat.zero_le _) hbudget
  refine ⟨?_, ?_, ?_, ?_⟩
  · rintro ⟨hp, hfree, q, par, hq, hpar, heph⟩
    obtain ⟨t', fired, hok⟩ := create_free (d := d) (o := s.id) hp hq hpar heph hfree hm
    have hnew := lookup_created hok
    have hmade : (lookup p t'.nodes).isSome := (hnew p).mpr (.inl rfl)
    have hatt := guarded_attempts hlive hp Option.isSome p (fun i => onSession i (·.create · p d m))
      (by simp [hfree]) (by simpa using hmade)
      fun b' hc hs' htree => exec_create_change (hlive.of_connector hc) hs' htree hok
    obtain ⟨res, b', hrun, ⟨hres, htree⟩, -⟩ :=
      exec_retrying i _ b.connector _ _ hatt b rfl ⟨hs, .inl rfl⟩ hbudget (.inl hwrap)
    refine ⟨t', fired, hok, hnew, ?_, ?_⟩
    · simp only [create]
      rw [hrun, hres]
    · simp only [create]
      rw [hrun, htree]
  · intro n hn hroot hleaf
    obtain ⟨⟨t', fired⟩, hok⟩ := delete_leaf hw hn hleaf hroot
    have hgone := lookup_deleted hw hok
    have hatt := guarded_attempts hlive (isValid_of_lookup hw hn) Option.isNone ()
      (fun i => onSession i (·.delete · p none)) (by simp [hn]) (by simp [hgone])
      fun b' hc hs' htree => exec_delete_change (hlive.of_connector hc) hs' htree hok
    obtain ⟨res, b', hrun, ⟨hres, htree⟩, -⟩ :=
      exec_retrying i _ b.connector _ _ hatt b rfl ⟨hs, .inl rfl⟩ hbudget (.inl hwrap)
    refine ⟨t', fired, hok, ?_, ?_⟩
    · simp only [delete]
      rw [hrun, hres]
    · simp only [delete]
      rw [hrun, htree]
  · intro hnone hstored
    have hval : (s.create b.service p d m).1 = .error (.nodeExists p) := by
      simp only [Session.create, Session.run_of_connected hlive.connected,
        Service.apply_of_unfaulted hnone, create_stored hw hm hstored]
      rfl
    have hfirst := exec_onSession hlive.found (α := String) fun x svc => x.create svc p d m
    rw [hval] at hfirst
    simp only [create]
    rw [exec_retrying_first i _ (by simpa using hfirst) (by simp) hpos]
  · intro hnone hp hfree
    have hval : (s.delete b.service p none).1 = .error (.noNode p) := by
      simp only [Session.delete, Session.run_of_connected hlive.connected,
        Service.apply_of_unfaulted hnone, delete_missing hp hfree]
      rfl
    have hfirst := exec_onSession hlive.found (α := Unit) fun x svc => x.delete svc p none
    rw [hval] at hfirst
    simp only [delete]
    rw [exec_retrying_first i _ (by simpa using hfirst) (by simp) hpos]

/-- On a connected session over the empty tree, with one create queued to lose its connection
after committing, creating `/a` retries and answers as the committed create did. -/
theorem create_after_lost_commit :
    let b : Backend :=
      { service := ({} : Service).inject .create .loseAfterCommit,
        connector := { automatic := true, sessions := [⟨1, 0, .connected⟩] }, budget := 10 }
    ((create (pure 0) "/a" [] Mode.persistent).exec b).1 = .ok "/a" := by
  intro b
  have hs : b.service.Scripted Fault.IsLoss := by
    simp [b, Service.Scripted, Service.queued, Service.inject, Fault.IsLoss]
  obtain ⟨t', fired, -, -, hres, -⟩ := (create_delete_idempotent b 0 ⟨1, 0, .connected⟩ ⟨rfl, rfl⟩
    wellFormed_empty hs (by decide) (by decide) "/a" [] .persistent rfl).1
    ⟨by decide, by decide, "/", _, rfl, rfl, rfl⟩
  exact hres

/-- A sequential create is not idempotent: when the first attempt commits and loses its
connection, the retry finds no node at the requested prefix and creates a second one. -/
theorem sequential_create_twice :
    let b : Backend :=
      { service := (({} : Service).createDirect "/q" [] Mode.persistent).2.inject
          .create .loseAfterCommit,
        connector := { automatic := true, sessions := [⟨1, 0, .connected⟩] }, budget := 10 }
    let r := (create (pure 0) "/q/item-" [] Mode.persistentSequential).exec b
    r.1 = .ok "/q/item-0000000001" ∧
      (lookup "/q" b.service.tree.nodes).map (·.children) = some [] ∧
      (lookup "/q" r.2.service.tree.nodes).map (·.children) =
        some ["item-0000000000", "item-0000000001"] := by
  decide +kernel

end Idempotence

end Coordination.Op
