import Mathlib
import Coordination.Proofs.SubtreeRemoval

/-!
Listing every node below a node with the retrying client. The listing keeps a stack of paths
relative to the top node, its top first: it takes the top entry, reports it, reads the entry's
children and pushes their relative paths, the first child on top. So it lists the subtree depth
first, each node before the nodes below it and the children of a node in the order the node
keeps them, sorted by name: the order of `Tree.descendants`, the recursion of a depth-first walk
(`descendants_eq`), which names every node strictly below its start once (`mem_descendants`,
`nodup_descendants`).

The stack carries the invariant of the loop: what is still to be listed is, entry after entry,
the entry and the nodes below it (`Tree.expand`, `exec_walkStack`). On a well-formed tree, under
lost connections only, with a budget above the faults queued, the listing of a stored node
returns exactly the nodes below it, named relative to it, in that order, and reads the children
of each node of the subtree once with an answer; a missing node fails as missing
(`allChildren_preorder`).
-/

namespace Coordination

namespace Path

theorem Under.trans {p q k : String} (h₁ : Under p q) (h₂ : Under q k) : Under p k := by
  induction h₂ with
  | refl => exact h₁
  | child hk _ ih => exact .child hk ih

theorem Under.parent_of_ne {p k : String} (h : Under p k) (hne : k ≠ p) :
    ∃ q, parent k = some q ∧ Under p q := by
  cases h with
  | refl => exact absurd rfl hne
  | child hk hq => exact ⟨_, hk, hq⟩

theorem Under.total {p q k : String} (hp : Under p k) (hq : Under q k) : Under p q ∨ Under q p := by
  induction hp with
  | refl => exact .inr hq
  | @child k r hk hpr ih =>
    -- `q` is `k` itself, or lies at or above the parent `r` of `k`
    cases hq with
    | refl => exact .inl (.child hk hpr)
    | child hk' hqr =>
      rw [hk] at hk'
      cases hk'
      exact ih hqr

theorem ne_of_parent {k q : String} (h : parent k = some q) : k ≠ q := by
  rintro rfl
  exact Nat.lt_irrefl _ (length_lt_of_parent h)

theorem Under.eq_of_siblings {a c x : String} (ha : parent a = some x) (hc : parent c = some x)
    (h : Under a c) : a = c := by
  by_contra hne
  obtain ⟨q, hq, hu⟩ := h.parent_of_ne (Ne.symm hne)
  rw [hc] at hq
  cases hq
  exact Under.not_parent ha hu

theorem join_append (p r c : String) (hr : r ≠ "") :
    join p (r ++ "/" ++ c) = join (join p r) c := by
  have hr' : r.toList ≠ [] := by simpa using hr
  -- a join with a name that is not empty is longer than the root
  have hne : (join p r).toList ≠ ['/'] := by
    intro h
    have hlen := congrArg List.length h
    have hpos := List.length_pos_iff.mpr hr'
    unfold join at hlen
    split at hlen <;> simp [hr] at hlen
    omega
  have hj : join (join p r) c = join p r ++ "/" ++ c := if_neg hne
  rw [hj]
  unfold join
  split <;> simp [String.append_assoc]

theorem getLast_join_empty (p : String) : (join p "").toList.getLast? = some '/' := by
  unfold join
  split <;> simp

end Path

namespace Tree

variable {t : Tree} {x k : String}

theorem kidsOf_of_missing (hx : lookup x t.nodes = none) : t.kidsOf x = [] := by
  simp [kidsOf, hx]

theorem kidsOf_of_lookup {n : TreeNode} (hx : lookup x t.nodes = some n) :
    t.kidsOf x = n.children.map (Path.join x) := by
  simp [kidsOf, hx]

section Preorder

/-- The nodes below `x`, depth first: each child of `x`, in the order `x` keeps its children,
followed by the nodes below that child, at most `fuel` levels down. -/
def preorder (t : Tree) : Nat → String → List String
  | 0, _ => []
  | fuel + 1, x => (t.kidsOf x).flatMap fun k => k :: t.preorder fuel k

/-- A bound on the length of every stored path: their lengths added up. -/
def pathBound (t : Tree) : Nat := (t.nodes.map fun e => e.1.toList.length).sum

/-- Every node strictly below `x`, depth first, the children of each node in the order the node
keeps them; deep enough that no stored path is cut off. -/
def descendants (t : Tree) (x : String) : List String := t.preorder (t.pathBound + 1) x

theorem length_le_pathBound {n : TreeNode} (hx : lookup x t.nodes = some n) :
    x.toList.length ≤ t.pathBound := by
  have hmem : x ∈ t.nodes.map (·.1) := lookup_isSome_iff.mp (by simp [hx])
  obtain ⟨e, he, rfl⟩ := List.mem_map.mp hmem
  exact List.le_sum_of_mem (List.mem_map.mpr ⟨e, he, rfl⟩)

variable (hw : WellFormed t.nodes)
include hw

theorem pathBound_lt_of_kid {n : Nat} (hx : t.pathBound < x.toList.length + (n + 1))
    (hk : k ∈ t.kidsOf x) : t.pathBound < k.toList.length + n := by
  have := Path.length_lt_of_parent (mem_kidsOf hw hk).1
  omega

/-- Below a path longer than the bound nothing is stored, so one more level of depth changes
nothing. -/
theorem preorder_succ (n : Nat) :
    ∀ x, t.pathBound < x.toList.length + n → t.preorder (n + 1) x = t.preorder n x := by
  induction n with
  | zero =>
    intro x hx
    have hnone : lookup x t.nodes = none := by
      cases h : lookup x t.nodes with
      | none => rfl
      | some m => exact absurd (length_le_pathBound h) (by omega)
    simp [preorder, kidsOf_of_missing hnone]
  | succ n ih =>
    intro x hx
    rw [preorder, preorder]
    refine List.flatMap_congr fun k hk => ?_
    rw [ih k (pathBound_lt_of_kid hw hx hk)]

/-- The depth-first recursion: the nodes below `x` are its children in order, each followed by
the nodes below it. -/
theorem descendants_eq (x : String) :
    t.descendants x = (t.kidsOf x).flatMap fun k => k :: t.descendants k := by
  unfold descendants
  rw [preorder]
  refine List.flatMap_congr fun k hk => ?_
  rw [preorder_succ hw _ k (pathBound_lt_of_kid hw (by omega) hk)]

theorem exists_kid_under (hk : (lookup k t.nodes).isSome) (hu : Path.Under x k) (hne : k ≠ x) :
    ∃ c ∈ t.kidsOf x, Path.Under c k := by
  induction hu with
  | refl => exact absurd rfl hne
  | @child k q hq hxq ih =>
    by_cases hqx : q = x
    · subst hqx
      exact ⟨k, mem_kidsOf_of_parent hw hk hq, .refl⟩
    · obtain ⟨c, hc, hcq⟩ := ih (stored_of_under hw (.child hq .refl) hk) hqx
      exact ⟨c, hc, .child hq hcq⟩

theorem mem_preorder (n : Nat) : ∀ x, t.pathBound < x.toList.length + n → ∀ k,
    k ∈ t.preorder n x ↔ (lookup k t.nodes).isSome ∧ Path.Under x k ∧ k ≠ x := by
  induction n with
  | zero =>
    intro x hx k
    simp only [preorder, List.not_mem_nil, false_iff]
    rintro ⟨hk, hu, -⟩
    -- a stored node below `x` would make `x` stored, and no stored path is that long
    obtain ⟨m, hm⟩ := Option.isSome_iff_exists.mp (stored_of_under hw hu hk)
    have := length_le_pathBound hm
    omega
  | succ n ih =>
    intro x hx k
    simp only [preorder, List.mem_flatMap, List.mem_cons]
    constructor
    · rintro ⟨c, hc, rfl | hkc⟩
      · obtain ⟨hpar, hcs⟩ := mem_kidsOf hw hc
        exact ⟨hcs, .child hpar .refl, Path.ne_of_parent hpar⟩
      · obtain ⟨hpar, -⟩ := mem_kidsOf hw hc
        obtain ⟨hks, hcu, -⟩ := (ih c (pathBound_lt_of_kid hw hx hc) k).mp hkc
        refine ⟨hks, (Path.Under.child hpar .refl).trans hcu, ?_⟩
        rintro rfl
        exact Path.Under.not_parent hpar hcu
    · rintro ⟨hk, hu, hne⟩
      obtain ⟨c, hc, hcu⟩ := exists_kid_under hw hk hu hne
      by_cases hkc : k = c
      · exact ⟨c, hc, .inl hkc⟩
      · exact ⟨c, hc, .inr ((ih c (pathBound_lt_of_kid hw hx hc) k).mpr ⟨hk, hcu, hkc⟩)⟩

theorem nodup_preorder (n : Nat) :
    ∀ x, t.pathBound < x.toList.length + n → (t.preorder n x).Nodup := by
  induction n with
  | zero => exact fun _ _ => List.nodup_nil
  | succ n ih =>
    intro x hx
    -- a child and the nodes below it all lie under the child
    have hblock : ∀ c ∈ t.kidsOf x, ∀ y ∈ c :: t.preorder n c, Path.Under c y := by
      intro c hc y hy
      rcases List.mem_cons.mp hy with rfl | hy
      · exact .refl
      · exact ((mem_preorder hw n c (pathBound_lt_of_kid hw hx hc) y).mp hy).2.1
    rw [preorder, List.nodup_flatMap]
    refine ⟨fun c hc => List.nodup_cons.mpr ⟨fun h => ?_, ih c (pathBound_lt_of_kid hw hx hc)⟩,
      (kidsOf_nodup hw x).imp_of_mem fun ha hc hne => ?_⟩
    · exact ((mem_preorder hw n c (pathBound_lt_of_kid hw hx hc) c).mp h).2.2 rfl
    · -- the blocks of two children are apart: a node in both lies under both, and siblings
      -- do not lie under one another
      intro y hya hyc
      rcases (hblock _ ha y hya).total (hblock _ hc y hyc) with h | h
      · exact hne (Path.Under.eq_of_siblings (mem_kidsOf hw ha).1 (mem_kidsOf hw hc).1 h)
      · exact hne (Path.Under.eq_of_siblings (mem_kidsOf hw hc).1 (mem_kidsOf hw ha).1 h).symm

theorem mem_descendants (x k : String) :
    k ∈ t.descendants x ↔ (lookup k t.nodes).isSome ∧ Path.Under x k ∧ k ≠ x :=
  mem_preorder hw _ x (by omega) k

theorem nodup_descendants (x : String) : (t.descendants x).Nodup :=
  nodup_preorder hw _ x (by omega)

theorem length_descendants_lt (hx : (lookup x t.nodes).isSome) :
    (t.descendants x).length < t.nodes.length := by
  have hnd : (x :: t.descendants x).Nodup :=
    List.nodup_cons.mpr ⟨fun h => ((mem_descendants hw x x).mp h).2.2 rfl, nodup_descendants hw x⟩
  have hstored : ∀ y ∈ x :: t.descendants x, y ∈ t.nodes.map (·.1) := by
    intro y hy
    rcases List.mem_cons.mp hy with rfl | hy
    · exact lookup_isSome_iff.mp hx
    · exact lookup_isSome_iff.mp ((mem_descendants hw x y).mp hy).1
  have := (hnd.subperm hstored).length_le
  simp only [List.length_cons, List.length_map] at this
  omega

/-- The children of a node have names that are not empty: a stored path other than the root
does not end with a slash. -/
theorem child_ne_empty {n : TreeNode} (hx : lookup x t.nodes = some n) {c : String}
    (hc : c ∈ n.children) : c ≠ "" := by
  rintro rfl
  obtain ⟨hk, hpar⟩ := hw.child x n "" hx hc
  obtain ⟨m, hm⟩ := Option.isSome_iff_exists.mp hk
  have hroot : Path.join x "" ≠ "/" := fun h => by
    rw [h, parent_root] at hpar
    cases hpar
  rcases Path.isValid_iff.mp (hw.parent _ m hm hroot).1 with h | ⟨-, hlast, -⟩
  · exact hroot (String.toList_inj.mp (by simpa using h))
  · exact hlast (Path.getLast_join_empty x)

end Preorder

section Stack

/-- What a stack of paths relative to `p` stands for: entry after entry, the node the entry
names followed by the nodes below it. -/
def expand (t : Tree) (p : String) (pending : List String) : List String :=
  pending.flatMap fun r => Path.join p r :: t.descendants (Path.join p r)

@[simp] theorem expand_nil (p : String) : t.expand p [] = [] := rfl

@[simp] theorem expand_cons (p r : String) (rest : List String) :
    t.expand p (r :: rest) = Path.join p r :: t.descendants (Path.join p r) ++ t.expand p rest :=
  List.flatMap_cons

@[simp] theorem expand_append (p : String) (xs ys : List String) :
    t.expand p (xs ++ ys) = t.expand p xs ++ t.expand p ys :=
  List.flatMap_append

/-- The children of a stored node `x`, each named by a path relative to `p` that stands for it,
expand to the nodes below `x`. -/
theorem expand_children (hw : WellFormed t.nodes) {p : String} {n : TreeNode}
    (hx : lookup x t.nodes = some n) (f : String → String)
    (hf : ∀ c ∈ n.children, Path.join p (f c) = Path.join x c) :
    t.expand p (n.children.map f) = t.descendants x := by
  rw [descendants_eq hw x, kidsOf_of_lookup hx, expand, List.flatMap_map, List.flatMap_map]
  exact List.flatMap_congr fun c hc => by rw [hf c hc]

end Stack

end Tree

namespace Op

open Coordination.Tree

variable {b : Backend} {i : Nat} {s : Session} {t : Tree}

section Reads

theorem children_ne_connectionLoss (hw : WellFormed t.nodes) (x : String) :
    (t.children x).map (·.1) ≠ .error .connectionLoss := by
  cases hx : lookup x t.nodes with
  | some n => simp [children_of_lookup hw hx, Except.map]
  | none => rcases children_of_missing hx with h | ⟨r, h⟩ <;> simp [h, Except.map]

theorem children_of_missing_valid {x : String} (hx : lookup x t.nodes = none) (hv : Path.IsValid x) :
    t.children x = .error (.noNode x) := by
  simp [Tree.children, Tree.node, validate_of_isValid hv, hx, bind, Except.bind, throw, throwThe,
    MonadExcept.throw]

theorem children_of_defect {x : String} {d : Path.Defect} (hd : Path.defect? x = some d) :
    t.children x = .error (.invalidPath x d.reason) := by
  simp [Tree.children, Tree.node, Path.validate, hd, bind, Except.bind]

theorem exec_children_ops (hlive : b.Live i s) (x : String) :
    (((·.1) <$> onSession i (·.children · x none)).exec b).2.service.ops = b.service.ops + 1 := by
  rw [exec_map, exec_onSession hlive.found]
  simp only [Session.children, Session.run_of_connected hlive.connected, Service.apply_ops]

/-- The retried read of the children of `x` after `lost` lost connections, with fuel equal to
the budget left and fewer faults queued than that budget: it answers as the tree does and
leaves the tree, and the service is reached once more often than the loop retries. -/
theorem exec_go_children (hw : WellFormed t.nodes) (x : String) (fuel : Nat) :
    ∀ (lost : UInt32) (b : Backend), b.Live i s → b.service.Scripted Fault.IsLoss →
      b.service.tree = t → fuel = b.budget → b.service.queued.length < b.budget →
      ∃ b', (retrying.go (pure i) (fun i _ => (·.1) <$> onSession i (·.children · x none)) fuel
          lost).exec b = ((t.children x).map (·.1), b') ∧
        b'.connector = b.connector ∧ b'.service.Scripted Fault.IsLoss ∧ b'.service.tree = t ∧
        b'.service.queued.length < b'.budget ∧
        b'.service.ops + b.retries = b.service.ops + b'.retries + 1 := by
  induction fuel with
  | zero =>
    intro lost b _ _ _ hfuel hq
    omega
  | succ fuel ih =>
    intro lost b hlive hs ht hfuel hq
    obtain ⟨res, svc, hrun, hs', htree, hend⟩ := exec_children hlive hs x
    have hops := exec_children_ops hlive x
    rw [hrun] at hops
    simp only [retrying.go, exec_bind, exec_pure, exec_tryCatch, hrun]
    rcases hend with ⟨hres, hle⟩ | ⟨rfl, hlt⟩
    · -- the read answers, with what the tree holds
      rw [ht] at hres
      refine ⟨{ b with service := svc }, ?_, rfl, hs', htree.trans ht, by simp only; omega,
        by simp only at hops ⊢; omega⟩
      have hne : res ≠ .error .connectionLoss := hres ▸ children_ne_connectionLoss hw x
      rw [← hres]
      cases res with
      | ok a => rfl
      | error e =>
        have he : e ≠ .connectionLoss := fun he => hne (by rw [he])
        simp [isConnectionLoss_eq_false he]
    · -- a lost connection is counted, and the budget, larger than the faults left, goes on
      have hbudget : b.budget - 1 ≠ 0 := by omega
      simp only [Failure.isConnectionLoss, Bool.not_true, Bool.false_eq_true, ↓reduceIte,
        exec_bind, exec_modify, exec_get, hbudget]
      obtain ⟨b', hrun', hc', hs'', ht', hq', hops'⟩ := ih (lost + 1)
        { b with service := svc, retries := b.retries + 1, budget := b.budget - 1 }
        (hlive.of_connector rfl) hs' (htree.trans ht) (by simp only; omega) (by simp only; omega)
      refine ⟨b', hrun', hc', hs'', ht', hq', ?_⟩
      simp only at hops hops'
      omega

/-- The retried read of the children of `x` on a live session under lost connections, with a
budget above the faults queued. -/
theorem exec_getChildren (hw : WellFormed t.nodes) (hlive : b.Live i s)
    (hs : b.service.Scripted Fault.IsLoss) (ht : b.service.tree = t)
    (hq : b.service.queued.length < b.budget) (x : String) :
    ∃ b', (getChildren (pure i) x).exec b = ((t.children x).map (·.1), b') ∧
      b'.connector = b.connector ∧ b'.service.Scripted Fault.IsLoss ∧ b'.service.tree = t ∧
      b'.service.queued.length < b'.budget ∧
      b'.service.ops + b.retries = b.service.ops + b'.retries + 1 := by
  simp only [getChildren, retrying, exec_bind, exec_get]
  exact exec_go_children hw x b.budget 0 b hlive hs ht rfl hq

end Reads

section Walk

/-- The listing loop on a stack of paths relative to `p`, each naming a stored node and none
empty, with fuel for the stack's expansion: it appends the expansion to what it listed, and
reads children once with an answer for each node of it. -/
theorem exec_walkStack (hw : WellFormed t.nodes) (p : String) (fuel : Nat) :
    ∀ (pending acc : List String) (b : Backend), b.Live i s → b.service.Scripted Fault.IsLoss →
      b.service.tree = t → b.service.queued.length < b.budget →
      (∀ r ∈ pending, r.isEmpty = false ∧ (lookup (Path.join p r) t.nodes).isSome) →
      (t.expand p pending).length ≤ fuel →
      ∃ out b', (getAllChildren.go (pure i) p fuel pending acc).exec b = (.ok out, b') ∧
        out.map (Path.join p) = acc.map (Path.join p) ++ t.expand p pending ∧
        b'.connector = b.connector ∧ b'.service.Scripted Fault.IsLoss ∧ b'.service.tree = t ∧
        b'.service.queued.length < b'.budget ∧
        b'.service.ops + b.retries = b.service.ops + b'.retries + (t.expand p pending).length := by
  induction fuel with
  | zero =>
    intro pending acc b _ hs ht hq _ hlen
    have hnil : t.expand p pending = [] := List.eq_nil_of_length_eq_zero (by omega)
    refine ⟨acc, b, rfl, by rw [hnil, List.append_nil], rfl, hs, ht, hq, by rw [hnil]; rfl⟩
  | succ fuel ih =>
    intro pending acc b hlive hs ht hq hpend hlen
    cases pending with
    | nil => exact ⟨acc, b, rfl, by simp, rfl, hs, ht, hq, by simp⟩
    | cons r rest =>
      obtain ⟨hr, hstored⟩ := hpend r List.mem_cons_self
      have hr' : r ≠ "" := by
        rintro rfl
        simp at hr
      obtain ⟨n, hn⟩ := Option.isSome_iff_exists.mp hstored
      obtain ⟨b₁, hrun₁, hc₁, hs₁, ht₁, hq₁, hops₁⟩ :=
        exec_getChildren hw hlive hs ht hq (Path.join p r)
      have hread : (getChildren (pure i) (Path.join p r)).exec b = (.ok n.children, b₁) := by
        rw [hrun₁, children_of_lookup hw hn]
        rfl
      -- the children of the entry go on the stack, the first on top, and expand to the nodes
      -- below the entry
      have hbelow : t.expand p (n.children.map (r ++ "/" ++ ·)) = t.descendants (Path.join p r) :=
        expand_children hw hn _ fun c _ => Path.join_append p r c hr'
      have hnew : ∀ r' ∈ n.children.map (r ++ "/" ++ ·) ++ rest,
          r'.isEmpty = false ∧ (lookup (Path.join p r') t.nodes).isSome := by
        intro r' hr''
        rcases List.mem_append.mp hr'' with h | h
        · obtain ⟨c, hc, rfl⟩ := List.mem_map.mp h
          refine ⟨by simp, ?_⟩
          rw [Path.join_append p r c hr']
          exact (hw.child _ n c hn hc).1
        · exact hpend r' (List.mem_cons_of_mem r h)
      simp only [expand_cons, List.length_append, List.length_cons] at hlen
      obtain ⟨out, b', hrun, hout, hc', hs', ht', hq', hops'⟩ :=
        ih (n.children.map (r ++ "/" ++ ·) ++ rest) (acc ++ [r]) b₁ (hlive.of_connector hc₁)
          hs₁ ht₁ hq₁ hnew (by rw [expand_append, hbelow, List.length_append]; omega)
      rw [expand_append, hbelow] at hout hops'
      refine ⟨out, b', ?_, ?_, hc'.trans hc₁, hs', ht', hq', ?_⟩
      · simp only [getAllChildren.go, hr, Bool.false_eq_true, ↓reduceIte]
        rw [exec_bind_ok hread]
        exact hrun
      · rw [hout, expand_cons]
        simp
      · simp only [expand_cons, List.length_append, List.length_cons] at hops' ⊢
        omega

end Walk

/-- Listing the nodes below `p` with the retrying client, under lost connections alone. On a
live session over a well-formed tree, with fewer queued faults than the retry budget: for a
stored `p` the listing returns the path of every node strictly under `p` relative to `p`, each
once, in the depth-first order that visits the children of each node in the sorted order the
node keeps them; it reads the children of each node of the subtree once with an answer (the
service is reached once more than the client retries, per node) and leaves the tree. A missing
`p` fails as missing when it is a well-formed path, and as not well formed otherwise. -/
theorem allChildren_preorder (b : Backend) (i : Nat) (s : Session) (hlive : b.Live i s)
    (hw : WellFormed b.service.tree.nodes) (hs : b.service.Scripted Fault.IsLoss)
    (hbudget : b.service.queued.length < b.budget) (p : String) :
    let t := b.service.tree
    let r := (getAllChildren (pure i) p).exec b
    ((lookup p t.nodes).isSome →
      ∃ out, r.1 = .ok out ∧ out.map (Path.join p) = t.descendants p ∧ out.Nodup ∧
        r.2.service.tree = t ∧
        r.2.service.ops + b.retries = b.service.ops + r.2.retries + (out.length + 1)) ∧
    (lookup p t.nodes = none → Path.IsValid p → r.1 = .error (.noNode p)) ∧
    (∀ d, Path.defect? p = some d → r.1 = .error (.invalidPath p d.reason)) ∧
    (∀ k, k ∈ t.descendants p ↔ (lookup k t.nodes).isSome ∧ Path.Under p k ∧ k ≠ p) ∧
    (∀ x, t.descendants x = (t.kidsOf x).flatMap fun k => k :: t.descendants k) ∧
    (∀ x n, lookup x t.nodes = some n →
      t.kidsOf x = n.children.map (Path.join x) ∧ n.children.Pairwise (· < ·)) := by
  dsimp only
  obtain ⟨fuel, hwalk, hfuel⟩ := exec_walkBound b
  obtain ⟨fuel', rfl⟩ : ∃ fuel', fuel = fuel' + 1 := ⟨fuel - 1, by omega⟩
  -- the first round reads the children of `p` itself, which the listing leaves out
  obtain ⟨b₁, hrun₁, hc₁, hs₁, ht₁, hq₁, hops₁⟩ := exec_getChildren hw hlive hs rfl hbudget p
  have hempty : ("" : String).isEmpty = true := rfl
  have hfirst : (getAllChildren (pure i) p).exec b =
      match (b.service.tree.children p).map (·.1) with
      | .ok kids => (getAllChildren.go (pure i) p fuel' kids []).exec b₁
      | .error e => (.error e, b₁) := by
    simp only [getAllChildren, exec_bind_ok hwalk, getAllChildren.go, hempty,
      ↓reduceIte, List.map_id', List.append_nil, exec_bind, hrun₁]
    cases (b.service.tree.children p).map (·.1) <;> rfl
  refine ⟨fun hp => ?_, fun hp hvalid => ?_, fun d hd => ?_, mem_descendants hw p,
    descendants_eq hw, fun x n hx => ⟨kidsOf_of_lookup hx, hw.sorted x n hx⟩⟩
  · obtain ⟨n, hn⟩ := Option.isSome_iff_exists.mp hp
    have hkids : b.service.tree.expand p n.children = b.service.tree.descendants p := by
      simpa using expand_children hw hn id fun c _ => rfl
    have hpend : ∀ c ∈ n.children,
        c.isEmpty = false ∧ (lookup (Path.join p c) b.service.tree.nodes).isSome :=
      fun c hc => ⟨by simpa using child_ne_empty hw hn hc, (hw.child p n c hn hc).1⟩
    obtain ⟨out, b', hrun, hout, -, -, ht', -, hops'⟩ :=
      exec_walkStack hw p fuel' n.children [] b₁ (hlive.of_connector hc₁) hs₁ ht₁ hq₁ hpend
        (by have := length_descendants_lt hw hp; rw [hkids]; omega)
    rw [hkids, List.map_nil, List.nil_append] at hout
    rw [hkids] at hops'
    have hlen : out.length = (b.service.tree.descendants p).length := by
      rw [← hout, List.length_map]
    have hr : (getAllChildren (pure i) p).exec b = (.ok out, b') := by
      rw [hfirst, children_of_lookup hw hn]
      exact hrun
    rw [hr]
    dsimp only
    refine ⟨out, rfl, hout, ?_, ht', by omega⟩
    exact List.Nodup.of_map (Path.join p) (hout ▸ nodup_descendants hw p)
  · rw [hfirst, children_of_missing_valid hp hvalid]
    rfl
  · rw [hfirst, children_of_defect hd]
    rfl

/-- After a lost read, the listing of `/r` holding `/r/a`, `/r/a/x` and `/r/a-b` is `a`, `a/x`,
`a-b`: children in the order their names sort, but `a-b` sorts before `a/x`, so the listing
itself is not sorted. -/
theorem allChildren_lists_depth_first :
    let b : Backend :=
      { service := ({} : Service).run [.direct (.create "/r" [] Mode.persistent),
          .direct (.create "/r/a" [] Mode.persistent),
          .direct (.create "/r/a/x" [] Mode.persistent),
          .direct (.create "/r/a-b" [] Mode.persistent), .inject .getChildren .loseBeforeCommit],
        connector := { automatic := true, sessions := [⟨1, 0, .connected⟩] }, budget := 10 }
    ((getAllChildren (pure 0) "/r").exec b).1 = .ok ["a", "a/x", "a-b"] ∧ "a-b" < "a/x" := by
  intro b
  have hq : b.service.queued = [.loseBeforeCommit] := rfl
  have hs : b.service.Scripted Fault.IsLoss := by
    intro f hf
    rw [hq, List.mem_singleton] at hf
    rw [hf]
    trivial
  obtain ⟨out, hres, hout, -⟩ := (allChildren_preorder b 0 ⟨1, 0, .connected⟩ ⟨rfl, rfl⟩
    (Service.run_wellFormed wellFormed_empty _) hs (by rw [hq]; decide) "/r").1 (by decide +kernel)
  have hdesc : b.service.tree.descendants "/r" = ["a", "a/x", "a-b"].map (Path.join "/r") := by
    decide +kernel
  have hout' : out = ["a", "a/x", "a-b"] :=
    List.map_injective_iff.mpr (Path.join_injective "/r") (hout.trans hdesc)
  exact ⟨by rw [hres, hout'], by decide⟩

end Op

end Coordination
