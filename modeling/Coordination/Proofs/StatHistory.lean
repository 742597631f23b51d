import Mathlib.Algebra.Group.Nat.Defs
import Mathlib.Data.List.TakeWhile
import Coordination.Proofs.WatchTables
import Coordination.Proofs.IdempotentWrites

/-!
The metadata of every node is what the tree's history says. A history lists the changes that
succeeded, oldest first, each with the transaction number the tree holds after it. Along any
run of tree operations from the fresh tree the `j`-th change takes transaction `j` wrapped to a
signed 64-bit number, and every stored node's metadata is read off the history: the version
counts the data writes since the node was created, the child version the creates and deletes of
its children since then, the child count is the number of stored children, the data length the
length of the data, and the two transactions are those of its creation and of its last data
write.

The counters are fixed-width and wrap. The version is the number of writes only while fewer
than 2^31 were made: after 2^31 writes it is -2^31, and a change conditioned on a version is
checked against the wrapped count. The transactions increase, and a node's creation comes no
later than its last write, only while fewer than 2^63 changes were made.
-/

namespace Coordination

/-- A change to the tree that succeeded, with the transaction number the tree holds after it:
a node created (at the path actually created), a node's data replaced, a node deleted. -/
inductive Change where
  | created (p : String) (zxid : Int)
  | wrote (p : String) (zxid : Int)
  | deleted (p : String) (zxid : Int)
  deriving DecidableEq, Repr

namespace Change

/-- The transaction a change took. -/
def zxid : Change → Int
  | .created _ z | .wrote _ z | .deleted _ z => z

/-- The change creates the node at `k`. -/
def creates (k : String) : Change → Bool
  | .created p _ => p == k
  | _ => false

/-- The change replaces the data of the node at `k`. -/
def writes (k : String) : Change → Bool
  | .wrote p _ => p == k
  | _ => false

/-- The change creates or deletes a child of the node at `k`. -/
def movesChildOf (k : String) : Change → Bool
  | .created p _ | .deleted p _ => Path.parent p == some k
  | .wrote _ _ => false

/-- The changes of a history after the last creation of `k`: all of them for a node that was
never created, such as the root. -/
def sinceCreation (k : String) (cs : List Change) : List Change :=
  (cs.reverse.takeWhile fun c => !c.creates k).reverse

/-- The data writes of `k` since its creation. -/
def dataWrites (k : String) (cs : List Change) : Nat :=
  (sinceCreation k cs).countP (·.writes k)

/-- The creates and deletes of children of `k` since its creation. -/
def childMoves (k : String) (cs : List Change) : Nat :=
  (sinceCreation k cs).countP (·.movesChildOf k)

/-- The transaction that last created `k`; 0, that of the fresh tree, if none did. -/
def creationZxid (k : String) (cs : List Change) : Int :=
  ((cs.reverse.find? (·.creates k)).map zxid).getD 0

/-- The transaction of the last data write of `k` since its creation, or of its creation if
there was none. -/
def lastWriteZxid (k : String) (cs : List Change) : Int :=
  (((sinceCreation k cs).reverse.find? (·.writes k)).map zxid).getD (creationZxid k cs)

section Snoc

variable {k : String} {cs : List Change} {c : Change}

/-! Each count of a history one change longer, from the count before it. -/

theorem sinceCreation_snoc :
    sinceCreation k (cs ++ [c]) = if c.creates k then [] else sinceCreation k cs ++ [c] := by
  unfold sinceCreation
  cases h : c.creates k <;> simp [h]

theorem dataWrites_snoc :
    dataWrites k (cs ++ [c]) =
      if c.creates k then 0 else dataWrites k cs + if c.writes k then 1 else 0 := by
  unfold dataWrites
  rw [sinceCreation_snoc]
  split <;> simp [List.countP_append]

theorem childMoves_snoc :
    childMoves k (cs ++ [c]) =
      if c.creates k then 0 else childMoves k cs + if c.movesChildOf k then 1 else 0 := by
  unfold childMoves
  rw [sinceCreation_snoc]
  split <;> simp [List.countP_append]

theorem creationZxid_snoc :
    creationZxid k (cs ++ [c]) = if c.creates k then c.zxid else creationZxid k cs := by
  unfold creationZxid
  cases h : c.creates k <;> simp [h]

theorem lastWriteZxid_snoc :
    lastWriteZxid k (cs ++ [c]) =
      if c.creates k || c.writes k then c.zxid else lastWriteZxid k cs := by
  unfold lastWriteZxid
  rw [sinceCreation_snoc, creationZxid_snoc]
  cases hc : c.creates k <;> cases hw : c.writes k <;> simp [hw]

theorem sinceCreation_of_never (h : ∀ c ∈ cs, c.creates k = false) :
    sinceCreation k cs = cs := by
  unfold sinceCreation
  rw [List.takeWhile_eq_self_iff.mpr fun c hc => by simp [h c (List.mem_reverse.mp hc)],
    List.reverse_reverse]

end Snoc

/-- The metadata of node `n`, stored at `k`, is what the history `cs` says: its counters are the
history's counts wrapped to 32 bits, its transactions those of its creation and of its last data
write, which are the `i`-th and `j`-th transactions for some `i ≤ j` within the history. -/
structure Accounts (cs : List Change) (k : String) (n : TreeNode) : Prop where
  version : n.stat.version = wrapI32 (dataWrites k cs)
  cversion : n.stat.cversion = wrapI32 (childMoves k cs)
  czxid : n.stat.czxid = creationZxid k cs
  mzxid : n.stat.mzxid = lastWriteZxid k cs
  dataLength : n.stat.dataLength = wrapU32 n.data.length
  numChildren : n.stat.numChildren = wrapU32 n.children.length
  ordered : ∃ i j : Nat, i ≤ j ∧ j ≤ cs.length ∧ n.stat.czxid = wrapI64 i ∧
    n.stat.mzxid = wrapI64 j

end Change

theorem wrapI32_succ (z : Int) : wrapI32 (wrapI32 z + 1) = wrapI32 (z + 1) :=
  Int.bmod_add_bmod

theorem wrapI64_succ (z : Int) : wrapI64 (wrapI64 z + 1) = wrapI64 (z + 1) :=
  Int.bmod_add_bmod

theorem wrapI64_of_lt {j : Nat} (h : j < 2 ^ 63) : wrapI64 j = j := by
  have h' : j < 9223372036854775808 := h
  apply Int.bmod_eq_of_le <;> omega

namespace Change.Accounts

variable {cs : List Change} {k : String} {n : TreeNode} {c : Change}

/-! What each kind of change does to the account of one node. -/

/-- A change that neither creates `k`, nor writes it, nor moves one of its children leaves its
account as it was. -/
theorem untouched (h : Accounts cs k n) (hc : c.creates k = false) (hw : c.writes k = false)
    (hm : c.movesChildOf k = false) : Accounts (cs ++ [c]) k n where
  version := by rw [h.version, dataWrites_snoc]; simp [hc, hw]
  cversion := by rw [h.cversion, childMoves_snoc]; simp [hc, hm]
  czxid := by rw [h.czxid, creationZxid_snoc]; simp [hc]
  mzxid := by rw [h.mzxid, lastWriteZxid_snoc]; simp [hc, hw]
  dataLength := h.dataLength
  numChildren := h.numChildren
  ordered := by
    obtain ⟨i, j, hij, hj, hi', hj'⟩ := h.ordered
    exact ⟨i, j, hij, by simp only [List.length_append, List.length_singleton]; omega, hi', hj'⟩

/-- Creating or deleting a child of `k` counts one more child move and sets the child count;
the data and the rest of the metadata stay. -/
theorem childMoved (h : Accounts cs k n) (hc : c.creates k = false) (hw : c.writes k = false)
    (hm : c.movesChildOf k = true) {n' : TreeNode} (hd : n'.data = n.data)
    (hs : n'.stat = { n.stat with
      cversion := wrapI32 (n.stat.cversion + 1), numChildren := wrapU32 n'.children.length }) :
    Accounts (cs ++ [c]) k n' where
  version := by rw [hs, h.version, dataWrites_snoc]; simp [hc, hw]
  cversion := by
    rw [hs, h.cversion, childMoves_snoc, wrapI32_succ]
    simp [hc, hm]
  czxid := by rw [hs, h.czxid, creationZxid_snoc]; simp [hc]
  mzxid := by rw [hs, h.mzxid, lastWriteZxid_snoc]; simp [hc, hw]
  dataLength := by rw [hs, hd]; exact h.dataLength
  numChildren := by rw [hs]
  ordered := by
    obtain ⟨i, j, hij, hj, hi', hj'⟩ := h.ordered
    refine ⟨i, j, hij, by simp only [List.length_append, List.length_singleton]; omega, ?_, ?_⟩
    · rw [hs]
      exact hi'
    · rw [hs]
      exact hj'

theorem created (cs : List Change) (d : List UInt8) (o : Nat) {z : Int}
    (hz : z = wrapI64 (cs.length + 1)) :
    Accounts (cs ++ [.created k z]) k (Tree.freshNode d z o) where
  version := by rw [dataWrites_snoc]; simp [Tree.freshNode, creates, wrapI32]
  cversion := by rw [childMoves_snoc]; simp [Tree.freshNode, creates, wrapI32]
  czxid := by rw [creationZxid_snoc]; simp [Tree.freshNode, creates, zxid]
  mzxid := by rw [lastWriteZxid_snoc]; simp [Tree.freshNode, creates, zxid]
  dataLength := rfl
  numChildren := rfl
  ordered := ⟨cs.length + 1, cs.length + 1, Nat.le_refl _, by simp, by simp [Tree.freshNode, hz],
    by simp [Tree.freshNode, hz]⟩

/-- A data write of `k` with the next transaction counts one more write and takes the
transaction. -/
theorem written (h : Accounts cs k n) {z : Int} (hz : z = wrapI64 (cs.length + 1))
    (d : List UInt8) :
    Accounts (cs ++ [.wrote k z]) k { n with
      data := d
      stat := { n.stat with
        version := wrapI32 (n.stat.version + 1), mzxid := z
        dataLength := wrapU32 d.length } } where
  version := by
    rw [h.version, dataWrites_snoc, wrapI32_succ]
    simp [creates, writes]
  cversion := by rw [h.cversion, childMoves_snoc]; simp [creates, movesChildOf]
  czxid := by rw [h.czxid, creationZxid_snoc]; simp [creates]
  mzxid := by rw [lastWriteZxid_snoc]; simp [writes, zxid]
  dataLength := rfl
  numChildren := h.numChildren
  ordered := by
    -- the write is the newest transaction, after the creation
    obtain ⟨i, j, hij, hj, hi', -⟩ := h.ordered
    exact ⟨i, cs.length + 1, by omega, by simp, hi', by simp [hz]⟩

end Change.Accounts

namespace Tree

open Change

variable {t : Tree} {p k : String} {n : TreeNode}

/-! ### Changes that succeed, with their metadata -/

theorem node_of_lookup (hw : WellFormed t.nodes) (hn : lookup k t.nodes = some n) :
    t.node k = .ok n := by
  simp [Tree.node, validate_of_isValid (Op.isValid_of_lookup hw hn), hn, bind, Except.bind, pure,
    Except.pure]

/-- A create that succeeds took the next transaction, added a fresh node for its data under a
stored parent, and replaced the parent by one with one more child move and its new child
count. -/
theorem create_ok_stat {d : List UInt8} {m : Mode} {o : Nat} {r : String × Tree × List Fired}
    (h : t.create p d m o = .ok r) :
    ∃ q par par', lookup q t.nodes = some par ∧ Path.parent r.1 = some q ∧
      lookup r.1 t.nodes = none ∧ r.2.1.zxid = wrapI64 (t.zxid + 1) ∧
      r.2.1.nodes = update q par' t.nodes ++
        [(r.1, freshNode d (wrapI64 (t.zxid + 1)) (if m.ephemeral then o else 0))] ∧
      par'.data = par.data ∧
      par'.stat = { par.stat with
        cversion := wrapI32 (par.stat.cversion + 1)
        numChildren := wrapU32 par'.children.length } := by
  obtain ⟨q, par, -, hpar, -, -, -, hparent, hfree, hr, -⟩ := create_ok_spec h
  rw [hr]
  exact ⟨q, par, _, hpar, hparent, hfree, rfl, rfl, rfl, rfl⟩

/-- A data change that succeeds took the next transaction and replaced the node's data, counting
one more write. -/
theorem setData_ok_stat {d : List UInt8} {v : Option Int} {r : Stat × Tree × List Fired}
    (h : t.setData p d v = .ok r) :
    ∃ n, lookup p t.nodes = some n ∧ r.2.1.zxid = wrapI64 (t.zxid + 1) ∧
      r.2.1.nodes = update p { n with
        data := d
        stat := { n.stat with
          version := wrapI32 (n.stat.version + 1), mzxid := wrapI64 (t.zxid + 1),
          dataLength := wrapU32 d.length } } t.nodes := by
  obtain ⟨n, hn, -, hstat, hr, -⟩ := setData_ok_spec h
  rw [hr]
  exact ⟨n, hn, rfl, by rw [hstat]⟩

/-- In a well-formed tree, a data change conditioned on a version fails its check exactly when
the version differs from the node's. -/
theorem setData_badVersion_iff (hw : WellFormed t.nodes) (hn : lookup k t.nodes = some n)
    (d : List UInt8) (v : Int) :
    t.setData k d (some v) = .error (.badVersion k) ↔ v ≠ n.stat.version := by
  have hnode := node_of_lookup hw hn
  by_cases hv : v = n.stat.version
  · simp [Tree.setData, hnode, hv, bind, Except.bind, pure, Except.pure]
  · simp [Tree.setData, hnode, hv, bind, Except.bind, throw, throwThe, MonadExcept.throw]

/-- In a well-formed tree, a delete of a node other than the root conditioned on a version
fails its check exactly when the version differs from the node's. -/
theorem delete_badVersion_iff (hw : WellFormed t.nodes) (hn : lookup k t.nodes = some n)
    (hroot : k ≠ "/") (v : Int) :
    t.delete k (some v) = .error (.badVersion k) ↔ v ≠ n.stat.version := by
  have hnode := node_of_lookup hw hn
  obtain ⟨-, q, -, hq, -, -⟩ := hw.parent k n hn hroot
  by_cases hv : v = n.stat.version
  · cases hc : n.children.isEmpty <;>
      simp [Tree.delete, hnode, hq, hv, hc, bind, Except.bind, pure, Except.pure, throw, throwThe,
        MonadExcept.throw]
  · simp [Tree.delete, hnode, hq, hv, bind, Except.bind, throw, throwThe, MonadExcept.throw]

/-- In a well-formed tree a node's children are as many as the stored nodes whose parent it
is. -/
theorem length_children (hw : WellFormed t.nodes) (hn : lookup k t.nodes = some n) :
    n.children.length = ((t.nodes.map (·.1)).filter fun x => Path.parent x = some k).length := by
  have hkids : t.kidsOf k = n.children.map (Path.join k) := by simp [kidsOf, hn]
  have hperm : (t.kidsOf k).Perm ((t.nodes.map (·.1)).filter fun x => Path.parent x = some k) := by
    refine (List.perm_ext_iff_of_nodup (kidsOf_nodup hw k) (hw.nodup.filter _)).mpr fun x => ?_
    simp only [List.mem_filter, decide_eq_true_eq]
    constructor
    · intro hx
      obtain ⟨hpx, hs⟩ := mem_kidsOf hw hx
      exact ⟨lookup_isSome_iff.mp hs, hpx⟩
    · rintro ⟨hx, hpx⟩
      exact mem_kidsOf_of_parent hw (lookup_isSome_iff.mpr hx) hpx
  rw [← hperm.length_eq, hkids, List.length_map]

/-! ### The history of a tree -/

/-- The history `cs` chronicles tree `t`: the tree is well formed, its transaction counter is
the number of changes wrapped to 64 bits, the `j`-th change took transaction `j` so wrapped,
and every stored node's metadata is what the changes say. -/
structure Chronicle (t : Tree) (cs : List Change) : Prop where
  wellFormed : WellFormed t.nodes
  zxid : t.zxid = wrapI64 cs.length
  numbered : cs.map Change.zxid = (List.range' 1 cs.length).map fun j : Nat => wrapI64 j
  accounts : ∀ k n, lookup k t.nodes = some n → Accounts cs k n

theorem chronicle_empty : empty.Chronicle [] where
  wellFormed := wellFormed_empty
  zxid := rfl
  numbered := rfl
  accounts k n hn := by
    obtain ⟨rfl, rfl⟩ := lookup_empty hn
    exact ⟨rfl, rfl, rfl, rfl, rfl, rfl, ⟨0, 0, Nat.le_refl 0, Nat.le_refl 0, rfl, rfl⟩⟩

namespace Chronicle

variable {cs : List Change} {t' : Tree}

theorem next_zxid (h : t.Chronicle cs) : wrapI64 (t.zxid + 1) = wrapI64 (cs.length + 1) := by
  rw [h.zxid, wrapI64_succ]

theorem of_same (h : t.Chronicle cs) (hn : t'.nodes = t.nodes) (hz : t'.zxid = t.zxid) :
    t'.Chronicle cs where
  wellFormed := hn ▸ h.wellFormed
  zxid := hz ▸ h.zxid
  numbered := h.numbered
  accounts k n hk := h.accounts k n (hn ▸ hk)

/-- A change that takes the next transaction extends the history by itself, once each node
it leaves is accounted for. -/
theorem next (h : t.Chronicle cs) {c : Change} (hw : WellFormed t'.nodes)
    (hz : t'.zxid = wrapI64 (t.zxid + 1)) (hc : c.zxid = t'.zxid)
    (hacc : ∀ k n, lookup k t'.nodes = some n → Accounts (cs ++ [c]) k n) :
    t'.Chronicle (cs ++ [c]) where
  wellFormed := hw
  zxid := by
    rw [hz, h.next_zxid, List.length_append, List.length_singleton]
    push_cast
    rfl
  numbered := by
    rw [List.map_append, h.numbered, List.length_append, List.length_singleton, List.range'_concat,
      List.map_append, List.map_singleton, List.map_singleton, hc, hz, h.next_zxid]
    push_cast
    rw [Int.one_mul, Int.add_comm 1]
  accounts := hacc

theorem create (h : t.Chronicle cs) {d : List UInt8} {m : Mode} {o : Nat}
    {r : String × Tree × List Fired} (hr : t.create p d m o = .ok r) :
    r.2.1.Chronicle (cs ++ [.created r.1 r.2.1.zxid]) := by
  obtain ⟨q, par, par', hpar, hparent, hfree, hz, hnodes, hdata, hstat⟩ := create_ok_stat hr
  refine h.next (create_wellFormed h.wellFormed hr) hz rfl fun k n' hk => ?_
  rw [hnodes] at hk
  rcases addLeaf_cases hfree hk with ⟨rfl, rfl⟩ | ⟨rfl, rfl⟩ | ⟨hkq, hk⟩
  · -- the node created
    rw [hz]
    exact Accounts.created cs d _ h.next_zxid
  · -- its parent
    have hka : r.1 ≠ k := (ne_of_lookup_none hpar hfree).symm
    exact (h.accounts _ _ hpar).childMoved (by simp [creates, hka]) rfl
      (by simp [movesChildOf, hparent]) hdata hstat
  · -- every other node
    have hka : r.1 ≠ k := (ne_of_lookup_none hk hfree).symm
    exact (h.accounts _ _ hk).untouched (by simp [creates, hka]) rfl
      (by simp [movesChildOf, hparent, Ne.symm hkq])

theorem setData (h : t.Chronicle cs) {d : List UInt8} {v : Option Int}
    {r : Stat × Tree × List Fired} (hr : t.setData p d v = .ok r) :
    r.2.1.Chronicle (cs ++ [.wrote p r.2.1.zxid]) := by
  obtain ⟨n, hn, hz, hnodes⟩ := setData_ok_stat hr
  refine h.next (setData_wellFormed h.wellFormed hr) hz rfl fun k n' hk => ?_
  rw [hnodes, lookup_update] at hk
  by_cases hkp : k = p
  · -- the node written
    subst hkp
    simp only [if_true, Option.some.injEq] at hk
    subst hk
    rw [hz]
    exact (h.accounts _ _ hn).written h.next_zxid d
  · simp only [hkp, if_false] at hk
    exact (h.accounts _ _ hk).untouched rfl (by simp [writes, Ne.symm hkp]) rfl

theorem delete (h : t.Chronicle cs) {v : Option Int} {r : Tree × List Fired}
    (hr : t.delete p v = .ok r) : r.1.Chronicle (cs ++ [.deleted p r.1.zxid]) := by
  obtain ⟨n, q, par, hn, hleaf, hroot, hq, hpar, hr1⟩ := delete_ok_of_wellFormed h.wellFormed hr
  have hqp : q ≠ p := h.wellFormed.parent_ne_leaf hn hroot hq hn hleaf
  have hz : r.1.zxid = wrapI64 (t.zxid + 1) := by rw [hr1]
  refine h.next (delete_wellFormed h.wellFormed hr) hz rfl fun k n' hk => ?_
  rw [hr1] at hk
  rcases dropLeaf_cases h.wellFormed.nodup hqp hk with ⟨-, ⟨rfl, rfl⟩ | ⟨hkq, hk⟩⟩
  · -- the parent of the node deleted
    exact (h.accounts _ _ hpar).childMoved rfl rfl (by simp [movesChildOf, hq]) rfl rfl
  · exact (h.accounts _ _ hk).untouched rfl rfl (by simp [movesChildOf, hq, Ne.symm hkq])

end Chronicle

end Tree

namespace TreeOp

/-- The change an operation makes, if it is a create, a data change or a delete that
succeeds. -/
def change : TreeOp → Tree → Option Change
  | .create p d m o, t =>
    match t.create p d m o with
    | .ok r => some (.created r.1 r.2.1.zxid)
    | .error _ => none
  | .setData p d v, t =>
    match t.setData p d v with
    | .ok r => some (.wrote p r.2.1.zxid)
    | .error _ => none
  | .delete p v, t =>
    match t.delete p v with
    | .ok r => some (.deleted p r.1.zxid)
    | .error _ => none
  | _, _ => none

/-- The changes a run of operations makes, in order. -/
def changes : List TreeOp → Tree → List Change
  | [], _ => []
  | op :: os, t => (op.change t).toList ++ changes os (op.run t).1

@[simp] theorem changes_nil (t : Tree) : changes [] t = [] := rfl

theorem changes_cons (op : TreeOp) (os : List TreeOp) (t : Tree) :
    changes (op :: os) t = (op.change t).toList ++ changes os (op.run t).1 := rfl

theorem changes_append (os os' : List TreeOp) (t : Tree) :
    changes (os ++ os') t = changes os t ++ changes os' (runAll os t).1 := by
  induction os generalizing t with
  | nil => rfl
  | cons op os ih => simp [changes_cons, runAll_cons, ih]

theorem outcome_read_tree {β : Type} (read : Tree → Except Failure β) (watch : Tree → Tree)
    (hn : ∀ t, (watch t).nodes = t.nodes) (hz : ∀ t, (watch t).zxid = t.zxid) (t : Tree) :
    (outcome (fun t => (read t).map fun x => (x, watch t, [])) t).1.nodes = t.nodes ∧
      (outcome (fun t => (read t).map fun x => (x, watch t, [])) t).1.zxid = t.zxid := by
  unfold outcome
  cases hr : read t with
  | error e => simp [hr, Except.map]
  | ok x => simp [hr, Except.map, hn, hz]

end TreeOp

namespace Tree.Chronicle

open TreeOp

variable {t : Tree} {cs : List Change}

theorem run (h : t.Chronicle cs) (op : TreeOp) :
    (op.run t).1.Chronicle (cs ++ (op.change t).toList) := by
  cases op with
  | create p d m o =>
    cases hr : t.create p d m o with
    | error e => simpa [TreeOp.run, outcome, change, hr] using h
    | ok r => simpa [TreeOp.run, outcome, change, hr] using h.create hr
  | setData p d v =>
    cases hr : t.setData p d v with
    | error e => simpa [TreeOp.run, outcome, change, hr] using h
    | ok r => simpa [TreeOp.run, outcome, change, hr] using h.setData hr
  | delete p v =>
    cases hr : t.delete p v with
    | error e => simpa [TreeOp.run, outcome, change, hr, Except.map] using h
    | ok r => simpa [TreeOp.run, outcome, change, hr, Except.map] using h.delete hr
  | watchData p reg =>
    obtain ⟨hn, hz⟩ := outcome_read_tree (·.data p) (·.watchData p reg) (fun _ => rfl)
      (fun _ => rfl) t
    simp only [change, Option.toList, List.append_nil]
    exact h.of_same hn hz
  | watchChildren p reg =>
    obtain ⟨hn, hz⟩ := outcome_read_tree (·.children p) (·.watchChildren p reg) (fun _ => rfl)
      (fun _ => rfl) t
    simp only [change, Option.toList, List.append_nil]
    exact h.of_same hn hz
  | forget o =>
    simp only [change, Option.toList, List.append_nil]
    exact h.of_same rfl rfl

theorem runAll (h : t.Chronicle cs) (os : List TreeOp) :
    (TreeOp.runAll os t).1.Chronicle (cs ++ changes os t) := by
  induction os generalizing t cs with
  | nil => simpa using h
  | cons op os ih =>
    rw [runAll_cons, changes_cons, ← List.append_assoc]
    exact ih (h.run op)

end Tree.Chronicle

open Change in
/-- Along every run of tree operations from the fresh tree, the `j`-th change that succeeds takes
transaction `j` wrapped to a signed 64-bit number, and the tree's counter is the number of
changes so wrapped; so the transactions increase while fewer than 2^63 changes were made. Every
stored node's metadata is what the history says: the version is the number of data writes since
the node was created and the child version the number of creates and deletes of its children
since then, both wrapped to 32 bits; the child count is the number of stored children and the
data length that of the data, wrapped alike; the node's transactions are those of its creation
and of its last write (of its creation if none), in that order and no later than the tree's
while fewer than 2^63 changes were made. So a data change or a delete conditioned on a version
fails its check exactly when the version differs from the wrapped number of writes. -/
theorem stat_tracks_history (os : List TreeOp) :
    let t := (TreeOp.runAll os Tree.empty).1
    let cs := TreeOp.changes os Tree.empty
    t.zxid = wrapI64 cs.length ∧
      cs.map Change.zxid = (List.range' 1 cs.length).map (fun j : Nat => wrapI64 j) ∧
      (cs.length < 2 ^ 63 → (cs.map Change.zxid).Pairwise (· < ·)) ∧
      ∀ k n, lookup k t.nodes = some n →
        n.stat.version = wrapI32 (dataWrites k cs) ∧
        n.stat.cversion = wrapI32 (childMoves k cs) ∧
        n.stat.numChildren =
          wrapU32 ((t.nodes.map (·.1)).filter fun x => Path.parent x = some k).length ∧
        n.stat.dataLength = wrapU32 n.data.length ∧
        n.stat.czxid = creationZxid k cs ∧ n.stat.mzxid = lastWriteZxid k cs ∧
        (cs.length < 2 ^ 63 → n.stat.czxid ≤ n.stat.mzxid ∧ n.stat.mzxid ≤ t.zxid) ∧
        (∀ d v, t.setData k d (some v) = .error (.badVersion k) ↔
          v ≠ wrapI32 (dataWrites k cs)) ∧
        (k ≠ "/" → ∀ v, t.delete k (some v) = .error (.badVersion k) ↔
          v ≠ wrapI32 (dataWrites k cs)) := by
  intro t cs
  have h : t.Chronicle cs := by simpa using Tree.chronicle_empty.runAll os
  refine ⟨h.zxid, h.numbered, fun hlen => ?_, fun k n hn => ?_⟩
  · -- below 2^63 every transaction is held as its number
    rw [h.numbered, List.pairwise_map]
    refine List.Pairwise.imp_of_mem (fun ha hb hab => ?_) List.pairwise_lt_range'
    rw [List.mem_range'_1] at ha hb
    rw [wrapI64_of_lt (by omega), wrapI64_of_lt (by omega)]
    exact_mod_cast hab
  have ha := h.accounts k n hn
  refine ⟨ha.version, ha.cversion, ?_, ha.dataLength, ha.czxid, ha.mzxid, fun hlen => ?_,
    fun d v => ?_, fun hroot v => ?_⟩
  · rw [ha.numChildren, Tree.length_children h.wellFormed hn]
  · obtain ⟨i, j, hij, hj, hci, hmj⟩ := ha.ordered
    rw [hci, hmj, h.zxid, wrapI64_of_lt (by omega), wrapI64_of_lt (by omega),
      wrapI64_of_lt hlen]
    exact ⟨by exact_mod_cast hij, by exact_mod_cast hj⟩
  · rw [← ha.version]
    exact Tree.setData_badVersion_iff h.wellFormed hn d v
  · rw [← ha.version]
    exact Tree.delete_badVersion_iff h.wellFormed hn hroot v

open Change in
/-- A node created, written twice (the second time on condition of version 1), and given a
child that is then deleted. -/
theorem stat_tracks_two_writes :
    let os := [TreeOp.create "/a" [1] Mode.persistent 0, .setData "/a" [2, 3] none,
      .setData "/a" [] (some 1), .create "/a/b" [] Mode.persistent 0, .delete "/a/b" none]
    let t := (TreeOp.runAll os Tree.empty).1
    lookup "/a" t.nodes = some ⟨[], ⟨1, 3, 2, 2, 0, 0, 0⟩, [], 0⟩ ∧
      (2 : Int) = wrapI32 (dataWrites "/a" (TreeOp.changes os Tree.empty)) ∧
      (2 : Int) = wrapI32 (childMoves "/a" (TreeOp.changes os Tree.empty)) ∧
      (TreeOp.changes os Tree.empty).length < 2 ^ 63 ∧ (1 : Int) ≤ 3 ∧ (3 : Int) ≤ t.zxid := by
  intro os t
  have hn : lookup "/a" t.nodes = some ⟨[], ⟨1, 3, 2, 2, 0, 0, 0⟩, [], 0⟩ := by
    decide +kernel
  have hlen : (TreeOp.changes os Tree.empty).length < 2 ^ 63 := by decide +kernel
  have h := (stat_tracks_history os).2.2.2 "/a" _ hn
  exact ⟨hn, h.1, h.2.1, hlen, h.2.2.2.2.2.2.1 hlen⟩

section RootWrites

open Change TreeOp

theorem runAll_rootWrites (n : Nat) :
    runAll (List.replicate n (.setData "/" [] none)) Tree.empty =
      (⟨[("/", ⟨[], ⟨0, wrapI64 n, wrapI32 n, 0, 0, 0, 0⟩, [], 0⟩)], wrapI64 n, [], []⟩, []) := by
  induction n with
  | zero => simp [Tree.empty, Tree.freshNode, wrapI32, wrapI64, wrapU32]
  | succ n ih =>
    rw [List.replicate_succ', runAll_append, ih, runAll_singleton]
    simp [TreeOp.run, outcome, Tree.setData, Tree.node, Tree.validate_of_isValid Path.isValid_root,
      lookup, update, Tree.trigger, bind, Except.bind, pure, Except.pure, wrapI32_succ,
      wrapI64_succ, wrapU32]

theorem changes_rootWrites (n : Nat) :
    changes (List.replicate n (.setData "/" [] none)) Tree.empty =
      (List.range' 1 n).map fun j : Nat => .wrote "/" (wrapI64 j) := by
  induction n with
  | zero => rfl
  | succ n ih =>
    rw [List.replicate_succ', changes_append, ih, runAll_rootWrites, List.range'_concat]
    simp [changes_cons, change, Tree.setData, Tree.node, Tree.validate_of_isValid Path.isValid_root,
      lookup, update, Tree.trigger, bind, Except.bind, pure, Except.pure, wrapI64_succ,
      Nat.add_comm]

theorem dataWrites_rootWrites (n : Nat) :
    dataWrites "/" ((List.range' 1 n).map fun j : Nat => .wrote "/" (wrapI64 j)) = n := by
  have hs : sinceCreation "/" ((List.range' 1 n).map fun j : Nat => .wrote "/" (wrapI64 j)) =
      (List.range' 1 n).map fun j : Nat => .wrote "/" (wrapI64 j) :=
    sinceCreation_of_never fun c hc => by obtain ⟨x, -, rfl⟩ := List.mem_map.mp hc; rfl
  rw [dataWrites, hs, List.countP_eq_length.mpr fun c hc => by
    obtain ⟨x, -, rfl⟩ := List.mem_map.mp hc; rfl]
  simp

/-- After 2^31 writes to the root its version is -2^31, not the 2^31 writes made, and a write
conditioned on version -2^31 passes its check. After 2^63 - 1 writes the root's last write is
transaction 2^63 - 1; the next write takes transaction -2^63, below the one before it and below
the root's creation, transaction 0. -/
theorem stat_counters_wrap :
    let os := List.replicate 2147483648 (TreeOp.setData "/" [] none)
    let t := (runAll os Tree.empty).1
    (dataWrites "/" (changes os Tree.empty) = 2147483648 ∧
      (∃ n, lookup "/" t.nodes = some n ∧ n.stat.version = -2147483648) ∧
      ∃ r, t.setData "/" [] (some (-2147483648)) = .ok r) ∧
    (∃ n, lookup "/" (runAll (List.replicate 9223372036854775807 (TreeOp.setData "/" [] none))
        Tree.empty).1.nodes = some n ∧ n.stat.mzxid = 9223372036854775807) ∧
    ∃ n, lookup "/" (runAll (List.replicate 9223372036854775808 (TreeOp.setData "/" [] none))
        Tree.empty).1.nodes = some n ∧ n.stat.mzxid = -9223372036854775808 ∧ n.stat.czxid = 0 := by
  dsimp only
  have hwrap : wrapI32 ((2147483648 : Nat) : Int) = -2147483648 := by decide
  have hlast : wrapI64 ((9223372036854775807 : Nat) : Int) = 9223372036854775807 := by decide
  have hnext : wrapI64 ((9223372036854775808 : Nat) : Int) = -9223372036854775808 := by decide
  rw [changes_rootWrites, dataWrites_rootWrites, runAll_rootWrites, runAll_rootWrites,
    runAll_rootWrites, hwrap, hlast, hnext]
  refine ⟨⟨rfl, ⟨_, rfl, rfl⟩, ?_⟩, ⟨_, rfl, rfl⟩, ⟨_, rfl, rfl, rfl⟩⟩
  simp [Tree.setData, Tree.node, Tree.validate_of_isValid Path.isValid_root, lookup, bind,
    Except.bind, pure, Except.pure]

end RootWrites

end Coordination
