import Mathlib.Data.List.Nodup
import Mathlib.Data.List.Perm.Subperm
import Coordination.Proofs.EphemeralRemoval

/-!
Subtrees of the node tree. A path lies under `p` when following parents up from it reaches `p`
(`Path.Under`). In a well-formed tree, the walk that lists a subtree breadth first names every
node at or under a stored `p` once, each node's children after it (`walk_listing`). Deletes that
all succeed end in one tree whatever their order (`deleteAll_perm_eq`), and deleting a listing
from its end, deepest nodes first, succeeds below any path but the root: the tree without a
subtree (`Tree.prune`) holds exactly the nodes not under `p` (`prune_spec`), and every order of
deletes of those nodes that succeeds ends in it (`prune_of_deleteAll`).
-/

namespace Coordination

namespace Path

/-- `k` is `p` or lies below it: following parents up from `k` reaches `p`. -/
inductive Under (p : String) : String → Prop
  | refl : Under p p
  | child {k q : String} : parent k = some q → Under p q → Under p k

theorem length_lt_of_parent {p q : String} (h : parent p = some q) :
    q.toList.length < p.toList.length := by
  obtain ⟨hroot, pre, hpre, hq⟩ := eq_of_parent h
  rcases hq with ⟨rfl, rfl⟩ | ⟨-, hq⟩
  · -- a top-level path is a slash and a name that is not empty
    have hname : (name p).toList ≠ [] := by
      intro h0
      rw [h0] at hpre
      exact hroot (by simpa using hpre)
    have hpos := List.length_pos_iff.mpr hname
    rw [hpre]
    simp only [List.nil_append, List.length_cons]
    have hroot' : "/".toList.length = 1 := rfl
    omega
  · rw [hpre, hq]
    simp

theorem Under.length_le {p k : String} (h : Under p k) : p.toList.length ≤ k.toList.length := by
  induction h with
  | refl => exact Nat.le_refl _
  | child hq _ ih => exact Nat.le_trans ih (Nat.le_of_lt (length_lt_of_parent hq))

theorem Under.not_parent {p q : String} (hq : parent p = some q) : ¬ Under p q := fun h =>
  absurd h.length_le (Nat.not_le_of_lt (length_lt_of_parent hq))

end Path

namespace Tree

theorem eq_root_of_under {p : String} (h : Path.Under p "/") : p = "/" := by
  cases h with
  | refl => rfl
  | child hq _ => simp [parent_root] at hq

variable {t : Tree}

theorem stored_of_under (hw : WellFormed t.nodes) {p k : String} (h : Path.Under p k)
    (hk : (lookup k t.nodes).isSome) : (lookup p t.nodes).isSome := by
  induction h with
  | refl => exact hk
  | @child k q hq _ ih =>
    obtain ⟨n, hn⟩ := Option.isSome_iff_exists.mp hk
    have hroot : k ≠ "/" := by
      rintro rfl
      simp [parent_root] at hq
    obtain ⟨-, q', m, hq', hm, -⟩ := hw.parent k n hn hroot
    rw [hq] at hq'
    cases hq'
    exact ih (by simp [hm])

section Deletes

theorem delete_present (hw : WellFormed t.nodes) {x : String} {t' : Tree} {f : List Fired}
    (h : t.delete x none = .ok (t', f)) (k : String) :
    (lookup k t'.nodes).isSome ↔ (lookup k t.nodes).isSome ∧ k ≠ x := by
  obtain ⟨n, q, par, hn, hleaf, hroot, hq, hpar, hr⟩ := delete_ok_of_wellFormed hw h
  have hqx : q ≠ x := hw.parent_ne_leaf hn hroot hq hn hleaf
  simp only at hr
  rw [hr, lookup_update_without hw.nodup]
  by_cases hkq : k = q
  · subst hkq
    simp [hpar, hqx]
  · by_cases hkx : k = x
    · subst hkx
      simp [hkq]
    · simp [hkq, hkx]

theorem lookup_leaf_of_delete (hw : WellFormed t.nodes) {x y : String} {t' : Tree}
    {f : List Fired} (h : t.delete x none = .ok (t', f)) {n : TreeNode}
    (hy : lookup y t.nodes = some n) (hleaf : n.children = []) (hyx : y ≠ x) :
    lookup y t'.nodes = some n := by
  obtain ⟨nx, q, par, hnx, -, hroot, hq, -, hr⟩ := delete_ok_of_wellFormed hw h
  have hyq : y ≠ q := (hw.parent_ne_leaf hnx hroot hq hy hleaf).symm
  simp only at hr
  rw [hr, lookup_after_delete hyx hyq, hy]

theorem deleteAll_cons_of_ok {x : String} {xs : List String} {t' : Tree} {f : List Fired}
    (h : t.delete x none = .ok (t', f)) : t.deleteAll (x :: xs) = t'.deleteAll xs := by
  simp only [deleteAll, h]

theorem deleteAll_cons_some {x : String} {xs : List String} {a : Tree}
    (h : t.deleteAll (x :: xs) = some a) :
    ∃ t' f, t.delete x none = .ok (t', f) ∧ t'.deleteAll xs = some a := by
  dsimp only [deleteAll] at h
  split at h
  · exact ⟨_, _, ‹_›, h⟩
  · cases h

theorem deleteAll_append (xs ys : List String) :
    t.deleteAll (xs ++ ys) = (t.deleteAll xs).bind (·.deleteAll ys) := by
  induction xs generalizing t with
  | nil => rfl
  | cons x xs ih =>
    dsimp only [List.cons_append, deleteAll]
    split
    · exact ih
    · rfl

variable {xs : List String} {a : Tree}

theorem deleteAll_wellFormed (hw : WellFormed t.nodes) (h : t.deleteAll xs = some a) :
    WellFormed a.nodes := by
  induction xs generalizing t with
  | nil =>
    obtain rfl := Option.some.inj h
    exact hw
  | cons x xs ih =>
    obtain ⟨t', f, hd, h'⟩ := deleteAll_cons_some h
    exact ih (delete_wellFormed hw hd) h'

theorem deleteAll_present (hw : WellFormed t.nodes) (h : t.deleteAll xs = some a) (k : String) :
    (lookup k a.nodes).isSome ↔ (lookup k t.nodes).isSome ∧ k ∉ xs := by
  induction xs generalizing t with
  | nil =>
    obtain rfl := Option.some.inj h
    simp
  | cons x xs ih =>
    obtain ⟨t', f, hd, h'⟩ := deleteAll_cons_some h
    rw [ih (delete_wellFormed hw hd) h', delete_present hw hd, List.mem_cons, not_or, and_assoc]

theorem deleteAll_stored_nodup (hw : WellFormed t.nodes) (h : t.deleteAll xs = some a) :
    (∀ x ∈ xs, (lookup x t.nodes).isSome) ∧ xs.Nodup := by
  induction xs generalizing t with
  | nil => exact ⟨by simp, List.nodup_nil⟩
  | cons x xs ih =>
    obtain ⟨t', f, hd, h'⟩ := deleteAll_cons_some h
    obtain ⟨hstored, hnodup⟩ := ih (delete_wellFormed hw hd) h'
    have hx : (lookup x t.nodes).isSome := by
      obtain ⟨n, -, -, hn, -⟩ := delete_ok_of_wellFormed hw hd
      simp [hn]
    refine ⟨?_, List.nodup_cons.mpr ⟨fun hmem => ?_, hnodup⟩⟩
    · intro k hk
      rcases List.mem_cons.mp hk with rfl | hk
      · exact hx
      · exact ((delete_present hw hd k).mp (hstored k hk)).1
    · -- the first delete removed `x`, which the later ones find stored
      exact ((delete_present hw hd x).mp (hstored x hmem)).2 rfl

/-- A leaf that deletes from `t` may be deleted before deletes that all succeed and do not
touch it. -/
theorem deleteAll_leaf_first {x : String} {zs : List String} :
    ∀ {t : Tree} (ys : List String), WellFormed t.nodes → (∃ r, t.delete x none = .ok r) →
      x ∉ ys → t.deleteAll (ys ++ x :: zs) = some a → t.deleteAll (x :: (ys ++ zs)) = some a := by
  intro t ys
  induction ys generalizing t with
  | nil => exact fun _ _ _ h => h
  | cons y ys ih =>
    intro hw ⟨⟨tx, fx⟩, hdx⟩ hxy h
    obtain ⟨ty, fy, hdy, hy⟩ := deleteAll_cons_some h
    obtain ⟨nx, -, -, hnx, hxleaf, hxroot, -⟩ := delete_ok_of_wellFormed hw hdx
    obtain ⟨ny, -, -, hny, hyleaf, hyroot, -⟩ := delete_ok_of_wellFormed hw hdy
    have hne : x ≠ y := fun he => hxy (he ▸ List.mem_cons_self)
    -- `x` is still a leaf once `y` is gone, and `y` once `x` is gone
    have hx' : ∃ r, ty.delete x none = .ok r :=
      delete_leaf (delete_wellFormed hw hdy) (lookup_leaf_of_delete hw hdy hnx hxleaf hne) hxleaf
        hxroot
    obtain ⟨tyx, fyx, hdyx, hrest⟩ :=
      deleteAll_cons_some (ih (delete_wellFormed hw hdy) hx' (fun h => hxy (List.mem_cons_of_mem _ h)) hy)
    obtain ⟨⟨txy, fxy⟩, hdxy⟩ :=
      delete_leaf (delete_wellFormed hw hdx) (lookup_leaf_of_delete hw hdx hny hyleaf hne.symm) hyleaf
        hyroot
    rw [List.cons_append, deleteAll_cons_of_ok hdx, deleteAll_cons_of_ok hdxy,
      delete_comm_of_ok hw hdx hdxy hdy hdyx]
    exact hrest

theorem deleteAll_perm_eq {ys : List String} {b : Tree} (hperm : xs.Perm ys) :
    ∀ {t : Tree}, WellFormed t.nodes → t.deleteAll xs = some a → t.deleteAll ys = some b →
      a = b := by
  induction xs generalizing ys with
  | nil =>
    intro t _ hxs hys
    rw [List.nil_perm.mp hperm] at hys
    exact (Option.some.inj hxs).symm.trans (Option.some.inj hys)
  | cons x xs ih =>
    intro t hw hxs hys
    obtain ⟨tx, fx, hdx, hxs'⟩ := deleteAll_cons_some hxs
    -- bring `x` to the front of the other order
    obtain ⟨ys₁, ys₂, rfl⟩ := List.append_of_mem (hperm.mem_iff.mp List.mem_cons_self)
    have hnodup := (deleteAll_stored_nodup hw hys).2
    have hx₁ : x ∉ ys₁ := fun h => (List.nodup_append.mp hnodup).2.2 x h x List.mem_cons_self rfl
    obtain ⟨tx', fx', hdx', hys'⟩ :=
      deleteAll_cons_some (deleteAll_leaf_first ys₁ hw ⟨_, hdx⟩ hx₁ hys)
    rw [hdx, Except.ok.injEq, Prod.mk.injEq] at hdx'
    obtain ⟨rfl, -⟩ := hdx'
    exact ih (hperm.trans List.perm_middle).cons_inv (delete_wellFormed hw hdx) hxs' hys'

end Deletes

section Walk

/-- The paths of the children of a node, in the order the node lists them. -/
def kidsOf (t : Tree) (x : String) : List String :=
  (((lookup x t.nodes).map (·.children)).getD []).map (Path.join x)

/-- The breadth-first walk of a subtree from `order[next]` on: each node's children are put
after the nodes already listed. -/
def walk (t : Tree) : Nat → List String → Nat → List String
  | 0, order, _ => order
  | fuel + 1, order, next =>
    match order[next]? with
    | none => order
    | some x => t.walk fuel (order ++ t.kidsOf x) (next + 1)

/-- The node at `p` and every node below it, breadth first. -/
def below (t : Tree) (p : String) : List String := t.walk (t.nodes.length + 1) [p] 0

/-- A listing of the subtree at `p`: `p` first, each node at or under `p` once, and the
children of each node after it. -/
structure Listing (t : Tree) (p : String) (order : List String) : Prop where
  head : order.head? = some p
  nodup : order.Nodup
  mem : ∀ k, k ∈ order ↔ (lookup k t.nodes).isSome ∧ Path.Under p k
  after : ∀ xs x ys, order = xs ++ x :: ys → ∀ k ∈ t.kidsOf x, k ∈ ys

variable {p x k : String}

theorem mem_kidsOf (hw : WellFormed t.nodes) (h : k ∈ t.kidsOf x) :
    Path.parent k = some x ∧ (lookup k t.nodes).isSome := by
  simp only [kidsOf, List.mem_map] at h
  obtain ⟨c, hc, rfl⟩ := h
  cases hx : lookup x t.nodes with
  | none => simp [hx] at hc
  | some n =>
    rw [hx] at hc
    obtain ⟨hk, hpar⟩ := hw.child x n c hx hc
    exact ⟨hpar, hk⟩

theorem mem_kidsOf_of_parent (hw : WellFormed t.nodes) (hk : (lookup k t.nodes).isSome)
    (hpar : Path.parent k = some x) : k ∈ t.kidsOf x := by
  obtain ⟨n, hn⟩ := Option.isSome_iff_exists.mp hk
  have hroot : k ≠ "/" := by
    rintro rfl
    simp [parent_root] at hpar
  obtain ⟨-, q, m, hq, hm, hname⟩ := hw.parent k n hn hroot
  rw [hpar] at hq
  cases hq
  simp only [kidsOf, hm, Option.map_some, Option.getD_some, List.mem_map]
  exact ⟨_, hname, hw.join_parent hn hroot hpar⟩

theorem kidsOf_nodup (hw : WellFormed t.nodes) (x : String) : (t.kidsOf x).Nodup := by
  unfold kidsOf
  cases hx : lookup x t.nodes with
  | none => simp
  | some n => exact List.Nodup.map (Path.join_injective x) (hw.children_nodup hx)

/-- What the walk keeps of the order it builds: `p` first, then the children of the first
`next` entries, each entry stored under `p` once, the children of each of those entries after
it. -/
structure WalkInv (t : Tree) (p : String) (order : List String) (next : Nat) : Prop where
  next_le : next ≤ order.length
  shape : order = p :: (order.take next).flatMap t.kidsOf
  nodup : order.Nodup
  sound : ∀ k ∈ order, (lookup k t.nodes).isSome ∧ Path.Under p k
  after : ∀ j < next, ∀ x, order[j]? = some x → ∀ k ∈ t.kidsOf x, k ∈ order.drop (j + 1)

theorem walkInv_start (hp : (lookup p t.nodes).isSome) : WalkInv t p [p] 0 where
  next_le := Nat.zero_le _
  shape := rfl
  nodup := List.nodup_singleton p
  sound k hk := by
    rw [List.mem_singleton.mp hk]
    exact ⟨hp, .refl⟩
  after j hj := absurd hj (Nat.not_lt_zero j)

/-- The children of the next entry are new: each has that entry as its parent, while every entry
is `p` or a child of an earlier entry. -/
theorem WalkInv.disjoint_kidsOf (hw : WellFormed t.nodes) {order : List String} {next : Nat}
    (h : WalkInv t p order next) (hx : order[next]? = some x) :
    ∀ k ∈ t.kidsOf x, k ∉ order := by
  intro k hk hmem
  have hkx := (mem_kidsOf hw hk).1
  have hfresh : x ∉ order.take next := by
    have hfirst : (order.drop next)[0]? = some x := by
      rw [List.getElem?_drop]
      exact hx
    have hdrop : x ∈ order.drop next := List.mem_of_getElem? hfirst
    exact fun hin => List.disjoint_take_drop h.nodup (Nat.le_refl _) hin hdrop
  rw [h.shape] at hmem
  rcases List.mem_cons.mp hmem with rfl | hmem
  · -- `p` has no parent under itself
    exact Path.Under.not_parent hkx (h.sound x (List.mem_of_getElem? hx)).2
  · obtain ⟨z, hz, hkz⟩ := List.mem_flatMap.mp hmem
    rw [(mem_kidsOf hw hkz).1] at hkx
    cases hkx
    exact hfresh hz

theorem WalkInv.step (hw : WellFormed t.nodes) {order : List String} {next : Nat}
    (h : WalkInv t p order next) (hx : order[next]? = some x) :
    WalkInv t p (order ++ t.kidsOf x) (next + 1) := by
  have hlt : next < order.length := (List.getElem?_eq_some_iff.mp hx).1
  have htake : (order ++ t.kidsOf x).take (next + 1) = order.take next ++ [x] := by
    rw [List.take_append_of_le_length hlt, List.take_add_one, hx]
    rfl
  refine ⟨?_, ?_, ?_, ?_, ?_⟩
  · simp only [List.length_append]
    omega
  · rw [htake, List.flatMap_append, List.flatMap_singleton, ← List.cons_append, ← h.shape]
  · exact List.nodup_append.mpr ⟨h.nodup, kidsOf_nodup hw x,
      fun a ha b hb hab => h.disjoint_kidsOf hw hx b hb (hab ▸ ha)⟩
  · intro k hk
    rcases List.mem_append.mp hk with hk | hk
    · exact h.sound k hk
    · obtain ⟨hkx, hstored⟩ := mem_kidsOf hw hk
      exact ⟨hstored, .child hkx (h.sound x (List.mem_of_getElem? hx)).2⟩
  · intro j hj y hy k hk
    rw [List.drop_append_of_le_length (by omega)]
    rcases Nat.lt_succ_iff_lt_or_eq.mp hj with hj | rfl
    · rw [List.getElem?_append_left (by omega)] at hy
      exact List.mem_append_left _ (h.after j hj y hy k hk)
    · rw [List.getElem?_append_left hlt, hx] at hy
      cases hy
      exact List.mem_append_right _ hk

theorem walkInv_walk (hw : WellFormed t.nodes) (fuel : Nat) :
    ∀ {order : List String} {next : Nat}, WalkInv t p order next →
      t.nodes.length < fuel + next →
      WalkInv t p (t.walk fuel order next) (t.walk fuel order next).length := by
  induction fuel with
  | zero =>
    -- the entries are distinct stored paths, fewer than the nodes
    intro order next h hfuel
    have hsub : order.Subperm (t.nodes.map (·.1)) :=
      h.nodup.subperm fun k hk => lookup_isSome_iff.mp (h.sound k hk).1
    have := hsub.length_le
    have := h.next_le
    simp only [List.length_map] at *
    omega
  | succ fuel ih =>
    intro order next h hfuel
    unfold walk
    split
    · rename_i hnone
      have hlen : next = order.length :=
        Nat.le_antisymm h.next_le (List.getElem?_eq_none_iff.mp hnone)
      exact hlen ▸ h
    · rename_i x hx
      exact ih (h.step hw hx) (by omega)

theorem walk_listing (hw : WellFormed t.nodes) (hp : (lookup p t.nodes).isSome) {fuel : Nat}
    (hfuel : t.nodes.length < fuel) : Listing t p (t.walk fuel [p] 0) := by
  have h := walkInv_walk hw fuel (walkInv_start hp) (by omega)
  set order := t.walk fuel [p] 0
  -- every entry is expanded, so every child of an entry comes after it
  have hclosed : ∀ y ∈ order, ∀ k ∈ t.kidsOf y, k ∈ order := by
    intro y hy k hk
    obtain ⟨j, hj, hjy⟩ := List.getElem_of_mem hy
    exact List.mem_of_mem_drop (h.after j hj y (List.getElem?_eq_some_iff.mpr ⟨hj, hjy⟩) k hk)
  have hhead : p ∈ order := by
    rw [h.shape]
    exact List.mem_cons_self
  refine ⟨by rw [h.shape]; rfl, h.nodup, fun k => ⟨h.sound k, fun hmem => ?_⟩, ?_⟩
  · -- completeness, up the parents from `k` to `p`
    obtain ⟨hk, hunder⟩ := hmem
    induction hunder with
    | refl => exact hhead
    | @child k q hq hunder ih =>
      have hqs : (lookup q t.nodes).isSome := stored_of_under hw (.child hq .refl) hk
      exact hclosed q (ih hqs) k (mem_kidsOf_of_parent hw hk hq)
  · intro xs y ys horder k hk
    have hj : xs.length < order.length := by
      rw [horder]
      simp
    have hy : order[xs.length]? = some y := by
      rw [horder]
      simp
    have := h.after xs.length hj y hy k hk
    rw [horder, List.drop_append, List.drop_eq_nil_of_le (by simp)] at this
    simpa using this

theorem below_listing (hw : WellFormed t.nodes) (hp : (lookup p t.nodes).isSome) :
    Listing t p (t.below p) :=
  walk_listing hw hp (Nat.lt_succ_self _)

theorem under_root (hw : WellFormed t.nodes) (k : String) (hk : (lookup k t.nodes).isSome) :
    Path.Under "/" k := by
  -- up the parents from `k`, by the length of the path
  induction h : k.toList.length using Nat.strong_induction_on generalizing k with
  | _ m ih =>
    by_cases hroot : k = "/"
    · rw [hroot]
      exact .refl
    · obtain ⟨n, hn⟩ := Option.isSome_iff_exists.mp hk
      obtain ⟨-, q, par, hq, hpar, -⟩ := hw.parent k n hn hroot
      exact .child hq (ih _ (h ▸ Path.length_lt_of_parent hq) q (by simp [hpar]) rfl)

theorem Listing.rest_nil {order xs rest : List String} (h : Listing t p order)
    (hrev : order.reverse = xs ++ p :: rest) : rest = [] := by
  have horder : order = rest.reverse ++ p :: xs.reverse := by
    rw [← List.reverse_reverse order, hrev]
    simp
  obtain ⟨tail, htail⟩ : ∃ tail, order = p :: tail := by
    have hhead := h.head
    cases order with
    | nil => simp at hhead
    | cons a tail => exact ⟨tail, by simpa using hhead⟩
  cases hr : rest.reverse with
  | nil => simpa using hr
  | cons r rr =>
    -- a path before `p` would be `p` again, listed twice
    rw [hr, htail] at horder
    have hnd := h.nodup
    rw [htail] at hnd
    simp only [List.cons_append, List.cons.injEq] at horder
    exact absurd (by rw [horder.2]; simp) (List.nodup_cons.mp hnd).1

end Walk

section Prune

/-- Deleting `qs` in order from `t` after the deletes `done`: each path is stored in `t` and not
deleted before, and each node of `t` whose parent it is was deleted before it. -/
def Ready (t : Tree) (done qs : List String) : Prop :=
  ∀ xs q ys, qs = xs ++ q :: ys → (lookup q t.nodes).isSome ∧ q ∉ done ++ xs ∧
    ∀ k, (lookup k t.nodes).isSome → Path.parent k = some q → k ∈ done ++ xs

variable {done qs : List String} {q : String} {v : Tree}

theorem Ready.tail (h : Ready t done (q :: qs)) : Ready t (done ++ [q]) qs := by
  intro xs q' ys hqs
  have := h (q :: xs) q' ys (by rw [hqs]; rfl)
  simpa using this

theorem Ready.leaf (hw : WellFormed t.nodes) (hdone : t.deleteAll done = some v)
    (h : Ready t done (q :: qs)) : ∃ n, lookup q v.nodes = some n ∧ n.children = [] := by
  obtain ⟨hq, hfresh, hkids⟩ := h [] q qs rfl
  simp only [List.append_nil] at hfresh hkids
  have hv := deleteAll_wellFormed hw hdone
  obtain ⟨n, hn⟩ := Option.isSome_iff_exists.mp ((deleteAll_present hw hdone q).mpr ⟨hq, hfresh⟩)
  refine ⟨n, hn, List.eq_nil_iff_forall_not_mem.mpr fun c hc => ?_⟩
  -- a child left in `v` is a node of `t` whose parent is `q`, so it was deleted before
  obtain ⟨hk, hpar⟩ := hv.child q n c hn hc
  obtain ⟨hkt, hkdone⟩ := (deleteAll_present hw hdone _).mp hk
  exact hkdone (hkids _ hkt hpar)

theorem Listing.ready (hw : WellFormed t.nodes) {order : List String} (h : Listing t p order) :
    Ready t [] order.reverse := by
  intro xs q ys hrev
  have horder : order = ys.reverse ++ q :: xs.reverse := by
    rw [← List.reverse_reverse order, hrev]
    simp
  have hq : q ∈ order := by
    rw [horder]
    simp
  refine ⟨((h.mem q).mp hq).1, ?_, fun k hk hpar => ?_⟩
  · have hnd := h.nodup
    rw [horder, List.nodup_middle, List.nodup_cons] at hnd
    simpa using fun hx => hnd.1 (List.mem_append_right _ (List.mem_reverse.mpr hx))
  · have := h.after _ q _ horder k (mem_kidsOf_of_parent hw hk hpar)
    simpa using this

theorem deleteAll_of_ready (hw : WellFormed t.nodes) (hroot : "/" ∉ qs) :
    ∀ {done : List String} {v : Tree}, t.deleteAll done = some v → Ready t done qs →
      ∃ v', t.deleteAll (done ++ qs) = some v' := by
  induction qs with
  | nil => exact fun hdone _ => ⟨_, by simpa using hdone⟩
  | cons q qs ih =>
    intro done v hdone h
    obtain ⟨n, hn, hleaf⟩ := h.leaf hw hdone
    obtain ⟨⟨v₁, f⟩, hd⟩ := delete_leaf (deleteAll_wellFormed hw hdone) hn hleaf
      (fun he => hroot (he ▸ List.mem_cons_self))
    have hdone' : t.deleteAll (done ++ [q]) = some v₁ := by
      rw [deleteAll_append, hdone, Option.bind_some, deleteAll_cons_of_ok hd]
      rfl
    obtain ⟨v', hv'⟩ := ih (fun h => hroot (List.mem_cons_of_mem _ h)) hdone' h.tail
    exact ⟨v', by simpa using hv'⟩

/-- The tree without the node at `p` and the nodes under it, deleted deepest first: the tree
itself when `p` is not stored, and none when a delete fails, as it does for the root. -/
def prune (t : Tree) (p : String) : Option Tree :=
  if (lookup p t.nodes).isSome then t.deleteAll (t.below p).reverse else some t

theorem prune_spec (hw : WellFormed t.nodes) (hroot : p ≠ "/") :
    ∃ t', t.prune p = some t' ∧
      ∀ k, (lookup k t'.nodes).isSome ↔ (lookup k t.nodes).isSome ∧ ¬ Path.Under p k := by
  unfold prune
  split
  · rename_i hp
    have hl := below_listing hw hp
    have hsafe : "/" ∉ (t.below p).reverse := fun h =>
      hroot (eq_root_of_under ((hl.mem "/").mp (List.mem_reverse.mp h)).2)
    obtain ⟨t', ht'⟩ := deleteAll_of_ready hw hsafe rfl (hl.ready hw)
    simp only [List.nil_append] at ht'
    refine ⟨t', ht', fun k => ?_⟩
    rw [deleteAll_present hw ht', List.mem_reverse, hl.mem]
    tauto
  · rename_i hp
    refine ⟨t, rfl, fun k => ⟨fun hk => ⟨hk, fun hu => hp (stored_of_under hw hu hk)⟩, (·.1)⟩⟩

/-- Deletes of exactly the nodes at or under a stored path that all succeed end in the pruned
tree. -/
theorem prune_of_deleteAll (hw : WellFormed t.nodes) (hroot : p ≠ "/")
    (hp : (lookup p t.nodes).isSome) {ds : List String} {v : Tree}
    (hds : t.deleteAll ds = some v)
    (hmem : ∀ k, k ∈ ds ↔ (lookup k t.nodes).isSome ∧ Path.Under p k) : t.prune p = some v := by
  obtain ⟨t', ht', -⟩ := prune_spec hw hroot
  have hl := below_listing hw hp
  rw [prune, if_pos hp] at ht'
  have hperm : ds.Perm (t.below p).reverse :=
    (List.perm_ext_iff_of_nodup (deleteAll_stored_nodup hw hds).2 (List.nodup_reverse.mpr hl.nodup)).mpr
      fun k => by rw [hmem, List.mem_reverse, hl.mem]
  rw [prune, if_pos hp, ht', deleteAll_perm_eq hperm hw hds ht']

/-- What a removal of the subtree at `p` may have done to `t`: deleted, one by one, nodes under
`p`. -/
def Pruned (t : Tree) (p : String) (u : Tree) : Prop :=
  ∃ ds, t.deleteAll ds = some u ∧ ∀ k ∈ ds, Path.Under p k

theorem pruned_refl (t : Tree) (p : String) : Pruned t p t := ⟨[], rfl, by simp⟩

theorem Pruned.trans {u : Tree} (h : Pruned t p u) {ds : List String}
    (hv : u.deleteAll ds = some v) (hds : ∀ k ∈ ds, Path.Under p k) : Pruned t p v := by
  obtain ⟨ds₀, hds₀, hunder⟩ := h
  refine ⟨ds₀ ++ ds, by rw [deleteAll_append, hds₀, Option.bind_some, hv], fun k hk => ?_⟩
  rcases List.mem_append.mp hk with hk | hk
  · exact hunder k hk
  · exact hds k hk

theorem Pruned.wellFormed (hw : WellFormed t.nodes) (h : Pruned t p v) : WellFormed v.nodes :=
  let ⟨_, hds, _⟩ := h
  deleteAll_wellFormed hw hds

theorem Pruned.eq_of_missing (hw : WellFormed t.nodes) (h : Pruned t p v)
    (hp : lookup p t.nodes = none) : v = t := by
  obtain ⟨ds, hds, hunder⟩ := h
  have hnil : ds = [] := List.eq_nil_iff_forall_not_mem.mpr fun k hk => by
    have := stored_of_under hw (hunder k hk) ((deleteAll_stored_nodup hw hds).1 k hk)
    simp [hp] at this
  subst hnil
  exact (Option.some.inj hds).symm

theorem Pruned.prune (hw : WellFormed t.nodes) (hroot : p ≠ "/") (h : Pruned t p v)
    (hgone : lookup p v.nodes = none) : t.prune p = some v := by
  by_cases hp : (lookup p t.nodes).isSome
  · obtain ⟨ds, hds, hunder⟩ := h
    refine prune_of_deleteAll hw hroot hp hds fun k =>
      ⟨fun hk => ⟨(deleteAll_stored_nodup hw hds).1 k hk, hunder k hk⟩, fun hmem => ?_⟩
    -- a node under `p` left in `v` would keep `p` stored
    obtain ⟨hk, hku⟩ := hmem
    by_contra hnot
    have hkv : (lookup k v.nodes).isSome := (deleteAll_present hw hds k).mpr ⟨hk, hnot⟩
    have := stored_of_under (deleteAll_wellFormed hw hds) hku hkv
    simp [hgone] at this
  · have hp' : lookup p t.nodes = none := by simpa using hp
    obtain rfl := h.eq_of_missing hw hp'
    simp [prune, hp']

end Prune

end Tree

end Coordination
