import Coordination.Proofs.TreeShape

/-!
Removing the nodes of an ending session. The removal deletes the paths the session owns in the
order the tree stores them, counting the deletes that succeed. In a well-formed tree the nodes of
a session are leaves under nodes of no session, so deleting one of them never touches another.
Two deletes that succeed in either order commute (`delete_comm_of_ok`), so every order of the
paths deletes them all and ends in one tree (`deleteAll_perm`), and the removal counts every
node of the session and leaves exactly the nodes it does not own (`removeEphemerals_spec`).
-/

namespace Coordination.Tree

/-- Deletes the paths one by one, each whatever its version; none as soon as a delete fails. -/
def deleteAll (t : Tree) : List String → Option Tree
  | [] => some t
  | p :: ps =>
    match t.delete p none with
    | .ok (t', _) => t'.deleteAll ps
    | .error _ => none

/-- Removal steps over paths that all delete count every path and end in the tree the deletes
give. -/
theorem foldl_removalStep_of_deleteAll {t t' : Tree} {ps : List String}
    (h : t.deleteAll ps = some t') (count : Nat) (fired : List Fired) :
    ∃ more, ps.foldl removalStep (count, t, fired) = (count + ps.length, t', fired ++ more) := by
  induction ps generalizing t count fired with
  | nil =>
    dsimp only [deleteAll] at h
    obtain rfl := Option.some.inj h
    exact ⟨[], by simp⟩
  | cons p ps ih =>
    dsimp only [deleteAll] at h
    split at h
    · rename_i t₁ f₁ hdel
      obtain ⟨more, hmore⟩ := ih h (count + 1) (fired ++ f₁)
      refine ⟨f₁ ++ more, ?_⟩
      have hstep : removalStep (count, t, fired) p = (count + 1, t₁, fired ++ f₁) := by
        dsimp only [removalStep]
        rw [hdel]
      rw [List.foldl_cons, hstep, hmore, List.length_cons, List.append_assoc]
      congr 1
      omega
    · cases h

/-- Paths of distinct nodes a session owns in a well-formed tree. -/
structure Owned (t : Tree) (o : Nat) (ps : List String) : Prop where
  wellFormed : WellFormed t.nodes
  nodup : ps.Nodup
  owned : ∀ p ∈ ps, ∃ n, lookup p t.nodes = some n ∧ n.stat.ephemeralOwner = o

theorem Owned.perm {t : Tree} {o : Nat} {ps ps' : List String} (h : Owned t o ps)
    (hperm : ps.Perm ps') : Owned t o ps' :=
  ⟨h.wellFormed, hperm.nodup_iff.mp h.nodup, fun p hp => h.owned p (hperm.mem_iff.mpr hp)⟩

section Session

variable {t : Tree} {o : Nat}

theorem leaf_of_owned (hw : WellFormed t.nodes) (ho : o ≠ 0) {p : String} {n : TreeNode}
    (hn : lookup p t.nodes = some n) (hown : n.stat.ephemeralOwner = o) :
    n.children = [] ∧ p ≠ "/" := by
  refine ⟨hw.leaf p n hn (hown ▸ ho), ?_⟩
  rintro rfl
  obtain ⟨r, hr, hro⟩ := hw.root
  rw [hn] at hr
  cases hr
  exact ho (hown ▸ hro)

/-- Deleting a node of a session: the delete succeeds, and the tree it gives is the one the
deleted leaf and its parent's list describe. -/
theorem delete_owned (hw : WellFormed t.nodes) (ho : o ≠ 0) {p : String} {n : TreeNode}
    (hn : lookup p t.nodes = some n) (hown : n.stat.ephemeralOwner = o) :
    ∃ q par f, Path.parent p = some q ∧ lookup q t.nodes = some par ∧ q ≠ p ∧
      t.delete p none = .ok ({ t with
        nodes := update q (par.dropChild (Path.name p)) (without p t.nodes)
        zxid := wrapI64 (t.zxid + 1)
        dataWatches := without p t.dataWatches
        childWatches := without q (without p t.childWatches) }, f) := by
  obtain ⟨hleaf, hroot⟩ := leaf_of_owned hw ho hn hown
  obtain ⟨⟨t₁, f⟩, hdel⟩ := delete_leaf hw hn hleaf hroot
  obtain ⟨n', q, par, hn', -, -, hq, hpar, ht₁⟩ := delete_ok_of_wellFormed hw hdel
  refine ⟨q, par, f, hq, hpar, hw.parent_ne_leaf hn hroot hq hn hleaf, ?_⟩
  rw [hdel]
  dsimp only at ht₁
  rw [ht₁]

theorem parent_ne_owned (hw : WellFormed t.nodes) (ho : o ≠ 0) {p q k : String}
    {n m : TreeNode} (hn : lookup p t.nodes = some n) (hown : n.stat.ephemeralOwner = o)
    (hq : Path.parent p = some q) (hm : lookup k t.nodes = some m)
    (hmown : m.stat.ephemeralOwner = o) : q ≠ k :=
  hw.parent_ne_leaf hn (leaf_of_owned hw ho hn hown).2 hq hm (leaf_of_owned hw ho hm hmown).1

theorem lookup_after_delete {nodes : List (String × TreeNode)} {p q k : String} {par : TreeNode}
    (hkp : k ≠ p) (hkq : k ≠ q) :
    lookup k (update q (par.dropChild (Path.name p)) (without p nodes)) = lookup k nodes := by
  rw [lookup_update, if_neg hkq, lookup_without_of_ne hkp]

/-- The first path of a session's list deletes, and leaves the rest a list of the session's
nodes. -/
theorem Owned.delete {p : String} {ps : List String} (h : Owned t o (p :: ps)) (ho : o ≠ 0) :
    ∃ t' f, t.delete p none = .ok (t', f) ∧ Owned t' o ps := by
  obtain ⟨n, hn, hown⟩ := h.owned p List.mem_cons_self
  obtain ⟨q, par, f, hq, hpar, hqp, hdel⟩ := delete_owned h.wellFormed ho hn hown
  refine ⟨_, f, hdel, delete_wellFormed h.wellFormed hdel, (List.nodup_cons.mp h.nodup).2, ?_⟩
  intro k hk
  obtain ⟨m, hm, hmown⟩ := h.owned k (List.mem_cons_of_mem _ hk)
  have hkp : k ≠ p := fun hkp => (List.nodup_cons.mp h.nodup).1 (hkp ▸ hk)
  have hkq : k ≠ q := (parent_ne_owned h.wellFormed ho hn hown hq hm hmown).symm
  exact ⟨m, by rw [lookup_after_delete hkp hkq, hm], hmown⟩

/-- Two deletes one after the other, the second of a node stored before the first: the second
drops its name from its parent as the first left that parent. -/
theorem delete_twice (hw : WellFormed t.nodes) {x y : String} {ny : TreeNode}
    (hy : lookup y t.nodes = some ny) {tx txy : Tree}
    {fx fxy : List Fired} (hdx : t.delete x none = .ok (tx, fx))
    (hdxy : tx.delete y none = .ok (txy, fxy)) :
    ∃ qx qy parx pary, Path.parent x = some qx ∧ Path.parent y = some qy ∧
      lookup qx t.nodes = some parx ∧ lookup qy t.nodes = some pary ∧
      txy = { t with
        nodes := update qy
          ((if qy = qx then parx.dropChild (Path.name x) else pary).dropChild (Path.name y))
          (without y (update qx (parx.dropChild (Path.name x)) (without x t.nodes)))
        zxid := wrapI64 (wrapI64 (t.zxid + 1) + 1)
        dataWatches := without y (without x t.dataWatches)
        childWatches := without qy (without y (without qx (without x t.childWatches))) } := by
  obtain ⟨nx, qx, parx, hnx, hxleaf, hxroot, hqx, hparx, htx⟩ := delete_ok_of_wellFormed hw hdx
  simp only at htx
  subst htx
  -- the second delete, on the tree the first one gave
  obtain ⟨-, qy, pary', -, -, hyroot, hqy, hpary', htxy⟩ :=
    delete_ok_of_wellFormed (delete_wellFormed hw hdx) hdxy
  obtain ⟨-, qy', pary, hqy', hpary, -⟩ := hw.parent y ny hy hyroot
  rw [hqy] at hqy'
  cases hqy'
  have hqyx : qy ≠ x := hw.parent_ne_leaf hy hyroot hqy hnx hxleaf
  simp only at htxy
  have hpar' : pary' = if qy = qx then parx.dropChild (Path.name x) else pary := by
    simp only [lookup_update] at hpary'
    by_cases hq : qy = qx
    · subst hq
      simp only [if_true, Option.some.injEq] at hpary'
      simp [hpary']
    · rw [if_neg hq, lookup_without_of_ne hqyx, hpary, Option.some.injEq] at hpary'
      simp [hq, hpary']
  refine ⟨qx, qy, parx, pary, hqx, hqy, hparx, hpary, ?_⟩
  rw [htxy, hpar']

theorem delete_comm_of_ok (hw : WellFormed t.nodes) {x y : String} {tx ty txy tyx : Tree}
    {fx fy fxy fyx : List Fired}
    (hdx : t.delete x none = .ok (tx, fx)) (hdxy : tx.delete y none = .ok (txy, fxy))
    (hdy : t.delete y none = .ok (ty, fy)) (hdyx : ty.delete x none = .ok (tyx, fyx)) :
    txy = tyx := by
  -- each of the two deletes first, so both paths are leaves other than the root
  obtain ⟨nx, -, -, hnx, hxleaf, hxroot, -⟩ := delete_ok_of_wellFormed hw hdx
  obtain ⟨ny, -, -, hny, hyleaf, hyroot, -⟩ := delete_ok_of_wellFormed hw hdy
  obtain ⟨qx, qy, parx, pary, hqx, hqy, hparx, hpary, rfl⟩ := delete_twice hw hny hdx hdxy
  obtain ⟨qy', qx', pary', parx', hqy', hqx', hpary', hparx', rfl⟩ :=
    delete_twice hw hnx hdy hdyx
  rw [hqx] at hqx'
  rw [hqy] at hqy'
  cases hqx'
  cases hqy'
  rw [hparx] at hparx'
  rw [hpary] at hpary'
  cases hparx'
  cases hpary'
  -- neither parent is one of the two leaves
  have hqxx : qx ≠ x := hw.parent_ne_leaf hnx hxroot hqx hnx hxleaf
  have hqxy : qx ≠ y := hw.parent_ne_leaf hnx hxroot hqx hny hyleaf
  have hqyx : qy ≠ x := hw.parent_ne_leaf hny hyroot hqy hnx hxleaf
  have hqyy : qy ≠ y := hw.parent_ne_leaf hny hyroot hqy hny hyleaf
  by_cases hq : qy = qx
  · -- one parent loses both names, in either order
    subst hq
    rw [hparx] at hpary
    cases hpary
    simp only [if_true, without_update hqxy.symm, without_update hqxx.symm, update_update,
      TreeNode.dropChild_comm, without_comm]
  · -- two parents lose one name each
    have hmem : qy ∈ (without x (without y t.nodes)).map (·.1) := by
      rw [keys_without, keys_without, List.mem_erase_of_ne hqyx, List.mem_erase_of_ne hqyy]
      exact lookup_isSome_iff.mp (by simp [hpary])
    simp only [if_neg hq, if_neg (Ne.symm hq), without_update (Ne.symm hqxy),
      without_update (Ne.symm hqyx), without_comm]
    rw [update_comm hq hmem]

theorem Owned.deleteAll_isSome {ps : List String} (h : Owned t o ps) (ho : o ≠ 0) :
    ∃ t', t.deleteAll ps = some t' := by
  induction ps generalizing t with
  | nil => exact ⟨t, rfl⟩
  | cons p ps ih =>
    obtain ⟨t₁, f, hdel, h₁⟩ := h.delete ho
    obtain ⟨t', ht'⟩ := ih h₁
    refine ⟨t', ?_⟩
    dsimp only [deleteAll]
    rw [hdel]
    exact ht'

theorem deleteAll_perm (ho : o ≠ 0) {ps ps' : List String} (hperm : ps.Perm ps') :
    ∀ {t : Tree}, Owned t o ps → t.deleteAll ps = t.deleteAll ps' := by
  induction hperm with
  | nil => exact fun _ => rfl
  | cons p _ ih =>
    intro t h
    obtain ⟨t₁, f, hdel, h₁⟩ := h.delete ho
    dsimp only [deleteAll]
    rw [hdel]
    exact ih h₁
  | swap x y l =>
    intro t h
    -- the first two deletes, in both orders, end in one tree
    obtain ⟨ty, fy, hdy, hy⟩ := h.delete ho
    obtain ⟨tyx, fyx, hdyx, -⟩ := hy.delete ho
    obtain ⟨tx, fx, hdx, hx⟩ := (h.perm (List.Perm.swap x y l)).delete ho
    obtain ⟨txy, fxy, hdxy, -⟩ := hx.delete ho
    have hcomm := delete_comm_of_ok h.wellFormed hdx hdxy hdy hdyx
    dsimp only [deleteAll]
    simp only [hdy, hdyx, hdx, hdxy, hcomm]
  | trans h₁₂ _ ih₁ ih₂ =>
    intro t h
    rw [ih₁ h, ih₂ (h.perm h₁₂)]

theorem Owned.deleteAll_present {ps : List String} (h : Owned t o ps) (ho : o ≠ 0) {t' : Tree}
    (ht' : t.deleteAll ps = some t') (k : String) :
    (lookup k t'.nodes).isSome ↔ (lookup k t.nodes).isSome ∧ k ∉ ps := by
  induction ps generalizing t with
  | nil =>
    dsimp only [deleteAll] at ht'
    obtain rfl := Option.some.inj ht'
    simp
  | cons p ps ih =>
    obtain ⟨n, hn, hown⟩ := h.owned p List.mem_cons_self
    obtain ⟨q, par, f, hq, hpar, hqp, hdel⟩ := delete_owned h.wellFormed ho hn hown
    obtain ⟨t₁, f₁, hdel₁, h₁⟩ := h.delete ho
    rw [hdel, Except.ok.injEq, Prod.mk.injEq] at hdel₁
    obtain ⟨rfl, -⟩ := hdel₁
    dsimp only [deleteAll] at ht'
    simp only [hdel] at ht'
    -- the first delete removes its node only
    have hone : (lookup k (update q (par.dropChild (Path.name p)) (without p t.nodes))).isSome ↔
        (lookup k t.nodes).isSome ∧ k ≠ p := by
      rw [lookup_update_without h.wellFormed.nodup]
      by_cases hkq : k = q
      · subst hkq
        simp [hpar, hqp]
      · by_cases hkp : k = p
        · subst hkp
          simp [hkq]
        · simp [hkq, hkp]
    rw [ih h₁ ht', List.mem_cons, not_or, ← and_assoc]
    exact and_congr_left fun _ => hone

theorem mem_ownedBy (hw : WellFormed t.nodes) {k : String} :
    k ∈ t.ownedBy o ↔ ∃ n, lookup k t.nodes = some n ∧ n.stat.ephemeralOwner = o := by
  simp only [ownedBy, List.mem_map, List.mem_filter, decide_eq_true_eq]
  constructor
  · rintro ⟨⟨k', n⟩, ⟨hmem, hown⟩, rfl⟩
    exact ⟨n, (lookup_eq_some_iff hw.nodup).mpr hmem, hown⟩
  · rintro ⟨n, hn, hown⟩
    exact ⟨(k, n), ⟨(lookup_eq_some_iff hw.nodup).mp hn, hown⟩, rfl⟩

theorem owned_ownedBy (hw : WellFormed t.nodes) : Owned t o (t.ownedBy o) where
  wellFormed := hw
  nodup := hw.nodup.sublist ((List.filter_sublist).map _)
  owned _ hp := (mem_ownedBy hw).mp hp

/-- Removing the nodes of a session from a well-formed tree: every one of them is deleted, in
whatever order they are taken, always to the same tree; the removal counts them, and the nodes
left are exactly those the session does not own. -/
theorem removeEphemerals_spec (hw : WellFormed t.nodes) (ho : o ≠ 0) :
    (t.removeEphemerals o).1 = (t.ownedBy o).length ∧
      (∀ ps, ps.Perm (t.ownedBy o) → t.deleteAll ps = some (t.removeEphemerals o).2.1) ∧
      ∀ k, (lookup k (t.removeEphemerals o).2.1.nodes).isSome ↔
        ∃ n, lookup k t.nodes = some n ∧ n.stat.ephemeralOwner ≠ o := by
  have howned : Owned t o (t.ownedBy o) := owned_ownedBy hw
  obtain ⟨t', ht'⟩ := howned.deleteAll_isSome ho
  obtain ⟨more, hfold⟩ := foldl_removalStep_of_deleteAll ht' 0 []
  rw [removeEphemerals_eq, hfold]
  refine ⟨Nat.zero_add _, fun ps hps => ?_, fun k => ?_⟩
  · rw [deleteAll_perm ho hps (howned.perm hps.symm), ht']
  · rw [howned.deleteAll_present ho ht' k, mem_ownedBy hw]
    cases hk : lookup k t.nodes <;> simp

end Session

end Coordination.Tree
