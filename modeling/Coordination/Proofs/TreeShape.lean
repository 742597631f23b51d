import Mathlib.Data.String.Basic
import Coordination.Proofs.Paths

/-!
The shape of the node tree. The tree stores its structure twice, as a list of nodes by path and
as the child names each node lists; `Tree.WellFormed` says the two agree: the root is there and
belongs to no session, every other node sits at a well-formed path under a node that lists its
name, every listed name is a node right under its lister, names are listed in order, a node
owned by a session has no children, and no path is stored twice.

Each change keeps that shape: a create (`create_wellFormed`), a data change
(`setData_wellFormed`) and a delete (`delete_wellFormed`), whatever their arguments, and so the
removal of a session's nodes (`removeEphemerals_wellFormed`).
-/

namespace Coordination

section Assoc

variable {α : Type} {k k' : String} {a b : α} {l l' : List (String × α)}

theorem lookup_cons_eq : lookup k ((k', a) :: l) = if k = k' then some a else lookup k l := rfl

@[simp] theorem lookup_update : lookup k (update k' a l) = if k = k' then some a else lookup k l := by
  induction l with
  | nil => rfl
  | cons e rest ih =>
    obtain ⟨j, c⟩ := e
    by_cases hj : k' = j
    · subst hj
      by_cases hk : k = k' <;> simp [update, lookup, hk]
    · by_cases hk : k = j
      · subst hk
        simp [update, lookup, hj, Ne.symm hj]
      · simp [update, lookup, hj, hk, ih]

theorem lookup_without_of_ne (h : k ≠ k') : lookup k (without k' l) = lookup k l := by
  induction l with
  | nil => rfl
  | cons e rest ih =>
    obtain ⟨j, c⟩ := e
    by_cases hj : k' = j
    · subst hj
      simp [without, lookup, h]
    · simp only [without, hj, if_false, lookup_cons_eq, ih]

theorem lookup_eq_none_iff : lookup k l = none ↔ k ∉ l.map (·.1) := by
  induction l with
  | nil => simp [lookup]
  | cons e rest ih =>
    obtain ⟨j, c⟩ := e
    by_cases hk : k = j <;> simp [lookup, hk, ih]

theorem lookup_isSome_iff : (lookup k l).isSome ↔ k ∈ l.map (·.1) := by
  rw [← Option.ne_none_iff_isSome, Ne, lookup_eq_none_iff, not_not]

theorem lookup_without_self (hl : (l.map (·.1)).Nodup) : lookup k (without k l) = none := by
  induction l with
  | nil => rfl
  | cons e rest ih =>
    obtain ⟨j, c⟩ := e
    simp only [List.map_cons, List.nodup_cons] at hl
    by_cases hk : k = j
    · subst hk
      simpa [without] using lookup_eq_none_iff.mpr hl.1
    · simp [without, lookup, hk, ih hl.2]

theorem lookup_eq_some_iff (hl : (l.map (·.1)).Nodup) : lookup k l = some a ↔ (k, a) ∈ l := by
  induction l with
  | nil => simp [lookup]
  | cons e rest ih =>
    obtain ⟨j, c⟩ := e
    simp only [List.map_cons, List.nodup_cons] at hl
    by_cases hk : k = j
    · subst hk
      have hnot : ∀ x, (k, x) ∉ rest := fun x hx => hl.1 (List.mem_map.mpr ⟨_, hx, rfl⟩)
      simp [lookup, hnot, eq_comm]
    · simp [lookup, hk, ih hl.2]

theorem lookup_append : lookup k (l ++ l') = (lookup k l).or (lookup k l') := by
  induction l with
  | nil => rfl
  | cons e rest ih =>
    obtain ⟨j, c⟩ := e
    by_cases hk : k = j <;> simp [lookup, hk, ih]

theorem keys_without : (without k l).map (·.1) = (l.map (·.1)).erase k := by
  induction l with
  | nil => rfl
  | cons e rest ih =>
    obtain ⟨j, c⟩ := e
    by_cases hk : k = j
    · subst hk
      simp [without]
    · simp [without, hk, ih, Ne.symm hk]

theorem keys_update_of_mem (h : k ∈ l.map (·.1)) : (update k a l).map (·.1) = l.map (·.1) := by
  induction l with
  | nil => simp at h
  | cons e rest ih =>
    obtain ⟨j, c⟩ := e
    by_cases hk : k = j
    · subst hk
      simp [update]
    · have hrest : k ∈ rest.map (·.1) := by simpa [hk] using h
      simp [update, hk, ih hrest]

theorem without_of_lookup_eq_none (h : lookup k l = none) : without k l = l := by
  induction l with
  | nil => rfl
  | cons e rest ih =>
    obtain ⟨j, c⟩ := e
    by_cases hk : k = j
    · simp [lookup, hk] at h
    · simp only [lookup, hk, if_false] at h
      simp [without, hk, ih h]

theorem without_comm : without k (without k' l) = without k' (without k l) := by
  induction l with
  | nil => rfl
  | cons e rest ih =>
    obtain ⟨j, c⟩ := e
    by_cases hk : k = j <;> by_cases hk' : k' = j
    · subst hk hk'
      rfl
    · subst hk
      simp [without, hk']
    · subst hk'
      simp [without, hk]
    · simp [without, hk, hk', ih]

theorem without_update (h : k ≠ k') : without k (update k' a l) = update k' a (without k l) := by
  induction l with
  | nil => simp [update, without, h]
  | cons e rest ih =>
    obtain ⟨j, c⟩ := e
    by_cases hj : k' = j
    · subst hj
      simp [update, without, h]
    · by_cases hk : k = j
      · subst hk
        simp [update, without, hj]
      · simp [update, without, hj, hk, ih]

theorem update_update : update k a (update k b l) = update k a l := by
  induction l with
  | nil => simp [update]
  | cons e rest ih =>
    obtain ⟨j, c⟩ := e
    by_cases hk : k = j
    · subst hk
      simp [update]
    · simp [update, hk, ih]

theorem update_comm (h : k ≠ k') (hk : k ∈ l.map (·.1)) :
    update k a (update k' b l) = update k' b (update k a l) := by
  induction l with
  | nil => simp at hk
  | cons e rest ih =>
    obtain ⟨j, c⟩ := e
    by_cases hkj : k = j
    · subst hkj
      simp [update, Ne.symm h]
    · by_cases hk'j : k' = j
      · subst hk'j
        simp [update, h]
      · have hrest : k ∈ rest.map (·.1) := by simpa [hkj] using hk
        simp [update, hkj, hk'j, ih hrest]

theorem lookup_update_without {p : String} (hl : (l.map (·.1)).Nodup) :
    lookup k (update k' a (without p l)) =
      if k = k' then some a else if k = p then none else lookup k l := by
  rw [lookup_update]
  by_cases hk : k = k'
  · simp [hk]
  · by_cases hkp : k = p
    · subst hkp
      simp [hk, lookup_without_self hl]
    · simp [hk, hkp, lookup_without_of_ne hkp]

/-- The entries after `k'` is replaced and an absent `k₀` appended: what a create does to the
nodes. -/
theorem lookup_update_append {k₀ : String} {x : α} (hfree : lookup k₀ l = none) :
    lookup k (update k' a l ++ [(k₀, x)]) =
      if k = k' then some a else if k = k₀ then some x else lookup k l := by
  rw [lookup_append, lookup_update]
  by_cases hk : k = k'
  · simp [hk]
  · by_cases hk₀ : k = k₀
    · subst hk₀
      simp [hk, hfree, lookup]
    · simp [hk, hk₀, lookup]

end Assoc

theorem trigger_snd (table : List (String × List Registration)) (p : String) (kind : WatchKind) :
    (Tree.trigger table p kind).2 = without p table := by
  unfold Tree.trigger
  split
  · rfl
  · rename_i h
    exact (without_of_lookup_eq_none h).symm

section Names

theorem mem_insertName {n c : String} {l : List String} : c ∈ insertName n l ↔ c = n ∨ c ∈ l := by
  induction l with
  | nil => simp [insertName]
  | cons m rest ih =>
    by_cases hnm : n = m
    · subst hnm
      simp [insertName]
    · by_cases hlt : n < m
      · simp [insertName, hnm, hlt]
      · simp only [insertName, hnm, hlt, if_false, List.mem_cons, ih]
        exact or_left_comm

theorem pairwise_insertName {n : String} {l : List String} (h : l.Pairwise (· < ·)) :
    (insertName n l).Pairwise (· < ·) := by
  induction l with
  | nil => simp [insertName]
  | cons m rest ih =>
    rw [List.pairwise_cons] at h
    by_cases hnm : n = m
    · subst hnm
      simpa [insertName] using h
    · by_cases hlt : n < m
      · simp only [insertName, hnm, hlt, if_false, if_true]
        refine List.pairwise_cons.mpr ⟨?_, List.pairwise_cons.mpr h⟩
        intro x hx
        rcases List.mem_cons.mp hx with rfl | hx
        · exact hlt
        · exact lt_trans hlt (h.1 x hx)
      · simp only [insertName, hnm, hlt, if_false]
        have hmn : m < n := lt_of_le_of_ne (not_lt.mp hlt) (Ne.symm hnm)
        refine List.pairwise_cons.mpr ⟨?_, ih h.2⟩
        intro x hx
        rcases mem_insertName.mp hx with rfl | hx
        · exact hmn
        · exact h.1 x hx

end Names

/-- A node after its child `c` is deleted: `c` leaves its list and the list's version moves on. -/
def TreeNode.dropChild (n : TreeNode) (c : String) : TreeNode :=
  { n with
    children := n.children.erase c
    stat := { n.stat with
      cversion := wrapI32 (n.stat.cversion + 1), numChildren := wrapU32 (n.children.erase c).length } }

@[simp] theorem TreeNode.dropChild_children (n : TreeNode) (c : String) :
    (n.dropChild c).children = n.children.erase c := rfl

@[simp] theorem TreeNode.dropChild_owner (n : TreeNode) (c : String) :
    (n.dropChild c).stat.ephemeralOwner = n.stat.ephemeralOwner := rfl

theorem TreeNode.dropChild_comm (n : TreeNode) (c c' : String) :
    (n.dropChild c).dropChild c' = (n.dropChild c').dropChild c := by
  simp only [TreeNode.dropChild, List.erase_comm c c']

namespace Tree

/-- The shape of a tree's nodes (see the module comment). -/
structure WellFormed (nodes : List (String × TreeNode)) : Prop where
  nodup : (nodes.map (·.1)).Nodup
  root : ∃ n, lookup "/" nodes = some n ∧ n.stat.ephemeralOwner = 0
  parent : ∀ p n, lookup p nodes = some n → p ≠ "/" → Path.IsValid p ∧
    ∃ q m, Path.parent p = some q ∧ lookup q nodes = some m ∧ Path.name p ∈ m.children
  child : ∀ p n c, lookup p nodes = some n → c ∈ n.children →
    (lookup (Path.join p c) nodes).isSome ∧ Path.parent (Path.join p c) = some p
  sorted : ∀ p n, lookup p nodes = some n → n.children.Pairwise (· < ·)
  leaf : ∀ p n, lookup p nodes = some n → n.stat.ephemeralOwner ≠ 0 → n.children = []

theorem lookup_empty {p : String} {n : TreeNode} (h : lookup p empty.nodes = some n) :
    p = "/" ∧ n = freshNode [] 0 0 := by
  simp only [empty, lookup] at h
  split at h
  · exact ⟨‹_›, (Option.some.inj h).symm⟩
  · cases h

theorem wellFormed_empty : WellFormed empty.nodes where
  nodup := by simp [empty]
  root := ⟨_, rfl, rfl⟩
  parent p n h hp := absurd (lookup_empty h).1 hp
  child p n c h hc := by
    obtain ⟨-, rfl⟩ := lookup_empty h
    simp [freshNode] at hc
  sorted p n h := by
    obtain ⟨-, rfl⟩ := lookup_empty h
    simp [freshNode]
  leaf p n h hn := by
    obtain ⟨-, rfl⟩ := lookup_empty h
    rfl

section Shape

variable {nodes : List (String × TreeNode)}

theorem WellFormed.join_parent (hw : WellFormed nodes) {p : String} {n : TreeNode}
    (hn : lookup p nodes = some n) (hp : p ≠ "/") {q : String} (hq : Path.parent p = some q) :
    Path.join q (Path.name p) = p :=
  Path.join_parent_name (hw.parent p n hn hp).1 hq

theorem WellFormed.children_nodup (hw : WellFormed nodes) {p : String} {n : TreeNode}
    (hn : lookup p nodes = some n) : n.children.Nodup :=
  (hw.sorted p n hn).imp ne_of_lt

theorem WellFormed.parent_ne_leaf (hw : WellFormed nodes) {p x : String} {n m : TreeNode}
    (hn : lookup p nodes = some n) (hp : p ≠ "/") {q : String} (hq : Path.parent p = some q)
    (hx : lookup x nodes = some m) (hleaf : m.children = []) : q ≠ x := by
  rintro rfl
  obtain ⟨-, q', m', hq', hm', hname⟩ := hw.parent p n hn hp
  rw [hq] at hq'
  cases hq'
  rw [hx] at hm'
  cases hm'
  simp [hleaf] at hname

theorem WellFormed.update_same_shape (hw : WellFormed nodes) {p : String} {n n' : TreeNode}
    (hn : lookup p nodes = some n) (hc : n'.children = n.children)
    (ho : n'.stat.ephemeralOwner = n.stat.ephemeralOwner) : WellFormed (update p n' nodes) := by
  have hmem : p ∈ nodes.map (·.1) := lookup_isSome_iff.mp (by simp [hn])
  -- every node after is a node before with the same children and owner
  have hback : ∀ k m, lookup k (update p n' nodes) = some m →
      ∃ m₀, lookup k nodes = some m₀ ∧ m.children = m₀.children ∧
        m.stat.ephemeralOwner = m₀.stat.ephemeralOwner := by
    intro k m hk
    rw [lookup_update] at hk
    split at hk
    · cases hk
      exact ⟨n, by simp [*], hc, ho⟩
    · exact ⟨m, hk, rfl, rfl⟩
  have hsome : ∀ k, (lookup k (update p n' nodes)).isSome = (lookup k nodes).isSome := by
    intro k
    rw [lookup_update]
    split
    · simp [*]
    · rfl
  refine ⟨by rw [keys_update_of_mem hmem]; exact hw.nodup, ?_, ?_, ?_, ?_, ?_⟩
  · obtain ⟨r, hr, hro⟩ := hw.root
    by_cases h : "/" = p
    · exact ⟨n', by simp [h], by rw [ho]; subst h; rw [hr] at hn; cases hn; exact hro⟩
    · exact ⟨r, by simp [h, hr], hro⟩
  · intro k m hk hroot
    obtain ⟨m₀, hk₀, -, -⟩ := hback k m hk
    obtain ⟨hv, q, mq, hq, hmq, hname⟩ := hw.parent k m₀ hk₀ hroot
    refine ⟨hv, q, ?_⟩
    by_cases h : q = p
    · subst h
      rw [hmq] at hn
      cases hn
      exact ⟨n', hq, by simp, by rw [hc]; exact hname⟩
    · exact ⟨mq, hq, by simp [h, hmq], hname⟩
  · intro k m c hk hc'
    obtain ⟨m₀, hk₀, hch, -⟩ := hback k m hk
    rw [hch] at hc'
    rw [hsome]
    exact hw.child k m₀ c hk₀ hc'
  · intro k m hk
    obtain ⟨m₀, hk₀, hch, -⟩ := hback k m hk
    rw [hch]
    exact hw.sorted k m₀ hk₀
  · intro k m hk hown
    obtain ⟨m₀, hk₀, hch, hown₀⟩ := hback k m hk
    rw [hch]
    exact hw.leaf k m₀ hk₀ (hown₀ ▸ hown)

/-! ### Adding a leaf

A leaf `a` is added under the stored node `q`, which belongs to no session; `q`, stored as `par`,
is replaced by `par'`, which lists `a`'s name besides the names `par` listed. -/

theorem ne_of_lookup_none {a k : String} {m : TreeNode} (hk : lookup k nodes = some m)
    (hfree : lookup a nodes = none) : k ≠ a := by
  rintro rfl
  simp [hk] at hfree

section AddLeaf

variable {q a : String} {par par' fresh : TreeNode}

/-- A node stored after is the new leaf, the parent with its list grown, or a node stored
before as it was. -/
theorem addLeaf_cases (hfree : lookup a nodes = none) {k : String} {m : TreeNode}
    (hk : lookup k (update q par' nodes ++ [(a, fresh)]) = some m) :
    k = a ∧ m = fresh ∨ k = q ∧ m = par' ∨ k ≠ q ∧ lookup k nodes = some m := by
  rw [lookup_update_append hfree] at hk
  by_cases hkq : k = q
  · subst hkq
    simp only [if_true, Option.some.injEq] at hk
    exact .inr (.inl ⟨rfl, hk.symm⟩)
  · by_cases hka : k = a
    · subst hka
      simp only [hkq, if_true, if_false, Option.some.injEq] at hk
      exact .inl ⟨rfl, hk.symm⟩
    · simp only [hkq, hka, if_false] at hk
      exact .inr (.inr ⟨hkq, hk⟩)

theorem addLeaf_new (hpar : lookup q nodes = some par) (hfree : lookup a nodes = none) :
    lookup a (update q par' nodes ++ [(a, fresh)]) = some fresh := by
  simp [lookup_update_append hfree, Ne.symm (ne_of_lookup_none hpar hfree)]

theorem addLeaf_present (hfree : lookup a nodes = none) {k : String}
    (hk : (lookup k nodes).isSome) : (lookup k (update q par' nodes ++ [(a, fresh)])).isSome := by
  rw [lookup_update_append hfree]
  split
  · rfl
  · split
    · rfl
    · exact hk

theorem addLeaf_grows (hpar : lookup q nodes = some par) (hfree : lookup a nodes = none)
    (hkids : par'.children = insertName (Path.name a) par.children) {k : String} {m : TreeNode}
    (hk : lookup k nodes = some m) :
    ∃ m', lookup k (update q par' nodes ++ [(a, fresh)]) = some m' ∧
      ∀ c ∈ m.children, c ∈ m'.children := by
  rw [lookup_update_append hfree]
  by_cases hkq : k = q
  · subst hkq
    rw [hpar] at hk
    cases hk
    exact ⟨par', by simp, fun c hc => by rw [hkids]; exact mem_insertName.mpr (.inr hc)⟩
  · exact ⟨m, by simp [hkq, ne_of_lookup_none hk hfree, hk], fun c hc => hc⟩

theorem addLeaf_nodup (hnodup : (nodes.map (·.1)).Nodup) (hpar : lookup q nodes = some par)
    (hfree : lookup a nodes = none) : ((update q par' nodes ++ [(a, fresh)]).map (·.1)).Nodup := by
  have hmem : q ∈ nodes.map (·.1) := lookup_isSome_iff.mp (by simp [hpar])
  rw [List.map_append, keys_update_of_mem hmem, List.nodup_append]
  refine ⟨hnodup, by simp, ?_⟩
  intro x hx y hy
  simp only [List.map_cons, List.map_nil, List.mem_singleton] at hy
  subst hy
  rintro rfl
  exact lookup_eq_none_iff.mp hfree hx

theorem addLeaf_root (hw : WellFormed nodes) (hfree : lookup a nodes = none)
    (hown : par'.stat.ephemeralOwner = 0) :
    ∃ r, lookup "/" (update q par' nodes ++ [(a, fresh)]) = some r ∧ r.stat.ephemeralOwner = 0 := by
  obtain ⟨r, hr, hro⟩ := hw.root
  rw [lookup_update_append hfree]
  by_cases h : "/" = q
  · exact ⟨par', by simp [h], hown⟩
  · exact ⟨r, by simp [h, ne_of_lookup_none hr hfree, hr], hro⟩

theorem addLeaf_parent (hw : WellFormed nodes) (hpar : lookup q nodes = some par)
    (hvalid : Path.IsValid a) (hparent : Path.parent a = some q) (hfree : lookup a nodes = none)
    (hkids : par'.children = insertName (Path.name a) par.children) :
    ∀ k m, lookup k (update q par' nodes ++ [(a, fresh)]) = some m → k ≠ "/" →
      Path.IsValid k ∧ ∃ q' m', Path.parent k = some q' ∧
        lookup q' (update q par' nodes ++ [(a, fresh)]) = some m' ∧ Path.name k ∈ m'.children := by
  intro k m hk hroot
  rcases addLeaf_cases hfree hk with ⟨rfl, -⟩ | hcase
  · refine ⟨hvalid, q, par', hparent, ?_, by rw [hkids]; exact mem_insertName.mpr (.inl rfl)⟩
    simp [lookup_update_append hfree]
  · have hk₀ : ∃ m₀, lookup k nodes = some m₀ := by
      rcases hcase with ⟨rfl, -⟩ | ⟨-, hk₀⟩
      · exact ⟨par, hpar⟩
      · exact ⟨m, hk₀⟩
    obtain ⟨m₀, hk₀⟩ := hk₀
    -- the parent of a node stored before is still stored, and lists the node
    obtain ⟨hv, qk, mqk, hqk, hmqk, hname⟩ := hw.parent k m₀ hk₀ hroot
    obtain ⟨m', hm', hsub⟩ := addLeaf_grows hpar hfree hkids hmqk
    exact ⟨hv, qk, m', hqk, hm', hsub _ hname⟩

theorem addLeaf_child (hw : WellFormed nodes) (hpar : lookup q nodes = some par)
    (hvalid : Path.IsValid a) (hparent : Path.parent a = some q) (hfree : lookup a nodes = none)
    (hkids : par'.children = insertName (Path.name a) par.children) (hfresh : fresh.children = []) :
    ∀ k m c, lookup k (update q par' nodes ++ [(a, fresh)]) = some m → c ∈ m.children →
      (lookup (Path.join k c) (update q par' nodes ++ [(a, fresh)])).isSome ∧
        Path.parent (Path.join k c) = some k := by
  intro k m c hk hc
  rcases addLeaf_cases hfree hk with ⟨rfl, rfl⟩ | ⟨rfl, rfl⟩ | ⟨-, hk₀⟩
  · simp [hfresh] at hc
  · rw [hkids] at hc
    rcases mem_insertName.mp hc with rfl | hc
    · rw [Path.join_parent_name hvalid hparent]
      exact ⟨by simp [addLeaf_new hpar hfree], hparent⟩
    · obtain ⟨hsome, hpk⟩ := hw.child k par c hpar hc
      exact ⟨addLeaf_present hfree hsome, hpk⟩
  · obtain ⟨hsome, hpk⟩ := hw.child k m c hk₀ hc
    exact ⟨addLeaf_present hfree hsome, hpk⟩

theorem addLeaf_sorted (hw : WellFormed nodes) (hpar : lookup q nodes = some par)
    (hfree : lookup a nodes = none) (hkids : par'.children = insertName (Path.name a) par.children)
    (hfresh : fresh.children = []) :
    ∀ k m, lookup k (update q par' nodes ++ [(a, fresh)]) = some m →
      m.children.Pairwise (· < ·) := by
  intro k m hk
  rcases addLeaf_cases hfree hk with ⟨rfl, rfl⟩ | ⟨rfl, rfl⟩ | ⟨-, hk₀⟩
  · simp [hfresh]
  · rw [hkids]
    exact pairwise_insertName (hw.sorted k par hpar)
  · exact hw.sorted k m hk₀

theorem addLeaf_leaf (hw : WellFormed nodes) (hfree : lookup a nodes = none)
    (hown : par'.stat.ephemeralOwner = 0) (hfresh : fresh.children = []) :
    ∀ k m, lookup k (update q par' nodes ++ [(a, fresh)]) = some m →
      m.stat.ephemeralOwner ≠ 0 → m.children = [] := by
  intro k m hk hownk
  rcases addLeaf_cases hfree hk with ⟨rfl, rfl⟩ | ⟨rfl, rfl⟩ | ⟨-, hk₀⟩
  · exact hfresh
  · exact absurd hown hownk
  · exact hw.leaf k m hk₀ hownk

end AddLeaf

/-- Adding a leaf `a` under a stored node `q` that belongs to no session, with `a`'s name
inserted into `q`'s list, keeps the shape. -/
theorem WellFormed.create (hw : WellFormed nodes) {q a : String} {par par' fresh : TreeNode}
    (hpar : lookup q nodes = some par) (hvalid : Path.IsValid a) (hparent : Path.parent a = some q)
    (hfree : lookup a nodes = none) (hkids : par'.children = insertName (Path.name a) par.children)
    (hown : par'.stat.ephemeralOwner = 0) (hfresh : fresh.children = []) :
    WellFormed (update q par' nodes ++ [(a, fresh)]) :=
  ⟨addLeaf_nodup hw.nodup hpar hfree, addLeaf_root hw hfree hown,
    addLeaf_parent hw hpar hvalid hparent hfree hkids,
    addLeaf_child hw hpar hvalid hparent hfree hkids hfresh,
    addLeaf_sorted hw hpar hfree hkids hfresh, addLeaf_leaf hw hfree hown hfresh⟩

/-! ### Removing a leaf

A leaf `p` other than the root is removed, and its parent `q`, stored as `par`, drops its name. -/

section DropLeaf

variable {p q : String} {n par : TreeNode}

theorem dropLeaf_cases (hnodup : (nodes.map (·.1)).Nodup) (hqp : q ≠ p) {k : String}
    {m : TreeNode} (hk : lookup k (update q (par.dropChild (Path.name p)) (without p nodes)) = some m) :
    k ≠ p ∧ (k = q ∧ m = par.dropChild (Path.name p) ∨ k ≠ q ∧ lookup k nodes = some m) := by
  rw [lookup_update_without hnodup] at hk
  by_cases hkq : k = q
  · subst hkq
    simp only [if_true, Option.some.injEq] at hk
    exact ⟨hqp, .inl ⟨rfl, hk.symm⟩⟩
  · by_cases hkp : k = p
    · subst hkp
      simp [hkq] at hk
    · simp only [hkq, hkp, if_false] at hk
      exact ⟨hkp, .inr ⟨hkq, hk⟩⟩

theorem dropLeaf_present (hnodup : (nodes.map (·.1)).Nodup) {k : String} (hkp : k ≠ p)
    (hk : (lookup k nodes).isSome) :
    (lookup k (update q (par.dropChild (Path.name p)) (without p nodes))).isSome := by
  rw [lookup_update_without hnodup]
  by_cases hkq : k = q
  · simp [hkq]
  · simpa [hkq, hkp] using hk

theorem dropLeaf_nodup (hnodup : (nodes.map (·.1)).Nodup) (hqp : q ≠ p)
    (hpar : lookup q nodes = some par) :
    ((update q (par.dropChild (Path.name p)) (without p nodes)).map (·.1)).Nodup := by
  have hmem : q ∈ (without p nodes).map (·.1) := by
    rw [keys_without, List.mem_erase_of_ne hqp]
    exact lookup_isSome_iff.mp (by simp [hpar])
  rw [keys_update_of_mem hmem, keys_without]
  exact hnodup.erase p

theorem dropLeaf_root (hw : WellFormed nodes) (hroot : p ≠ "/") (hpar : lookup q nodes = some par) :
    ∃ r, lookup "/" (update q (par.dropChild (Path.name p)) (without p nodes)) = some r ∧
      r.stat.ephemeralOwner = 0 := by
  obtain ⟨r, hr, hro⟩ := hw.root
  rw [lookup_update_without hw.nodup]
  by_cases h : "/" = q
  · refine ⟨par.dropChild (Path.name p), by simp [h], ?_⟩
    rw [h, hpar] at hr
    cases hr
    simpa using hro
  · exact ⟨r, by simp [h, Ne.symm hroot, hr], hro⟩

theorem dropLeaf_parent (hw : WellFormed nodes) (hn : lookup p nodes = some n)
    (hleaf : n.children = []) (hroot : p ≠ "/") (hq : Path.parent p = some q)
    (hpar : lookup q nodes = some par) (hqp : q ≠ p) :
    ∀ k m, lookup k (update q (par.dropChild (Path.name p)) (without p nodes)) = some m →
      k ≠ "/" → Path.IsValid k ∧ ∃ q' m', Path.parent k = some q' ∧
        lookup q' (update q (par.dropChild (Path.name p)) (without p nodes)) = some m' ∧
        Path.name k ∈ m'.children := by
  intro k m hk hkroot
  obtain ⟨hkp, hcase⟩ := dropLeaf_cases hw.nodup hqp hk
  have hk₀ : ∃ m₀, lookup k nodes = some m₀ := by
    rcases hcase with ⟨rfl, -⟩ | ⟨-, hk₀⟩
    · exact ⟨par, hpar⟩
    · exact ⟨m, hk₀⟩
  obtain ⟨m₀, hk₀⟩ := hk₀
  obtain ⟨hv, qk, mqk, hqk, hmqk, hname⟩ := hw.parent k m₀ hk₀ hkroot
  have hqkp : qk ≠ p := hw.parent_ne_leaf hk₀ hkroot hqk hn hleaf
  refine ⟨hv, qk, ?_⟩
  rw [lookup_update_without hw.nodup]
  by_cases hqkq : qk = q
  · subst hqkq
    rw [hpar] at hmqk
    cases hmqk
    -- `k` and `p` have one parent, so as different paths they have different names
    have hne : Path.name k ≠ Path.name p := fun h =>
      hkp (by rw [← hw.join_parent hk₀ hkroot hqk, ← hw.join_parent hn hroot hq, h])
    exact ⟨par.dropChild (Path.name p), hqk, by simp, (List.mem_erase_of_ne hne).mpr hname⟩
  · exact ⟨mqk, hqk, by simp [hqkq, hqkp, hmqk], hname⟩

theorem dropLeaf_child (hw : WellFormed nodes) (hn : lookup p nodes = some n) (hroot : p ≠ "/")
    (hq : Path.parent p = some q) (hpar : lookup q nodes = some par) (hqp : q ≠ p) :
    ∀ k m c, lookup k (update q (par.dropChild (Path.name p)) (without p nodes)) = some m →
      c ∈ m.children →
      (lookup (Path.join k c) (update q (par.dropChild (Path.name p)) (without p nodes))).isSome ∧
        Path.parent (Path.join k c) = some k := by
  intro k m c hk hc
  obtain ⟨-, hcase⟩ := dropLeaf_cases hw.nodup hqp hk
  rcases hcase with ⟨rfl, rfl⟩ | ⟨hkq, hk₀⟩
  · rw [TreeNode.dropChild_children, (hw.children_nodup hpar).mem_erase_iff] at hc
    obtain ⟨hcp, hc⟩ := hc
    obtain ⟨hsome, hpk⟩ := hw.child k par c hpar hc
    -- the names left under `q` are not `p`'s, so they are other paths
    have hjp : Path.join k c ≠ p := by
      intro hj
      apply hcp
      apply Path.join_injective k
      rw [hj, hw.join_parent hn hroot hq]
    exact ⟨dropLeaf_present hw.nodup hjp hsome, hpk⟩
  · obtain ⟨hsome, hpk⟩ := hw.child k m c hk₀ hc
    -- a child of a node other than `q` is not `p`
    have hjp : Path.join k c ≠ p := by
      intro hj
      rw [hj, hq] at hpk
      exact hkq (Option.some.inj hpk).symm
    exact ⟨dropLeaf_present hw.nodup hjp hsome, hpk⟩

theorem dropLeaf_sorted (hw : WellFormed nodes) (hpar : lookup q nodes = some par) (hqp : q ≠ p) :
    ∀ k m, lookup k (update q (par.dropChild (Path.name p)) (without p nodes)) = some m →
      m.children.Pairwise (· < ·) := by
  intro k m hk
  obtain ⟨-, hcase⟩ := dropLeaf_cases hw.nodup hqp hk
  rcases hcase with ⟨rfl, rfl⟩ | ⟨-, hk₀⟩
  · exact (hw.sorted k par hpar).erase _
  · exact hw.sorted k m hk₀

theorem dropLeaf_leaf (hw : WellFormed nodes) (hpar : lookup q nodes = some par) (hqp : q ≠ p) :
    ∀ k m, lookup k (update q (par.dropChild (Path.name p)) (without p nodes)) = some m →
      m.stat.ephemeralOwner ≠ 0 → m.children = [] := by
  intro k m hk hown
  obtain ⟨-, hcase⟩ := dropLeaf_cases hw.nodup hqp hk
  rcases hcase with ⟨rfl, rfl⟩ | ⟨-, hk₀⟩
  · rw [TreeNode.dropChild_children, hw.leaf k par hpar (by simpa using hown)]
    rfl
  · exact hw.leaf k m hk₀ hown

end DropLeaf

/-- Removing a leaf `p` other than the root, with its name dropped from its parent's list, keeps
the shape. -/
theorem WellFormed.delete (hw : WellFormed nodes) {p q : String} {n par : TreeNode}
    (hn : lookup p nodes = some n) (hleaf : n.children = []) (hroot : p ≠ "/")
    (hq : Path.parent p = some q) (hpar : lookup q nodes = some par) :
    WellFormed (update q (par.dropChild (Path.name p)) (without p nodes)) :=
  have hqp : q ≠ p := hw.parent_ne_leaf hn hroot hq hn hleaf
  ⟨dropLeaf_nodup hw.nodup hqp hpar, dropLeaf_root hw hroot hpar,
    dropLeaf_parent hw hn hleaf hroot hq hpar hqp, dropLeaf_child hw hn hroot hq hpar hqp,
    dropLeaf_sorted hw hpar hqp, dropLeaf_leaf hw hpar hqp⟩

end Shape

section Operations

variable {t : Tree}

theorem isValid_of_validate {p : String} {u : Unit} (h : Path.validate p = .ok u) :
    Path.IsValid p := by
  unfold Path.validate at h
  split at h
  · assumption
  · cases h

theorem node_ok {p : String} {n : TreeNode} (h : t.node p = .ok n) :
    Path.IsValid p ∧ lookup p t.nodes = some n := by
  unfold node at h
  cases hv : Path.validate p with
  | error e => simp [hv, bind, Except.bind] at h
  | ok u =>
  cases hl : lookup p t.nodes with
  | none => simp [hv, hl, bind, Except.bind, throw, throwThe, MonadExcept.throw] at h
  | some m =>
  simp [hv, hl, bind, Except.bind, pure, Except.pure] at h
  exact ⟨isValid_of_validate hv, h ▸ rfl⟩

/-- A create that succeeds passed each of its checks: the path is valid, its parent `q` is
stored and belongs to no session, and the path to make (the requested one, followed by the
parent's sequence number in a numbered mode) is free. It made that path a fresh leaf under `q`,
bumped the parent's counters and fired the parent's child watches. -/
theorem create_ok_spec {p : String} {d : List UInt8} {mode : Mode} {owner : Nat}
    {r : String × Tree × List Fired} (h : t.create p d mode owner = .ok r) :
    ∃ q par, Path.parent p = some q ∧ lookup q t.nodes = some par ∧
      par.stat.isEphemeral = false ∧
      r.1 = (if mode.sequential then p ++ sequenceSuffix par.nextSequence else p) ∧
      Path.IsValid r.1 ∧ Path.parent r.1 = some q ∧ lookup r.1 t.nodes = none ∧
      r.2.1 = { t with
        nodes := update q { par with
            nextSequence :=
              if mode.sequential then wrapU32 (par.nextSequence + 1) else par.nextSequence
            children := insertName (Path.name r.1) par.children
            stat := { par.stat with
              cversion := wrapI32 (par.stat.cversion + 1)
              numChildren := wrapU32 (insertName (Path.name r.1) par.children).length } }
          t.nodes ++
            [(r.1, freshNode d (wrapI64 (t.zxid + 1)) (if mode.ephemeral then owner else 0))]
        zxid := wrapI64 (t.zxid + 1)
        childWatches := (trigger t.childWatches q .nodeChildrenChanged).2 } ∧
      r.2.2 = (trigger t.childWatches q .nodeChildrenChanged).1 := by
  unfold Tree.create at h
  cases hv : Path.validate p with
  | error e => simp [hv, bind, Except.bind] at h
  | ok u =>
  cases hq : Path.parent p with
  | none => simp [hv, hq, bind, Except.bind, throw, throwThe, MonadExcept.throw] at h
  | some q =>
  cases hpar : lookup q t.nodes with
  | none => simp [hv, hq, hpar, bind, Except.bind, throw, throwThe, MonadExcept.throw] at h
  | some par =>
  by_cases heph : par.stat.isEphemeral = true
  · simp [hv, hq, hpar, heph, bind, Except.bind, throw, throwThe, MonadExcept.throw] at h
  by_cases hex : (lookup (if mode.sequential then p ++ sequenceSuffix par.nextSequence else p)
      t.nodes).isSome = true
  · simp [hv, hq, hpar, heph, hex, bind, Except.bind, throw, throwThe, MonadExcept.throw] at h
  simp [hv, hq, hpar, heph, hex, bind, Except.bind, pure, Except.pure] at h
  subst h
  -- the path created is the requested one, or it with the parent's sequence number
  have hp := isValid_of_validate hv
  have hactual : Path.IsValid (if mode.sequential then p ++ sequenceSuffix par.nextSequence else p) ∧
      Path.parent (if mode.sequential then p ++ sequenceSuffix par.nextSequence else p) = some q := by
    split
    · exact Path.sequential_path hp hq par.nextSequence
    · exact ⟨hp, hq⟩
  exact ⟨q, par, rfl, hpar, by simpa using heph, rfl, hactual.1, hactual.2, by simpa using hex,
    rfl, rfl⟩

/-- A create that succeeds added a leaf at a well-formed free path, under a stored parent that
belongs to no session, and inserted the leaf's name into the parent's list. -/
theorem create_ok {p : String} {d : List UInt8} {mode : Mode} {owner : Nat}
    {r : String × Tree × List Fired} (h : t.create p d mode owner = .ok r) :
    ∃ q par par' fresh, lookup q t.nodes = some par ∧ Path.IsValid r.1 ∧
      Path.parent r.1 = some q ∧ lookup r.1 t.nodes = none ∧
      par'.children = insertName (Path.name r.1) par.children ∧ par'.stat.ephemeralOwner = 0 ∧
      fresh.children = [] ∧ r.2.1.nodes = update q par' t.nodes ++ [(r.1, fresh)] := by
  obtain ⟨q, par, -, hpar, heph, -, hvalid, hparent, hfree, hr, -⟩ := create_ok_spec h
  rw [hr]
  exact ⟨q, par, _, _, hpar, hvalid, hparent, hfree, rfl,
    by simpa [Stat.isEphemeral] using heph, rfl, rfl⟩

/-- A data change that succeeds found its node stored and, when a version was asked for, at
that version. It took the next transaction, stored the data with the metadata it returns, and
fired the node's data watches. -/
theorem setData_ok_spec {p : String} {d : List UInt8} {v : Option Int}
    {r : Stat × Tree × List Fired} (h : t.setData p d v = .ok r) :
    ∃ n, lookup p t.nodes = some n ∧ v.any (· ≠ n.stat.version) = false ∧
      r.1 = { n.stat with
        version := wrapI32 (n.stat.version + 1), mzxid := wrapI64 (t.zxid + 1),
        dataLength := wrapU32 d.length } ∧
      r.2.1 = { t with
        nodes := update p { n with data := d, stat := r.1 } t.nodes
        zxid := wrapI64 (t.zxid + 1)
        dataWatches := (trigger t.dataWatches p .nodeDataChanged).2 } ∧
      r.2.2 = (trigger t.dataWatches p .nodeDataChanged).1 := by
  unfold Tree.setData at h
  cases hn : t.node p with
  | error e => simp [hn, bind, Except.bind] at h
  | ok n =>
  simp only [hn, bind, Except.bind] at h
  split at h
  · simp [throw, throwThe, MonadExcept.throw] at h
  rename_i hv
  simp only [pure, Except.pure, Except.ok.injEq] at h
  subst h
  exact ⟨n, (node_ok hn).2, by simpa using hv, rfl, rfl, rfl⟩

theorem setData_ok {p : String} {d : List UInt8} {v : Option Int} {r : Stat × Tree × List Fired}
    (h : t.setData p d v = .ok r) :
    ∃ n n', lookup p t.nodes = some n ∧ n'.children = n.children ∧
      n'.stat.ephemeralOwner = n.stat.ephemeralOwner ∧ r.2.1.nodes = update p n' t.nodes := by
  obtain ⟨n, hn, -, hstat, hr, -⟩ := setData_ok_spec h
  rw [hr]
  refine ⟨n, { n with data := d, stat := r.1 }, hn, rfl, ?_, rfl⟩
  rw [hstat]

/-- A delete that succeeds removed a leaf at a well-formed path with a parent: from the nodes,
dropping its name from its parent's list if the parent is stored, and from the watch tables,
forgetting the parent's child watches too. It fired the leaf's data and child watches, then
the parent's child watches. -/
theorem delete_ok_spec {p : String} {v : Option Int} {r : Tree × List Fired}
    (h : t.delete p v = .ok r) :
    ∃ n q, Path.IsValid p ∧ lookup p t.nodes = some n ∧ n.children = [] ∧
      Path.parent p = some q ∧
      r.1 = { t with
        nodes := match lookup q (without p t.nodes) with
          | some par => update q (par.dropChild (Path.name p)) (without p t.nodes)
          | none => without p t.nodes
        zxid := wrapI64 (t.zxid + 1)
        dataWatches := without p t.dataWatches
        childWatches := without q (without p t.childWatches) } ∧
      r.2 = (trigger t.dataWatches p .nodeDeleted).1 ++ (trigger t.childWatches p .nodeDeleted).1 ++
        (trigger (without p t.childWatches) q .nodeChildrenChanged).1 := by
  unfold Tree.delete at h
  cases hn : t.node p with
  | error e => simp [hn, bind, Except.bind] at h
  | ok n =>
  cases hq : Path.parent p with
  | none => simp [hn, hq, bind, Except.bind, throw, throwThe, MonadExcept.throw] at h
  | some q =>
  simp only [hn, hq, bind, Except.bind] at h
  split at h
  · simp [throw, throwThe, MonadExcept.throw] at h
  split at h
  · simp [throw, throwThe, MonadExcept.throw] at h
  rename_i hkids
  simp only [pure, Except.pure, Except.ok.injEq] at h
  subst h
  obtain ⟨hp, hl⟩ := node_ok hn
  refine ⟨n, q, hp, hl, by simpa using hkids, rfl, ?_, by simp only [trigger_snd]⟩
  simp only [trigger_snd]
  cases lookup q (without p t.nodes) <;> rfl

theorem validate_of_isValid {p : String} (h : Path.IsValid p) : Path.validate p = .ok () := by
  have hd : Path.defect? p = none := h
  simp [Path.validate, hd]

theorem parent_root : Path.parent "/" = none := by decide

/-- In a well-formed tree, a delete that succeeds removed a leaf other than the root whose
parent is stored. -/
theorem delete_ok_of_wellFormed (hw : WellFormed t.nodes) {p : String} {v : Option Int}
    {r : Tree × List Fired} (h : t.delete p v = .ok r) :
    ∃ n q par, lookup p t.nodes = some n ∧ n.children = [] ∧ p ≠ "/" ∧ Path.parent p = some q ∧
      lookup q t.nodes = some par ∧
      r.1 = { t with
        nodes := update q (par.dropChild (Path.name p)) (without p t.nodes)
        zxid := wrapI64 (t.zxid + 1)
        dataWatches := without p t.dataWatches
        childWatches := without q (without p t.childWatches) } := by
  obtain ⟨n, q, -, hn, hleaf, hq, hr, -⟩ := delete_ok_spec h
  have hroot : p ≠ "/" := by
    rintro rfl
    simp [parent_root] at hq
  obtain ⟨-, q', par, hq', hpar, -⟩ := hw.parent p n hn hroot
  rw [hq] at hq'
  cases hq'
  have hqp : q ≠ p := hw.parent_ne_leaf hn hroot hq hn hleaf
  refine ⟨n, q, par, hn, hleaf, hroot, hq, hpar, ?_⟩
  rw [hr, lookup_without_of_ne hqp, hpar]

theorem delete_leaf (hw : WellFormed t.nodes) {p : String} {n : TreeNode}
    (hn : lookup p t.nodes = some n) (hleaf : n.children = []) (hroot : p ≠ "/") :
    ∃ r, t.delete p none = .ok r := by
  obtain ⟨hvalid, q, par, hq, hpar, -⟩ := hw.parent p n hn hroot
  have hnode : t.node p = .ok n := by
    simp [node, validate_of_isValid hvalid, hn, bind, Except.bind, pure, Except.pure]
  simp only [Tree.delete, hnode, hq, hleaf, bind, Except.bind]
  exact ⟨_, rfl⟩

theorem create_wellFormed (hw : WellFormed t.nodes) {p : String} {d : List UInt8} {mode : Mode}
    {owner : Nat} {r : String × Tree × List Fired} (h : t.create p d mode owner = .ok r) :
    WellFormed r.2.1.nodes := by
  obtain ⟨q, par, par', fresh, hpar, hvalid, hparent, hfree, hkids, hown, hfresh, hnodes⟩ :=
    create_ok h
  rw [hnodes]
  exact hw.create hpar hvalid hparent hfree hkids hown hfresh

theorem setData_wellFormed (hw : WellFormed t.nodes) {p : String} {d : List UInt8}
    {v : Option Int} {r : Stat × Tree × List Fired} (h : t.setData p d v = .ok r) :
    WellFormed r.2.1.nodes := by
  obtain ⟨n, n', hn, hc, ho, hnodes⟩ := setData_ok h
  rw [hnodes]
  exact hw.update_same_shape hn hc ho

theorem delete_wellFormed (hw : WellFormed t.nodes) {p : String} {v : Option Int}
    {r : Tree × List Fired} (h : t.delete p v = .ok r) : WellFormed r.1.nodes := by
  obtain ⟨n, q, par, hn, hleaf, hroot, hq, hpar, hr⟩ := delete_ok_of_wellFormed hw h
  rw [hr]
  exact hw.delete hn hleaf hroot hq hpar

end Operations

/-- The paths of the nodes a session owns, in the order the tree stores them. -/
def ownedBy (t : Tree) (o : Nat) : List String :=
  (t.nodes.filter fun (_, n) => n.stat.ephemeralOwner = o).map (·.1)

/-- One step of the removal of a session's nodes: a delete that succeeds is counted and its
events kept; one that fails changes nothing. -/
def removalStep : Nat × Tree × List Fired → String → Nat × Tree × List Fired :=
  fun (count, t, fired) p =>
    match t.delete p none with
    | .ok (t', f) => (count + 1, t', fired ++ f)
    | .error _ => (count, t, fired)

theorem removeEphemerals_eq (t : Tree) (o : Nat) :
    t.removeEphemerals o = (t.ownedBy o).foldl removalStep (0, t, []) := rfl

theorem removalStep_wellFormed (acc : Nat × Tree × List Fired) (p : String)
    (hw : WellFormed acc.2.1.nodes) : WellFormed (removalStep acc p).2.1.nodes := by
  obtain ⟨count, t, fired⟩ := acc
  dsimp only [removalStep]
  split
  · rename_i t' f h
    exact delete_wellFormed (r := (t', f)) hw h
  · exact hw

theorem removeEphemerals_wellFormed {t : Tree} (hw : WellFormed t.nodes) (o : Nat) :
    WellFormed (t.removeEphemerals o).2.1.nodes := by
  rw [removeEphemerals_eq]
  -- induction over the paths still to delete, from any running count and events
  suffices h : ∀ (ps : List String) (acc : Nat × Tree × List Fired), WellFormed acc.2.1.nodes →
      WellFormed (ps.foldl removalStep acc).2.1.nodes from h _ _ hw
  intro ps
  induction ps with
  | nil => exact fun _ hacc => hacc
  | cons p ps ih => exact fun acc hacc => ih _ (removalStep_wellFormed acc p hacc)

end Tree

end Coordination
