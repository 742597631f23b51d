import Mathlib.Algebra.Group.Nat.Defs
import Coordination.Proofs.StatHistory

/-!
The names numbered creates take. A create in a numbering mode appends to the path asked for its
parent's counter, written as ten decimal digits, and bumps the counter; a create that fails,
also one whose numbered name is taken, leaves it. The counter is 32 bits wide and starts at 0
when its node is created.

Along every run of tree operations from the fresh tree, every stored node's counter is the
number of numbered creates under it since it was created, wrapped to 32 bits, and each of those
creates took its rank among them, wrapped alike (`sequence_numbers_wrap`). While fewer than 2^32
were made the names under one node are distinct and, for one path asked for, increase in the
order of strings, since ten padded digits compare as the numbers they stand for. Operations of
sessions are tree operations, so this covers creates made through a session as well. The
2^32+1st numbered create under a node takes the number 0 again: after 2^32 rounds of a numbered
create under the root and the delete of its node, `/a-` is created as `/a-0000000000`
(`sequence_number_repeats_after_two_pow_32_creates`).
-/

namespace Coordination

section SuffixOrder

/-- The decimal digits of `n`, with zeros before them up to `w` characters. -/
def paddedDigits (w n : Nat) : List Char :=
  List.replicate (w - (Nat.toDigits 10 n).length) '0' ++ Nat.toDigits 10 n

theorem toList_sequenceSuffix (n : Nat) : (sequenceSuffix n).toList = paddedDigits 10 n := by
  simp [sequenceSuffix, paddedDigits]

theorem length_paddedDigits {w n : Nat} (hw : 0 < w) (hn : n < 10 ^ w) :
    (paddedDigits w n).length = w := by
  have := (Nat.length_toDigits_le_iff (by decide) hw).mpr hn
  simp only [paddedDigits, List.length_append, List.length_replicate]
  omega

theorem paddedDigits_succ {w n : Nat} (hw : 0 < w) (hn : n < 10 ^ (w + 1)) :
    paddedDigits (w + 1) n = paddedDigits w (n / 10) ++ [Nat.digitChar (n % 10)] := by
  by_cases h10 : n < 10
  · have hq : n / 10 = 0 := Nat.div_eq_of_lt h10
    rw [hq, Nat.mod_eq_of_lt h10]
    obtain ⟨v, rfl⟩ : ∃ v, w = v + 1 := ⟨w - 1, by omega⟩
    simp [paddedDigits, Nat.toDigits_of_lt_base h10, List.replicate_succ']
  · have hlen := (Nat.length_toDigits_le_iff (b := 10) (by decide) hw).mpr
      ((Nat.div_lt_iff_lt_mul (k := 10) (by decide)).mpr (by rw [← Nat.pow_succ]; exact hn))
    rw [paddedDigits, Nat.toDigits_of_base_le (b := 10) (by decide) (by omega), paddedDigits,
      List.length_append, List.length_singleton, List.append_assoc]
    congr 2
    omega

theorem digitChar_lt_digitChar : ∀ a < 10, ∀ b < 10, a < b → Nat.digitChar a < Nat.digitChar b := by
  decide

theorem append_lt_append_of_length_eq {α : Type} [LT α] {l₁ l₂ : List α} (m₁ m₂ : List α)
    (hl : l₁.length = l₂.length) (h : l₁ < l₂) : l₁ ++ m₁ < l₂ ++ m₂ := by
  induction l₁ generalizing l₂ with
  | nil => cases l₂ <;> simp_all
  | cons a l₁ ih =>
    cases l₂ with
    | nil => simp at hl
    | cons b l₂ =>
      rw [List.cons_lt_cons_iff] at h
      rw [List.cons_append, List.cons_append, List.cons_lt_cons_iff]
      rcases h with hab | ⟨rfl, h⟩
      · exact .inl hab
      · exact .inr ⟨rfl, ih (by simpa using hl) h⟩

theorem paddedDigits_lt {w a b : Nat} (hw : 0 < w) (hab : a < b) (hb : b < 10 ^ w) :
    paddedDigits w a < paddedDigits w b := by
  induction w, hw using Nat.le_induction generalizing a b with
  | base =>
    simp only [paddedDigits, Nat.toDigits_of_lt_base (show a < 10 by omega),
      Nat.toDigits_of_lt_base (show b < 10 by omega), List.length_singleton, Nat.sub_self,
      List.replicate_zero, List.nil_append]
    exact List.cons_lt_cons_iff.mpr (.inl (digitChar_lt_digitChar a (by omega) b (by omega) hab))
  | succ w hw ih =>
    rw [paddedDigits_succ hw (by omega), paddedDigits_succ hw hb]
    have hb' : b / 10 < 10 ^ w := (Nat.div_lt_iff_lt_mul (k := 10) (by decide)).mpr (by rw [← Nat.pow_succ]; exact hb)
    -- the numbers differ before their last digits, or only in them
    rcases Nat.lt_or_eq_of_le (Nat.div_le_div_right (c := 10) hab.le) with hq | hq
    · exact append_lt_append_of_length_eq _ _
        (by rw [length_paddedDigits hw (by omega), length_paddedDigits hw hb']) (ih hq hb')
    · rw [hq]
      refine List.append_left_lt (List.cons_lt_cons_iff.mpr (.inl ?_))
      exact digitChar_lt_digitChar _ (Nat.mod_lt _ (by decide)) _ (Nat.mod_lt _ (by decide)) (by omega)

theorem sequenceSuffix_lt {a b : Nat} (hab : a < b) (hb : b < 10 ^ 10) :
    sequenceSuffix a < sequenceSuffix b := by
  rw [String.lt_iff, toList_sequenceSuffix, toList_sequenceSuffix]
  exact paddedDigits_lt (by decide) hab hb

theorem length_sequenceSuffix {n : Nat} (hn : n < 10 ^ 10) : (sequenceSuffix n).toList.length = 10 := by
  rw [toList_sequenceSuffix, length_paddedDigits (by decide) hn]

theorem append_sequenceSuffix_lt (p : String) {a b : Nat} (hab : a < b) (hb : b < 10 ^ 10) :
    p ++ sequenceSuffix a < p ++ sequenceSuffix b := by
  rw [String.lt_iff, String.toList_append, String.toList_append]
  exact List.append_left_lt (String.lt_iff.mp (sequenceSuffix_lt hab hb))

theorem append_sequenceSuffix_ne (p p' : String) {a b : Nat} (hab : a ≠ b) (ha : a < 10 ^ 10)
    (hb : b < 10 ^ 10) : p ++ sequenceSuffix a ≠ p' ++ sequenceSuffix b := by
  intro h
  have h' := congrArg String.toList h
  rw [String.toList_append, String.toList_append] at h'
  -- the suffixes have one length, so they are equal
  have hs : (sequenceSuffix a).toList = (sequenceSuffix b).toList :=
    (List.append_inj' h' (by rw [length_sequenceSuffix ha, length_sequenceSuffix hb])).2
  rcases Nat.lt_or_gt_of_ne hab with hlt | hlt
  · have hlt' := String.lt_iff.mp (sequenceSuffix_lt hlt hb)
    rw [hs] at hlt'
    exact List.lt_irrefl _ hlt'
  · have hlt' := String.lt_iff.mp (sequenceSuffix_lt hlt ha)
    rw [hs] at hlt'
    exact List.lt_irrefl _ hlt'

end SuffixOrder

/-- A create that succeeded: the path asked for, the path created, and whether the create
numbered its node. -/
structure Birth where
  requested : String
  path : String
  numbered : Bool
  deriving DecidableEq, Repr

namespace Birth

/-- The numbered creates under `q` since its last creation, oldest first; for a node never
created, such as the root, all of them. -/
def numberedUnder (q : String) (bs : List Birth) : List Birth :=
  (bs.reverse.takeWhile (·.path != q)).reverse.filter fun b =>
    b.numbered && Path.parent b.path == some q

@[simp] theorem numberedUnder_nil (q : String) : numberedUnder q [] = [] := rfl

theorem numberedUnder_snoc (q : String) (bs : List Birth) (b : Birth) :
    numberedUnder q (bs ++ [b]) =
      if b.path = q then [] else
        numberedUnder q bs ++ if b.numbered ∧ Path.parent b.path = some q then [b] else [] := by
  unfold numberedUnder
  by_cases hb : b.path = q
  · simp [hb]
  · by_cases hn : b.numbered ∧ Path.parent b.path = some q
    · simp [hb, hn, List.filter_append]
    · have hf : (b.numbered && Path.parent b.path == some q) = false := by simpa using hn
      simp [hb, hn, hf, List.filter_append]

theorem numberedUnder_of_never {q : String} {bs : List Birth} (h : ∀ b ∈ bs, b.path ≠ q) :
    numberedUnder q bs = bs.filter fun b => b.numbered && Path.parent b.path == some q := by
  unfold numberedUnder
  rw [List.takeWhile_eq_self_iff.mpr fun b hb => by simpa using h b (List.mem_reverse.mp hb),
    List.reverse_reverse]

/-- Each create of the list named its node by the path asked for followed by its rank in the
list, wrapped to 32 bits. -/
def Ranked (bs : List Birth) : Prop :=
  ∀ j b, bs[j]? = some b → b.path = b.requested ++ sequenceSuffix (wrapU32 j)

theorem Ranked.map_path {bs : List Birth} (h : Ranked bs) :
    bs.map Birth.path = bs.mapIdx fun j b => b.requested ++ sequenceSuffix (wrapU32 j) := by
  apply List.ext_getElem?
  intro j
  rw [List.getElem?_map, List.getElem?_mapIdx]
  cases hb : bs[j]? with
  | none => rfl
  | some b => simp [h j b hb]

/-- At most 2^32 ranked creates have distinct names, and those asked for with one path
increase: below 2^32 the ranks are not wrapped. -/
theorem Ranked.ordered {bs : List Birth} (h : Ranked bs) (hlen : bs.length ≤ 2 ^ 32) :
    (bs.map Birth.path).Nodup ∧
      bs.Pairwise fun b b' => b.requested = b'.requested → b.path < b'.path := by
  have hrank : ∀ j b, bs[j]? = some b →
      b.path = b.requested ++ sequenceSuffix j ∧ j < 10 ^ 10 := by
    intro j b hb
    have hj : j < 4294967296 := by
      have := (List.getElem?_eq_some_iff.mp hb).1
      have h32 : (2 : Nat) ^ 32 = 4294967296 := by decide
      omega
    exact ⟨by rw [h j b hb, wrapU32, Nat.mod_eq_of_lt hj], by omega⟩
  have hpair : bs.Pairwise fun b b' =>
      b.path ≠ b'.path ∧ (b.requested = b'.requested → b.path < b'.path) := by
    rw [List.pairwise_iff_getElem]
    intro i j hi hj hij
    obtain ⟨hbi, hi'⟩ := hrank i bs[i] (List.getElem?_eq_getElem hi)
    obtain ⟨hbj, hj'⟩ := hrank j bs[j] (List.getElem?_eq_getElem hj)
    rw [hbi, hbj]
    exact ⟨append_sequenceSuffix_ne _ _ (by omega) hi' hj',
      fun heq => heq ▸ append_sequenceSuffix_lt _ hij hj'⟩
  exact ⟨List.pairwise_map.mpr (hpair.imp (·.1)), hpair.imp (·.2)⟩

/-- The numbered creates under each node since its creation are ranked. -/
def Named (bs : List Birth) : Prop :=
  ∀ k, Ranked (numberedUnder k bs)

/-- One more create keeps the naming when, if numbered, it took the rank it has under its
parent. -/
theorem Named.snoc {bs : List Birth} {b : Birth} (h : Named bs)
    (hb : b.numbered = true → ∀ q, Path.parent b.path = some q →
      b.path = b.requested ++ sequenceSuffix (wrapU32 (numberedUnder q bs).length)) :
    Named (bs ++ [b]) := by
  intro k j b' hj
  rw [numberedUnder_snoc] at hj
  split at hj
  · simp at hj
  rcases Nat.lt_or_ge j (numberedUnder k bs).length with hlt | hge
  · rw [List.getElem?_append_left hlt] at hj
    exact h k j b' hj
  rw [List.getElem?_append_right hge] at hj
  split at hj
  · -- the new create, at rank `j`
    rename_i hc
    have hj' : j = (numberedUnder k bs).length := by
      have := (List.getElem?_eq_some_iff.mp hj).1
      simp only [List.length_singleton] at this
      omega
    subst hj'
    simp only [Nat.sub_self, List.getElem?_cons_zero, Option.some.injEq] at hj
    subst hj
    exact hb hc.1 k hc.2
  · simp at hj

end Birth

namespace TreeOp

/-- The create an operation makes, if it is a create that succeeds. -/
def birth : TreeOp → Tree → Option Birth
  | .create p d m o, t =>
    match t.create p d m o with
    | .ok r => some ⟨p, r.1, m.sequential⟩
    | .error _ => none
  | _, _ => none

/-- The creates a run of operations makes, in order. -/
def births : List TreeOp → Tree → List Birth
  | [], _ => []
  | op :: os, t => (op.birth t).toList ++ births os (op.run t).1

@[simp] theorem births_nil (t : Tree) : births [] t = [] := rfl

theorem births_cons (op : TreeOp) (os : List TreeOp) (t : Tree) :
    births (op :: os) t = (op.birth t).toList ++ births os (op.run t).1 := rfl

theorem births_append (os os' : List TreeOp) (t : Tree) :
    births (os ++ os') t = births os t ++ births os' (runAll os t).1 := by
  induction os generalizing t with
  | nil => rfl
  | cons op os ih => simp [births_cons, runAll_cons, ih]

end TreeOp

namespace Tree

open Birth

variable {t t' : Tree} {p : String} {bs : List Birth}

/-- A create that succeeds made its node under the stored parent of the path asked for: at that
path, or, in a numbering mode, at it followed by the parent's counter, which then went one up. -/
theorem create_ok_numbered {d : List UInt8} {m : Mode} {o : Nat} {r : String × Tree × List Fired}
    (h : t.create p d m o = .ok r) :
    ∃ q par par', Path.parent p = some q ∧ lookup q t.nodes = some par ∧
      r.1 = (if m.sequential then p ++ sequenceSuffix par.nextSequence else p) ∧
      Path.parent r.1 = some q ∧ lookup r.1 t.nodes = none ∧
      par'.nextSequence =
        (if m.sequential then wrapU32 (par.nextSequence + 1) else par.nextSequence) ∧
      r.2.1.nodes = update q par' t.nodes ++
        [(r.1, freshNode d (wrapI64 (t.zxid + 1)) (if m.ephemeral then o else 0))] := by
  obtain ⟨q, par, hq, hpar, -, hr1, -, hparent, hfree, hr, -⟩ := create_ok_spec h
  rw [hr]
  exact ⟨q, par, _, hq, hpar, hr1, hparent, hfree, rfl, rfl⟩

/-- The counters of tree `t` are what the creates `bs` say: every stored node's counter is the
number of numbered creates under it since it was created, wrapped to 32 bits, and each of those
creates named its node by the path asked for followed by its rank among them, wrapped alike. -/
structure Numbering (t : Tree) (bs : List Birth) : Prop where
  wellFormed : WellFormed t.nodes
  counter : ∀ k n, lookup k t.nodes = some n →
    n.nextSequence = wrapU32 (numberedUnder k bs).length
  names : Named bs

theorem numbering_empty : empty.Numbering [] where
  wellFormed := wellFormed_empty
  counter _ n hn := by
    obtain ⟨-, rfl⟩ := lookup_empty hn
    rfl
  names _ _ _ hj := by simp at hj

namespace Numbering

theorem of_counters (h : t.Numbering bs) (hw : WellFormed t'.nodes)
    (hk : ∀ k n', lookup k t'.nodes = some n' →
      ∃ n, lookup k t.nodes = some n ∧ n'.nextSequence = n.nextSequence) :
    t'.Numbering bs where
  wellFormed := hw
  counter k n' hn' := by
    obtain ⟨n, hn, heq⟩ := hk k n' hn'
    rw [heq, h.counter k n hn]
  names := h.names

theorem of_same (h : t.Numbering bs) (hn : t'.nodes = t.nodes) : t'.Numbering bs :=
  h.of_counters (hn ▸ h.wellFormed) fun _ n' hk => ⟨n', hn ▸ hk, rfl⟩

theorem create (h : t.Numbering bs) {d : List UInt8} {m : Mode} {o : Nat}
    {r : String × Tree × List Fired} (hr : t.create p d m o = .ok r) :
    r.2.1.Numbering (bs ++ [⟨p, r.1, m.sequential⟩]) := by
  obtain ⟨q, par, par', hq, hpar, hname, hparent, hfree, hnext, hnodes⟩ := create_ok_numbered hr
  have hcount := h.counter q par hpar
  have hqa : q ≠ r.1 := ne_of_lookup_none hpar hfree
  refine ⟨create_wellFormed h.wellFormed hr, fun k n' hk => ?_, h.names.snoc ?_⟩
  · rw [hnodes] at hk
    rcases addLeaf_cases hfree hk with ⟨rfl, rfl⟩ | ⟨rfl, rfl⟩ | ⟨hkq, hk⟩
    · -- the node made starts counting afresh
      simp [numberedUnder_snoc, freshNode, wrapU32]
    · -- its parent counts one more create exactly when this one was numbered
      rw [numberedUnder_snoc, if_neg (Ne.symm hqa), hnext, hcount]
      cases m.sequential <;> simp [hparent, wrapU32, Nat.add_mod]
    · have hka : r.1 ≠ k := (ne_of_lookup_none hk hfree).symm
      rw [numberedUnder_snoc, if_neg hka, h.counter k n' hk]
      simp [hparent, Ne.symm hkq]
  · -- a numbered create took its parent's counter, its rank there
    intro hm k hk
    obtain rfl : k = q := Option.some.inj (hk.symm.trans hparent)
    simp only at hm
    rw [hname, if_pos hm, hcount]

theorem setData (h : t.Numbering bs) {d : List UInt8} {v : Option Int}
    {r : Stat × Tree × List Fired} (hr : t.setData p d v = .ok r) : r.2.1.Numbering bs := by
  obtain ⟨n, hn, -, hnodes⟩ := setData_ok_stat hr
  refine h.of_counters (setData_wellFormed h.wellFormed hr) fun k n' hk => ?_
  rw [hnodes, lookup_update] at hk
  split at hk
  · subst k
    exact ⟨n, hn, by rw [← Option.some.inj hk]⟩
  · exact ⟨n', hk, rfl⟩

theorem delete (h : t.Numbering bs) {v : Option Int} {r : Tree × List Fired}
    (hr : t.delete p v = .ok r) : r.1.Numbering bs := by
  obtain ⟨n, q, par, hn, hleaf, hroot, hq, hpar, hr1⟩ := delete_ok_of_wellFormed h.wellFormed hr
  have hqp : q ≠ p := h.wellFormed.parent_ne_leaf hn hroot hq hn hleaf
  refine h.of_counters (delete_wellFormed h.wellFormed hr) fun k n' hk => ?_
  rw [hr1] at hk
  rcases dropLeaf_cases h.wellFormed.nodup hqp hk with ⟨-, ⟨rfl, rfl⟩ | ⟨-, hk⟩⟩
  · exact ⟨par, hpar, rfl⟩
  · exact ⟨n', hk, rfl⟩

theorem run (h : t.Numbering bs) (op : TreeOp) :
    (op.run t).1.Numbering (bs ++ (op.birth t).toList) := by
  cases op with
  | create p d m o =>
    cases hr : t.create p d m o with
    | error e => simpa [TreeOp.run, TreeOp.outcome, TreeOp.birth, hr] using h
    | ok r => simpa [TreeOp.run, TreeOp.outcome, TreeOp.birth, hr] using h.create hr
  | setData p d v =>
    cases hr : t.setData p d v with
    | error e => simpa [TreeOp.run, TreeOp.outcome, TreeOp.birth, hr] using h
    | ok r => simpa [TreeOp.run, TreeOp.outcome, TreeOp.birth, hr] using h.setData hr
  | delete p v =>
    cases hr : t.delete p v with
    | error e => simpa [TreeOp.run, TreeOp.outcome, TreeOp.birth, hr, Except.map] using h
    | ok r => simpa [TreeOp.run, TreeOp.outcome, TreeOp.birth, hr, Except.map] using h.delete hr
  | watchData p reg =>
    simp only [TreeOp.birth, Option.toList, List.append_nil]
    exact h.of_same (TreeOp.outcome_read_tree (·.data p) (·.watchData p reg) (fun _ => rfl)
      (fun _ => rfl) t).1
  | watchChildren p reg =>
    simp only [TreeOp.birth, Option.toList, List.append_nil]
    exact h.of_same (TreeOp.outcome_read_tree (·.children p) (·.watchChildren p reg)
      (fun _ => rfl) (fun _ => rfl) t).1
  | forget o =>
    simp only [TreeOp.birth, Option.toList, List.append_nil]
    exact h.of_same rfl

theorem runAll (h : t.Numbering bs) (os : List TreeOp) :
    (TreeOp.runAll os t).1.Numbering (bs ++ TreeOp.births os t) := by
  induction os generalizing t bs with
  | nil => simpa using h
  | cons op os ih =>
    rw [TreeOp.runAll_cons, TreeOp.births_cons, ← List.append_assoc]
    exact ih (h.run op)

end Numbering

end Tree

open Birth in
/-- Along every run of tree operations from the fresh tree, the numbered creates under a node
since its creation named their nodes by the path asked for followed by their rank among them,
wrapped to 32 bits, and the next numbered create under it that succeeds takes their number,
wrapped alike. So the first 2^32 numbered creates under one incarnation of a node take the
sequence numbers 0, 1, 2, … in order: their names differ, and those asked for with one path
increase; the next one starts again at 0. -/
theorem sequence_numbers_wrap (os : List TreeOp) (q : String) :
    let bs := numberedUnder q (TreeOp.births os Tree.empty)
    bs.map Birth.path = bs.mapIdx (fun j b => b.requested ++ sequenceSuffix (wrapU32 j)) ∧
    (∀ p d m o r, m.sequential = true → Path.parent p = some q →
      (TreeOp.runAll os Tree.empty).1.create p d m o = .ok r →
        r.1 = p ++ sequenceSuffix (wrapU32 bs.length)) ∧
    (bs.length ≤ 2 ^ 32 → (bs.map Birth.path).Nodup ∧
      bs.Pairwise fun b b' => b.requested = b'.requested → b.path < b'.path) := by
  intro bs
  have h : (TreeOp.runAll os Tree.empty).1.Numbering (TreeOp.births os Tree.empty) := by
    simpa using Tree.numbering_empty.runAll os
  refine ⟨(h.names q).map_path, fun p d m o r hm hq hr => ?_, (h.names q).ordered⟩
  -- the next create takes its parent's counter
  obtain ⟨q', par, -, hq', hpar, hr1, -⟩ := Tree.create_ok_numbered hr
  obtain rfl : q' = q := Option.some.inj (hq'.symm.trans hq)
  rw [hr1, if_pos hm, h.counter q' par hpar]

open Birth TreeOp in
/-- Three numbered creates under the root, two asked for as `/a-` and one as `/b-` by a session,
are numbered 0, 1 and 2, and a fourth, of `/c-`, takes 3. -/
theorem sequence_numbers_three_creates :
    let os := [TreeOp.create "/a-" [] .persistentSequential 0,
      .create "/b-" [] .ephemeralSequential 7, .create "/a-" [] .persistentSequential 0]
    let bs := numberedUnder "/" (births os Tree.empty)
    bs.map Birth.path = ["/a-0000000000", "/b-0000000001", "/a-0000000002"] ∧
      bs.length ≤ 2 ^ 32 ∧ (bs.map Birth.path).Nodup ∧
      ∃ r, (runAll os Tree.empty).1.create "/c-" [] .persistentSequential 0 = .ok r ∧
        r.1 = "/c-0000000003" := by
  intro os bs
  have h := sequence_numbers_wrap os "/"
  have hbs : bs = [⟨"/a-", "/a-0000000000", true⟩, ⟨"/b-", "/b-0000000001", true⟩,
      ⟨"/a-", "/a-0000000002", true⟩] := by
    decide +kernel
  have hlen : bs.length ≤ 2 ^ 32 := by rw [hbs]; decide
  have hok : ((runAll os Tree.empty).1.create "/c-" [] .persistentSequential 0).isOk = true := by
    decide +kernel
  cases hc : (runAll os Tree.empty).1.create "/c-" [] .persistentSequential 0 with
  | error e =>
    rw [hc] at hok
    cases hok
  | ok r =>
    refine ⟨by rw [hbs]; rfl, hlen, (h.2.2 hlen).1, r, rfl, ?_⟩
    rw [h.2.1 "/c-" [] _ 0 r rfl (by decide) hc]
    change "/c-" ++ sequenceSuffix (wrapU32 bs.length) = _
    rw [hbs]
    decide

section Rounds

open TreeOp Birth

/-- `n` rounds of a numbered create of `/a-` under the root, each followed by the delete of the
node it made. -/
def createDeleteRounds (n : Nat) : List TreeOp :=
  (List.range n).flatMap fun k =>
    [.create "/a-" [] .persistentSequential 0, .delete ("/a-" ++ sequenceSuffix k) none]

/-- The fresh tree after `k` rounds: the root alone, with its counter and child version moved
on. -/
def afterRounds (k : Nat) : Tree :=
  ⟨[("/", ⟨[], ⟨0, 0, 0, wrapI32 (2 * k : Nat), 0, 0, 0⟩, [], wrapU32 k⟩)], wrapI64 (2 * k : Nat),
    [], []⟩

theorem roundName_parent (k : Nat) :
    Path.IsValid ("/a-" ++ sequenceSuffix k) ∧ Path.parent ("/a-" ++ sequenceSuffix k) = some "/" :=
  Path.sequential_path (by decide) (by decide) k

theorem roundName_ne_root (k : Nat) : "/a-" ++ sequenceSuffix k ≠ "/" := by
  intro h
  have hparent := (roundName_parent k).2
  rw [h, Tree.parent_root] at hparent
  cases hparent

theorem create_afterRounds (k : Nat) :
    ∃ t', (afterRounds k).create "/a-" [] .persistentSequential 0 =
      .ok ("/a-" ++ sequenceSuffix (wrapU32 k), t', []) := by
  have hp : Path.IsValid "/a-" := by decide
  have hq : Path.parent "/a-" = some "/" := by decide
  simp [afterRounds, Tree.create, Tree.validate_of_isValid hp, hq, roundName_ne_root, lookup,
    update, Tree.trigger, bind, Except.bind, pure, Except.pure, Mode.persistentSequential,
    Stat.isEphemeral]

/-- One round from the tree after `k` rounds, below 2^32 of them, comes to the tree after
`k + 1`. -/
theorem runAll_round {k : Nat} (hk : k < 4294967296) :
    runAll [.create "/a-" [] .persistentSequential 0, .delete ("/a-" ++ sequenceSuffix k) none]
      (afterRounds k) = (afterRounds (k + 1), []) := by
  have hp : Path.IsValid "/a-" := by decide
  have hq : Path.parent "/a-" = some "/" := by decide
  obtain ⟨hvalid, hparent⟩ := roundName_parent k
  have hwrap : wrapU32 k = k := Nat.mod_eq_of_lt hk
  simp [runAll_cons, TreeOp.run, outcome, afterRounds, Tree.create, Tree.delete, Tree.node,
    Tree.validate_of_isValid hp, Tree.validate_of_isValid hvalid, hq, hparent, roundName_ne_root,
    hwrap, lookup, update, without, Tree.trigger, bind, Except.bind, pure, Except.pure, insertName,
    Mode.persistentSequential, Stat.isEphemeral, Except.map, Tree.freshNode]
  -- the child version and the transaction counter went up twice
  refine ⟨⟨?_, rfl⟩, ?_⟩
  · simp only [wrapI32]
    rw [Int.bmod_add_bmod, Int.add_assoc, Int.bmod_add_bmod]
    congr 1
  · rw [wrapI64_succ, Int.add_assoc]
    unfold wrapI64
    rw [Int.bmod_add_bmod]
    congr 1

theorem births_round (k : Nat) :
    births [.create "/a-" [] .persistentSequential 0, .delete ("/a-" ++ sequenceSuffix k) none]
      (afterRounds k) = [⟨"/a-", "/a-" ++ sequenceSuffix (wrapU32 k), true⟩] := by
  obtain ⟨t', ht'⟩ := create_afterRounds k
  rw [births_cons, births_cons, births_nil]
  simp only [birth, ht']
  rfl

theorem createDeleteRounds_succ (n : Nat) :
    createDeleteRounds (n + 1) = createDeleteRounds n ++
      [.create "/a-" [] .persistentSequential 0, .delete ("/a-" ++ sequenceSuffix n) none] := by
  simp [createDeleteRounds, List.range_succ, List.flatMap_append]

theorem runAll_createDeleteRounds {n : Nat} (hn : n ≤ 4294967296) :
    runAll (createDeleteRounds n) Tree.empty = (afterRounds n, []) := by
  induction n with
  | zero => rfl
  | succ n ih =>
    rw [createDeleteRounds_succ, runAll_append, ih (by omega), runAll_round (by omega)]
    rfl

theorem births_createDeleteRounds {n : Nat} (hn : n ≤ 4294967296) :
    births (createDeleteRounds n) Tree.empty =
      (List.range n).map fun k => ⟨"/a-", "/a-" ++ sequenceSuffix k, true⟩ := by
  induction n with
  | zero => rfl
  | succ n ih =>
    rw [createDeleteRounds_succ, births_append, ih (by omega), runAll_createDeleteRounds (by omega),
      births_round, List.range_succ, List.map_append, List.map_singleton]
    rw [wrapU32, Nat.mod_eq_of_lt (by omega)]

/-- After 2^32 rounds, each a numbered create under the root whose node is then deleted, the
next numbered create of `/a-` succeeds and takes the name the first one took, `/a-0000000000`,
though 2^32 numbered creates under the root came before it. -/
theorem sequence_number_repeats_after_two_pow_32_creates :
    let os := createDeleteRounds 4294967296
    let bs := numberedUnder "/" (births os Tree.empty)
    bs.length = 4294967296 ∧ bs.head?.map Birth.path = some "/a-0000000000" ∧
      ∃ r, (runAll os Tree.empty).1.create "/a-" [] .persistentSequential 0 = .ok r ∧
        r.1 = "/a-0000000000" := by
  dsimp only
  -- no round creates the root, and each create is numbered under it
  have hbs : numberedUnder "/" (births (createDeleteRounds 4294967296) Tree.empty) =
      (List.range 4294967296).map fun k => ⟨"/a-", "/a-" ++ sequenceSuffix k, true⟩ := by
    rw [births_createDeleteRounds (Nat.le_refl _), numberedUnder_of_never, List.filter_eq_self]
    · intro b hb
      obtain ⟨k, -, rfl⟩ := List.mem_map.mp hb
      simp [(roundName_parent k).2]
    · intro b hb
      obtain ⟨k, -, rfl⟩ := List.mem_map.mp hb
      exact roundName_ne_root k
  obtain ⟨t', ht'⟩ := create_afterRounds 4294967296
  have hname : "/a-" ++ sequenceSuffix (wrapU32 4294967296) = "/a-0000000000" := by decide
  refine ⟨by rw [hbs, List.length_map, List.length_range], ?_,
    ⟨("/a-" ++ sequenceSuffix (wrapU32 4294967296), t', []), ?_, hname⟩⟩
  · rw [hbs, List.head?_map, List.head?_range, if_neg (by decide)]
    decide
  · rw [runAll_createDeleteRounds (Nat.le_refl _), ht']

end Rounds

end Coordination
