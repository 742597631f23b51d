import Coordination.Proofs.ServiceShape
import Coordination.Proofs.Subtrees

/-!
Watches on the node tree, one registration at a time. The tree keeps two watch tables, on data
and on children. A read with a watcher registers it at its path unless the watcher is there
already, from whatever session; a change that succeeds fires the registrations that hear it and
removes them; the end of a session forgets its registrations. `TreeOp` names the operations the
service runs on the tree, and `TreeOp.hears` says which of them a registration at a path hears
in each table.

A registration of watcher `w` at `p` in one table, while the other table holds none of `w` at
`p`, meets its fate along every run of operations (`TreeOp.watching_fate`): it stands and sends
nothing until the first operation its table hears, which sends `w` exactly one event, of the
kind heard, and removes it; or until the watches of its session are forgotten, which removes it
without an event. Registering `w` at `p` again in that table, from any session, changes nothing
while it stands.
-/

namespace Coordination

/-- The two watch tables of the tree: watches on data and watches on children. -/
inductive Table where
  | data
  | child
  deriving DecidableEq, Repr

/-- The table that is not this one. -/
def Table.other : Table → Table
  | .data => .child
  | .child => .data

namespace Tree

/-- A watch table of the tree. -/
def watches (t : Tree) : Table → List (String × List Registration)
  | .data => t.dataWatches
  | .child => t.childWatches

/-- The registrations of watcher `w` at path `p` in a table. -/
def regsAt (table : List (String × List Registration)) (p w : String) : List Registration :=
  ((lookup p table).getD []).filter (·.watcher = w)

/-- The events of a list that reach watcher `w` about path `p`. -/
def heard (w p : String) (fired : List Fired) : List Fired :=
  fired.filter fun f => f.watcher = w ∧ f.event.path = p

/-- Watcher `w` is registered at `p` in table `tbl` once, by session `o`. -/
def Watching (t : Tree) (tbl : Table) (p w : String) (o : Nat) : Prop :=
  regsAt (t.watches tbl) p w = [⟨o, w⟩]

/-- Each watch table names a path at most once. -/
def WatchesWF (t : Tree) : Prop := ∀ tbl, ((t.watches tbl).map (·.1)).Nodup

section Tables

variable {table : List (String × List Registration)} {p q w : String}

theorem heard_append (a b : List Fired) : heard w p (a ++ b) = heard w p a ++ heard w p b :=
  List.filter_append a b

theorem regsAt_without (hnd : (table.map (·.1)).Nodup) :
    regsAt (without q table) p w = if p = q then [] else regsAt table p w := by
  by_cases hpq : p = q
  · subst hpq
    simp [regsAt, lookup_without_self hnd]
  · simp [regsAt, lookup_without_of_ne hpq, hpq]

theorem regsAt_register (r : Registration) :
    regsAt (register table q r) p w =
      if p = q ∧ r.watcher = w ∧ regsAt table p w = [] then [r] else regsAt table p w := by
  unfold register
  by_cases hany : ((lookup q table).getD []).any (·.watcher = r.watcher) = true
  · -- the watcher is there: nothing changes
    rw [if_pos hany]
    by_cases hcase : p = q ∧ r.watcher = w ∧ regsAt table p w = []
    · obtain ⟨rfl, rfl, hnil⟩ := hcase
      obtain ⟨r', hr', hw'⟩ := List.any_eq_true.mp hany
      have : r' ∈ regsAt table p r.watcher := List.mem_filter.mpr ⟨hr', hw'⟩
      rw [hnil] at this
      cases this
    · rw [if_neg hcase]
  · rw [if_neg hany]
    by_cases hpq : p = q
    · subst hpq
      have hnone : regsAt table p r.watcher = [] := by
        simpa [regsAt, List.filter_eq_nil_iff] using hany
      by_cases hrw : r.watcher = w
      · subst hrw
        rw [if_pos ⟨rfl, rfl, hnone⟩]
        have hnone' : ((lookup p table).getD []).filter (·.watcher = r.watcher) = [] := hnone
        simp [regsAt, List.filter_append, hnone']
      · simp [regsAt, List.filter_append, hrw]
    · simp [regsAt, hpq]

/-- The events a trigger at `q` sends to `w` about `p`: one for each registration of `w` at
`p`, when `q` is `p`. -/
theorem heard_trigger (k : WatchKind) :
    heard w p (trigger table q k).1 =
      if q = p then (regsAt table p w).map fun r => ⟨r.watcher, ⟨k, p⟩⟩ else [] := by
  unfold trigger
  cases hl : lookup q table with
  | none =>
    by_cases hqp : q = p
    · subst hqp
      simp [heard, regsAt, hl]
    · simp [heard, hqp]
  | some regs =>
    by_cases hqp : q = p
    · subst hqp
      simp [heard, regsAt, hl, List.filter_map, Function.comp_def]
    · simp [heard, List.filter_map, Function.comp_def, hqp]

theorem regsAt_forget {o : Nat} (hnd : (table.map (·.1)).Nodup) :
    regsAt ((table.map fun e => (e.1, e.2.filter (·.owner ≠ o))).filter (!·.2.isEmpty)) p w =
      (regsAt table p w).filter (·.owner ≠ o) := by
  induction table with
  | nil => rfl
  | cons e rest ih =>
    obtain ⟨k, regs⟩ := e
    simp only [List.map_cons, List.nodup_cons] at hnd
    by_cases hk : p = k
    · subst hk
      -- the path is named once: only this entry holds its registrations
      have hrest : lookup p ((rest.map fun e => (e.1, e.2.filter (·.owner ≠ o))).filter
          (!·.2.isEmpty)) = none := by
        rw [lookup_eq_none_iff]
        intro hmem
        apply hnd.1
        obtain ⟨e, he, rfl⟩ := List.mem_map.mp hmem
        obtain ⟨e', he', rfl⟩ := List.mem_map.mp (List.mem_filter.mp he).1
        exact List.mem_map.mpr ⟨e', he', rfl⟩
      by_cases hempty : (regs.filter (·.owner ≠ o)).isEmpty = true
      · have hall := List.isEmpty_iff.mp hempty
        simp only [List.map_cons, List.filter_cons, hempty, Bool.not_true, Bool.false_eq_true,
          if_false, regsAt, hrest, Option.getD_none, lookup, if_true, Option.getD_some,
          List.filter_nil, List.filter_filter]
        -- every registration at the path is the owner's
        symm
        rw [List.filter_eq_nil_iff]
        intro a ha
        have := List.filter_eq_nil_iff.mp hall a ha
        simp_all
      · simp only [List.map_cons, List.filter_cons, hempty, Bool.not_false, if_true, regsAt,
          lookup, Option.getD_some]
        rw [List.filter_filter, List.filter_filter]
        congr 1
        funext a
        exact Bool.and_comm _ _
    · have hlook : ∀ (l : List (String × List Registration)), lookup p ((k, regs.filter
          (·.owner ≠ o)) :: l) = lookup p l := fun l => by simp [lookup, hk]
      simp only [List.map_cons, List.filter_cons]
      split
      · rw [regsAt, hlook, ← regsAt, ih hnd.2]
        simp [regsAt, lookup, hk]
      · rw [ih hnd.2]
        simp [regsAt, lookup, hk]

theorem nodup_update {regs : List Registration} (hnd : (table.map (·.1)).Nodup) :
    ((update q regs table).map (·.1)).Nodup := by
  induction table with
  | nil => simp [update]
  | cons e rest ih =>
    obtain ⟨k, r⟩ := e
    simp only [List.map_cons, List.nodup_cons] at hnd
    by_cases hq : q = k
    · subst hq
      simpa [update] using hnd
    · simp only [update, hq, if_false, List.map_cons, List.nodup_cons]
      refine ⟨?_, ih hnd.2⟩
      -- the keys after an update are the keys before and `q`
      intro hmem
      have hkeys : ∀ l : List (String × List Registration), k ∈ (update q regs l).map (·.1) →
          k = q ∨ k ∈ l.map (·.1) := by
        intro l
        induction l with
        | nil => simp [update]
        | cons e' l' ih' =>
          obtain ⟨k', r'⟩ := e'
          by_cases hqk : q = k'
          · subst hqk
            simp only [update, if_true, List.map_cons, List.mem_cons]
            rintro (h | h)
            · exact .inl h
            · exact .inr (.inr h)
          · simp only [update, hqk, if_false, List.map_cons, List.mem_cons]
            rintro (h | h)
            · exact .inr (.inl h)
            · rcases ih' h with h | h
              · exact .inl h
              · exact .inr (.inr h)
      rcases hkeys rest hmem with h | h
      · exact hq h.symm
      · exact hnd.1 h

end Tables

section Changes

variable {t : Tree} {q : String} {d : List UInt8}

theorem setData_fired {v : Option Int} {r : Stat × Tree × List Fired} (h : t.setData q d v = .ok r) :
    r.2.1.dataWatches = (trigger t.dataWatches q .nodeDataChanged).2 ∧
      r.2.1.childWatches = t.childWatches ∧ r.2.2 = (trigger t.dataWatches q .nodeDataChanged).1 := by
  obtain ⟨n, -, -, -, hr, hfired⟩ := setData_ok_spec h
  rw [hr]
  exact ⟨rfl, rfl, hfired⟩

theorem create_fired {m : Mode} {o : Nat} {r : String × Tree × List Fired}
    (h : t.create q d m o = .ok r) :
    ∃ pp, Path.parent q = some pp ∧ r.2.1.dataWatches = t.dataWatches ∧
      r.2.1.childWatches = (trigger t.childWatches pp .nodeChildrenChanged).2 ∧
      r.2.2 = (trigger t.childWatches pp .nodeChildrenChanged).1 := by
  obtain ⟨pp, _, hq, -, -, -, -, -, -, hr, hfired⟩ := create_ok_spec h
  rw [hr]
  exact ⟨pp, hq, rfl, rfl, hfired⟩

/-- A delete that succeeds fires the data and child watches of its path, then the child
watches of its parent, and forgets them. -/
theorem delete_fired {v : Option Int} {r : Tree × List Fired} (h : t.delete q v = .ok r) :
    ∃ pp, Path.parent q = some pp ∧ r.1.dataWatches = without q t.dataWatches ∧
      r.1.childWatches = without pp (without q t.childWatches) ∧
      r.2 = (trigger t.dataWatches q .nodeDeleted).1 ++ (trigger t.childWatches q .nodeDeleted).1 ++
        (trigger (without q t.childWatches) pp .nodeChildrenChanged).1 := by
  obtain ⟨n, pp, -, -, -, hq, hr, hfired⟩ := delete_ok_spec h
  rw [hr]
  exact ⟨pp, hq, rfl, rfl, hfired⟩

end Changes

theorem nodup_without {table : List (String × List Registration)} {q : String}
    (h : (table.map (·.1)).Nodup) : ((without q table).map (·.1)).Nodup := by
  rw [keys_without]
  exact h.erase q

theorem nodup_register {table : List (String × List Registration)} {q : String} (r : Registration)
    (h : (table.map (·.1)).Nodup) : ((register table q r).map (·.1)).Nodup := by
  unfold register
  dsimp only
  split
  · exact h
  · exact nodup_update h

theorem watches_forget (t : Tree) (o : Nat) (tbl : Table) :
    (t.forgetWatches o).watches tbl =
      ((t.watches tbl).map fun e => (e.1, e.2.filter (·.owner ≠ o))).filter (!·.2.isEmpty) := by
  cases tbl <;> rfl

theorem nodup_forget {table : List (String × List Registration)} (o : Nat)
    (h : (table.map (·.1)).Nodup) :
    (((table.map fun e => (e.1, e.2.filter (·.owner ≠ o))).filter (!·.2.isEmpty)).map (·.1)).Nodup := by
  refine List.Sublist.nodup ?_ h
  have hkeys : (table.map fun e => (e.1, e.2.filter (·.owner ≠ o))).map (·.1) = table.map (·.1) := by
    simp
  rw [← hkeys]
  exact List.filter_sublist.map _

end Tree

/-- An operation on the node tree as the service runs them for sessions and other clients: a
create for an owner, a data change, a delete, a read of data or of children that leaves a
watch, and the forgetting of the watches of a session that ends. -/
inductive TreeOp where
  | create (p : String) (d : List UInt8) (m : Mode) (owner : Nat)
  | setData (p : String) (d : List UInt8) (version : Option Int)
  | delete (p : String) (version : Option Int)
  | watchData (p : String) (r : Registration)
  | watchChildren (p : String) (r : Registration)
  | forget (owner : Nat)
  deriving Repr

namespace TreeOp

/-- The tree a change leaves and the events it fires; a change that fails leaves the tree as
it was and fires nothing. -/
def outcome {α : Type} (f : Tree → Except Failure (α × Tree × List Fired)) (t : Tree) :
    Tree × List Fired :=
  match f t with
  | .ok r => (r.2.1, r.2.2)
  | .error _ => (t, [])

/-- The tree an operation leaves and the watch events it fires. A read leaves its watch only
when it succeeds. -/
def run : TreeOp → Tree → Tree × List Fired
  | .create p d m o => outcome (·.create p d m o)
  | .setData p d v => outcome (·.setData p d v)
  | .delete p v => outcome fun t => (t.delete p v).map fun r => ((), r.1, r.2)
  | .watchData p r => outcome fun t => (t.data p).map fun x => (x, t.watchData p r, [])
  | .watchChildren p r => outcome fun t => (t.children p).map fun x => (x, t.watchChildren p r, [])
  | .forget o => fun t => (t.forgetWatches o, [])

/-- A run of operations from a tree: the tree at its end and the events fired along it, in
order. -/
def runAll : List TreeOp → Tree → Tree × List Fired
  | [], t => (t, [])
  | o :: os, t => ((runAll os (o.run t).1).1, (o.run t).2 ++ (runAll os (o.run t).1).2)

@[simp] theorem runAll_nil (t : Tree) : runAll [] t = (t, []) := rfl

theorem runAll_cons (op : TreeOp) (os : List TreeOp) (t : Tree) :
    runAll (op :: os) t = ((runAll os (op.run t).1).1, (op.run t).2 ++ (runAll os (op.run t).1).2) :=
  rfl

theorem runAll_append (os os' : List TreeOp) (t : Tree) :
    runAll (os ++ os') t =
      ((runAll os' (runAll os t).1).1, (runAll os t).2 ++ (runAll os' (runAll os t).1).2) := by
  induction os generalizing t with
  | nil => simp
  | cons op os ih => simp [runAll_cons, ih]

@[simp] theorem runAll_singleton (op : TreeOp) (t : Tree) : runAll [op] t = op.run t := by
  simp [runAll_cons]

theorem outcome_read {β : Type} (read : Tree → Except Failure β) (t : Tree) :
    outcome (fun t => (read t).map fun r => (r, t, [])) t = (t, []) := by
  cases h : read t <;> simp [outcome, h, Except.map]

/-- The event a registration at `p` in table `tbl` hears from the operation on `t`, if any: a
data watch hears the data change and the delete of `p`; a child watch hears the create and the
delete of a child of `p`, and the delete of `p`. An operation that fails fires nothing. -/
def hears (p : String) (t : Tree) : Table → TreeOp → Option WatchKind
  | .data, .setData q d v => if q = p ∧ (t.setData q d v).isOk then some .nodeDataChanged else none
  | .data, .delete q v => if q = p ∧ (t.delete q v).isOk then some .nodeDeleted else none
  | .child, .create q d m o =>
    if Path.parent q = some p ∧ (t.create q d m o).isOk then some .nodeChildrenChanged else none
  | .child, .delete q v =>
    if (t.delete q v).isOk then
      if q = p then some .nodeDeleted
      else if Path.parent q = some p then some .nodeChildrenChanged else none
    else none
  | _, _ => none

/-- The operation is a read that registers watcher `w` at `p` in table `tbl` if it succeeds. -/
def Registers (tbl : Table) (p w : String) : TreeOp → Prop
  | .watchData q r => tbl = .data ∧ q = p ∧ r.watcher = w
  | .watchChildren q r => tbl = .child ∧ q = p ∧ r.watcher = w
  | _ => False

section Effects

open Coordination.Tree

variable {t : Tree} {p w : String}

/-- The events an operation sends to `w` about `p`: one for each registration of `w` at `p` in
each table that hears the operation, the data table first. -/
theorem heard_run (hwf : t.WatchesWF) (op : TreeOp) :
    heard w p (op.run t).2 =
      ((op.hears p t .data).map fun k => (regsAt t.dataWatches p w).map fun r =>
          (⟨r.watcher, ⟨k, p⟩⟩ : Fired)).getD [] ++
        ((op.hears p t .child).map fun k => (regsAt t.childWatches p w).map fun r =>
          (⟨r.watcher, ⟨k, p⟩⟩ : Fired)).getD [] := by
  cases op with
  | create q d m o =>
    cases h : t.create q d m o with
    | error e => simp [run, outcome, h, hears, heard, Except.isOk, Except.toBool]
    | ok r =>
      obtain ⟨pp, hpp, -, -, hfired⟩ := create_fired h
      simp only [run, outcome, h, hfired, heard_trigger, hears, hpp, Option.some.injEq]
      by_cases hpq : pp = p <;> simp [hpq, Except.isOk, Except.toBool]
  | setData q d v =>
    cases h : t.setData q d v with
    | error e => simp [run, outcome, h, hears, heard, Except.isOk, Except.toBool]
    | ok r =>
      obtain ⟨-, -, hfired⟩ := setData_fired h
      simp only [run, outcome, h, hfired, heard_trigger, hears]
      by_cases hqp : q = p <;> simp [hqp, Except.isOk, Except.toBool]
  | delete q v =>
    cases h : t.delete q v with
    | error e => simp [run, outcome, h, hears, heard, Except.isOk, Except.toBool, Except.map]
    | ok r =>
      obtain ⟨pp, hpp, -, -, hfired⟩ := delete_fired h
      simp only [run, outcome, h, Except.map, hfired, heard_append, heard_trigger, hears,
        Except.isOk, Except.toBool]
      by_cases hqp : q = p
      · -- the parent of `p` is not `p`
        subst hqp
        have hne : pp ≠ q := fun he => by
          have := Path.length_lt_of_parent hpp
          rw [he] at this
          exact Nat.lt_irrefl _ this
        simp [hne]
      · by_cases hpq : pp = p
        · subst hpq
          have hnd : (t.childWatches.map (·.1)).Nodup := hwf .child
          simp [hqp, hpp, regsAt_without hnd, Ne.symm hqp]
        · simp [hqp, hpp, hpq]
  | watchData q r => cases h : t.data q <;> simp [run, outcome, h, Except.map, hears, heard]
  | watchChildren q r => cases h : t.children q <;> simp [run, outcome, h, Except.map, hears, heard]
  | forget o => simp [run, hears, heard]

theorem heard_delete_of_both {o o' : Nat} (hwf : t.WatchesWF) (hd : t.Watching .data p w o)
    (hc : t.Watching .child p w o') {v : Option Int} (hok : (t.delete p v).isOk) :
    heard w p ((TreeOp.delete p v).run t).2 = [⟨w, ⟨.nodeDeleted, p⟩⟩, ⟨w, ⟨.nodeDeleted, p⟩⟩] := by
  rw [heard_run hwf]
  simp only [Watching, watches] at hd hc
  simp [hears, hok, hd, hc]

end Effects

section Registrations

open Coordination.Tree

variable {t : Tree} {p w : String}

theorem regsAt_run_of_hears (hwf : t.WatchesWF) {tbl : Table} {op : TreeOp} {k : WatchKind}
    (h : op.hears p t tbl = some k) : regsAt ((op.run t).1.watches tbl) p w = [] := by
  have hd : (t.dataWatches.map (·.1)).Nodup := hwf .data
  have hc : (t.childWatches.map (·.1)).Nodup := hwf .child
  cases tbl <;> cases op <;> simp only [hears, reduceCtorEq] at h
  case data.setData q d v =>
    cases hs : t.setData q d v with
    | error e => simp [hs, Except.isOk, Except.toBool] at h
    | ok r =>
      obtain ⟨hdw, -, -⟩ := setData_fired hs
      obtain rfl : q = p := by
        by_contra hq
        simp [hq] at h
      simp [run, outcome, hs, watches, hdw, trigger_snd, regsAt_without hd]
  case data.delete q v =>
    cases hs : t.delete q v with
    | error e => simp [hs, Except.isOk, Except.toBool] at h
    | ok r =>
      obtain ⟨pp, -, hdw, -, -⟩ := delete_fired hs
      obtain rfl : q = p := by
        by_contra hq
        simp [hq] at h
      simp [run, outcome, hs, Except.map, watches, hdw, regsAt_without hd]
  case child.create q d m o =>
    cases hs : t.create q d m o with
    | error e => simp [hs, Except.isOk, Except.toBool] at h
    | ok r =>
      obtain ⟨pp, hpp, -, hcw, -⟩ := create_fired hs
      obtain rfl : pp = p := by
        by_contra hne
        simp [hpp, hne] at h
      simp [run, outcome, hs, watches, hcw, trigger_snd, regsAt_without hc]
  case child.delete q v =>
    cases hs : t.delete q v with
    | error e => simp [hs, Except.isOk, Except.toBool] at h
    | ok r =>
      obtain ⟨pp, hpp, -, hcw, -⟩ := delete_fired hs
      simp only [run, outcome, hs, Except.map, watches, hcw, regsAt_without (nodup_without hc),
        regsAt_without hc]
      -- `p` is the deleted node or its parent
      by_cases hqp : q = p
      · simp [hqp]
      · obtain rfl : pp = p := by
          by_contra hne
          simp [hs, Except.isOk, Except.toBool, hqp, hpp, hne] at h
        simp

/-- An operation that a table does not hear, other than the forgetting of an owner's watches,
leaves the registrations of `w` at `p` in it as they were, unless it is a read that makes the
first one. -/
theorem regsAt_run_of_quiet (hwf : t.WatchesWF) {tbl : Table} {op : TreeOp}
    (h : op.hears p t tbl = none) (hf : ∀ o, op ≠ .forget o)
    (hr : regsAt (t.watches tbl) p w ≠ [] ∨ ¬ op.Registers tbl p w) :
    regsAt ((op.run t).1.watches tbl) p w = regsAt (t.watches tbl) p w := by
  have hd : (t.dataWatches.map (·.1)).Nodup := hwf .data
  have hc : (t.childWatches.map (·.1)).Nodup := hwf .child
  cases op with
  | create q d m o =>
    cases hs : t.create q d m o with
    | error e => simp [run, outcome, hs]
    | ok r =>
      obtain ⟨pp, hpp, hdw, hcw, -⟩ := create_fired hs
      cases tbl with
      | data => simp [run, outcome, hs, watches, hdw]
      | child =>
        have hne : p ≠ pp := by
          rintro rfl
          simp [hears, hpp, hs, Except.isOk, Except.toBool] at h
        simp [run, outcome, hs, watches, hcw, trigger_snd, regsAt_without hc, hne]
  | setData q d v =>
    cases hs : t.setData q d v with
    | error e => simp [run, outcome, hs]
    | ok r =>
      obtain ⟨hdw, hcw, -⟩ := setData_fired hs
      cases tbl with
      | data =>
        have hne : p ≠ q := by
          rintro rfl
          simp [hears, hs, Except.isOk, Except.toBool] at h
        simp [run, outcome, hs, watches, hdw, trigger_snd, regsAt_without hd, hne]
      | child => simp [run, outcome, hs, watches, hcw]
  | delete q v =>
    cases hs : t.delete q v with
    | error e => simp [run, outcome, hs, Except.map]
    | ok r =>
      obtain ⟨pp, hpp, hdw, hcw, -⟩ := delete_fired hs
      have hne : p ≠ q := by
        rintro rfl
        cases tbl <;> simp [hears, hs, Except.isOk, Except.toBool] at h
      cases tbl with
      | data => simp [run, outcome, hs, Except.map, watches, hdw, regsAt_without hd, hne]
      | child =>
        have hne' : p ≠ pp := by
          rintro rfl
          simp [hears, hs, hpp, Ne.symm hne, Except.isOk, Except.toBool] at h
        simp [run, outcome, hs, Except.map, watches, hcw, regsAt_without (nodup_without hc),
          regsAt_without hc, hne, hne']
  | watchData q r =>
    cases hs : t.data q with
    | error e => simp [run, outcome, hs, Except.map]
    | ok x =>
      cases tbl with
      | data =>
        have hnot : ¬ (p = q ∧ r.watcher = w ∧ regsAt t.dataWatches p w = []) := by
          rintro ⟨rfl, rfl, hnil⟩
          simp [Registers, watches, hnil] at hr
        simp [run, outcome, hs, Except.map, watches, Tree.watchData, regsAt_register, hnot]
      | child => simp [run, outcome, hs, Except.map, watches, Tree.watchData]
  | watchChildren q r =>
    cases hs : t.children q with
    | error e => simp [run, outcome, hs, Except.map]
    | ok x =>
      cases tbl with
      | data => simp [run, outcome, hs, Except.map, watches, Tree.watchChildren]
      | child =>
        have hnot : ¬ (p = q ∧ r.watcher = w ∧ regsAt t.childWatches p w = []) := by
          rintro ⟨rfl, rfl, hnil⟩
          simp [Registers, watches, hnil] at hr
        simp [run, outcome, hs, Except.map, watches, Tree.watchChildren, regsAt_register, hnot]
  | forget o => exact absurd rfl (hf o)

theorem regsAt_run_forget (hwf : t.WatchesWF) (tbl : Table) (o : Nat) :
    regsAt (((TreeOp.forget o).run t).1.watches tbl) p w =
      (regsAt (t.watches tbl) p w).filter (·.owner ≠ o) := by
  rw [run, watches_forget]
  exact regsAt_forget (hwf tbl)

theorem run_watchesWF (hwf : t.WatchesWF) (op : TreeOp) : (op.run t).1.WatchesWF := by
  have hd : (t.dataWatches.map (·.1)).Nodup := hwf .data
  have hc : (t.childWatches.map (·.1)).Nodup := hwf .child
  intro tbl
  cases op with
  | create q d m o =>
    cases hs : t.create q d m o with
    | error e => simpa [run, outcome, hs] using hwf tbl
    | ok r =>
      obtain ⟨pp, -, hdw, hcw, -⟩ := create_fired hs
      cases tbl
      · simpa [run, outcome, hs, watches, hdw] using hd
      · simpa [run, outcome, hs, watches, hcw, trigger_snd] using nodup_without hc
  | setData q d v =>
    cases hs : t.setData q d v with
    | error e => simpa [run, outcome, hs] using hwf tbl
    | ok r =>
      obtain ⟨hdw, hcw, -⟩ := setData_fired hs
      cases tbl
      · simpa [run, outcome, hs, watches, hdw, trigger_snd] using nodup_without hd
      · simpa [run, outcome, hs, watches, hcw] using hc
  | delete q v =>
    cases hs : t.delete q v with
    | error e => simpa [run, outcome, hs, Except.map] using hwf tbl
    | ok r =>
      obtain ⟨pp, -, hdw, hcw, -⟩ := delete_fired hs
      cases tbl
      · simpa [run, outcome, hs, Except.map, watches, hdw] using nodup_without hd
      · simpa [run, outcome, hs, Except.map, watches, hcw] using nodup_without (nodup_without hc)
  | watchData q r =>
    cases hs : t.data q with
    | error e => simpa [run, outcome, hs, Except.map] using hwf tbl
    | ok x =>
      cases tbl
      · simpa [run, outcome, hs, Except.map, watches, Tree.watchData] using nodup_register r hd
      · simpa [run, outcome, hs, Except.map, watches, Tree.watchData] using hc
  | watchChildren q r =>
    cases hs : t.children q with
    | error e => simpa [run, outcome, hs, Except.map] using hwf tbl
    | ok x =>
      cases tbl
      · simpa [run, outcome, hs, Except.map, watches, Tree.watchChildren] using hd
      · simpa [run, outcome, hs, Except.map, watches, Tree.watchChildren] using nodup_register r hc
  | forget o =>
    rw [run, watches_forget]
    exact nodup_forget o (hwf tbl)

theorem runAll_watchesWF {t : Tree} (hwf : t.WatchesWF) (os : List TreeOp) :
    (runAll os t).1.WatchesWF := by
  induction os generalizing t with
  | nil => exact hwf
  | cons op os ih => exact ih (run_watchesWF hwf op)

end Registrations

/-- No operation of the run from `t` is heard at `p` by table `tbl`, and none forgets the
watches of `o`. -/
def Quiet (tbl : Table) (p : String) (o : Nat) : Tree → List TreeOp → Prop
  | _, [] => True
  | t, op :: os => op.hears p t tbl = none ∧ op ≠ .forget o ∧ Quiet tbl p o (op.run t).1 os

/-- What becomes of the registration of watcher `w` at `p` in table `tbl`, made by session `o`,
along the run `os` from `t`: it stands through a quiet run and sends nothing; or the first
operation the table hears sends it exactly one event, of the kind heard, and removes it; or
the watches of `o` are forgotten first, and it goes without an event. -/
def Fate (tbl : Table) (p w : String) (o : Nat) (t : Tree) (os : List TreeOp) : Prop :=
  (Quiet tbl p o t os ∧ Tree.heard w p (runAll os t).2 = [] ∧
      (runAll os t).1.Watching tbl p w o) ∨
    (∃ pre op post k, os = pre ++ op :: post ∧ Quiet tbl p o t pre ∧
      op.hears p (runAll pre t).1 tbl = some k ∧
      Tree.heard w p (runAll (pre ++ [op]) t).2 = [⟨w, ⟨k, p⟩⟩] ∧
      Tree.regsAt ((runAll (pre ++ [op]) t).1.watches tbl) p w = []) ∨
    (∃ pre post, os = pre ++ .forget o :: post ∧ Quiet tbl p o t pre ∧
      Tree.heard w p (runAll (pre ++ [.forget o]) t).2 = [] ∧
      Tree.regsAt ((runAll (pre ++ [.forget o]) t).1.watches tbl) p w = [])

section Fate

open Coordination.Tree

variable {t : Tree} {tbl : Table} {p w : String} {o : Nat}

/-- While `w` is registered at `p` in one table only, it hears one event for each operation
that table hears. -/
theorem heard_run_of_watching (hwf : t.WatchesWF) (hw : t.Watching tbl p w o)
    (hother : regsAt (t.watches tbl.other) p w = []) (op : TreeOp) :
    heard w p (op.run t).2 = ((op.hears p t tbl).map fun k => [⟨w, ⟨k, p⟩⟩]).getD [] := by
  rw [heard_run hwf op]
  cases tbl <;> simp only [Watching, watches, Table.other] at hw hother <;>
    cases op.hears p t .data <;> cases op.hears p t .child <;> simp [hw, hother]

/-- One operation on a registration of `w` at `p` in table `tbl` by `o`, while the other table
holds none of `w` at `p` and the operation makes none there: either the table does not hear it
and it is not the forgetting of `o`, and the registration stands with nothing sent; or the table
hears it, and `w` gets exactly one event and the registration goes; or it forgets the watches of
`o`, and the registration goes with nothing sent. -/
theorem watching_step (hwf : t.WatchesWF) (hw : t.Watching tbl p w o)
    (hother : regsAt (t.watches tbl.other) p w = []) (op : TreeOp)
    (hr : ¬ op.Registers tbl.other p w) :
    (op.hears p t tbl = none ∧ op ≠ .forget o ∧ heard w p (op.run t).2 = [] ∧
        (op.run t).1.Watching tbl p w o ∧ regsAt ((op.run t).1.watches tbl.other) p w = []) ∨
      (∃ k, op.hears p t tbl = some k ∧ heard w p (op.run t).2 = [⟨w, ⟨k, p⟩⟩] ∧
        regsAt ((op.run t).1.watches tbl) p w = []) ∨
      (op = .forget o ∧ heard w p (op.run t).2 = [] ∧ regsAt ((op.run t).1.watches tbl) p w = []) := by
  have hheard := heard_run_of_watching hwf hw hother op
  have hregs : regsAt (t.watches tbl) p w = [⟨o, w⟩] := hw
  by_cases hfo : ∃ o', op = .forget o'
  · obtain ⟨o', rfl⟩ := hfo
    have hsilent : heard w p ((TreeOp.forget o').run t).2 = [] := rfl
    by_cases ho : o' = o
    · -- the owner's watches are forgotten
      subst ho
      refine .inr (.inr ⟨rfl, hsilent, ?_⟩)
      rw [regsAt_run_forget hwf, hregs]
      simp
    · -- another session's watches are forgotten
      refine .inl ⟨by cases tbl <;> rfl, fun h => ho (TreeOp.forget.inj h), hsilent, ?_, ?_⟩
      · rw [Watching, regsAt_run_forget hwf, hregs]
        simp [Ne.symm ho]
      · rw [regsAt_run_forget hwf, hother]
        rfl
  · rw [not_exists] at hfo
    cases hk : op.hears p t tbl with
    | some k =>
      refine .inr (.inl ⟨k, rfl, by simp [hheard, hk], regsAt_run_of_hears hwf hk⟩)
    | none =>
      refine .inl ⟨rfl, hfo o, by simp [hheard, hk], ?_, ?_⟩
      · rw [Watching, regsAt_run_of_quiet hwf hk hfo (.inl (by simp [hregs]))]
        exact hw
      · -- the other table holds none of `w` at `p`, and the operation adds none
        cases hk' : op.hears p t tbl.other with
        | some k' => exact regsAt_run_of_hears hwf hk'
        | none => rw [regsAt_run_of_quiet hwf hk' hfo (.inr hr)]; exact hother

/-- Along every run of operations, the registration of `w` at `p` in table `tbl` by `o` meets
its fate, as long as the other table holds none of `w` at `p` and no operation of the run makes
one there. -/
theorem watching_fate (hwf : t.WatchesWF) (hw : t.Watching tbl p w o)
    (hother : regsAt (t.watches tbl.other) p w = []) (os : List TreeOp)
    (hr : ∀ op ∈ os, ¬ op.Registers tbl.other p w) : Fate tbl p w o t os := by
  -- induction on the run; the step lemma says how its first operation leaves the registration
  induction os generalizing t with
  | nil => exact .inl ⟨trivial, rfl, hw⟩
  | cons op os ih =>
    rcases watching_step hwf hw hother op (hr op (List.mem_cons_self ..)) with
      ⟨hk, hne, hsilent, hw', hother'⟩ | ⟨k, hk, hone, hgone⟩ | ⟨rfl, hsilent, hgone⟩
    · -- the registration stands: the fate of the rest of the run is the fate of the run
      have hrest := ih (run_watchesWF hwf op) hw' hother' fun op' h => hr op' (List.mem_cons_of_mem _ h)
      rcases hrest with ⟨hq, hh, hw''⟩ | ⟨pre, op', post, k, rfl, hq, hk', hone, hgone⟩ |
          ⟨pre, post, rfl, hq, hh, hgone⟩
      · exact .inl ⟨⟨hk, hne, hq⟩, by simp [runAll_cons, heard_append, hsilent, hh], hw''⟩
      · refine .inr (.inl ⟨op :: pre, op', post, k, rfl, ⟨hk, hne, hq⟩, hk', ?_, hgone⟩)
        simp [runAll_cons, heard_append, hsilent, hone]
      · refine .inr (.inr ⟨op :: pre, post, rfl, ⟨hk, hne, hq⟩, ?_, hgone⟩)
        simp [runAll_cons, heard_append, hsilent, hh]
    · -- the first operation is heard
      exact .inr (.inl ⟨[], op, os, k, rfl, trivial, hk, by simpa [runAll_cons] using hone,
        hgone⟩)
    · -- the first operation forgets the owner's watches
      exact .inr (.inr ⟨[], os, rfl, trivial, by simpa [runAll_cons] using hsilent, hgone⟩)

end Fate

end TreeOp

end Coordination
