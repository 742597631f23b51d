import Coordination.Proofs.WatchTables

/-!
Watches on the service. Every move of the service runs a list of operations on the node tree
(`Service.treeOps`). A session's request runs its own operation under the fault it takes: after
the changes of other clients when the fault interleaves them, and not at all when the session
is refused, the connection is lost before the operation, or the fault is a failure. A request
made on the tree directly runs its change, and the end of a session forgets its watches, then
deletes its nodes. A run of moves runs the operations of its moves in order and delivers the
events they fire (`Service.runs_run`).

So a watch meets on the service the fate it meets on the tree (`Service.watch_fires_once`): one
event from the first operation its table hears, none if its session ends first. A watcher
registered at a node in both tables hears the node's delete once from each
(`Tree.heard_delete_of_both`).
-/

namespace Coordination

/-- The tree operation of a change another client makes: owner 0, any version. -/
def DirectChange.treeOp : DirectChange → TreeOp
  | .create p d m => .create p d m 0
  | .setData p d => .setData p d none
  | .delete p => .delete p none

/-- The tree operations of a request made on the tree directly: none for a read. -/
def DirectRequest.treeOps : DirectRequest → List TreeOp
  | .create p d m => [.create p d m 0]
  | .setData p d => [.setData p d none]
  | .delete p => [.delete p none]
  | _ => []

namespace SessionRequest

/-- The kind of operation a request is, which picks the fault it takes. -/
def kind : SessionRequest → OpKind
  | .exists _ => .exists
  | .getChildren _ | .getChildrenWithStat _ _ => .getChildren
  | .getData _ | .getDataWithStat _ _ => .getData
  | .setData .. => .setData
  | .create .. => .create
  | .delete .. => .delete

/-- The tree operations of a request of session `id`: a read leaves a watch only when it names
a watcher. -/
def treeOps (id : Nat) : SessionRequest → List TreeOp
  | .getChildrenWithStat p (some w) => [.watchChildren p ⟨id, w⟩]
  | .getDataWithStat p (some w) => [.watchData p ⟨id, w⟩]
  | .setData p d v => [.setData p d v]
  | .create p d m => [.create p d m id]
  | .delete p v => [.delete p v]
  | _ => []

end SessionRequest

/-- The tree operations of a session operation under the fault it takes: other clients'
changes come first when the fault interleaves them, and nothing happens when the connection is
lost before the operation or the fault is a failure. -/
def Fault.treeOps (ops : List TreeOp) : Option Fault → List TreeOp
  | none | some .loseAfterCommit => ops
  | some (.interleave cs) => cs.map DirectChange.treeOp ++ ops
  | some .loseBeforeCommit | some (.fail _) => []

/-- Whether a control ends the session: an expiry or a first close. -/
def Session.ends (s : Session) : Control → Bool
  | .expire =>
    match s.status with
    | .expired | .closed => false
    | _ => true
  | .close =>
    match s.status with
    | .closed => false
    | _ => true
  | _ => false

namespace Service

/-- The tree operations of an operation of kind `k` that session `s` asks of the service: none
when the session is refused, else those of its fault. -/
def sessionOps (svc : Service) (s : Session) (k : OpKind) (ops : List TreeOp) : List TreeOp :=
  match s.refusal with
  | some _ => []
  | none => Fault.treeOps ops ({ svc with ops := svc.ops + 1 }.takeFault k).1

/-- The tree operations of a move, in order. An ending session forgets its watches, then
deletes the nodes it owns. -/
def treeOps (svc : Service) : Move → List TreeOp
  | .session s r => svc.sessionOps s r.kind (r.treeOps s.id)
  | .direct r => r.treeOps
  | .control s c =>
    if s.ends c then .forget s.id :: (svc.tree.ownedBy s.id).map (TreeOp.delete · none) else []
  | .inject _ _ | .openSession => []

/-- The tree operations of a run of moves, in order. -/
def opsAlong : Service → List Move → List TreeOp
  | _, [] => []
  | svc, mv :: ms => svc.treeOps mv ++ (svc.step mv).opsAlong ms

/-- The move is a session's read that registers watcher `w` at `p` in table `tbl` if it
succeeds. -/
def Move.Registers (tbl : Table) (p w : String) : Move → Prop
  | .session _ (.getDataWithStat q (some w')) => tbl = .data ∧ q = p ∧ w' = w
  | .session _ (.getChildrenWithStat q (some w')) => tbl = .child ∧ q = p ∧ w' = w
  | _ => False

/-- Service `s'` holds the tree that the operations `os` leave from the tree of `s`, and has
delivered what `s` had, then the events they fire. -/
def Runs (s s' : Service) (os : List TreeOp) : Prop :=
  s'.tree = (TreeOp.runAll os s.tree).1 ∧ s'.delivered = s.delivered ++ (TreeOp.runAll os s.tree).2

open TreeOp

theorem Runs.of_eq {s s' : Service} (ht : s'.tree = s.tree) (hd : s'.delivered = s.delivered) :
    Runs s s' [] := by
  simp [Runs, ht, hd]

theorem Runs.trans {s₁ s₂ s₃ : Service} {os os' : List TreeOp} (h₁ : Runs s₁ s₂ os)
    (h₂ : Runs s₂ s₃ os') : Runs s₁ s₃ (os ++ os') := by
  obtain ⟨ht₁, hd₁⟩ := h₁
  obtain ⟨ht₂, hd₂⟩ := h₂
  rw [ht₁] at ht₂ hd₂
  rw [hd₁] at hd₂
  simp [Runs, runAll_append, ht₂, hd₂]

theorem runs_change {α : Type} {f : Tree → Except Failure (α × Tree × List Fired)}
    {ops : List TreeOp} (h : ∀ t, outcome f t = runAll ops t) (s : Service) :
    Runs s (s.change f).2 ops := by
  unfold Runs
  rw [← h s.tree]
  unfold change outcome
  cases f s.tree with
  | ok r =>
    obtain ⟨a, t, fired⟩ := r
    exact ⟨rfl, rfl⟩
  | error e => exact ⟨rfl, by simp⟩

theorem runs_change_one {α : Type} {f : Tree → Except Failure (α × Tree × List Fired)}
    {op : TreeOp} (h : ∀ t, outcome f t = op.run t) (s : Service) : Runs s (s.change f).2 [op] :=
  runs_change (fun t => by rw [runAll_singleton, h]) s

theorem runs_applyDirect (s : Service) (c : DirectChange) : Runs s (s.applyDirect c) [c.treeOp] := by
  cases c with
  | create p d m => exact runs_change_one (fun _ => rfl) s
  | setData p d => exact runs_change_one (fun _ => rfl) s
  | delete p => exact runs_change_one (fun _ => rfl) s

theorem runs_foldl_applyDirect (cs : List DirectChange) (s : Service) :
    Runs s (cs.foldl applyDirect s) (cs.map DirectChange.treeOp) := by
  induction cs generalizing s with
  | nil => exact Runs.of_eq rfl rfl
  | cons c cs ih => exact (runs_applyDirect s c).trans (ih _)

theorem takeFault_delivered (s : Service) (k : OpKind) : (s.takeFault k).2.delivered = s.delivered := by
  unfold takeFault
  split <;> rfl

theorem runs_apply {α : Type} {f : Tree → Except Failure (α × Tree × List Fired)}
    {ops : List TreeOp} (h : ∀ t, outcome f t = runAll ops t) (s : Service) (k : OpKind) :
    Runs s (s.apply k f).2 (Fault.treeOps ops ({ s with ops := s.ops + 1 }.takeFault k).1) := by
  have htree := takeFault_tree (s := { s with ops := s.ops + 1 }) k
  have hdel := takeFault_delivered { s with ops := s.ops + 1 } k
  have hkeep : Runs s ({ s with ops := s.ops + 1 }.takeFault k).2 [] := Runs.of_eq htree hdel
  unfold apply
  dsimp only
  split <;> rename_i s' heq <;> rw [heq] at hkeep ⊢ <;> simp only [Fault.treeOps]
  · exact hkeep.trans (runs_change h s')
  · exact hkeep
  · exact hkeep.trans (runs_change h s')
  · rename_i cs
    exact hkeep.trans ((runs_foldl_applyDirect cs s').trans (runs_change h _))
  · exact hkeep

theorem runs_session {α : Type} {f : Tree → Except Failure (α × Tree × List Fired)}
    {ops : List TreeOp} (h : ∀ t, outcome f t = runAll ops t) (svc : Service) (s : Session)
    (k : OpKind) : Runs svc (s.run svc k f).2 (svc.sessionOps s k ops) := by
  unfold Session.run sessionOps
  cases s.refusal with
  | some e => exact Runs.of_eq rfl rfl
  | none => exact runs_apply h svc k

theorem runs_sessionRequest (svc : Service) (s : Session) (r : SessionRequest) :
    Runs svc (r.run s svc).2 (svc.treeOps (.session s r)) := by
  cases r with
  | «exists» p =>
    refine runs_session ?_ svc s _
    exact fun t => outcome_read _ t
  | getChildren p =>
    refine runs_session ?_ svc s _
    exact fun t => outcome_read _ t
  | getChildrenWithStat p w =>
    refine runs_session ?_ svc s _
    cases w with
    | none => exact fun t => outcome_read _ t
    | some w =>
      intro t
      simp only [SessionRequest.treeOps, runAll_singleton]
      rfl
  | getData p =>
    refine runs_session ?_ svc s _
    exact fun t => outcome_read _ t
  | getDataWithStat p w =>
    refine runs_session ?_ svc s _
    cases w with
    | none => exact fun t => outcome_read _ t
    | some w =>
      intro t
      simp only [SessionRequest.treeOps, runAll_singleton]
      rfl
  | setData p d v =>
    refine runs_session ?_ svc s _
    intro t
    simp only [SessionRequest.treeOps, runAll_singleton]
    rfl
  | create p d m =>
    refine runs_session ?_ svc s _
    intro t
    simp only [SessionRequest.treeOps, runAll_singleton]
    rfl
  | delete p v =>
    refine runs_session ?_ svc s _
    intro t
    simp only [SessionRequest.treeOps, runAll_singleton]
    rfl

theorem runs_directRequest (svc : Service) (r : DirectRequest) : Runs svc (r.run svc).2 r.treeOps := by
  cases r with
  | create p d m =>
    simp only [DirectRequest.run, DirectRequest.treeOps, createDirect]
    exact runs_change_one (fun _ => rfl) svc
  | setData p d =>
    simp only [DirectRequest.run, DirectRequest.treeOps, setDataDirect]
    exact runs_change_one (fun _ => rfl) svc
  | delete p =>
    simp only [DirectRequest.run, DirectRequest.treeOps, deleteDirect]
    exact runs_change_one (fun _ => rfl) svc
  | «exists» p =>
    simp only [DirectRequest.run]
    split <;> exact Runs.of_eq rfl rfl
  | getData p => exact Runs.of_eq rfl rfl
  | getChildren p => exact Runs.of_eq rfl rfl

theorem foldl_removalStep_eq (ps : List String) (c : Nat) (t : Tree) (fired : List Fired) :
    (ps.foldl Tree.removalStep (c, t, fired)).2 =
      ((runAll (ps.map (TreeOp.delete · none)) t).1,
        fired ++ (runAll (ps.map (TreeOp.delete · none)) t).2) := by
  induction ps generalizing c t fired with
  | nil => simp
  | cons p ps ih =>
    rw [List.foldl_cons, List.map_cons, runAll_cons]
    cases h : t.delete p none with
    | ok r =>
      have hstep : Tree.removalStep (c, t, fired) p = (c + 1, r.1, fired ++ r.2) := by
        simp [Tree.removalStep, h]
      rw [hstep, ih]
      simp [TreeOp.run, outcome, h, Except.map]
    | error e =>
      have hstep : Tree.removalStep (c, t, fired) p = (c, t, fired) := by
        simp [Tree.removalStep, h]
      rw [hstep, ih]
      simp [TreeOp.run, outcome, h, Except.map]

theorem runs_endSession (s : Service) (o : Nat) :
    Runs s (s.endSession o) (.forget o :: (s.tree.ownedBy o).map (TreeOp.delete · none)) := by
  have h : ((s.tree.forgetWatches o).removeEphemerals o).2 = _ :=
    foldl_removalStep_eq (s.tree.ownedBy o) 0 (s.tree.forgetWatches o) []
  refine ⟨?_, ?_⟩ <;> simp [endSession, runAll_cons, TreeOp.run, h]

theorem runs_control (svc : Service) (s : Session) (c : Control) :
    Runs svc (s.control svc c).2.1 (svc.treeOps (.control s c)) := by
  cases c with
  | establish => exact Runs.of_eq rfl rfl
  | dropConnection => exact Runs.of_eq rfl rfl
  | expire =>
    cases hs : s.status <;>
      simp only [treeOps, Session.ends, Session.control, Session.expire, hs, if_true,
        Bool.false_eq_true, if_false]
    all_goals first | exact Runs.of_eq rfl rfl | exact runs_endSession svc s.id
  | close =>
    cases hs : s.status <;>
      simp only [treeOps, Session.ends, Session.control, Session.close, hs, if_true,
        Bool.false_eq_true, if_false]
    all_goals first | exact Runs.of_eq rfl rfl | exact runs_endSession svc s.id

theorem runs_step (svc : Service) (mv : Move) : Runs svc (svc.step mv) (svc.treeOps mv) := by
  cases mv with
  | session s r => exact runs_sessionRequest svc s r
  | direct r => exact runs_directRequest svc r
  | control s c => exact runs_control svc s c
  | inject k f => exact Runs.of_eq rfl rfl
  | openSession => exact Runs.of_eq rfl rfl

theorem runs_run (svc : Service) (ms : List Move) : Runs svc (svc.run ms) (svc.opsAlong ms) := by
  induction ms generalizing svc with
  | nil => exact Runs.of_eq rfl rfl
  | cons mv ms ih => exact (runs_step svc mv).trans (ih _)

section Provenance

variable {tbl : Table} {p w : String} {op : TreeOp}

theorem not_registers_treeOp (c : DirectChange) : ¬ c.treeOp.Registers tbl p w := by
  cases c <;> simp [DirectChange.treeOp, TreeOp.Registers]

theorem mem_sessionOps {svc : Service} {s : Session} {k : OpKind} {ops : List TreeOp}
    (h : op ∈ svc.sessionOps s k ops) : op ∈ ops ∨ ∃ c : DirectChange, op = c.treeOp := by
  unfold sessionOps at h
  split at h
  · simp at h
  · generalize ({ svc with ops := svc.ops + 1 }.takeFault k).1 = fault at h
    rcases fault with _ | _ | _ | cs | e <;> simp only [Fault.treeOps, List.not_mem_nil] at h
    · exact .inl h
    · exact .inl h
    · rcases List.mem_append.mp h with h | h
      · obtain ⟨c, -, rfl⟩ := List.mem_map.mp h
        exact .inr ⟨c, rfl⟩
      · exact .inl h

/-- A tree operation of a move registers `w` at `p` in a table only when the move is a
session's read of `p` with watcher `w` for that table. -/
theorem registers_of_mem_treeOps {svc : Service} {mv : Move} (hop : op ∈ svc.treeOps mv)
    (hr : op.Registers tbl p w) : mv.Registers tbl p w := by
  cases mv with
  | session s r =>
    rcases mem_sessionOps hop with hop | ⟨c, rfl⟩
    · cases r with
      | getChildrenWithStat q w' =>
        cases w' <;> simp only [SessionRequest.treeOps, List.mem_singleton, List.not_mem_nil] at hop
        subst hop
        exact hr
      | getDataWithStat q w' =>
        cases w' <;> simp only [SessionRequest.treeOps, List.mem_singleton, List.not_mem_nil] at hop
        subst hop
        exact hr
      | setData | create | delete =>
        simp only [SessionRequest.treeOps, List.mem_singleton] at hop
        subst hop
        exact hr.elim
      | _ => simp [SessionRequest.treeOps] at hop
    · exact absurd hr (not_registers_treeOp c)
  | direct r =>
    cases r <;> simp only [treeOps, DirectRequest.treeOps, List.mem_singleton, List.not_mem_nil] at hop <;>
      subst hop <;> exact hr.elim
  | control s c =>
    simp only [treeOps] at hop
    split at hop
    · rcases List.mem_cons.mp hop with rfl | hop
      · exact hr.elim
      · obtain ⟨q, -, rfl⟩ := List.mem_map.mp hop
        exact hr.elim
    · simp at hop
  | inject k f => simp [treeOps] at hop
  | openSession => simp [treeOps] at hop

theorem registers_of_mem_opsAlong {svc : Service} {ms : List Move} (hop : op ∈ svc.opsAlong ms)
    (hr : op.Registers tbl p w) : ∃ mv ∈ ms, mv.Registers tbl p w := by
  induction ms generalizing svc with
  | nil => simp [opsAlong] at hop
  | cons mv ms ih =>
    rcases List.mem_append.mp hop with h | h
    · exact ⟨mv, List.mem_cons_self .., registers_of_mem_treeOps h hr⟩
    · obtain ⟨mv', hmv', hr'⟩ := ih h
      exact ⟨mv', List.mem_cons_of_mem _ hmv', hr'⟩

end Provenance

theorem watchesWF_empty : Tree.empty.WatchesWF := by
  intro tbl
  cases tbl <;> simp [Tree.watches, Tree.empty]

/-- Each watch table of every service reachable from one whose tables name each path once
names each path once. -/
theorem watchesWF_run {svc : Service} (hwf : svc.tree.WatchesWF) (ms : List Move) :
    (svc.run ms).tree.WatchesWF := by
  rw [(runs_run svc ms).1]
  exact runAll_watchesWF hwf _

/-- One-shot watches. Take a registration of watcher `w` at `p` in table `tbl` by session `o`,
while the other table holds none of `w` at `p`. Along every run of moves of the service in
which no session reads `p` with watcher `w` for the other table, the service runs the tree
operations of the moves, in order, and along them the registration meets its fate: it stands
and sends nothing until the first operation its table hears, which sends `w` exactly one event,
of the kind heard, and removes it; or until session `o` ends, which removes it without an
event. Reads of `p` with watcher `w` for the same table, from any session, change nothing
meanwhile. -/
theorem watch_fires_once (svc : Service) (tbl : Table) (p w : String) (o : Nat)
    (hwf : svc.tree.WatchesWF) (hw : svc.tree.Watching tbl p w o)
    (hother : Tree.regsAt (svc.tree.watches tbl.other) p w = []) (ms : List Move)
    (hr : ∀ mv ∈ ms, ¬ mv.Registers tbl.other p w) :
    Runs svc (svc.run ms) (svc.opsAlong ms) ∧ TreeOp.Fate tbl p w o svc.tree (svc.opsAlong ms) := by
  -- no tree operation of the run registers `w` at `p` in the other table
  have hops : ∀ op ∈ svc.opsAlong ms, ¬ op.Registers tbl.other p w := by
    intro op hop hreg
    obtain ⟨mv, hmv, hreg'⟩ := registers_of_mem_opsAlong hop hreg
    exact hr mv hmv hreg'
  exact ⟨runs_run svc ms, TreeOp.watching_fate hwf hw hother _ hops⟩

/-- A data watch left by a read of session 1 hears the first of two later data changes. -/
theorem watch_fires_once_on_first_write :
    let svc := ({} : Service).run [.direct (.create "/a" [] .persistent),
      .session ⟨1, 0, .connected⟩ (.getDataWithStat "/a" (some "w"))]
    let ms := [Move.direct (.setData "/a" [1]), .direct (.setData "/a" [2])]
    Runs svc (svc.run ms) (svc.opsAlong ms) ∧
      TreeOp.Fate .data "/a" "w" 1 svc.tree (svc.opsAlong ms) :=
  watch_fires_once _ .data "/a" "w" 1 (watchesWF_run watchesWF_empty _)
    (by unfold Tree.Watching; decide +kernel) (by decide +kernel) _ (by simp [Move.Registers])

/-- In that run `w` hears the first data change only. -/
example :
    Tree.heard "w" "/a" (({} : Service).run [.direct (.create "/a" [] .persistent),
      .session ⟨1, 0, .connected⟩ (.getDataWithStat "/a" (some "w")),
      .direct (.setData "/a" [1]), .direct (.setData "/a" [2])]).delivered =
      [⟨"w", ⟨.nodeDataChanged, "/a"⟩⟩] := by
  decide +kernel

/-- A watcher that reads a node for its data and for its children hears the delete of the node
twice, once from each table. -/
theorem delete_heard_from_both_tables :
    Tree.heard "w" "/a" (({} : Service).run [.direct (.create "/a" [] .persistent),
      .session ⟨1, 0, .connected⟩ (.getDataWithStat "/a" (some "w")),
      .session ⟨1, 0, .connected⟩ (.getChildrenWithStat "/a" (some "w")),
      .direct (.delete "/a")]).delivered =
      [⟨"w", ⟨.nodeDeleted, "/a"⟩⟩, ⟨"w", ⟨.nodeDeleted, "/a"⟩⟩] := by
  decide +kernel

end Service

end Coordination
