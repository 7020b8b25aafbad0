import Dataflow.Proofs.Pass.Idempotence
import Dataflow.Proofs.Rewrite.Retirement

/-!
The report of a pass is exact: a pass of the library reports a change iff it leaves another graph
behind. A rewrite retires a value that never comes back, and a promoted node is never demoted.
-/

namespace Dataflow

open Session Catalog

variable {limit : Nat} {graph : Graph} {session : Session} {ids : List NodeId}

-----------------------------------------------------------------------------------------
-- Retired nodes
-----------------------------------------------------------------------------------------

/-- The value of a node of a graph is gone for good. -/
def Session.Forgets (graph : Graph) (session : Session) : Prop :=
  ∃ node ∈ graph.body, session.Lost node.value

theorem Session.persists_forgets (graph : Graph) : Persists (Forgets graph) :=
  fun _ step ⟨node, member, lost⟩ => ⟨node, member, persists_lost node.value _ step lost⟩

theorem Session.Forgets.graph_ne {other : Graph} (forgets : session.Forgets graph)
    (sublist : other.body ⊆ session.graph.body)
    : other ≠ graph := by
  rintro rfl
  obtain ⟨node, member, lost⟩ := forgets
  exact lost.undefined (Graph.value_mem_defined (sublist member))

theorem Session.forgets_of_ends {node : Node} {ε α : Type} {result : EStateM.Result ε Session α}
    {id : NodeId} (described : session.Described ids) (found : session.node? id = some node)
    (ends : Ends (Lost node.value) result)
    : Ends (Forgets session.graph) result := by
  obtain ⟨position, -, -, here⟩ := listed_of_node? described found
  cases result with
  | ok value after => exact ⟨node, List.mem_of_getElem? here, ends⟩
  | error error after => trivial

theorem Session.dropsChange_forgets (described : session.Described ids)
    : session.DropsChange (Forgets session.graph) :=
  fun found => forgets_of_ends described found (owns_of_node? described found).erase

-----------------------------------------------------------------------------------------
-- Promoted nodes
-----------------------------------------------------------------------------------------

/-- A node mutates in place where the node of a graph does not. -/
def Session.Destroys (graph : Graph) (session : Session) : Prop :=
  session.Tracked
  ∧ ∃ (position : Nat) (old new : Node),
      graph.body[position]? = some old
      ∧ old.operation.isInplace = false
      ∧ session.graph.body[position]? = some new
      ∧ new.operation.isInplace = true

theorem Session.Destroys.graph_ne (destroys : session.Destroys graph) : session.graph ≠ graph := by
  rintro rfl
  obtain ⟨-, position, old, new, before, copies, after, mutates⟩ := destroys
  obtain rfl := Option.some.inj (before.symm.trans after)
  exact Bool.false_ne_true (copies.symm.trans mutates)

/-- A promotion keeps the nodes that were promoted before. -/
theorem Rules.promoteListMutation_keeps_destroys
    : promoteListMutation.Keeps (Destroys graph) True := by
  rintro session id plan ⟨⟨_, described⟩, position, old, new, before, copies, after, mutates⟩ planned
  have tracked := persists_tracked.setOperation ⟨_, described⟩ id
  obtain ⟨_, mutation, _, -, -, -, -, rfl⟩ := plan_promoteListMutation.mp planned
  apply Leaves.lift
  rcases setOperation_cases described id (.listMutation mutation true) with
    ⟨error, failed⟩ | ⟨place, _, _, type, -, -, -, -, -, done⟩
  · rw [failed]
    exact ⟨⟨⟨_, described⟩, position, old, new, before, copies, after, mutates⟩, trivial⟩
  · have tracked := tracked (.listMutation mutation true)
    rw [done] at tracked ⊢
    refine ⟨tracked, position, old,
      if place = position then { new with operation := .listMutation mutation true, type } else new,
      before, copies, ?_, ?_⟩
    · rw [List.getElem?_modify, after]
      rfl
    · split_ifs
      · rfl
      · exact mutates

theorem Rules.promoteListMutation_destroys (described : session.Described ids)
    : RuleSet.Change [promoteListMutation] (Destroys session.graph) session := by
  intro rule member id node plan found planned
  obtain rfl := List.mem_singleton.mp member
  have tracked := persists_tracked.setOperation ⟨_, described⟩ id
  obtain ⟨copying, mutation, _, known, copies, -, -, rfl⟩ := plan_promoteListMutation.mp planned
  apply Ends.lift
  rcases setOperation_cases described id (.listMutation mutation true) with
    ⟨error, failed⟩ | ⟨position, old, _, type, listed, here, -, -, -, done⟩
  · rw [failed]
    trivial
  · have tracked := tracked (.listMutation mutation true)
    rw [done] at tracked ⊢
    obtain rfl := Option.some.inj ((node?_of_listed described listed here).2.symm.trans known)
    refine ⟨tracked, position, old, { old with operation := .listMutation mutation true, type },
      here, by rw [copies]; rfl, ?_, rfl⟩
    rw [List.getElem?_modify, here]
    simp

-----------------------------------------------------------------------------------------
-- Rules
-----------------------------------------------------------------------------------------

namespace PassEntry

variable (entry : PassEntry) {changed : Session → Prop}

/-- A pass of rules reports a change iff it changed the graph, if no rewrite can be undone. -/
theorem changed_iff_of_runRules (rules : entry.ruleSet.isEmpty = false)
    (started : Session.start graph = .ok session) (change : entry.ruleSet.Change changed session)
    (keeps : ∀ rule ∈ entry.ruleSet, rule.Keeps changed True)
    (drops
      : entry.options.dropDead = true → session.DropsChange changed ∧ DropsKeep changed True)
    (apart : ∀ after, changed after → after.graph ≠ graph) {stats : PassStats}
    (fine : (entry.runRules limit graph).outcome = .ok stats)
    : stats.changed = false ↔ (entry.runRules limit graph).graph = graph := by
  rw [runRules_eq rules] at fine ⊢
  rw [PassRun.ofSweep] at fine ⊢
  dsimp only at fine ⊢
  split at fine
  · cases fine
  · rename_i whole
    obtain rfl := Except.ok.inj fine
    rcases @sweep_reports changed session entry.ruleSet graph started change keeps entry.strategy
        (entry.sweepOptions limit) drops whole with ⟨quiet, same⟩ | ⟨loud, after, later, same⟩
    · exact iff_of_true quiet same
    · refine iff_of_false (by simp [loud]) ?_
      rw [same]
      exact apart after later

theorem start_of_runRules (rules : entry.ruleSet.isEmpty = false) {stats : PassStats}
    (fine : (entry.runRules limit graph).outcome = .ok stats)
    : ∃ session, Session.start graph = .ok session := by
  rw [runRules_eq rules] at fine
  cases started : Session.start graph with
  | error error => simp [PassRun.ofSweep, sweep, started] at fine
  | ok session => exact ⟨session, rfl⟩

/-- The report of rules of the library that retire nodes is exact. -/
theorem changed_iff_of_retiring (rules : entry.ruleSet.isEmpty = false)
    (stock : ∀ rule ∈ entry.rules, rule ∈ canonicalRules ++ loweringRules)
    (typed : graph.InputsTyped) {stats : PassStats}
    (fine : (entry.runRules limit graph).outcome = .ok stats)
    : stats.changed = false ↔ (entry.runRules limit graph).graph = graph := by
  obtain ⟨session, started⟩ := start_of_runRules entry rules fine
  obtain ⟨ids, described⟩ := EditStep.exists_described_of_start started typed
  obtain rfl := graph_of_start started
  have persists := persists_forgets session.graph
  have change : entry.ruleSet.Change (Forgets session.graph) session := by
    intro rule member id node plan found planned
    have listed := stock rule (RuleSet.mem_ofList.mp member)
    exact forgets_of_ends described found
      (Rules.plan_retires listed ⟨ids, described⟩ found planned)
  refine changed_iff_of_runRules entry rules started change ?_ ?_ ?_ fine
  · intro rule member
    exact Rules.keeps_of_persists persists
      (List.mem_append_left _ (stock rule (RuleSet.mem_ofList.mp member)))
  · exact fun _ => ⟨dropsChange_forgets described, persists.dropsKeep⟩
  · exact fun after forgets => forgets.graph_ne (List.Subset.refl _)

end PassEntry

-----------------------------------------------------------------------------------------
-- Sharing and liveness
-----------------------------------------------------------------------------------------

/-- Merging nodes either finds none to merge and leaves the session alone, or it retires a node. By
induction on the nodes.
-/
theorem Sharing.mergeNodes_reports (described : session.Described ids) {seen : Table Key ValueId}
    {merged total : Nat} {nodes : List NodeId} {after : Session}
    (done : mergeNodes seen merged nodes session = .ok total after)
    : total = merged ∧ after = session ∨ merged < total ∧ after.Forgets session.graph := by
  induction nodes generalizing seen with
  | nil =>
      cases done
      exact .inl ⟨rfl, rfl⟩
  | cons first rest ih =>
      have asked : (get : Edit Session) session = .ok session session := rfl
      rw [mergeNodes, bind_of_ok asked] at done
      cases found : session.node? first with
      | none =>
          rw [found] at done
          exact ih done
      | some node =>
          rw [found] at done
          dsimp only at done
          split_ifs at done
          · exact ih done
          · cases known : seen.get? (.ofNode node) with
            | none =>
                rw [known] at done
                exact ih done
            | some value =>
                rw [known] at done
                dsimp only at done
                have ends := forgets_of_ends described found
                  ((owns_of_node? described found).replaceNode node.value value)
                cases replaced : replaceNode first node.value value session with
                | error error next =>
                    rw [bind_of_error replaced] at done
                    cases done
                | ok result next =>
                    rw [replaced] at ends
                    rw [bind_of_ok replaced] at done
                    have later := mergeNodes_leaves (persists_forgets session.graph) ends seen
                      (merged + 1) rest
                    rw [done] at later
                    exact .inr ⟨(nodup_of_mergeNodes done).1, later⟩

theorem Sharing.run_reports (typed : graph.InputsTyped) {stats : PassStats}
    (fine : (run graph).outcome = .ok stats)
    : stats.changed = false ∧ (run graph).graph = graph
      ∨ stats.changed = true ∧ ∃ after : Session, after.Forgets graph ∧ (run graph).graph = after.graph := by
  rw [run] at fine ⊢
  cases started : Session.start graph with
  | error error =>
      rw [started] at fine
      cases fine
  | ok session =>
      obtain ⟨ids, described⟩ := EditStep.exists_described_of_start started typed
      obtain rfl := graph_of_start started
      rw [started] at fine
      dsimp only at fine ⊢
      cases done : mergeNodes [] 0 session.index.ordered session with
      | error error next =>
          rw [done] at fine
          cases fine
      | ok total next =>
          rw [done] at fine
          obtain rfl := Except.ok.inj fine
          rcases mergeNodes_reports described done with ⟨rfl, rfl⟩ | ⟨some, forgets⟩
          · exact .inl ⟨rfl, rfl⟩
          · exact .inr ⟨decide_eq_true some, next, forgets, rfl⟩

/-- The report of the pass that shares and drops nodes is exact. -/
theorem Catalog.changed_iff_of_fastRun (typed : graph.InputsTyped) {stats : PassStats}
    (fine : (fastRun.pass.run limit graph).outcome = .ok stats)
    : stats.changed = false ↔ (fastRun.pass.run limit graph).graph = graph := by
  cases shared : (Sharing.run graph).outcome with
  | error error =>
      have first : ((PassRun.start graph).andThen limit Sharing.pass).outcome = .error error := by
        change (Sharing.run graph).outcome.map _ = _
        rw [shared]
        rfl
      rw [run_fastRun, PassRun.andThen, first] at fine
      cases first.symm.trans fine
  | ok sharing =>
      have first
          : (PassRun.start graph).andThen limit Sharing.pass
            = ⟨(Sharing.run graph).graph, .ok (PassStats.none.merge sharing),
                0 + (Sharing.run graph).runs, [] ++ (Sharing.run graph).log⟩ := by
        change (⟨(Sharing.run graph).graph, (Sharing.run graph).outcome.map _, _, _⟩ : PassRun) = _
        rw [shared]
        rfl
      rw [run_fastRun, PassRun.andThen, first] at fine ⊢
      obtain rfl := Except.ok.inj fine
      have pruned := Liveness.keepLive_sublist (Sharing.run graph).graph.outputs
        (Sharing.run graph).graph.body
      rcases Sharing.run_reports typed shared with ⟨quiet, same⟩ | ⟨loud, after, forgets, same⟩
      · rw [same] at pruned ⊢
        constructor
        · intro unchanged
          have complete : Liveness.Complete graph := Liveness.complete_of_run rfl
            (Bool.or_eq_false_iff.mp unchanged).2
          obtain ⟨_, -, -, kept⟩ := Liveness.run_of_complete complete
          exact kept
        · intro kept
          have body : (Liveness.keepLive graph.outputs graph.body).1 = graph.body :=
            congrArg Graph.body kept
          change (false || sharing.changed || decide (0 < _ - _)) = false
          rw [quiet, body]
          simp
      · refine iff_of_false ?_ ?_
        · change ¬(false || sharing.changed || _) = false
          simp [loud]
        · exact forgets.graph_ne (same ▸ pruned.subset)

-----------------------------------------------------------------------------------------
-- The passes of the library
-----------------------------------------------------------------------------------------

/-- The report of every pass of the library is exact. -/
theorem Catalog.changed_iff_of_stock {entry : PassEntry} (listed : entry ∈ stock)
    (typed : graph.InputsTyped) {stats : PassStats}
    (fine : (entry.pass.run limit graph).outcome = .ok stats)
    : stats.changed = false ↔ (entry.pass.run limit graph).graph = graph := by
  simp only [stock, List.mem_cons, List.not_mem_nil, or_false] at listed
  rcases listed with rfl | rfl | rfl | rfl
  · refine PassEntry.changed_iff_of_retiring canonicalize rfl (fun rule member => ?_) typed fine
    exact List.mem_append_left _ member
  · refine PassEntry.changed_iff_of_retiring uncanonicalize rfl (fun rule member => ?_) typed fine
    exact List.mem_append_right _ member
  · exact changed_iff_of_fastRun typed fine
  · obtain ⟨session, started⟩ := PassEntry.start_of_runRules inplace rfl fine
    obtain ⟨ids, described⟩ := EditStep.exists_described_of_start started typed
    obtain rfl := graph_of_start started
    refine PassEntry.changed_iff_of_runRules inplace rfl started
      (Rules.promoteListMutation_destroys described) ?_ nofun ?_ fine
    · intro rule member
      obtain rfl := List.mem_singleton.mp member
      exact Rules.promoteListMutation_keeps_destroys
    · exact fun after destroys => destroys.graph_ne

namespace Stage

variable {passes : List Pass} {run after : OptimizerRun} {before stats totals : PassStats}

/-- What was reported earlier in a round is still reported at its end, by induction on the passes. -/
theorem changed_of_foldl_step (made : passes.foldl (step limit) (run, before) = (after, stats))
    (unchanged : stats.changed = false)
    : before.changed = false := by
  induction passes generalizing run before with
  | nil =>
      cases made
      exact unchanged
  | cons pass rest ih =>
      rw [List.foldl_cons, step] at made
      split at made
      · exact ih made
      · dsimp only at made
        split at made
        · exact ih made
        · exact (Bool.or_eq_false_iff.mp (ih made)).1

/-- Passes with exact reports leave a graph alone if their round reports no change, by induction on
the passes.
-/
theorem graph_of_foldl_step
    (exact
      : ∀ pass ∈ passes, ∀ stats,
          (pass.run limit graph).outcome = .ok stats
          → stats.changed = false
          → (pass.run limit graph).graph = graph)
    (start : run.graph = graph)
    (made : passes.foldl (step limit) (run, before) = (after, stats))
    (fine : after.outcome = .ok totals) (unchanged : stats.changed = false)
    : after.graph = graph := by
  induction passes generalizing run before with
  | nil =>
      cases made
      exact start
  | cons pass rest ih =>
      obtain ⟨here, later⟩ := List.forall_mem_cons.mp exact
      rw [List.foldl_cons, step] at made
      cases outcome : run.outcome with
      | error error =>
          rw [outcome] at made
          cases (foldl_step_of_error outcome).symm.trans made
          cases outcome.symm.trans fine
      | ok earlier =>
          rw [outcome, start] at made
          dsimp only at made
          cases done : (pass.run limit graph).outcome with
          | error error =>
              rw [done] at made
              cases (foldl_step_of_error rfl).symm.trans made
              cases fine
          | ok more =>
              rw [done] at made
              have quiet := (Bool.or_eq_false_iff.mp (changed_of_foldl_step made unchanged)).2
              exact ih later (here more done quiet) made

end Stage

/-- Of every graph whose inputs have types, and whatever the limit of rewrites is: a pass of the
library that succeeds reports no change iff the graph behind it is the one before it. So a round of
such passes that succeeds and reports no change has left its graph alone.
-/
theorem Catalog.changed_exact (limit : Nat) (graph : Graph) (typed : graph.InputsTyped)
    : (∀ entry ∈ stock, ∀ stats,
          (entry.pass.run limit graph).outcome = .ok stats
          → (stats.changed = false ↔ (entry.pass.run limit graph).graph = graph))
      ∧ ∀ (entries : List PassEntry) (run : OptimizerRun) (totals : PassStats),
          entries ⊆ stock
          → run.graph = graph
          → (Stage.round (entries.map PassEntry.pass) limit run).1.outcome = .ok totals
          → (Stage.round (entries.map PassEntry.pass) limit run).2.changed = false
          → (Stage.round (entries.map PassEntry.pass) limit run).1.graph = graph := by
  constructor
  · intro entry listed stats fine
    exact changed_iff_of_stock listed typed fine
  · intro entries run totals listed start fine unchanged
    refine Stage.graph_of_foldl_step ?_ start rfl fine unchanged
    intro pass member stats fine unchanged
    obtain ⟨entry, used, rfl⟩ := List.mem_map.mp member
    exact (changed_iff_of_stock (listed used) typed fine).mp unchanged

/-- Canonical form changes a graph with a double negation, and a round of lowering does not. -/
theorem Catalog.negatedItem_changed_exact
    : Optimizer.negatedItem.InputsTyped
      ∧ (canonicalize.pass.run 10000 Optimizer.negatedItem).graph ≠ Optimizer.negatedItem
      ∧ (Stage.round ([uncanonicalize].map PassEntry.pass) 10000
          (.start Optimizer.negatedItem)).1.graph = Optimizer.negatedItem := by
  have typed : Optimizer.negatedItem.InputsTyped := rfl
  obtain ⟨exact, rounds⟩ := changed_exact 10000 Optimizer.negatedItem typed
  refine ⟨typed, fun same => ?_, ?_⟩
  · have fine
        : (canonicalize.pass.run 10000 Optimizer.negatedItem).outcome = .ok ⟨true, 1, 1, 1⟩ := by
      decide +kernel
    cases (exact canonicalize List.mem_cons_self _ fine).mpr same
  · have fine
        : (Stage.round ([uncanonicalize].map PassEntry.pass) 10000
            (.start Optimizer.negatedItem)).1.outcome = .ok .none := by
      decide +kernel
    have listed : [uncanonicalize] ⊆ stock := fun _ member =>
      List.mem_singleton.mp member ▸ List.mem_cons_of_mem _ List.mem_cons_self
    exact rounds [uncanonicalize] (.start Optimizer.negatedItem) _ listed rfl fine (by decide +kernel)

end Dataflow
