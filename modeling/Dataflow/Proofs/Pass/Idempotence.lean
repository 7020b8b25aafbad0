import Dataflow.Pass.Optimizer
import Dataflow.Proofs.Graph.Construction
import Dataflow.Proofs.Pass.Quiet
import Dataflow.Proofs.Steps
import Mathlib.Tactic.SplitIfs

/-!
Optimizing twice. A stage that succeeds ends with a round of its own, and passes that all leave a graph
alone leave it alone together, however often they are repeated. So if the cleanup of a pipeline ended
because a round changed nothing, then the optimized graph is left alone by another run of the
pipeline. The number of rounds is bounded, so the cleanup of a tall graph may end before that.
-/

namespace Dataflow

section Rounds

variable {limit : Nat} {graph : Graph} {passes : List Pass}

-----------------------------------------------------------------------------------------
-- Passes
-----------------------------------------------------------------------------------------

/-- A run went well and reports no change. -/
def PassRun.Quiet (run : PassRun) : Prop :=
  ∃ stats, run.outcome = .ok stats ∧ stats.changed = false

/-- A pass reports that it leaves a graph alone, and it does so. -/
structure Pass.Spares (pass : Pass) (limit : Nat) (graph : Graph) : Prop where
  quiet : (pass.run limit graph).Quiet
  graph : (pass.run limit graph).graph = graph

theorem PassRun.quiet_andThen_iff {first : PassRun} {pass : Pass}
    : (first.andThen limit pass).Quiet
      ↔ first.Quiet ∧ (pass.run limit first.graph).Quiet := by
  rw [andThen]
  cases fine : first.outcome with
  | error error => simp [Quiet, fine]
  | ok stats =>
      cases done : (pass.run limit first.graph).outcome with
      | error error => simp [Quiet, done, Except.map]
      | ok more => simp [Quiet, fine, done, Except.map, PassStats.merge]

theorem PassRun.graph_andThen {first : PassRun} {pass : Pass}
    (quiet : (first.andThen limit pass).Quiet)
    : (first.andThen limit pass).graph = (pass.run limit first.graph).graph := by
  obtain ⟨⟨stats, fine, -⟩, -⟩ := quiet_andThen_iff.mp quiet
  rw [andThen, fine]

-----------------------------------------------------------------------------------------
-- Rounds
-----------------------------------------------------------------------------------------

namespace Stage

variable {run after : OptimizerRun} {before stats : PassStats}

/-- What passes do to a graph, one after the other. -/
def records (limit : Nat) : List Pass → Graph → List PassRecord
  | [], _ => []
  | pass :: rest, graph =>
    let run := pass.run limit graph
    ⟨pass.name, run⟩ :: records limit rest run.graph

/-- The graph behind some passes. -/
def behind (limit : Nat) (passes : List Pass) (graph : Graph) : Graph :=
  passes.foldl (fun graph pass => (pass.run limit graph).graph) graph

/-- A run that failed is not continued. -/
theorem foldl_step_of_error {error : PassError} (failed : run.outcome = .error error)
    : passes.foldl (step limit) (run, before) = (run, before) := by
  induction passes with
  | nil => rfl
  | cons pass rest ih => rw [List.foldl_cons, step, failed, ih]

/-- A round that succeeds runs all its passes, by induction on the passes. -/
theorem records_of_foldl_step {totals : PassStats}
    (made : passes.foldl (step limit) (run, before) = (after, stats))
    (fine : after.outcome = .ok totals)
    : after.records = run.records ++ records limit passes run.graph
      ∧ after.graph = behind limit passes run.graph
      ∧ (∃ earlier, run.outcome = .ok earlier)
      ∧ ∀ record ∈ records limit passes run.graph, ∃ stats, record.run.outcome = .ok stats := by
  induction passes generalizing run before with
  | nil =>
      obtain ⟨rfl, rfl⟩ := Prod.mk.inj made
      exact ⟨(List.append_nil _).symm, rfl, ⟨totals, fine⟩,
        fun record member => absurd member List.not_mem_nil⟩
  | cons pass rest ih =>
      rw [List.foldl_cons, step] at made
      cases outcome : run.outcome with
      | error error =>
          rw [outcome] at made
          obtain ⟨rfl, rfl⟩ := Prod.mk.inj ((foldl_step_of_error outcome).symm.trans made)
          cases outcome.symm.trans fine
      | ok earlier =>
          rw [outcome] at made
          dsimp only at made
          cases done : (pass.run limit run.graph).outcome with
          | error error =>
              rw [done] at made
              have failed := (foldl_step_of_error rfl).symm.trans made
              obtain ⟨rfl, -⟩ := Prod.mk.inj failed
              cases fine
          | ok more =>
              rw [done] at made
              obtain ⟨noted, reached, -, others⟩ := ih made
              refine ⟨?_, reached, ⟨earlier, rfl⟩, List.forall_mem_cons.mpr ⟨⟨more, done⟩, others⟩⟩
              rw [noted, List.append_assoc]
              rfl

/-- Rounds that succeed end with the first one, or more rounds follow. -/
theorem repeatRounds_cases {rounds : Nat} {totals : PassStats}
    (fine : (repeatRounds passes limit (rounds + 1) run).outcome = .ok totals)
    : ∃ after stats all,
        round passes limit run = (after, stats)
        ∧ after.outcome = .ok all
        ∧ (repeatRounds passes limit (rounds + 1) run = after
          ∨ ∃ more, rounds = more + 1
            ∧ repeatRounds passes limit (rounds + 1) run = repeatRounds passes limit rounds after)
    := by
  cases made : round passes limit run with
  | mk after stats =>
      rw [repeatRounds, made] at fine ⊢
      dsimp only at fine ⊢
      cases outcome : after.outcome with
      | error error =>
          rw [outcome] at fine
          cases outcome.symm.trans fine
      | ok all =>
          refine ⟨after, stats, all, rfl, outcome, ?_⟩
          dsimp only
          split_ifs
          · cases rounds with
            | zero => exact .inl rfl
            | succ more => exact .inr ⟨more, rfl, rfl⟩
          · exact .inl rfl

/-- A stage that succeeds ends with a round of its own, by induction on the rounds. -/
theorem exists_last_round {good : Graph → Prop}
    (kept : ∀ graph, good graph → good (behind limit passes graph)) {rounds : Nat}
    (start : good run.graph) {totals : PassStats}
    (fine : (repeatRounds passes limit (rounds + 1) run).outcome = .ok totals)
    : ∃ middle : OptimizerRun,
        good middle.graph
        ∧ (repeatRounds passes limit (rounds + 1) run).records
          = middle.records ++ records limit passes middle.graph
        ∧ (repeatRounds passes limit (rounds + 1) run).graph
          = behind limit passes middle.graph := by
  induction rounds generalizing run with
  | zero =>
      obtain ⟨after, stats, all, made, outcome, same | ⟨_, more, -⟩⟩ := repeatRounds_cases fine
      · obtain ⟨noted, reached, -⟩ := records_of_foldl_step made outcome
        exact ⟨run, start, same ▸ noted, same ▸ reached⟩
      · cases more
  | succ rounds ih =>
      obtain ⟨after, stats, all, made, outcome, same | ⟨_, -, same⟩⟩ := repeatRounds_cases fine
      · obtain ⟨noted, reached, -⟩ := records_of_foldl_step made outcome
        exact ⟨run, start, same ▸ noted, same ▸ reached⟩
      · obtain ⟨-, reached, -⟩ := records_of_foldl_step made outcome
        rw [same] at fine ⊢
        exact ih (reached ▸ kept _ start) fine

-----------------------------------------------------------------------------------------
-- Rounds without a change
-----------------------------------------------------------------------------------------

/-- Passes that leave a graph alone do so one after the other, by induction on the passes. -/
theorem foldl_step_of_spares (spare : ∀ pass ∈ passes, pass.Spares limit graph)
    (same : run.graph = graph) {totals : PassStats} (fine : run.outcome = .ok totals)
    : ∃ after stats more,
        passes.foldl (step limit) (run, before) = (after, stats)
        ∧ after.graph = graph
        ∧ after.outcome = .ok more
        ∧ more.changed = totals.changed
        ∧ stats.changed = before.changed := by
  induction passes generalizing run before totals with
  | nil => exact ⟨run, before, totals, rfl, same, fine, rfl, rfl⟩
  | cons pass rest ih =>
      obtain ⟨here, later⟩ := List.forall_mem_cons.mp spare
      obtain ⟨stats, done, unchanged⟩ := here.quiet
      rw [List.foldl_cons, step, fine]
      dsimp only
      rw [same, done]
      dsimp only
      obtain ⟨after, all, more, made, reached, outcome, total, round⟩ :=
        @ih ⟨(pass.run limit graph).graph, .ok (totals.merge stats), _⟩ (before.merge stats) later
          here.graph _ rfl
      refine ⟨after, all, more, made, reached, outcome, total.trans ?_, round.trans ?_⟩
      · rw [PassStats.merge, unchanged, Bool.or_false]
      · rw [PassStats.merge, unchanged, Bool.or_false]

/-- A stage that succeeds goes on with a run that did, and repeats its round at least once. -/
theorem run_eq_of_ok {stage : Stage} {totals : PassStats}
    (fine : (Stage.run limit run stage).outcome = .ok totals)
    : (∃ earlier, run.outcome = .ok earlier)
      ∧ Stage.run limit run stage
        = repeatRounds stage.passes limit (max stage.rounds 1 - 1 + 1) run := by
  rw [Stage.run, Nat.sub_add_cancel (Nat.le_max_right _ _)] at *
  cases outcome : run.outcome with
  | error error =>
      rw [outcome] at fine
      cases outcome.symm.trans fine
  | ok earlier => exact ⟨⟨earlier, rfl⟩, rfl⟩

theorem run_of_spares {stage : Stage} (spare : ∀ pass ∈ stage.passes, pass.Spares limit graph)
    (same : run.graph = graph) {totals : PassStats} (fine : run.outcome = .ok totals)
    : ∃ more,
        (Stage.run limit run stage).graph = graph
        ∧ (Stage.run limit run stage).outcome = .ok more
        ∧ more.changed = totals.changed := by
  obtain ⟨after, stats, more, made, reached, outcome, total, unchanged⟩ :=
    @foldl_step_of_spares _ _ _ run .none spare same _ fine
  have positive := Nat.sub_add_cancel (Nat.le_max_right stage.rounds 1)
  have once : repeatRounds stage.passes limit (max stage.rounds 1) run = after := by
    rw [← positive]
    rw [repeatRounds, round, made]
    dsimp only
    rw [outcome, unchanged]
    rfl
  rw [Stage.run, fine]
  dsimp only
  rw [once]
  exact ⟨more, reached, outcome, total⟩

end Stage

end Rounds

-----------------------------------------------------------------------------------------
-- The passes of the library
-----------------------------------------------------------------------------------------

namespace Catalog

/-- The pass that brings graphs into a canonical form. -/
def canonicalize : PassEntry := ⟨"canonicalize", .fixedPoint, ⟨10000, true⟩, canonicalRules, []⟩

/-- The pass that looks for cheaper operations. -/
def uncanonicalize : PassEntry := ⟨"uncanonicalize", .outToIn, ⟨10000, true⟩, loweringRules, []⟩

/-- The pass that shares and drops nodes. -/
def fastRun : PassEntry :=
  ⟨"fast_run", .fixedPoint, ⟨10000, false⟩, [], [Sharing.pass, Liveness.pass]⟩

/-- The pass that promotes list mutations. -/
def inplace : PassEntry :=
  ⟨"inplace", .outToIn, ⟨10000, false⟩, [Rules.promoteListMutation], []⟩

/-- The passes that are repeated in the middle of the pipeline. -/
def cleanup : List Pass := [uncanonicalize.pass, canonicalize.pass, fastRun.pass]

end Catalog

open Catalog

theorem Optimizer.stock_eq (config : OptimizeConfig)
    : stock config
      = ofStages ("default[" ++ ",".intercalate stageNames ++ "]")
          [⟨[canonicalize.pass], config.preRounds⟩, ⟨cleanup, config.postRounds⟩,
            ⟨[inplace.pass], 1⟩] :=
  rfl

variable {limit : Nat} {graph after : Graph} {session other : Session} {ids : List NodeId}

-----------------------------------------------------------------------------------------
-- Inputs
-----------------------------------------------------------------------------------------

/-- A graph has as many types of inputs as inputs. -/
def Graph.InputsTyped (graph : Graph) : Prop := graph.inputs.length = graph.inputTypes.length

theorem PassEntry.inputsTyped_runRules {entry : PassEntry}
    (stock : ∀ rule ∈ entry.rules,
      rule ∈ canonicalRules ++ loweringRules ++ [Rules.promoteListMutation])
    (typed : graph.InputsTyped)
    : (entry.runRules limit graph).graph.InputsTyped := by
  cases rules : entry.ruleSet.isEmpty with
  | true =>
      rw [runRules, if_pos rules]
      exact typed
  | false =>
      rw [runRules_eq rules]
      change (sweep _ _ _ graph).graph.InputsTyped
      cases started : Session.start graph with
      | error error =>
          rw [sweep, started]
          exact typed
      | ok session =>
          obtain ⟨after, ⟨_, described⟩, same, -⟩ := @sweep_leaves _ _ _ entry.ruleSet _
            (fun rule member => Rules.keeps_of_persists Session.persists_tracked
              (stock rule (RuleSet.mem_ofList.mp member)))
            Session.persists_tracked.dropsKeep started (EditStep.exists_described_of_start started typed)
            entry.strategy (entry.sweepOptions limit)
          rw [same]
          exact described.inputsTyped

theorem Sharing.mergeNodes_leaves {good : Session → Prop} (persists : Session.Persists good)
    (start : good session) (seen : Table Key ValueId) (merged : Nat) (nodes : List NodeId)
    : Session.Leaves good True (mergeNodes seen merged nodes session) := by
  induction nodes generalizing session seen merged with
  | nil => exact start
  | cons first rest ih =>
      have asked : (get : Edit Session) session = .ok session session := rfl
      rw [mergeNodes, Session.bind_of_ok asked]
      cases session.node? first with
      | none => exact ih start seen merged
      | some node =>
          dsimp only
          split_ifs
          · exact ih start seen merged
          · cases seen.get? (.ofNode node) with
            | none => exact ih start _ merged
            | some value =>
                exact (persists.replaceNode start first node.value value).bind fun _ _ _ here =>
                  ih here seen _

theorem Sharing.inputsTyped_run (typed : graph.InputsTyped) : (run graph).graph.InputsTyped := by
  rw [run]
  cases started : Session.start graph with
  | error error => exact typed
  | ok session =>
      have tracked : session.Tracked := EditStep.exists_described_of_start started typed
      have left := mergeNodes_leaves Session.persists_tracked tracked [] 0 session.index.ordered
      dsimp only
      cases done : mergeNodes [] 0 session.index.ordered session with
      | ok merged next =>
          rw [done] at left
          obtain ⟨_, described⟩ := left
          exact described.inputsTyped
      | error error next =>
          rw [done] at left
          obtain ⟨⟨_, described⟩, -⟩ := left
          exact described.inputsTyped

theorem Catalog.inputsTyped_canonicalize (limit : Nat) (typed : graph.InputsTyped)
    : (canonicalize.pass.run limit graph).graph.InputsTyped :=
  @PassEntry.inputsTyped_runRules limit graph canonicalize
    (fun _ member => List.mem_append_left _ (List.mem_append_left _ member)) typed

theorem Catalog.inputsTyped_uncanonicalize (limit : Nat) (typed : graph.InputsTyped)
    : (uncanonicalize.pass.run limit graph).graph.InputsTyped :=
  @PassEntry.inputsTyped_runRules limit graph uncanonicalize
    (fun _ member => List.mem_append_left _ (List.mem_append_right _ member)) typed

theorem Catalog.run_fastRun (limit : Nat) (graph : Graph)
    : fastRun.pass.run limit graph
      = ((PassRun.start graph).andThen limit Sharing.pass).andThen limit Liveness.pass :=
  rfl

theorem Catalog.inputsTyped_fastRun (limit : Nat) (typed : graph.InputsTyped)
    : (fastRun.pass.run limit graph).graph.InputsTyped := by
  have shared : ((PassRun.start graph).andThen limit Sharing.pass).graph.InputsTyped :=
    Sharing.inputsTyped_run typed
  rw [run_fastRun, PassRun.andThen]
  split
  · exact shared
  · exact shared

theorem Catalog.inputsTyped_cleanup (typed : graph.InputsTyped)
    : (Stage.behind limit cleanup graph).InputsTyped :=
  inputsTyped_fastRun limit (inputsTyped_canonicalize limit (inputsTyped_uncanonicalize limit typed))

-----------------------------------------------------------------------------------------
-- Finished graphs
-----------------------------------------------------------------------------------------

/-- The passes of the cleanup have nothing to do. -/
structure Session.Finished (session : Session) : Prop where
  lowered : RuleSet.Settled uncanonicalize.ruleSet session
  canonical : RuleSet.Settled canonicalize.ruleSet session
  lively : session.Lively
  distinct : Sharing.Distinct session
  complete : Liveness.Complete session.graph

theorem Session.Finished.mirror (finished : session.Finished) (described : session.Described ids)
    (described' : other.Described ids) (promoted : session.graph.Promoted other.graph)
    : other.Finished where
  lowered := finished.lowered.mirror (fun _ member => List.mem_append_right _
    (RuleSet.mem_ofList.mp member)) described described' promoted
  canonical := finished.canonical.mirror (fun _ member => List.mem_append_left _
    (RuleSet.mem_ofList.mp member)) described described' promoted
  lively := finished.lively.mirror described described' promoted
  distinct := finished.distinct.mirror described described' promoted
  complete := finished.complete.mirror promoted

theorem Catalog.quiet_fastRun_iff
    : (fastRun.pass.run limit graph).Quiet
      ↔ (Sharing.run graph).Quiet ∧ (Liveness.run (Sharing.run graph).graph).Quiet := by
  have start : (PassRun.start graph).Quiet := ⟨.none, rfl, rfl⟩
  rw [run_fastRun, PassRun.quiet_andThen_iff, PassRun.quiet_andThen_iff, and_iff_right start]
  exact Iff.rfl

theorem Catalog.graph_fastRun (quiet : (fastRun.pass.run limit graph).Quiet)
    : (fastRun.pass.run limit graph).graph = (Liveness.run (Sharing.run graph).graph).graph := by
  rw [run_fastRun] at quiet ⊢
  exact PassRun.graph_andThen quiet

theorem Session.Finished.spares (finished : session.Finished)
    (started : Session.start graph = .ok session) (described : session.Described ids)
    (limit : Nat)
    : ∀ pass ∈ cleanup, pass.Spares limit graph := by
  intro pass member
  simp only [cleanup, List.mem_cons, List.not_mem_nil, or_false] at member
  rcases member with rfl | rfl | rfl
  · obtain ⟨fine, left⟩ := @PassEntry.runRules_of_settled _ _ _ uncanonicalize rfl started
      described finished.lowered (fun _ => finished.lively) limit
    exact ⟨⟨_, fine, rfl⟩, left⟩
  · obtain ⟨fine, left⟩ := @PassEntry.runRules_of_settled _ _ _ canonicalize rfl started
      described finished.canonical (fun _ => finished.lively) limit
    exact ⟨⟨_, fine, rfl⟩, left⟩
  · obtain ⟨stats, fine, unchanged, left⟩ := Sharing.run_of_distinct started finished.distinct
    obtain ⟨more, again, still, kept⟩ :=
      Liveness.run_of_complete (Session.graph_of_start started ▸ finished.complete)
    have quiet : (fastRun.pass.run limit graph).Quiet :=
      quiet_fastRun_iff.mpr ⟨⟨stats, fine, unchanged⟩, left.symm ▸ ⟨more, again, still⟩⟩
    exact ⟨quiet, by rw [graph_fastRun quiet, left, kept]⟩

/-- Passes that report no change had nothing to do. -/
theorem Catalog.finished_of_quiet (positive : 0 < limit) (typed : graph.InputsTyped)
    (quiet : ∀ record ∈ Stage.records limit cleanup graph, record.run.Quiet)
    : Stage.behind limit cleanup graph = graph
      ∧ ∃ session,
          Session.start graph = .ok session
          ∧ session.Described (Index.positionIds graph.body.length)
          ∧ session.Finished := by
  have positive : 0 < min 10000 limit := by omega
  simp only [cleanup, Stage.records, List.forall_mem_cons] at quiet
  obtain ⟨⟨_, fine, unchanged⟩, ⟨_, fine', unchanged'⟩, both, -⟩ := quiet
  obtain ⟨session, ids, started, described, lowered, lively, same⟩ :=
    @PassEntry.settled_of_runRules _ uncanonicalize limit rfl positive typed _ fine unchanged
  have first : (uncanonicalize.pass.run limit graph).graph = graph := same
  rw [first] at fine' both
  obtain ⟨_, _, again, -, canonical, -, same'⟩ :=
    @PassEntry.settled_of_runRules _ canonicalize limit rfl positive typed _ fine' unchanged'
  obtain rfl := Except.ok.inj (started.symm.trans again)
  have second : (canonicalize.pass.run limit graph).graph = graph := same'
  rw [second] at both
  obtain ⟨⟨_, shared, unshared⟩, _, dropped, undropped⟩ := quiet_fastRun_iff.mp both
  obtain ⟨distinct, third⟩ := Sharing.distinct_of_run started shared unshared
  have last := graph_fastRun both
  rw [third] at dropped last
  have complete := Liveness.complete_of_run dropped undropped
  obtain ⟨_, -, -, kept⟩ := Liveness.run_of_complete complete
  refine ⟨?_, session, started, EditStep.described_of_start started typed, lowered, canonical,
    lively rfl, distinct, (Session.graph_of_start started).symm ▸ complete⟩
  change (fastRun.pass.run limit (canonicalize.pass.run limit
    (uncanonicalize.pass.run limit graph).graph).graph).graph = graph
  rw [first, second, last, kept]

-----------------------------------------------------------------------------------------
-- Promotions
-----------------------------------------------------------------------------------------

/-- A run was not cut short, which would be a warning. -/
def PassRun.isWhole (run : PassRun) : Bool := !run.log.any fun line => line.level = .warn

theorem Catalog.run_inplace (limit : Nat) (started : Session.start graph = .ok session)
    : inplace.pass.run limit graph
      = .ofSweep ((offerEach [Rules.promoteListMutation] (min 10000 limit) session
          session.index.ordered.reverse []).finish ⟨min 10000 limit, false⟩) := by
  change PassRun.ofSweep (sweep _ _ _ graph) = _
  rw [sweep, started]
  rfl

/-- Promotions that are not cut short leave nothing to promote. -/
theorem Catalog.promoted_of_inplace (started : Session.start graph = .ok session)
    (described : session.Described ids) {stats : PassStats}
    (fine : (inplace.pass.run limit graph).outcome = .ok stats)
    (whole : (inplace.pass.run limit graph).isWhole = true)
    : ∃ promoted,
        (inplace.pass.run limit graph).graph = promoted.graph
        ∧ promoted.Described ids
        ∧ session.graph.Promoted promoted.graph
        ∧ RuleSet.Settled [Rules.promoteListMutation] promoted := by
  rw [run_inplace limit started, Progress.finish_of_kept] at fine whole ⊢
  rw [PassRun.ofSweep] at fine whole ⊢
  dsimp only at fine whole ⊢
  split at fine
  · cases fine
  rename_i none
  have uncapped : (offerEach [Rules.promoteListMutation] (min 10000 limit) session
      session.index.ordered.reverse []).capped = false := by
    by_contra capped
    rw [Bool.not_eq_false] at capped
    simp [PassRun.isWhole, Sweep.log, Sweep.endLines, none, capped] at whole
  obtain ⟨promoted, same, after, changed, settled⟩ :=
    Rules.settled_of_promotions described none uncapped
  refine ⟨promoted, congrArg Session.graph same, after, changed, fun id member => ?_⟩
  rw [after.ordered_eq, ← described.ordered_eq] at member
  exact settled id (List.mem_reverse.mpr member)

/-- A graph with promotions is finished, too. -/
theorem Session.Finished.promoted (finished : session.Finished)
    (started : Session.start graph = .ok session)
    (described : session.Described (Index.positionIds graph.body.length)) {stats : PassStats}
    (fine : (inplace.pass.run limit graph).outcome = .ok stats)
    (whole : (inplace.pass.run limit graph).isWhole = true)
    : ∀ pass ∈ inplace.pass :: cleanup,
        pass.Spares limit (inplace.pass.run limit graph).graph := by
  obtain ⟨promoted, same, after, changed, settled⟩ :=
    promoted_of_inplace started described fine whole
  obtain ⟨fresh, freshStarted, freshGraph, freshDescribed⟩ := EditStep.exists_start after
  have lengths : promoted.graph.body.length = graph.body.length := by
    rw [← changed.body.length_eq, Session.graph_of_start started]
  rw [lengths] at freshDescribed
  rw [same]
  have again := finished.mirror described freshDescribed (freshGraph.symm ▸ changed)
  refine List.forall_mem_cons.mpr ⟨?_, again.spares freshStarted freshDescribed limit⟩
  have mirrors := mirrors_of_described after freshDescribed (freshGraph.symm ▸ .refl _)
  have still : RuleSet.Settled inplace.ruleSet fresh := by
    intro id member
    rw [freshDescribed.ordered_eq, ← after.ordered_eq] at member
    exact Rules.declines_mirror (settled id member) mirrors
  obtain ⟨done, left⟩ := @PassEntry.runRules_of_settled _ _ _ inplace rfl freshStarted
    freshDescribed still nofun limit
  exact ⟨⟨_, done, rfl⟩, left⟩

-----------------------------------------------------------------------------------------
-- Pipelines
-----------------------------------------------------------------------------------------

/-- A pass went well and reports no change. -/
def PassRecord.isQuiet (record : PassRecord) : Bool :=
  match record.run.outcome with
  | .ok stats => !stats.changed
  | .error _ => false

theorem PassRecord.isQuiet_iff {record : PassRecord}
    : record.isQuiet = true ↔ record.run.Quiet := by
  rw [isQuiet, PassRun.Quiet]
  cases record.run.outcome with
  | error error => simp
  | ok stats => simp

/-- Whether a pipeline had nothing left to do: the last round of the cleanup changed nothing, and
the promotions behind it were not cut short.
-/
def OptimizerRun.isSettled (run : OptimizerRun) : Bool :=
  match run.records.reverse with
  | promoting :: sharing :: canonical :: lowering :: _ =>
    lowering.isQuiet && canonical.isQuiet && sharing.isQuiet && promoting.run.isWhole
  | _ => false

namespace Optimizer

/-- A pipeline that succeeds ends with a round of its cleanup, and with promotions. -/
theorem exists_last_passes (config : OptimizeConfig) (typed : graph.InputsTyped)
    {totals : PassStats} (fine : ((stock config).optimize limit graph).outcome = .ok totals)
    : ∃ (cleaned : Graph) (earlier : List PassRecord) (stats : PassStats),
        cleaned.InputsTyped
        ∧ ((stock config).optimize limit graph).records
          = earlier ++ Stage.records limit cleanup cleaned
            ++ [⟨"inplace", inplace.pass.run limit (Stage.behind limit cleanup cleaned)⟩]
        ∧ (inplace.pass.run limit (Stage.behind limit cleanup cleaned)).outcome = .ok stats
        ∧ ((stock config).optimize limit graph).graph
          = (inplace.pass.run limit (Stage.behind limit cleanup cleaned)).graph := by
  rw [stock_eq] at fine ⊢
  simp only [ofStages, List.foldl_cons, List.foldl_nil] at fine ⊢
  generalize canonized
    : Stage.run limit (.start graph) ⟨[canonicalize.pass], config.preRounds⟩ = first at fine ⊢
  generalize reduced : Stage.run limit first ⟨cleanup, config.postRounds⟩ = second at fine ⊢
  obtain ⟨⟨secondTotals, secondFine⟩, last⟩ := Stage.run_eq_of_ok fine
  obtain ⟨⟨firstTotals, firstFine⟩, repeated⟩ := Stage.run_eq_of_ok (reduced ▸ secondFine)
  obtain ⟨-, start⟩ := Stage.run_eq_of_ok (canonized ▸ firstFine)
  have firstTyped : first.graph.InputsTyped := by
    rw [← canonized] at firstFine ⊢
    rw [start] at firstFine ⊢
    obtain ⟨middle, typed, -, reached⟩ := @Stage.exists_last_round limit [canonicalize.pass] _
      Graph.InputsTyped (fun _ typed => inputsTyped_canonicalize limit typed) _ typed _ firstFine
    rw [reached]
    exact inputsTyped_canonicalize limit typed
  rw [← reduced, repeated] at secondFine
  obtain ⟨middle, middleTyped, noted, reached⟩ := @Stage.exists_last_round limit cleanup _
    Graph.InputsTyped (fun _ typed => inputsTyped_cleanup typed) _ firstTyped _ secondFine
  rw [← repeated, reduced] at noted reached
  rw [last] at fine ⊢
  obtain ⟨after, stats, all, made, outcome, same | ⟨_, more, -⟩⟩ := Stage.repeatRounds_cases fine
  · obtain ⟨more, done, -, each⟩ := Stage.records_of_foldl_step made outcome
    obtain ⟨stats, went⟩ := each _ List.mem_cons_self
    rw [reached] at went
    rw [same, more, done, noted, reached]
    exact ⟨middle.graph, middle.records, stats, middleTyped, rfl, went, rfl⟩
  · cases more

/-- A settled graph is left alone by another run of the pipeline. -/
theorem unchanged_of_isSettled (config : OptimizeConfig) (positive : 0 < limit)
    (typed : graph.InputsTyped) {totals : PassStats}
    (fine : ((stock config).optimize limit graph).outcome = .ok totals)
    (settled : ((stock config).optimize limit graph).isSettled = true)
    : ∃ again,
        ((stock config).optimize limit ((stock config).optimize limit graph).graph).outcome
          = .ok again
        ∧ again.changed = false
        ∧ ((stock config).optimize limit ((stock config).optimize limit graph).graph).graph
          = ((stock config).optimize limit graph).graph := by
  obtain ⟨cleaned, earlier, stats, typed, noted, went, reached⟩ :=
    exists_last_passes config typed fine
  rw [OptimizerRun.isSettled, noted] at settled
  simp only [cleanup, Stage.records, List.reverse_append, List.reverse_cons, List.reverse_nil,
    List.nil_append, List.cons_append, Bool.and_eq_true, PassRecord.isQuiet_iff] at settled
  obtain ⟨⟨⟨lowering, canonical⟩, sharing⟩, whole⟩ := settled
  obtain ⟨same, session, started, described, finished⟩ := finished_of_quiet positive typed
    (List.forall_mem_cons.mpr ⟨lowering, List.forall_mem_cons.mpr ⟨canonical,
      List.forall_mem_cons.mpr ⟨sharing, fun _ member => absurd member List.not_mem_nil⟩⟩⟩)
  change (inplace.pass.run limit (Stage.behind limit cleanup cleaned)).isWhole = true at whole
  rw [same] at went whole reached
  have spared := finished.promoted started described went whole
  rw [← reached] at spared
  obtain ⟨promotes, cleans⟩ := List.forall_mem_cons.mp spared
  generalize ((stock config).optimize limit graph).graph = optimized at cleans promotes ⊢
  rw [stock_eq]
  simp only [ofStages, List.foldl_cons, List.foldl_nil]
  obtain ⟨one, first, fine, unchanged⟩ := @Stage.run_of_spares limit optimized (.start optimized)
    ⟨[canonicalize.pass], config.preRounds⟩
    (fun pass member => cleans pass (List.mem_singleton.mp member ▸ by simp [cleanup])) rfl _ rfl
  obtain ⟨two, second, fine, unchanged'⟩ := @Stage.run_of_spares limit optimized _
    ⟨cleanup, config.postRounds⟩ cleans first _ fine
  obtain ⟨three, third, fine, unchanged''⟩ := @Stage.run_of_spares limit optimized _
    ⟨[inplace.pass], 1⟩ (fun pass member => List.mem_singleton.mp member ▸ promotes) second _ fine
  exact ⟨three, fine, unchanged''.trans (unchanged'.trans unchanged), third⟩

/-- Optimizing a built graph again changes nothing, and it reports that, if the cleanup ended with a
round that changed nothing and the promotions were not cut short.
-/
theorem stock_idempotent {calls : List Builder.Call} {name : String} {outputs : List ValueId}
    (built : (Builder.afterCalls calls).finish name outputs = .ok graph)
    (config : OptimizeConfig) (positive : 0 < limit) {totals : PassStats}
    (fine : ((stock config).optimize limit graph).outcome = .ok totals)
    (settled : ((stock config).optimize limit graph).isSettled = true)
    : ∃ again,
        ((stock config).optimize limit ((stock config).optimize limit graph).graph).outcome
          = .ok again
        ∧ again.changed = false
        ∧ ((stock config).optimize limit ((stock config).optimize limit graph).graph).graph
          = ((stock config).optimize limit graph).graph := by
  refine unchanged_of_isSettled config positive ?_ fine settled
  obtain ⟨outputTypes, -, built⟩ := Steps.bind_eq_ok_iff.mp built
  obtain rfl := Except.ok.inj built
  exact (List.length_map ..).trans (List.length_map ..).symm

/-- A graph that reverses a list with a number that is negated twice. -/
def negatedItem : Graph where
  name := "item"
  inputTypes := [.tensor ⟨.f64, ⟨[]⟩⟩]
  inputs := [⟨0⟩]
  outputTypes := [.tensor ⟨.si64, ⟨[]⟩⟩]
  body :=
    [⟨⟨1⟩, .unary .neg, [.value ⟨0⟩], .tensor ⟨.f64, ⟨[]⟩⟩⟩,
      ⟨⟨2⟩, .unary .neg, [.value ⟨1⟩], .tensor ⟨.f64, ⟨[]⟩⟩⟩,
      ⟨⟨3⟩, .makeList, [.value ⟨2⟩], .list ⟨.f64, ⟨[]⟩⟩⟩,
      ⟨⟨4⟩, .listMutation .reverse false, [.value ⟨3⟩], .list ⟨.f64, ⟨[]⟩⟩⟩,
      ⟨⟨5⟩, .listLength, [.value ⟨4⟩], .tensor ⟨.si64, ⟨[]⟩⟩⟩]
  outputs := [⟨5⟩]

/-- The calls that build `negatedItem`. -/
def negatedItemCalls : List Builder.Call :=
  [.input (.tensor ⟨.f64, ⟨[]⟩⟩), .node (.unary .neg) [.value ⟨0⟩],
    .node (.unary .neg) [.value ⟨1⟩], .node .makeList [.value ⟨2⟩],
    .node (.listMutation .reverse false) [.value ⟨3⟩], .node .listLength [.value ⟨4⟩]]

theorem negatedItem_idempotent
    : (Builder.afterCalls negatedItemCalls).finish "item" [⟨5⟩] = .ok negatedItem
      ∧ ((stock .standard).optimize 10000 negatedItem).graph ≠ negatedItem
      ∧ ∃ again,
          ((stock .standard).optimize 10000
              ((stock .standard).optimize 10000 negatedItem).graph).outcome = .ok again
          ∧ again.changed = false
          ∧ ((stock .standard).optimize 10000
                ((stock .standard).optimize 10000 negatedItem).graph).graph
            = ((stock .standard).optimize 10000 negatedItem).graph := by
  have built : (Builder.afterCalls negatedItemCalls).finish "item" [⟨5⟩] = .ok negatedItem := rfl
  have fine : ((stock .standard).optimize 10000 negatedItem).outcome = .ok ⟨true, 5, 2, 1⟩ := by
    decide +kernel
  exact ⟨built, by decide +kernel,
    stock_idempotent built .standard (by decide) fine (by decide +kernel)⟩

-----------------------------------------------------------------------------------------
-- Tall graphs
-----------------------------------------------------------------------------------------

/-- A graph that takes five maxima of negated numbers. Each round moves the negation behind one of
them.
-/
def tower : Graph where
  name := "tower"
  inputTypes := [.tensor ⟨.f64, ⟨[.static 3, .static 4]⟩⟩]
  inputs := [⟨0⟩]
  outputTypes := [.tensor ⟨.f64, ⟨[.static 1, .static 4]⟩⟩]
  body :=
    ⟨⟨1⟩, .unary .neg, [.value ⟨0⟩], .tensor ⟨.f64, ⟨[.static 3, .static 4]⟩⟩⟩
      :: (List.range 5).map fun level =>
        ⟨⟨level + 2⟩, .reduce ⟨.max, [0], true⟩, [.value ⟨level + 1⟩],
          .tensor ⟨.f64, ⟨[.static 1, .static 4]⟩⟩⟩
  outputs := [⟨6⟩]

/-- The calls that build `tower`. -/
def towerCalls : List Builder.Call :=
  .input (.tensor ⟨.f64, ⟨[.static 3, .static 4]⟩⟩)
    :: .node (.unary .neg) [.value ⟨0⟩]
    :: (List.range 5).map fun level => .node (.reduce ⟨.max, [0], true⟩) [.value ⟨level + 1⟩]

/-- The cleanup of `tower` stops behind its fourth round, and optimizing again goes on with it. -/
theorem tower_not_idempotent
    : (Builder.afterCalls towerCalls).finish "tower" [⟨6⟩] = .ok tower
      ∧ (∀ node ∈ tower.body, node.operation.isInplace = false)
      ∧ ((stock .standard).optimize 10000 tower).outcome = .ok ⟨true, 28, 4, 4⟩
      ∧ ((stock .standard).optimize 10000 tower).isSettled = false
      ∧ ((stock .standard).optimize 10000
            ((stock .standard).optimize 10000 tower).graph).outcome = .ok ⟨true, 13, 1, 1⟩
      ∧ ((stock .standard).optimize 10000 ((stock .standard).optimize 10000 tower).graph).graph
        ≠ ((stock .standard).optimize 10000 tower).graph := by
  refine ⟨rfl, by decide, ?_, ?_, ?_, ?_⟩ <;> decide +kernel

end Optimizer

end Dataflow
