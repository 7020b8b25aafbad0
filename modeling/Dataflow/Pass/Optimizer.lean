import Dataflow.Pass.Catalog

/-!
Optimizers. A pipeline runs stages of passes; a stage repeats its passes until a round changes
nothing, at most a number of times. Every pass that was run is reported.
-/

namespace Dataflow

-----------------------------------------------------------------------------------------
-- Reports
-----------------------------------------------------------------------------------------

/-- A pass that was run by an optimizer. -/
structure PassRecord where
  pass : String
  run : PassRun

/-- What an optimizer did to a graph. -/
structure OptimizerRun where
  graph : Graph
  outcome : Except PassError PassStats
  /-- The passes, in the order in which they were run. -/
  records : List PassRecord

namespace OptimizerRun

/-- Nothing was done. -/
def start (graph : Graph) : OptimizerRun := ⟨graph, .ok .none, []⟩

/-- The number of passes that were started. -/
def runs (run : OptimizerRun) : Nat :=
  run.records.foldl (fun runs record => runs + record.run.runs) 0

end OptimizerRun

/-- Where the log lines of optimizers come from. -/
def optimizerTarget : String := "tgraph::optimizer"

/-- The line that sums up a pass. -/
def PassRecord.statsLine (record : PassRecord) (stats : PassStats) : LogLine :=
  ⟨.debug, optimizerTarget,
    record.run.graph.name ++ ": " ++ record.pass ++ " changed=" ++ toString stats.changed
      ++ " rewrites=" ++ toString stats.rewrites ++ " erased=" ++ toString stats.erased
      ++ " body_len=" ++ toString record.run.graph.body.length⟩

/-- The log of a pass; passes that went well are summed up if that is asked for. -/
def PassRecord.log (showStats : Bool) (record : PassRecord) : List LogLine :=
  record.run.log ++
    match record.run.outcome with
    | .ok stats => if showStats then [record.statsLine stats] else []
    | .error _ => []

/-- The log of an optimizer. -/
def OptimizerRun.log (showStats : Bool) (run : OptimizerRun) : List LogLine :=
  run.records.flatMap (PassRecord.log showStats)

-----------------------------------------------------------------------------------------
-- Optimizers
-----------------------------------------------------------------------------------------

/-- An optimizer. It gets the largest number of rewrites that a sweep may make. -/
structure Optimizer where
  /-- A description that tells optimizers apart. -/
  signature : String
  optimize : (limit : Nat) → Graph → OptimizerRun

/-- Leaves graphs as they are. -/
def Optimizer.identity : Optimizer := ⟨"noop", fun _ graph => .start graph⟩

-----------------------------------------------------------------------------------------
-- Pipelines
-----------------------------------------------------------------------------------------

/-- How often a pipeline repeats its stages. -/
structure OptimizeConfig where
  /-- Rounds of the first stage. -/
  preRounds : Nat
  /-- Rounds of the stage in the middle. -/
  postRounds : Nat
  /-- The largest number of rewrites that a sweep may make. -/
  rewriteLimit : Nat
  deriving DecidableEq

/-- The configuration that stands if nothing else is said. -/
def OptimizeConfig.standard : OptimizeConfig := ⟨2, 4, 10000⟩

/-- The options of a sweep, with its limit bounded by a configuration. -/
def OptimizeConfig.clamp (config : OptimizeConfig) (options : SweepOptions) : SweepOptions :=
  { options with limit := min options.limit config.rewriteLimit }

/-- Passes that are repeated together. -/
structure Stage where
  passes : List Pass
  /-- The largest number of rounds; there is always one. -/
  rounds : Nat

namespace Stage

/-- Goes on with a pass, unless there was an error. Also returns what the passes of this round
did so far.
-/
def step (limit : Nat) (state : OptimizerRun × PassStats) (pass : Pass)
    : OptimizerRun × PassStats :=
  let (run, round) := state
  match run.outcome with
  | .error _ => state
  | .ok totals =>
    let passRun := pass.run limit run.graph
    let records := run.records ++ [⟨pass.name, passRun⟩]
    match passRun.outcome with
    | .error error => (⟨passRun.graph, .error error, records⟩, round)
    | .ok stats => (⟨passRun.graph, .ok (totals.merge stats), records⟩, round.merge stats)

/-- One round of passes. -/
def round (passes : List Pass) (limit : Nat) (run : OptimizerRun) : OptimizerRun × PassStats :=
  passes.foldl (step limit) (run, .none)

/-- Rounds of passes, until one of them changes nothing or fails. -/
def repeatRounds (passes : List Pass) (limit : Nat) : Nat → OptimizerRun → OptimizerRun
  | 0, run => run
  | rounds + 1, run =>
    let (run, stats) := round passes limit run
    match run.outcome with
    | .error _ => run
    | .ok _ => if stats.changed then repeatRounds passes limit rounds run else run

/-- Runs a stage, unless there was an error before. -/
def run (limit : Nat) (run : OptimizerRun) (stage : Stage) : OptimizerRun :=
  match run.outcome with
  | .error _ => run
  | .ok _ => repeatRounds stage.passes limit (max stage.rounds 1) run

end Stage

namespace Optimizer

/-- The optimizer that runs some stages. -/
def ofStages (signature : String) (stages : List Stage) : Optimizer where
  signature
  optimize limit graph := stages.foldl (Stage.run limit) (.start graph)

/-- The passes of a full pipeline, in the order in which they are looked up. -/
def stageNames : List String := ["canonicalize", "uncanonicalize", "fast_run", "inplace"]

/-- The pass of some name, as a list, which is empty if there is none. -/
def optionalPass (catalog : Catalog) (name : String) : List Pass :=
  match catalog.pass name with
  | .ok pass => [pass]
  | .error _ => []

/-- A stage, unless it has no passes. -/
def optionalStage (passes : List Pass) (rounds : Nat) : List Stage :=
  if passes.isEmpty then [] else [⟨passes, rounds⟩]

/-- The full pipeline. Canonical forms come first; then lowering, canonical forms and sharing
together, since each one can make room for the others; changes in place come last. Passes that
the catalog does not have are left out.
-/
def pipeline (catalog : Catalog) (config : OptimizeConfig) : Optimizer :=
  let canonicalize := optionalPass catalog "canonicalize"
  let cleanup :=
    optionalPass catalog "uncanonicalize" ++ canonicalize ++ optionalPass catalog "fast_run"
  ofStages ("default[" ++ ",".intercalate stageNames ++ "]")
    (optionalStage canonicalize config.preRounds
      ++ optionalStage cleanup config.postRounds
      ++ optionalStage (optionalPass catalog "inplace") 1)

/-- The log of making a pipeline: a line for each pass that is left out. -/
def pipelineLog (catalog : Catalog) : List LogLine :=
  stageNames.filterMap fun name =>
    match catalog.pass name with
    | .ok _ => none
    | .error error =>
      some ⟨.warn, optimizerTarget, "skipping pipeline stage: " ++ error.message⟩

/-- The pipeline of some passes, repeated together. -/
def including (catalog : Catalog) (names : List String) (config : OptimizeConfig)
    : Except CatalogError Optimizer := do
  let passes ← catalog.query names
  .ok (ofStages ("including[" ++ ",".intercalate names ++ "]") [⟨passes, config.postRounds⟩])

/-- The pipeline of the stock catalog. -/
def stock (config : OptimizeConfig) : Optimizer := pipeline .stock config

end Optimizer

end Dataflow
