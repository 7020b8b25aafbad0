import Dataflow.Rewrite.Sweep

/-!
Passes: whole-graph changes with a report. A report holds the graph afterwards, also after an
error, so that nothing has to be asked twice.
-/

namespace Dataflow

-----------------------------------------------------------------------------------------
-- Counts
-----------------------------------------------------------------------------------------

/-- What a pass did, in numbers. -/
structure PassStats where
  changed : Bool
  /-- The number of steps that the pass took. -/
  iterations : Nat
  rewrites : Nat
  /-- The number of nodes that were dropped. -/
  erased : Nat
  deriving DecidableEq

namespace PassStats

/-- Nothing was done. -/
def none : PassStats := ⟨false, 0, 0, 0⟩

/-- What two passes did together. -/
def merge (a b : PassStats) : PassStats :=
  ⟨a.changed || b.changed, a.iterations + b.iterations, a.rewrites + b.rewrites,
    a.erased + b.erased⟩

/-- What a sweep did. -/
def ofSweep (sweep : Sweep) : PassStats :=
  ⟨!sweep.rewrites.isEmpty || 0 < sweep.dropped, sweep.rewrites.length,
    sweep.rewrites.length, sweep.dropped⟩

end PassStats

-----------------------------------------------------------------------------------------
-- Passes
-----------------------------------------------------------------------------------------

/-- What a pass did to a graph. -/
structure PassRun where
  graph : Graph
  outcome : Except PassError PassStats
  /-- The number of passes that were started. -/
  runs : Nat
  log : List LogLine

/-- A pass. It gets the largest number of rewrites that a sweep may make. -/
structure Pass where
  name : String
  run : (limit : Nat) → Graph → PassRun

namespace PassRun

/-- Nothing was done. -/
def start (graph : Graph) : PassRun := ⟨graph, .ok .none, 0, []⟩

/-- A sweep as a run of a pass. -/
def ofSweep (sweep : Sweep) : PassRun :=
  { graph := sweep.graph
    outcome :=
      match sweep.error with
      | some error => .error error
      | none => .ok (.ofSweep sweep)
    runs := 1
    log := sweep.log }

/-- Goes on with another pass, unless there was an error. -/
def andThen (first : PassRun) (limit : Nat) (pass : Pass) : PassRun :=
  match first.outcome with
  | .error _ => first
  | .ok stats =>
    let second := pass.run limit first.graph
    { graph := second.graph
      outcome := second.outcome.map stats.merge
      runs := first.runs + second.runs
      log := first.log ++ second.log }

end PassRun

end Dataflow
