import Dataflow.Graph.Storage
import Dataflow.Pass.Optimizer

/-!
Compiling programs: the entry graph is checked, optimized, put in order and checked again, for
its storage too. What was compiled before comes from a cache.
-/

namespace Dataflow

-----------------------------------------------------------------------------------------
-- Errors
-----------------------------------------------------------------------------------------

/-- Why a program was not compiled. -/
inductive CompileError where
  | noEntry (entry : String)
  | illFormed (graph : String) (cause : GraphError)
  | optimizing (entry : String) (cause : PassError)
  /-- What the optimizer made cannot be put in order. -/
  | order (cause : GraphError)
  | storage (graph : String) (cause : GraphError)
  deriving DecidableEq

/-- The messages of an error, the outermost first. What made a rule fail is told by the rule and
once more by itself.
-/
def PassError.messages : PassError → List String
  | .ruleFailed rule node cause =>
    [message (.ruleFailed rule node cause), cause.describe]
  | .graph error => [error.message]

namespace CompileError

/-- The messages, the outermost first. -/
def messages : CompileError → List String
  | .noEntry entry => ["entry function @" ++ entry ++ " not found"]
  | .illFormed graph cause => ["@" ++ graph ++ " is not well formed", cause.message]
  | .optimizing entry cause => ("optimizing @" ++ entry) :: cause.messages
  | .order cause => [cause.message]
  | .storage graph cause => ["@" ++ graph ++ " violates aliasing", cause.message]

/-- The message. -/
def message (error : CompileError) : String := ": ".intercalate error.messages

end CompileError

-----------------------------------------------------------------------------------------
-- Caches
-----------------------------------------------------------------------------------------

/-- What a compiled program depends on. -/
structure CompileKey where
  program : Program
  backend : String
  /-- The signature of the optimizer. -/
  optimizer : String
  deriving DecidableEq

/-- Compiled programs, the most recently used one first. A cache holds a number of programs; when it is
full, the last one goes.
-/
abbrev CompileCache := List (CompileKey × Program)

namespace CompileCache

/-- The number of programs that a cache holds. -/
def capacity : Nat := 64

/-- The cache without the entry of a key. -/
def without (cache : CompileCache) (key : CompileKey) : CompileCache :=
  cache.filter fun (other, _) => other ≠ key

/-- The program of a key. -/
def find? (cache : CompileCache) (key : CompileKey) : Option Program :=
  (List.find? (fun (other, _) => other = key) cache).map (·.2)

/-- Puts the entry of a key in front. -/
def put (cache : CompileCache) (key : CompileKey) (program : Program) : CompileCache :=
  ((key, program) :: cache.without key).take capacity

end CompileCache

-----------------------------------------------------------------------------------------
-- Compiling
-----------------------------------------------------------------------------------------

/-- A program that is ready to run. -/
structure Compiled where
  program : Program
  fromCache : Bool

/-- What a compilation did. -/
structure Compilation where
  entry : String
  outcome : Except CompileError Compiled
  /-- What the optimizer did, if it was started. -/
  optimized : Option OptimizerRun
  cache : CompileCache

/-- Puts a graph in order and checks it. -/
def Graph.scheduled (graph : Graph) : Except CompileError Graph := do
  let sorted ← graph.sorted.mapError .order
  sorted.checkOrder.mapError .order
  sorted.checkStorage.mapError (.storage sorted.name)
  .ok sorted

/-- The entry graph of a program, which must be in order. -/
def Program.checkedEntry (program : Program) : Except CompileError Graph :=
  match program.entryGraph? with
  | none => .error (.noEntry program.entry)
  | some graph =>
    match graph.checkOrder with
    | .error cause => .error (.illFormed graph.name cause)
    | .ok () => .ok graph

/-- The largest number of rewrites that a sweep may make in a compilation. -/
def compileLimit : Nat := OptimizeConfig.standard.rewriteLimit

/-- The program with an optimized and scheduled entry graph. -/
def finishOptimized (program : Program) (run : OptimizerRun) : Except CompileError Program :=
  match run.outcome with
  | .error cause => .error (.optimizing program.entry cause)
  | .ok _ => run.graph.scheduled.map program.withEntryGraph

/-- Compiles a program for a backend. A cache is only looked at and changed if it is used. -/
def compile (cache : CompileCache) (useCache : Bool) (backend : String) (optimizer : Optimizer)
    (program : Program) : Compilation :=
  match program.checkedEntry with
  | .error error => ⟨program.entry, .error error, none, cache⟩
  | .ok graph =>
    let key : CompileKey := ⟨program, backend, optimizer.signature⟩
    match (if useCache then cache.find? key else none) with
    | some cached =>
      ⟨program.entry, .ok ⟨cached, true⟩, none, cache.put key cached⟩
    | none =>
      let run := optimizer.optimize compileLimit graph
      match finishOptimized program run with
      | .error error => ⟨program.entry, .error error, some run, cache⟩
      | .ok compiled =>
        ⟨program.entry, .ok ⟨compiled, false⟩, some run,
          if useCache then cache.put key compiled else cache⟩

-----------------------------------------------------------------------------------------
-- Log
-----------------------------------------------------------------------------------------

namespace Compilation

/-- Where the log lines of compilations come from. -/
def target : String := "tgraph::compile"

/-- The line about a program that came from the cache. -/
def hitLines (compilation : Compilation) : List LogLine :=
  match compilation.outcome with
  | .ok ⟨_, true⟩ =>
    [⟨.debug, target, "compile cache hit for @" ++ compilation.entry⟩]
  | _ => []

/-- The line that sums up an optimizer. -/
def optimizedLines (compilation : Compilation) (run : OptimizerRun) : List LogLine :=
  match run.outcome with
  | .ok stats =>
    [⟨.debug, target,
      "optimized @" ++ compilation.entry ++ ": " ++ toString stats.rewrites ++ " rewrites, "
        ++ toString stats.erased ++ " nodes erased, " ++ toString run.runs ++ " pass runs"⟩]
  | .error _ => []

/-- The log of a compilation. -/
def log (showStats : Bool) (compilation : Compilation) : List LogLine :=
  compilation.hitLines ++
    match compilation.optimized with
    | some run => run.log showStats ++ compilation.optimizedLines run
    | none => []

end Compilation

end Dataflow
