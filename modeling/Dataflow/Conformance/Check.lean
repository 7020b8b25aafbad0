import Dataflow.Conformance.Observer
import Dataflow.Graph.Builder
import Dataflow.HostValue
import Dataflow.Number.Binary

/-!
Checks of a backend. A check compiles and runs graphs on an observed backend and requires
something of the results. A requirement that does not hold ends the check; what was executed
until then is kept.
-/

namespace Dataflow

-----------------------------------------------------------------------------------------
-- Literals and made-up numbers
-----------------------------------------------------------------------------------------

namespace Sample

/-- A small integer as a number. -/
def float (value : Int) : Float := Binary.ofInt64 (Int64.ofInt value)

/-- Numbers from zero on. -/
def counting (count : Nat) : List Float := (List.range count).map fun (k : Nat) => float k

/-- Made-up numbers between minus one and one, none of them zero; `seed` tells rows of them
apart.
-/
def numbers (seed count : Nat) : List Float :=
  (List.range count).map fun (k : Nat) =>
    let step := (seed * 389 + k * 617 + k * k * 31) % 1000
    float (2 * (step : Int) - 999) / float 1000

/-- The type of tensors of numbers, with unknown extents where a size is missing. -/
def floatType (sizes : List (Option Nat)) : ValueType := .tensor ⟨.f64, .ofPartial sizes⟩

/-- The type of tensors of numbers of known sizes. -/
def fixedType (sizes : List Nat) : ValueType := .tensor ⟨.f64, .ofSizes sizes⟩

/-- A tensor of numbers. -/
def tensor (sizes : List Nat) (values : List Float) : HostValue :=
  .tensor (.ofFloats sizes values)

/-- A tensor of small integers, as numbers. -/
def integers (sizes : List Nat) (values : List Int) : HostValue :=
  tensor sizes (values.map float)

end Sample

-----------------------------------------------------------------------------------------
-- Building graphs
-----------------------------------------------------------------------------------------

/-- A step of building a graph; it has no result if the builder refuses. -/
abbrev Building (α : Type) := StateT Builder Option α

namespace Building

/-- Adds an input. -/
def input (type : ValueType) : Building ValueId :=
  modifyGet fun builder => builder.addInput type

/-- Adds a node. -/
def node (operation : Operation) (operands : List Operand) : Building ValueId := do
  let builder ← get
  match builder.addNode operation operands with
  | .ok (value, builder) =>
    set builder
    return value
  | .error _ => failure

/-- Adds a node that reads values only. -/
def apply (operation : Operation) (values : List ValueId) : Building ValueId :=
  node operation (values.map .value)

/-- The graph whose outputs a building step returns. -/
def graph? (name : String) (build : Building (List ValueId)) : Option Graph := do
  let (outputs, builder) ← build .empty
  (builder.finish name outputs).toOption

end Building

-----------------------------------------------------------------------------------------
-- Checks
-----------------------------------------------------------------------------------------

/-- What happened during a check. -/
structure Record where
  executions : List Execution
  log : List LogLine

/-- A step of a check. -/
abbrev Check (α : Type) := EStateM Unit Record α

namespace Check

/-- Something must hold. -/
def require (condition : Bool) : Check Unit := if condition then return () else throw ()

/-- Something must be there. -/
def expect {α : Type} : Option α → Check α
  | some value => return value
  | none => throw ()

/-- Something must go well. -/
def succeed {ε α : Type} : Except ε α → Check α
  | .ok value => return value
  | .error _ => throw ()

/-- Something must fail. -/
def fail {ε α : Type} : Except ε α → Check ε
  | .ok _ => throw ()
  | .error error => return error

/-- A message must contain some words. -/
def mention (message words : String) : Check Unit :=
  require (1 < (message.splitOn words).length)

/-- The program of a graph. -/
def program (name : String) (build : Building (List ValueId)) : Check Program := do
  let graph ← expect (Building.graph? name build)
  return .ofGraph graph

/-- The tensor that a result must be. -/
def tensor (results : List HostValue) (index : Nat) : Check Literal :=
  expect (results[index]?.bind HostValue.tensor?)

end Check

-----------------------------------------------------------------------------------------
-- Comparison
-----------------------------------------------------------------------------------------

namespace Close

/-- How far two numbers may be apart. -/
def tolerance : Float := 1e-9

/-- Whether a number is close to another one. What is no number is close to itself, and so is
an infinity.
-/
def number (x y : Float) : Bool :=
  if x.isNaN then y.isNaN else x == y || decide ((x - y).abs ≤ tolerance)

/-- Whether two literals have one type and close numbers. -/
def literal (a b : Literal) : Bool :=
  a.type = b.type && (a.floats.zip b.floats).all fun (x, y) => number x y

/-- Whether two lists of literals are close. -/
def literals (as bs : List Literal) : Bool :=
  as.length = bs.length && (as.zip bs).all fun (a, b) => literal a b

mutual

/-- Whether two values are close. -/
def value : HostValue → HostValue → Bool
  | .tensor a, .tensor b => literal a b
  | .list as, .list bs => literals as bs
  | .tuple as, .tuple bs => values as bs
  | _, _ => false

/-- Whether two lists of values are close. -/
def values : List HostValue → List HostValue → Bool
  | [], [] => true
  | a :: as, b :: bs => value a b && values as bs
  | _, _ => false

end

/-- Whether numbers are the same, one by one. The two zeros are. -/
def sameNumbers (as bs : List Float) : Bool :=
  as.length = bs.length && (as.zip bs).all fun (x, y) => x == y

end Close

-----------------------------------------------------------------------------------------
-- Compiling and running
-----------------------------------------------------------------------------------------

namespace Observer

/-- Compiles a program, past all caches. -/
def tryCompile (observer : Observer) (optimizer : Optimizer) (program : Program)
    : Check (Except CompileError Program) := do
  let compilation := compile [] false observer.backend.name optimizer program
  modify fun record => { record with log := record.log ++ compilation.log false }
  return compilation.outcome.map Compiled.program

/-- The optimizer of checks. -/
def optimizer : Optimizer := .stock .standard

/-- Compiles a program with the stock pipeline. -/
def optimize (observer : Observer) (program : Program) : Check Program := do
  Check.succeed (← observer.tryCompile optimizer program)

/-- Compiles a program as it is. -/
def schedule (observer : Observer) (program : Program) : Check Program := do
  Check.succeed (← observer.tryCompile .identity program)

/-- Runs a graph on values. -/
def runGraph (observer : Observer) (graph : Graph) (checkFinite : Bool) (inputs : List Value)
    : Check (Outcome (List Value)) := do
  let record ← get
  let run := Run.graphWith observer.executor record.executions graph checkFinite inputs
  set
    { executions := record.executions ++ run.executions
      log := record.log ++ observer.log record.executions run.executions : Record }
  return run.outcome

/-- Calls a compiled program with host values. -/
def call (observer : Observer) (program : Program) (checkFinite : Bool)
    (inputs : List HostValue) : Check (Outcome (List HostValue)) := do
  match inputs.mapM Value.ofHost with
  | .error error => return .error error
  | .ok values =>
    let graph ← Check.expect program.entryGraph?
    let outcome ← observer.runGraph graph checkFinite values
    return outcome.map fun values => values.map Value.toHost

/-- Calls a compiled program, which must go well. -/
def results (observer : Observer) (program : Program) (inputs : List HostValue)
    : Check (List HostValue) := do
  Check.succeed (← observer.call program false inputs)

/-- Runs a program as it is and optimized, and requires close results. Returns the results and
the optimized graph.
-/
def runBoth (observer : Observer) (program : Program) (inputs : List HostValue)
    : Check (List HostValue × Graph) := do
  let plain ← observer.schedule program
  let optimized ← observer.optimize program
  let expected ← observer.results plain inputs
  let actual ← observer.results optimized inputs
  Check.require (Close.values expected actual)
  let graph ← Check.expect optimized.entryGraph?
  return (actual, graph)

end Observer

-----------------------------------------------------------------------------------------
-- Scenarios
-----------------------------------------------------------------------------------------

/-- A named check of a backend. -/
structure Scenario where
  name : String
  /-- Whether the numbers are made up, so that only types are worth showing. -/
  sampled : Bool
  check : Observer → Check Unit

/-- What came of a scenario. -/
structure ScenarioReport where
  passed : Bool
  executions : List Execution
  log : List LogLine

/-- Runs a scenario. -/
def Scenario.run (scenario : Scenario) (observer : Observer) : ScenarioReport :=
  match scenario.check observer ⟨[], []⟩ with
  | .ok () record => ⟨true, record.executions, record.log⟩
  | .error () record => ⟨false, record.executions, record.log⟩

end Dataflow
