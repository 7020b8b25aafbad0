import Dataflow.Execution.Backend
import Dataflow.Graph.Order
import Dataflow.Table

/-!
Runs of graphs. The nodes are evaluated in sorted order; a node that destroys an operand takes
it out of reach of all later ones. A run records every node that was executed.
-/

namespace Dataflow

-----------------------------------------------------------------------------------------
-- Finiteness
-----------------------------------------------------------------------------------------

namespace Finiteness

/-- The number of positions that an error shows. -/
def shownPositions : Nat := 8

/-- The number of positions that a literal takes. -/
def width (literal : Literal) : Nat :=
  if literal.type.dtype.isFloat then literal.floats.length
  else literal.type.elementCount?.getD 0

/-- The positions of the numbers that are not finite; `offset` is the one of the first. -/
def badFloats : Nat → List Float → List Nat
  | _, [] => []
  | offset, x :: rest =>
    if x.isFinite then badFloats (offset + 1) rest else offset :: badFloats (offset + 1) rest

/-- The positions in a literal that do not hold finite numbers. -/
def badPositions (offset : Nat) (literal : Literal) : List Nat :=
  if literal.type.dtype.isFloat then badFloats offset literal.floats else []

/-- The positions in some literals, one after the other. -/
def allBadPositions : Nat → List Literal → List Nat
  | _, [] => []
  | offset, literal :: rest =>
    badPositions offset literal ++ allBadPositions (offset + width literal) rest

/-- Every number of a value must be finite. -/
def check (operation : String) (id : ValueId) (value : HostValue) : Outcome Unit :=
  match (allBadPositions 0 value.literals).take shownPositions with
  | [] => .ok ()
  | positions => .error (.notFinite operation id positions)

/-- Whether an operation itself asks for finite numbers. -/
def isAskedBy : Operation → Bool
  | .solveTriangular system => system.checkFinite
  | _ => false

end Finiteness

-----------------------------------------------------------------------------------------
-- Runs
-----------------------------------------------------------------------------------------

/-- A node that was executed, with the values of its operands and what became of it. -/
structure Execution where
  node : Node
  inputs : Inputs
  outcome : Outcome Value

/-- What a run did. -/
structure Run where
  executions : List Execution
  outcome : Outcome (List Value)

/-- Executes a node on the values of its operands, given the executions before it. -/
abbrev Executor := List Execution → Node → Inputs → Outcome Value

/-- The executor of a backend, which does not look at earlier executions. -/
def Backend.executor (backend : Backend) : Executor := fun _ node inputs =>
  backend.execute node.operation inputs

/-- The values within reach. -/
abbrev Environment := Table ValueId Value

namespace Run

-----------------------------------------------------------------------------------------
-- Inputs
-----------------------------------------------------------------------------------------

/-- Every input must have its declared type, and finite numbers if that is asked for; `index`
is the number of the first one.
-/
def bindInputs (graph : String) (checkFinite : Bool)
    : Nat → Environment → List ((ValueId × ValueType) × Value) → Outcome Environment
  | _, environment, [] => .ok environment
  | index, environment, ((id, type), value) :: rest => do
    let host := value.toHost
    if !host.conformsTo type then .error (.execution (.inputType graph index id type))
    else
      if checkFinite then Finiteness.check "input" id host
      bindInputs graph checkFinite (index + 1) (environment.set id value) rest

-----------------------------------------------------------------------------------------
-- Nodes
-----------------------------------------------------------------------------------------

/-- The value of an operand. -/
def operandValue (environment : Environment) (reader : ValueId) : Operand → Outcome Value
  | .value id =>
    match environment.get? id with
    | some value => .ok value
    | none => .error (.execution (.unavailable reader id))
  | .literal literal => Value.ofHost (.tensor literal)

/-- The environment without the operand that a node destroys. -/
def withoutConsumed (environment : Environment) (node : Node) : Environment :=
  match node.operation.storage with
  | .consumes position =>
    match node.input? position with
    | some id => environment.erase id
    | none => environment
  | _ => environment

/-- The operands must hold finite numbers. A literal goes by the name of the node. -/
def checkOperands (node : Node) (inputs : Inputs) : Outcome Unit :=
  (node.operands.zip inputs).forM fun (operand, value) =>
    Finiteness.check node.operation.name (operand.value?.getD node.value) value.toHost

/-- Says where the node of a fault stands. -/
def locate (graph : String) (position : Nat) (node : Node) : BackendError → BackendError
  | .execution fault =>
    .execution (.located graph position node.value node.operation.name fault)
  | error => error

/-- Evaluates nodes, which come with their positions in the body. -/
def runNodes (execute : Executor) (graph : String) (checkFinite : Bool)
    : Environment → List Execution → List (Nat × Node)
    → List Execution × Outcome Environment
  | environment, done, [] => (done, .ok environment)
  | environment, done, (position, node) :: rest =>
    match node.operands.mapM (operandValue environment node.value) with
    | .error error => (done, .error error)
    | .ok inputs =>
      let asked := Finiteness.isAskedBy node.operation
      match (if asked then checkOperands node inputs else .ok () : Outcome Unit) with
      | .error error => (done, .error error)
      | .ok () =>
        let outcome := execute done node inputs
        let done := done ++ [⟨node, inputs, outcome⟩]
        match outcome with
        | .error error => (done, .error (locate graph position node error))
        | .ok value =>
          let finite : Outcome Unit :=
            if checkFinite || asked then
              Finiteness.check node.operation.name node.value value.toHost
            else .ok ()
          match finite with
          | .error error => (done, .error error)
          | .ok () =>
            runNodes execute graph checkFinite
              ((withoutConsumed environment node).set node.value value) done rest

-----------------------------------------------------------------------------------------
-- Graphs
-----------------------------------------------------------------------------------------

/-- The value of an output. -/
def outputValue (graph : String) (environment : Environment) (id : ValueId) : Outcome Value :=
  match environment.get? id with
  | some value => .ok value
  | none => .error (.execution (.noResult graph id))

/-- The nodes of a graph with their positions, in sorted order. -/
def schedule (graph : Graph) : Outcome (List (Nat × Node)) :=
  match graph.sortedPositions with
  | .error error => .error (.execution (.order graph.name error))
  | .ok order =>
    .ok (order.filterMap fun position => graph.body[position]?.map fun node => (position, node))

/-- What has to be there before the first node is executed. -/
def prepare (graph : Graph) (checkFinite : Bool) (inputs : List Value)
    : Outcome (Environment × List (Nat × Node)) := do
  if graph.inputs.length ≠ inputs.length then
    .error (.execution (.inputCount graph.name graph.inputs.length inputs.length))
  else
    let nodes ← schedule graph
    let environment ← bindInputs graph.name checkFinite 0 []
      ((graph.inputs.zip graph.inputTypes).zip inputs)
    .ok (environment, nodes)

/-- Runs a graph with an executor, after some executions. The run holds the new ones only. -/
def graphWith (execute : Executor) (earlier : List Execution) (graph : Graph)
    (checkFinite : Bool) (inputs : List Value) : Run :=
  match prepare graph checkFinite inputs with
  | .error error => ⟨[], .error error⟩
  | .ok (environment, nodes) =>
    let (done, result) := runNodes execute graph.name checkFinite environment earlier nodes
    ⟨done.drop earlier.length,
      result.bind fun environment =>
        graph.outputs.mapM (outputValue graph.name environment)⟩

/-- Runs a graph on a backend. -/
def graph (backend : Backend) (graph : Graph) (checkFinite : Bool) (inputs : List Value)
    : Run :=
  graphWith backend.executor [] graph checkFinite inputs

/-- Runs the entry graph of a program on a backend. -/
def program (backend : Backend) (program : Program) (checkFinite : Bool)
    (inputs : List Value) : Run :=
  match program.entryGraph? with
  | none => ⟨[], .error (.execution .noEntry)⟩
  | some graph => Run.graph backend graph checkFinite inputs

-----------------------------------------------------------------------------------------
-- Log
-----------------------------------------------------------------------------------------

/-- Where the log lines of runs come from. -/
def target : String := "tgraph::executor"

/-- The lines about a node that was executed. -/
def executionLines (backend : Backend) (execution : Execution) : List LogLine :=
  ⟨.trace, target,
      execution.node.value.describe ++ " = " ++ execution.node.operation.name ++ " on "
        ++ backend.name⟩
    :: backend.notes execution.node.operation execution.inputs

/-- The log of a run on a backend. -/
def log (backend : Backend) (run : Run) : List LogLine :=
  run.executions.flatMap (executionLines backend)

end Run

end Dataflow
