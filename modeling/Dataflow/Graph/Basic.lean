import Dataflow.Operation.Basic
import Dataflow.ValueId
import Dataflow.ValueType

/-!
Graphs. A graph has typed inputs and outputs and a body of nodes; every node produces one value.
Nothing here promises that a graph makes sense: types may be wrong and values undefined.
-/

namespace Dataflow

-----------------------------------------------------------------------------------------
-- Nodes
-----------------------------------------------------------------------------------------

/-- What a node reads. -/
inductive Operand where
  | value (id : ValueId)
  | literal (literal : Literal)
  deriving DecidableEq

/-- The value that is read. -/
def Operand.value? : Operand → Option ValueId
  | .value id => some id
  | .literal _ => none

/-- A node: an operation on operands, and the value that it produces. -/
structure Node where
  value : ValueId
  operation : Operation
  operands : List Operand
  type : ValueType
  deriving DecidableEq

/-- The values that a node reads, one per operand that reads one. -/
def Node.reads (node : Node) : List ValueId := node.operands.filterMap Operand.value?

/-- The value that the operand at `position` reads. -/
def Node.input? (node : Node) (position : Nat) : Option ValueId :=
  node.operands[position]?.bind Operand.value?

-----------------------------------------------------------------------------------------
-- Graphs
-----------------------------------------------------------------------------------------

/-- A graph. -/
structure Graph where
  name : String
  inputTypes : List ValueType
  inputs : List ValueId
  outputTypes : List ValueType
  body : List Node
  outputs : List ValueId
  deriving DecidableEq

namespace Graph

/-- The first node that produces a value. -/
def producer? (graph : Graph) (value : ValueId) : Option Node :=
  graph.body.find? fun node => node.value = value

/-- The names of all operations, in the order of the body. -/
def operationNames (graph : Graph) : List String := graph.body.map (·.operation.name)

end Graph

-----------------------------------------------------------------------------------------
-- Programs
-----------------------------------------------------------------------------------------

/-- Graphs with the name of the one to start with. -/
structure Program where
  entry : String
  graphs : List Graph
  deriving DecidableEq

namespace Program

/-- The program of a single graph. -/
def ofGraph (graph : Graph) : Program := ⟨graph.name, [graph]⟩

/-- The first graph that has the entry name. -/
def entryGraph? (program : Program) : Option Graph :=
  program.graphs.find? fun graph => graph.name = program.entry

/-- Replaces the first graph of some name. -/
def replaceFirst (name : String) (new : Graph) : List Graph → List Graph
  | [] => []
  | graph :: rest =>
    if graph.name = name then new :: rest else graph :: replaceFirst name new rest

/-- Replaces the entry graph. -/
def withEntryGraph (program : Program) (graph : Graph) : Program :=
  { program with graphs := replaceFirst program.entry graph program.graphs }

/-- Gives the program and all its graphs one name. -/
def renamed (name : String) (program : Program) : Program :=
  ⟨name, program.graphs.map fun graph => { graph with name }⟩

end Program

end Dataflow
