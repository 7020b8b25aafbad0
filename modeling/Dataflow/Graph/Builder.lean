import Dataflow.Graph.Basic
import Dataflow.Graph.Error
import Dataflow.Table
import Dataflow.Typing.Infer

/-!
Building graphs node by node. Every value gets the next free name, and every node is typed when
it is added, so a finished graph is well typed. A step that fails leaves the builder as it was.
-/

namespace Dataflow

/-- A graph under construction. -/
structure Builder where
  next : Nat
  inputs : List (ValueId × ValueType)
  nodes : List Node
  /-- The types of all values so far. -/
  types : Table ValueId ValueType

namespace Builder

/-- A graph without anything. -/
def empty : Builder := ⟨0, [], [], []⟩

/-- The next free name. -/
def fresh (builder : Builder) : ValueId := ⟨builder.next⟩

/-- The type of a value. -/
def type? (builder : Builder) (value : ValueId) : Option ValueType := builder.types.get? value

/-- Adds an input. -/
def addInput (builder : Builder) (type : ValueType) : ValueId × Builder :=
  (builder.fresh,
    { builder with
      next := builder.next + 1
      inputs := builder.inputs ++ [(builder.fresh, type)]
      types := builder.types.set builder.fresh type })

/-- Adds a node whose type is known. -/
def push (builder : Builder) (operation : Operation) (operands : List Operand)
    (type : ValueType) : ValueId × Builder :=
  (builder.fresh,
    { builder with
      next := builder.next + 1
      nodes := builder.nodes ++ [⟨builder.fresh, operation, operands, type⟩]
      types := builder.types.set builder.fresh type })

/-- The type of an operand, which has the given position. -/
def operandType (builder : Builder) (position : Nat) : Operand → Except TypeFault ValueType
  | .literal literal => .ok (.tensor literal.type)
  | .value value =>
    match builder.type? value with
    | some type => .ok type
    | none => .error (.parameter (.undefinedOperand position value))

/-- The types of operands; `position` is the one of the first operand. -/
def operandTypes (builder : Builder) : Nat → List Operand → Except TypeFault (List ValueType)
  | _, [] => .ok []
  | position, operand :: rest => do
    let type ← builder.operandType position operand
    let types ← builder.operandTypes (position + 1) rest
    .ok (type :: types)

/-- Adds a node, if its operands are defined and their types fit. -/
def addNode (builder : Builder) (operation : Operation) (operands : List Operand)
    : Except TypeError (ValueId × Builder) := do
  let types ← (builder.operandTypes 0 operands).mapError (⟨operation.name, ·⟩)
  let type ← operation.resultType types
  .ok (builder.push operation operands type)

/-- Adds a constant. -/
def addConstant (builder : Builder) (literal : Literal) : ValueId × Builder :=
  builder.push (.constant literal) [] (.tensor literal.type)

/-- The type of an output. -/
def outputType (builder : Builder) (value : ValueId) : Except GraphError ValueType :=
  match builder.type? value with
  | some type => .ok type
  | none => .error (.unknownValue value)

/-- The graph with the given outputs. -/
def finish (builder : Builder) (name : String) (outputs : List ValueId)
    : Except GraphError Graph := do
  let outputTypes ← outputs.mapM builder.outputType
  .ok
    { name
      inputTypes := builder.inputs.map (·.2)
      inputs := builder.inputs.map (·.1)
      outputTypes
      body := builder.nodes
      outputs }

end Builder

end Dataflow
