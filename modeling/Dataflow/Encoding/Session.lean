import Dataflow.Encoding.Graph
import Dataflow.Graph.Text
import Dataflow.Rewrite.Session

/-! JSON forms of editing sessions. -/

namespace Dataflow

/-- The JSON form. -/
def NodeId.toJson (id : NodeId) : Json := .ofNat id.number

namespace Session

/-- A node in the state of a session. -/
def nodeEntryToJson (session : Session) (id : NodeId) : Json :=
  .array
    [id.toJson, .ofOption (fun node => node.value.toJson) (session.node? id),
      .ofOption .ofNat (session.index.version? id)]

/-- A value in the state of a session. -/
def valueEntryToJson (session : Session) (value : ValueId) : Json :=
  .array
    [value.toJson, .array ((session.index.readers value).map NodeId.toJson),
      .ofNat (session.useCount value), .bool (session.index.isInput value),
      .bool (session.isOutput value)]

/-- The inputs and the values of all nodes, in the order of their names. -/
def values (session : Session) : List ValueId :=
  let named := session.graph.inputs ++ session.graph.body.map (·.value)
  (increasing (named.map (·.number))).map ValueId.mk

/-- The state of a session: nodes in the order of the body, values in the order of their
names.
-/
def toJson (session : Session) : Json :=
  .ofMembers
    [("text", .ofString session.graph.text),
      ("insts", .array (session.index.ordered.map session.nodeEntryToJson)),
      ("values", .array (session.values.map session.valueEntryToJson)),
      ("verify", .bool session.verify)]

/-- The values that a node reads, with one place more than it has operands. -/
def inputsToJson (node : Node) : Json :=
  .array ((List.range (node.operands.length + 1)).map fun position =>
    .ofOption ValueId.toJson (node.input? position))

/-- The types of the operands of a node. -/
def operandTypesToJson (session : Session) (node : Node) : Json :=
  .array (node.operands.map fun operand =>
    .ofOption ValueType.toJson (session.operandType? operand))

/-- All that a session knows about a node. -/
def nodeToJson (session : Session) (id : NodeId) : Json :=
  let node := session.node? id
  .ofMembers
    [("contains", .bool (session.index.contains id)),
      ("version", .ofOption .ofNat (session.index.version? id)),
      ("instruction", .ofOption Node.toJson node),
      ("operand_values", .ofOption inputsToJson node),
      ("operand_types", .ofOption session.operandTypesToJson node)]

/-- All that a session knows about a value. -/
def valueToJson (session : Session) (value : ValueId) : Json :=
  let producer := session.producer? value
  .ofMembers
    [("type", .ofOption ValueType.toJson (session.index.type? value)),
      ("inst", .ofOption NodeId.toJson (session.index.producer? value)),
      ("producer", .ofOption (fun node => .ofString node.operation.name) producer),
      ("users", .array ((session.index.readers value).map NodeId.toJson)),
      ("uses", .ofNat (session.useCount value)),
      ("param", .bool (session.index.isInput value)),
      ("result", .bool (session.isOutput value))]

end Session

end Dataflow
