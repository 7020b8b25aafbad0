import Dataflow.Encoding.Operation
import Dataflow.Graph.Basic
import Dataflow.Json.Printer
import Dataflow.Json.Reader

/-! JSON forms of graphs and programs, and the JSON text of a program. -/

namespace Dataflow

namespace Operand

/-- The JSON form. -/
def toJson : Operand → Json
  | .value id => .tagged "Value" id.toJson
  | .literal constant => .tagged "Literal" constant.toJson

/-- Reads the JSON form. -/
def decoder : Decoder Operand := fun mode value => do
  let (tag, inner, payload) ← Decoder.variant mode value
  match tag with
  | "Value" => (Decoder.required ValueId.decoder inner payload).map .value
  | "Literal" => (Decoder.required Literal.decoder inner payload).map .literal
  | _ => none

/-- Reads an operand that is a bare name or a bare literal. -/
def bareDecoder : Decoder Operand
  | mode, .integer number => (ValueId.decoder mode (.integer number)).map .value
  | mode, form => (Literal.decoder mode form).map .literal

end Operand

namespace Node

/-- The JSON form. -/
def toJson (node : Node) : Json :=
  .ofMembers
    [("id", node.value.toJson),
      ("op", node.operation.toJson),
      ("operands", .array (node.operands.map Operand.toJson)),
      ("output", node.type.toJson)]

/-- Reads the JSON form. -/
def decoder : Decoder Node := fun mode value => do
  let inner ← Decoder.descend mode
  match ← Decoder.fields ["id", "op", "operands", "output"] value with
  | [id, operation, operands, type] =>
    some
      { value := ← Decoder.required ValueId.decoder inner id
        operation := ← Decoder.required Operation.decoder inner operation
        operands := ← Decoder.required (Decoder.list Operand.decoder) inner operands
        type := ← Decoder.required ValueType.decoder inner type }
  | _ => none

end Node

namespace Graph

/-- The JSON form. -/
def toJson (graph : Graph) : Json :=
  .ofMembers
    [("name", .ofString graph.name),
      ("parameters", .array (graph.inputTypes.map ValueType.toJson)),
      ("parameter_ids", .array (graph.inputs.map ValueId.toJson)),
      ("results", .array (graph.outputTypes.map ValueType.toJson)),
      ("body", .array (graph.body.map Node.toJson)),
      ("result_ids", .array (graph.outputs.map ValueId.toJson))]

/-- Reads the JSON form. -/
def decoder : Decoder Graph := fun mode value => do
  let inner ← Decoder.descend mode
  match ← Decoder.fields
    ["name", "parameters", "parameter_ids", "results", "body", "result_ids"] value with
  | [name, inputTypes, inputs, outputTypes, body, outputs] =>
    some
      { name := ← Decoder.required Decoder.text inner name
        inputTypes := ← Decoder.required (Decoder.list ValueType.decoder) inner inputTypes
        inputs := ← Decoder.required (Decoder.list ValueId.decoder) inner inputs
        outputTypes := ← Decoder.required (Decoder.list ValueType.decoder) inner outputTypes
        body := ← Decoder.required (Decoder.list Node.decoder) inner body
        outputs := ← Decoder.required (Decoder.list ValueId.decoder) inner outputs }
  | _ => none

end Graph

namespace Program

/-- The JSON form. -/
def toJson (program : Program) : Json :=
  .ofMembers
    [("entry", .ofString program.entry),
      ("functions", .array (program.graphs.map Graph.toJson))]

/-- Reads the JSON form. -/
def decoder : Decoder Program := fun mode value => do
  let inner ← Decoder.descend mode
  match ← Decoder.fields ["entry", "functions"] value with
  | [entry, graphs] =>
    some
      { entry := ← Decoder.required Decoder.text inner entry
        graphs := ← Decoder.required (Decoder.list Graph.decoder) inner graphs }
  | _ => none

/-- The JSON text of a program. -/
def toJsonText (program : Program) : String := program.toJson.pretty

/-- The program that a JSON text describes. -/
def ofJsonText? (source : String) : Option Program :=
  (Json.parse? source).bind (decoder .lenient)

end Program

end Dataflow
