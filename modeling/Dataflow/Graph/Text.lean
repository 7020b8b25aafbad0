import Dataflow.Graph.Basic

/-! The text of a program: two spaces per level, and no section without lines. -/

namespace Dataflow

-----------------------------------------------------------------------------------------
-- Types and operands
-----------------------------------------------------------------------------------------

namespace Dimension

/-- The text of an extent. -/
def text : Dimension → String
  | .static size => toString size
  | .unknown => "?"

end Dimension

namespace Shape

/-- The text of a shape. -/
def text (shape : Shape) : String :=
  if shape.dims.isEmpty then "[]" else "x".intercalate (shape.dims.map Dimension.text)

end Shape

namespace TensorType

/-- The text of a tensor type. -/
def text (type : TensorType) : String := type.dtype.name ++ " x " ++ type.shape.text

end TensorType

namespace ValueType

mutual

/-- The text of a type. -/
def text : ValueType → String
  | .tensor type => "tensor<" ++ type.text ++ ">"
  | .list element => "list<" ++ element.text ++ ">"
  | .tuple parts => "tuple<" ++ ", ".intercalate (textParts parts) ++ ">"

/-- The texts of the parts of a tuple. -/
def textParts : List ValueType → List String
  | [] => []
  | part :: parts => part.text :: textParts parts

end

end ValueType

namespace Operand

/-- The text of an operand. A literal shows its type only. -/
def text : Operand → String
  | .value id => id.describe
  | .literal constant =>
    "literal(dtype=" ++ constant.type.dtype.name ++ ", shape=" ++ constant.type.shape.text
      ++ ")"

end Operand

-----------------------------------------------------------------------------------------
-- Lines
-----------------------------------------------------------------------------------------

/-- A line with its level. -/
structure TextLine where
  level : Nat
  text : String

namespace TextLine

/-- The line with its indentation. -/
def render (line : TextLine) : String :=
  String.ofList (List.replicate (2 * line.level) ' ') ++ line.text ++ "\n"

/-- All lines. -/
def renderAll (lines : List TextLine) : String := String.join (lines.map render)

end TextLine

namespace Graph

/-- A title and the lines under it. -/
def textSection (level : Nat) (title : String) (isEmpty : Bool) (entries : List String)
    : List TextLine :=
  if isEmpty then [] else ⟨level, title⟩ :: entries.map fun entry => ⟨level + 1, entry⟩

/-- Values with their types. -/
def typedValues (values : List ValueId) (types : List ValueType) : List String :=
  List.zipWith (fun value type => value.describe ++ " : " ++ type.text) values types

/-- The text of a node. -/
def nodeText (node : Node) : String :=
  node.value.describe ++ " = " ++ node.operation.name ++ "("
    ++ ", ".intercalate (node.operands.map Operand.text) ++ ") -> " ++ node.type.text

/-- The lines of a graph that starts at some level. -/
def lines (level : Nat) (graph : Graph) : List TextLine :=
  ⟨level, "func @" ++ graph.name ++ " \x7b"⟩
    :: textSection (level + 1) "params:" graph.inputs.isEmpty
        (typedValues graph.inputs graph.inputTypes)
    ++ textSection (level + 1) "body:" graph.body.isEmpty (graph.body.map nodeText)
    ++ textSection (level + 1) "results:" graph.outputs.isEmpty
        (typedValues graph.outputs graph.outputTypes)
    ++ [⟨level, "\x7d"⟩]

/-- The text of a graph. -/
def text (graph : Graph) : String := TextLine.renderAll (graph.lines 0)

end Graph

namespace Program

/-- The text of a program. -/
def text (program : Program) : String :=
  TextLine.renderAll
    (⟨0, "program @" ++ program.entry ++ " \x7b"⟩
      :: program.graphs.flatMap (Graph.lines 1) ++ [⟨0, "\x7d"⟩])

end Program

end Dataflow
