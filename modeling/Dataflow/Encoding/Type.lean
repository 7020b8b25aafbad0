import Dataflow.HostValue
import Dataflow.Json.Decode
import Dataflow.ValueId

/-! JSON forms of types and literals. -/

namespace Dataflow

-----------------------------------------------------------------------------------------
-- Element types
-----------------------------------------------------------------------------------------

namespace DType

/-- All element types by name. -/
def byName : List (String × DType) :=
  [.i1, .si32, .si64, .f32, .f64].map fun dtype => (dtype.name, dtype)

/-- The JSON form. -/
def toJson (dtype : DType) : Json := .ofString dtype.name

/-- Reads the JSON form. -/
def decoder : Decoder DType := Decoder.tag byName

end DType

-----------------------------------------------------------------------------------------
-- Shapes
-----------------------------------------------------------------------------------------

namespace Dimension

/-- The JSON form. -/
def toJson : Dimension → Json
  | .static size => .tagged "Static" (.ofNat size)
  | .unknown => .ofString "Unknown"

/-- Reads the JSON form. -/
def decoder : Decoder Dimension := fun mode value => do
  let (tag, inner, payload) ← Decoder.variant mode value
  match tag with
  | "Static" => (Decoder.required Decoder.size inner payload).map .static
  | "Unknown" => (Decoder.unit payload).map fun _ => .unknown
  | _ => none

end Dimension

namespace Shape

/-- The JSON form. -/
def toJson (shape : Shape) : Json := .tagged "dims" (.array (shape.dims.map Dimension.toJson))

/-- Reads the JSON form. -/
def decoder : Decoder Shape := fun mode value => do
  let inner ← Decoder.descend mode
  match ← Decoder.fields ["dims"] value with
  | [dims] => (Decoder.required (Decoder.list Dimension.decoder) inner dims).map Shape.mk
  | _ => none

end Shape

namespace TensorType

/-- The JSON form. -/
def toJson (type : TensorType) : Json :=
  .ofMembers [("dtype", type.dtype.toJson), ("shape", type.shape.toJson)]

/-- Reads the JSON form. -/
def decoder : Decoder TensorType := fun mode value => do
  let inner ← Decoder.descend mode
  match ← Decoder.fields ["dtype", "shape"] value with
  | [dtype, shape] =>
    some
      { dtype := ← Decoder.required DType.decoder inner dtype
        shape := ← Decoder.required Shape.decoder inner shape }
  | _ => none

end TensorType

-----------------------------------------------------------------------------------------
-- Types of values
-----------------------------------------------------------------------------------------

namespace ValueType

mutual

/-- The JSON form. -/
def toJson : ValueType → Json
  | .tensor type => .tagged "Tensor" type.toJson
  | .list element => .tagged "List" element.toJson
  | .tuple parts => .tagged "Tuple" (.array (partsToJson parts))

/-- The JSON forms of the parts of a tuple. -/
def partsToJson : List ValueType → List Json
  | [] => []
  | part :: parts => part.toJson :: partsToJson parts

end

/-- Reads the JSON form of a type that nests at most to a given depth. -/
def decoderWithin : Nat → Decoder ValueType
  | 0 => fun _ _ => none
  | depth + 1 => fun mode value => do
    let (tag, inner, payload) ← Decoder.variant mode value
    match tag with
    | "Tensor" => (Decoder.required TensorType.decoder inner payload).map .tensor
    | "List" => (Decoder.required TensorType.decoder inner payload).map .list
    | "Tuple" =>
      (Decoder.required (Decoder.list (decoderWithin depth)) inner payload).map .tuple
    | _ => none

/-- Reads the JSON form. Each level takes a bracket, so the budget bounds the depth. -/
def decoder : Decoder ValueType := fun mode => decoderWithin mode.budget mode

end ValueType

-----------------------------------------------------------------------------------------
-- Literals and values
-----------------------------------------------------------------------------------------

namespace Literal

/-- The JSON form. -/
def toJson (literal : Literal) : Json :=
  .ofMembers
    [("spec", literal.type.toJson),
      ("bytes", .array (literal.bytes.map fun byte => .ofNat byte.toNat))]

/-- Reads the JSON form. -/
def decoder : Decoder Literal := fun mode value => do
  let inner ← Decoder.descend mode
  match ← Decoder.fields ["spec", "bytes"] value with
  | [type, bytes] =>
    some
      { type := ← Decoder.required TensorType.decoder inner type
        bytes := ← Decoder.required (Decoder.list Decoder.byte) inner bytes }
  | _ => none

end Literal

namespace HostValue

/-- Reads the JSON form of a value that nests at most to a given depth. -/
def decoderWithin : Nat → Decoder HostValue
  | 0 => fun _ _ => none
  | depth + 1 => fun mode value => do
    let (tag, inner, payload) ← Decoder.variant mode value
    match tag with
    | "Tensor" => (Decoder.required Literal.decoder inner payload).map .tensor
    | "List" => (Decoder.required (Decoder.list Literal.decoder) inner payload).map .list
    | "Tuple" =>
      (Decoder.required (Decoder.list (decoderWithin depth)) inner payload).map .tuple
    | _ => none

/-- Reads the JSON form. Each level takes a bracket, so the budget bounds the depth. -/
def decoder : Decoder HostValue := fun mode => decoderWithin mode.budget mode

end HostValue

namespace ValueId

/-- The JSON form. -/
def toJson (id : ValueId) : Json := .ofNat id.number

/-- Reads the JSON form. Names are 32-bit words. -/
def decoder : Decoder ValueId := fun mode value =>
  (Decoder.natural (1 <<< 32) mode value).map ValueId.mk

end ValueId

end Dataflow
