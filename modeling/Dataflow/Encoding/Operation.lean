import Dataflow.Encoding.Type
import Dataflow.Operation.Basic

/-! JSON forms of operations. -/

namespace Dataflow

-----------------------------------------------------------------------------------------
-- Kinds
-----------------------------------------------------------------------------------------

/-- The tag of a kind, as JSON spells it. -/
def UnaryKind.tag : UnaryKind → String
  | .neg => "Neg"
  | .abs => "Abs"
  | .exp => "Exp"
  | .log => "Log"

/-- Reads the tag of a kind. -/
def UnaryKind.decoder : Decoder UnaryKind :=
  Decoder.tag ([.neg, .abs, .exp, .log].map fun kind => (kind.tag, kind))

/-- The tag of a kind, as JSON spells it. -/
def BinaryKind.tag : BinaryKind → String
  | .add => "Add"
  | .sub => "Sub"
  | .mul => "Mul"
  | .div => "Div"
  | .maximum => "Maximum"
  | .minimum => "Minimum"

/-- Reads the tag of a kind. -/
def BinaryKind.decoder : Decoder BinaryKind :=
  Decoder.tag ([.add, .sub, .mul, .div, .maximum, .minimum].map fun kind => (kind.tag, kind))

/-- The tag of a kind, as JSON spells it. -/
def ReduceKind.tag : ReduceKind → String
  | .sum => "Sum"
  | .max => "Max"
  | .min => "Min"

/-- Reads the tag of a kind. -/
def ReduceKind.decoder : Decoder ReduceKind :=
  Decoder.tag ([.sum, .max, .min].map fun kind => (kind.tag, kind))

/-- The tag of a change, as JSON spells it. -/
def ListMutation.tag : ListMutation → String
  | .append => "ListAppend"
  | .extend => "ListExtend"
  | .insert => "ListInsert"
  | .remove => "ListRemove"
  | .reverse => "ListReverse"

/-- All changes by their tags. -/
def ListMutation.byTag : List (String × ListMutation) :=
  [.append, .extend, .insert, .remove, .reverse].map fun mutation => (mutation.tag, mutation)

/-- The tag of a view, as JSON spells it. -/
def MatrixView.tag : MatrixView → String
  | .plain => "None"
  | .transposed => "Transpose"
  | .conjugateTransposed => "ConjugateTranspose"

/-- Reads the tag of a view. -/
def MatrixView.decoder : Decoder MatrixView :=
  Decoder.tag ([.plain, .transposed, .conjugateTransposed].map fun view => (view.tag, view))

-----------------------------------------------------------------------------------------
-- Indices and sizes
-----------------------------------------------------------------------------------------

namespace IndexScalar

/-- The JSON form. -/
def toJson : IndexScalar → Json
  | .static value => .tagged "Static" (.integer value)
  | .operand position => .tagged "Operand" (.ofNat position)

/-- Reads the JSON form. -/
def decoder : Decoder IndexScalar := fun mode value => do
  let (tag, inner, payload) ← Decoder.variant mode value
  match tag with
  | "Static" => (Decoder.required Decoder.signed64 inner payload).map .static
  | "Operand" => (Decoder.required Decoder.size inner payload).map .operand
  | _ => none

end IndexScalar

namespace SliceBounds

/-- The JSON form. -/
def toJson (bounds : SliceBounds) : Json :=
  .ofMembers
    [("start", .ofOption IndexScalar.toJson bounds.start),
      ("stop", .ofOption IndexScalar.toJson bounds.stop),
      ("step", .ofOption IndexScalar.toJson bounds.step)]

/-- Reads the JSON form. -/
def decoder : Decoder SliceBounds := fun mode value => do
  let inner ← Decoder.descend mode
  match ← Decoder.fields ["start", "stop", "step"] value with
  | [start, stop, step] =>
    some
      { start := ← Decoder.optional IndexScalar.decoder inner start
        stop := ← Decoder.optional IndexScalar.decoder inner stop
        step := ← Decoder.optional IndexScalar.decoder inner step }
  | _ => none

end SliceBounds

namespace IndexEntry

/-- The JSON form. -/
def toJson : IndexEntry → Json
  | .scalar index => .tagged "Scalar" index.toJson
  | .slice bounds => .tagged "Slice" bounds.toJson

/-- Reads the JSON form. -/
def decoder : Decoder IndexEntry := fun mode value => do
  let (tag, inner, payload) ← Decoder.variant mode value
  match tag with
  | "Scalar" => (Decoder.required IndexScalar.decoder inner payload).map .scalar
  | "Slice" => (Decoder.required SliceBounds.decoder inner payload).map .slice
  | _ => none

end IndexEntry

namespace ShuffleAxis

/-- The JSON form. -/
def toJson : ShuffleAxis → Json
  | .axis source => .tagged "Axis" (.ofNat source)
  | .broadcast => .ofString "Broadcast"

/-- Reads the JSON form. -/
def decoder : Decoder ShuffleAxis := fun mode value => do
  let (tag, inner, payload) ← Decoder.variant mode value
  match tag with
  | "Axis" => (Decoder.required Decoder.size inner payload).map .axis
  | "Broadcast" => (Decoder.unit payload).map fun _ => .broadcast
  | _ => none

end ShuffleAxis

namespace ExtentSource

/-- The JSON form. -/
def toJson : ExtentSource → Json
  | .static size => .tagged "Static" (.ofNat size)
  | .operand position => .tagged "Operand" (.ofNat position)

/-- Reads the JSON form. -/
def decoder : Decoder ExtentSource := fun mode value => do
  let (tag, inner, payload) ← Decoder.variant mode value
  match tag with
  | "Static" => (Decoder.required Decoder.size inner payload).map .static
  | "Operand" => (Decoder.required Decoder.size inner payload).map .operand
  | _ => none

end ExtentSource

namespace ReshapeExtent

/-- The JSON form. -/
def toJson : ReshapeExtent → Json
  | .explicit size => .tagged "Explicit" (.ofNat size)
  | .infer => .ofString "Infer"
  | .operand position => .tagged "Operand" (.ofNat position)

/-- Reads the JSON form. -/
def decoder : Decoder ReshapeExtent := fun mode value => do
  let (tag, inner, payload) ← Decoder.variant mode value
  match tag with
  | "Explicit" => (Decoder.required Decoder.size inner payload).map .explicit
  | "Infer" => (Decoder.unit payload).map fun _ => .infer
  | "Operand" => (Decoder.required Decoder.size inner payload).map .operand
  | _ => none

end ReshapeExtent

-----------------------------------------------------------------------------------------
-- Records
-----------------------------------------------------------------------------------------

namespace Reduction

/-- The JSON form. -/
def toJson (reduction : Reduction) : Json :=
  .ofMembers
    [("kind", .ofString reduction.kind.tag),
      ("axes", .array (reduction.axes.map Json.integer)),
      ("keepdims", .bool reduction.keepAxes)]

/-- Reads the JSON form. -/
def decoder : Decoder Reduction := fun mode value => do
  let inner ← Decoder.descend mode
  match ← Decoder.fields ["kind", "axes", "keepdims"] value with
  | [kind, axes, keepAxes] =>
    some
      { kind := ← Decoder.required ReduceKind.decoder inner kind
        axes := ← Decoder.required (Decoder.list Decoder.signed64) inner axes
        keepAxes := ← Decoder.required Decoder.bool inner keepAxes }
  | _ => none

end Reduction

namespace TriangularSystem

/-- The JSON form. -/
def toJson (system : TriangularSystem) : Json :=
  .ofMembers
    [("lower", .bool system.lower),
      ("trans", .ofString system.view.tag),
      ("unit_diagonal", .bool system.unitDiagonal),
      ("check_finite", .bool system.checkFinite)]

/-- Reads the JSON form. -/
def decoder : Decoder TriangularSystem := fun mode value => do
  let inner ← Decoder.descend mode
  match ← Decoder.fields ["lower", "trans", "unit_diagonal", "check_finite"] value with
  | [lower, view, unitDiagonal, checkFinite] =>
    some
      { lower := ← Decoder.required Decoder.bool inner lower
        view := ← Decoder.required MatrixView.decoder inner view
        unitDiagonal := ← Decoder.required Decoder.bool inner unitDiagonal
        checkFinite := ← Decoder.required Decoder.bool inner checkFinite }
  | _ => none

end TriangularSystem

-----------------------------------------------------------------------------------------
-- Operations
-----------------------------------------------------------------------------------------

namespace Operation

/-- The JSON form. -/
def toJson : Operation → Json
  | .constant literal => .tagged "Constant" literal.toJson
  | .unary kind => .tagged "ElementwiseUnary" (.ofString kind.tag)
  | .binary kind => .tagged "ElementwiseBinary" (.ofString kind.tag)
  | .reduce reduction => .tagged "Reduce" reduction.toJson
  | .argMax axis keepAxes =>
    .tagged "ArgMax" (.ofMembers [("axis", .integer axis), ("keepdims", .bool keepAxes)])
  | .maxAndArgMax axis => .tagged "MaxAndArgmax" (.tagged "axis" (.integer axis))
  | .tupleElement index => .tagged "GetTupleElement" (.tagged "index" (.ofNat index))
  | .shuffle order =>
    .tagged "DimShuffle" (.tagged "new_order" (.array (order.map ShuffleAxis.toJson)))
  | .alloc extents =>
    .tagged "Alloc" (.tagged "shape" (.array (extents.map ExtentSource.toJson)))
  | .subtensor entries =>
    .tagged "Subtensor" (.tagged "indices" (.array (entries.map IndexEntry.toJson)))
  | .reshape extents =>
    .tagged "Reshape" (.tagged "new_shape" (.array (extents.map ReshapeExtent.toJson)))
  | .extent axis => .tagged "ShapeOf" (.tagged "axis" (.ofNat axis))
  | .dot => .ofString "Dot"
  | .blockDiagonal => .ofString "BlockDiag"
  | .solveTriangular system => .tagged "SolveTriangular" system.toJson
  | .makeList => .ofString "MakeList"
  | .listGet entry => .tagged "ListGetItem" entry.toJson
  | .listLength => .ofString "ListLength"
  | .listMutation mutation inplace =>
    .tagged mutation.tag (.tagged "inplace" (.bool inplace))
  | .listIndex => .ofString "ListIndexOf"
  | .listCount => .ofString "ListCount"

/-- Reads the fields of an operation on the indices of largest elements. -/
def argMaxDecoder : Decoder Operation := fun mode value => do
  let inner ← Decoder.descend mode
  match ← Decoder.fields ["axis", "keepdims"] value with
  | [axis, keepAxes] =>
    some (.argMax (← Decoder.required Decoder.signed64 inner axis)
      (← Decoder.required Decoder.bool inner keepAxes))
  | _ => none

/-- Operations with a payload, by tag. -/
def payloadDecoders : List (String × Decoder Operation) :=
  [("Constant", fun mode value => (Literal.decoder mode value).map .constant),
    ("ElementwiseUnary", fun mode value => (UnaryKind.decoder mode value).map .unary),
    ("ElementwiseBinary", fun mode value => (BinaryKind.decoder mode value).map .binary),
    ("Reduce", fun mode value => (Reduction.decoder mode value).map .reduce),
    ("ArgMax", argMaxDecoder),
    ("MaxAndArgmax", fun mode value =>
      (Decoder.record "axis" Decoder.signed64 mode value).map .maxAndArgMax),
    ("GetTupleElement", fun mode value =>
      (Decoder.taggedField "index" Decoder.size mode value).map .tupleElement),
    ("DimShuffle", fun mode value =>
      (Decoder.record "new_order" (Decoder.list ShuffleAxis.decoder) mode value).map
        .shuffle),
    ("Alloc", fun mode value =>
      (Decoder.record "shape" (Decoder.list ExtentSource.decoder) mode value).map .alloc),
    ("Subtensor", fun mode value =>
      (Decoder.record "indices" (Decoder.list IndexEntry.decoder) mode value).map
        .subtensor),
    ("Reshape", fun mode value =>
      (Decoder.record "new_shape" (Decoder.list ReshapeExtent.decoder) mode value).map
        .reshape),
    ("ShapeOf", fun mode value =>
      (Decoder.taggedField "axis" Decoder.size mode value).map .extent),
    ("SolveTriangular", fun mode value =>
      (TriangularSystem.decoder mode value).map .solveTriangular),
    ("ListGetItem", fun mode value => (IndexEntry.decoder mode value).map .listGet)]
  ++ ListMutation.byTag.map fun (tag, mutation) =>
    (tag, fun mode value =>
      (Decoder.taggedField "inplace" Decoder.bool mode value).map (.listMutation mutation))

/-- Operations without a payload, by tag. -/
def plainOperations : List (String × Operation) :=
  [("Dot", .dot), ("BlockDiag", .blockDiagonal), ("MakeList", .makeList),
    ("ListLength", .listLength), ("ListIndexOf", .listIndex), ("ListCount", .listCount)]

/-- Reads the JSON form. -/
def decoder : Decoder Operation := fun mode value => do
  let (tag, inner, payload) ← Decoder.variant mode value
  match payloadDecoders.lookup tag with
  | some decode => Decoder.required decode inner payload
  | none =>
    let operation ← plainOperations.lookup tag
    Decoder.unit payload
    some operation

end Operation

/-- The JSON form. -/
def StorageUse.toJson : StorageUse → Json
  | .owned => .ofString "Owned"
  | .viewOf position => .tagged "ViewOf" (.ofNat position)
  | .consumes position => .tagged "Consumes" (.ofNat position)

end Dataflow
