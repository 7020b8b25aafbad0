import Dataflow.Shape.Basic
import Dataflow.Typing.Axes
import Dataflow.Typing.Matrix

/-!
The type of a node. `Operation.resultType` computes it from the types of the operands, or says
why they do not fit together.
-/

namespace Dataflow.Typing

-----------------------------------------------------------------------------------------
-- Numbers
-----------------------------------------------------------------------------------------

/-- Whether a function of one number has the element type. -/
def unarySupports (kind : UnaryKind) (dtype : DType) : Bool :=
  match kind with
  | .neg | .abs => dtype.isNumeric
  | .exp | .log => dtype.isFloat

/-- The type of a function of one tensor. -/
def unary (kind : UnaryKind) (operands : List ValueType) : Check ValueType := do
  arity 1 operands
  let type ← tensorAt operands 0
  if unarySupports kind type.dtype then .ok (.tensor type)
  else .error (.dtype (.unsupported type.dtype))

/-- The type of a function of two tensors. -/
def binary (operands : List ValueType) : Check ValueType := do
  arity 2 operands
  let lhs ← tensorAt operands 0
  let rhs ← tensorAt operands 1
  if lhs.dtype ≠ rhs.dtype then .error (.dtype (.differ lhs.dtype rhs.dtype))
  else if !lhs.dtype.isNumeric then .error (.dtype .numericRequired)
  else
    match Broadcast.dims lhs.shape.dims rhs.shape.dims with
    | some dims => .ok (.tensor ⟨lhs.dtype, ⟨dims⟩⟩)
    | none => .error (.shape (.broadcast lhs.shape.dims rhs.shape.dims))

/-- The single operand of a reduction. -/
def reduced (operands : List ValueType) : Check TensorType := do
  arity 1 operands
  let input ← tensorAt operands 0
  numeric input
  .ok input

/-- The type of a reduction. -/
def reduce (reduction : Reduction) (operands : List ValueType) : Check ValueType := do
  let input ← reduced operands
  let axes ← reducedAxes reduction.axes input.rank
  .ok (.tensor ⟨input.dtype, reducedShape input.shape axes reduction.keepAxes⟩)

/-- The type of the indices of the largest elements. -/
def argMax (axis : Int) (keepAxes : Bool) (operands : List ValueType) : Check ValueType := do
  let input ← reduced operands
  let axis ← singleAxis axis input.rank
  .ok (.tensor ⟨.si64, reducedShape input.shape [axis] keepAxes⟩)

/-- The type of the largest elements and their indices. -/
def maxAndArgMax (axis : Int) (operands : List ValueType) : Check ValueType := do
  let input ← reduced operands
  let axis ← singleAxis axis input.rank
  let shape := reducedShape input.shape [axis] false
  .ok (.tuple [.tensor ⟨input.dtype, shape⟩, .tensor ⟨.si64, shape⟩])

-----------------------------------------------------------------------------------------
-- Tuples and axes
-----------------------------------------------------------------------------------------

/-- The type of a part of a tuple. -/
def tupleElement (index : Nat) (operands : List ValueType) : Check ValueType := do
  arity 1 operands
  match operands with
  | .tuple parts :: _ =>
    match parts[index]? with
    | some part => .ok part
    | none => .error (.parameter (.tupleIndex index parts.length))
  | _ => .error (.operandKind 0 .tuple)

/-- The type of a tensor with shuffled axes. -/
def shuffle (order : ShuffleOrder) (operands : List ValueType) : Check ValueType := do
  arity 1 operands
  let input ← tensorAt operands 0
  let shape ← shuffledShape order input.shape
  .ok (.tensor ⟨input.dtype, shape⟩)

/-- The type of a part of a tensor. -/
def subtensor (entries : List IndexEntry) (operands : List ValueType) : Check ValueType := do
  let input ← tensorAt operands 0
  let positions := entries.flatMap IndexEntry.operands
  indicesAt operands positions
  arity (1 + positions.length) operands
  let shape ← indexedShape entries input.shape
  .ok (.tensor ⟨input.dtype, shape⟩)

/-- The type of the size of an axis. -/
def extent (axis : Nat) (operands : List ValueType) : Check ValueType := do
  arity 1 operands
  let input ← tensorAt operands 0
  if axis < input.rank then .ok (.tensor (.scalar .si64))
  else .error (.axis (signedSize axis) input.rank)

-----------------------------------------------------------------------------------------
-- New shapes
-----------------------------------------------------------------------------------------

/-- The extent of an axis of a new tensor, given the extent of the value there, if it has one.
-/
def allocDim (axis : Nat) : ExtentSource → Option Dimension → Check Dimension
  | .static target, some (.static size) =>
    if size = 1 ∨ size = target then .ok (.static target)
    else .error (.shape (.allocExtent size target axis))
  | .static target, _ => .ok (.static target)
  | .operand _, some (.static size) => .ok (if size = 1 then .unknown else .static size)
  | .operand _, _ => .ok .unknown

/-- The extents of a new tensor; `axis` is the number of the first one and `sources` lists the
extents of the value there.
-/
def allocDims : Nat → List ExtentSource → List (Option Dimension) → Check (List Dimension)
  | axis, extent :: extents, source :: sources => do
    let dim ← allocDim axis extent source
    let rest ← allocDims (axis + 1) extents sources
    .ok (dim :: rest)
  | _, _, _ => .ok []

/-- The extents of a value, aligned to the last one of `rank` axes. -/
def alignedDims (rank : Nat) (dims : List Dimension) : List (Option Dimension) :=
  List.replicate (rank - dims.length) none ++ dims.map some

/-- The type of a new tensor that is filled with a value. -/
def alloc (extents : List ExtentSource) (operands : List ValueType) : Check ValueType := do
  let value ← tensorAt operands 0
  let positions := extents.filterMap ExtentSource.operand?
  indicesAt operands positions
  arity (1 + positions.length) operands
  if extents.length < value.rank then
    .error (.shape (.allocRank value.rank extents.length))
  else
    let dims ← allocDims 0 extents (alignedDims extents.length value.shape.dims)
    .ok (.tensor ⟨value.dtype, ⟨dims⟩⟩)

/-- The product of the sizes that a new shape gives. -/
def explicitProduct (extents : List ReshapeExtent) : Nat :=
  extents.foldl
    (fun product extent =>
      match extent with
      | .explicit size => saturatingMul product size
      | _ => product)
    1

/-- The extent that is inferred, from the number of elements and the other extents. -/
def inferredDim (count : Option Nat) (inferred : Nat) (allKnown : Bool) (known : Nat)
    : Check Dimension :=
  match count with
  | none => .ok .unknown
  | some count =>
    if !allKnown then .ok .unknown
    else if inferred = 1 then
      if known = 0 ∨ count % known ≠ 0 then .error (.shape (.inferredExtent count known))
      else .ok (.static (count / known))
    else if count = known then .ok .unknown
    else .error (.shape (.elementCount count known))

/-- One extent of a new shape. -/
def reshapeDim (inferred : Dimension) : ReshapeExtent → Dimension
  | .explicit size => .static size
  | .infer => inferred
  | .operand _ => .unknown

/-- The type of a tensor with a new shape. -/
def reshape (extents : List ReshapeExtent) (operands : List ValueType) : Check ValueType := do
  let input ← tensorAt operands 0
  let positions := extents.filterMap ReshapeExtent.operand?
  indicesAt operands positions
  arity (1 + positions.length) operands
  let inferred := extents.count .infer
  if 1 < inferred then .error (.parameter .severalInferred)
  else
    let dim ← inferredDim input.elementCount? inferred positions.isEmpty
      (explicitProduct extents)
    .ok (.tensor ⟨input.dtype, ⟨extents.map (reshapeDim dim)⟩⟩)

-----------------------------------------------------------------------------------------
-- Lists
-----------------------------------------------------------------------------------------

/-- What the elements of a list agree on; `index` is the number of the first one. -/
def joinElements (operands : List ValueType) : Nat → List ValueType → TensorType
    → Check TensorType
  | _, [], element => .ok element
  | index, _ :: rest, element => do
    let next ← tensorAt operands index
    match element.join next with
    | some element => joinElements operands (index + 1) rest element
    | none => .error (.parameter (.elementType index))

/-- The type of a list of the operands. -/
def makeList (operands : List ValueType) : Check ValueType :=
  match operands with
  | [] => .error (.parameter .emptyList)
  | _ :: rest => do
    let first ← tensorAt operands 0
    let element ← joinElements operands 1 rest first
    .ok (.list element)

/-- The type of an item or a part of a list. -/
def listGet (entry : IndexEntry) (operands : List ValueType) : Check ValueType := do
  let element ← listAt operands 0
  let positions := entry.operands
  arity (1 + positions.length) operands
  indicesAt operands positions
  match entry with
  | .scalar _ => .ok (.tensor element)
  | .slice _ => .ok (.list element)

/-- The type of the length of a list. -/
def listLength (operands : List ValueType) : Check ValueType := do
  arity 1 operands
  let _ ← listAt operands 0
  .ok (.tensor (.scalar .si64))

/-- The type of a list after a change. -/
def listMutation (mutation : ListMutation) (operands : List ValueType) : Check ValueType :=
  match mutation with
  | .append | .remove => do
    arity 2 operands
    let element ← listAt operands 0
    elementAt element operands 1
    .ok (.list element)
  | .extend => do
    arity 2 operands
    let element ← listAt operands 0
    let other ← listAt operands 1
    if element.accepts other then .ok (.list element)
    else .error (.dtype (.extension element other))
  | .insert => do
    arity 3 operands
    let element ← listAt operands 0
    integerAt operands 1
    elementAt element operands 2
    .ok (.list element)
  | .reverse => do
    arity 1 operands
    let element ← listAt operands 0
    .ok (.list element)

/-- The type of a search for an element. -/
def listSearch (operands : List ValueType) : Check ValueType := do
  arity 2 operands
  let element ← listAt operands 0
  elementAt element operands 1
  .ok (.tensor (.scalar .si64))

-----------------------------------------------------------------------------------------
-- All operations
-----------------------------------------------------------------------------------------

/-- The type of a literal, without operands. -/
def constant (literal : Literal) (operands : List ValueType) : Check ValueType := do
  arity 0 operands
  .ok (.tensor literal.type)

/-- The type of an operation on operands of some types. -/
def infer (operation : Operation) (operands : List ValueType) : Check ValueType :=
  match operation with
  | .constant literal => constant literal operands
  | .unary kind => unary kind operands
  | .binary _ => binary operands
  | .reduce reduction => reduce reduction operands
  | .argMax axis keepAxes => argMax axis keepAxes operands
  | .maxAndArgMax axis => maxAndArgMax axis operands
  | .tupleElement index => tupleElement index operands
  | .shuffle order => shuffle order operands
  | .alloc extents => alloc extents operands
  | .subtensor entries => subtensor entries operands
  | .reshape extents => reshape extents operands
  | .extent axis => extent axis operands
  | .dot => product operands
  | .blockDiagonal => blockDiagonal operands
  | .solveTriangular _ => solution operands
  | .makeList => makeList operands
  | .listGet entry => listGet entry operands
  | .listLength => listLength operands
  | .listMutation mutation _ => listMutation mutation operands
  | .listIndex | .listCount => listSearch operands

end Dataflow.Typing

namespace Dataflow

/-- The type of an operation on operands of some types; an error names the operation. -/
def Operation.resultType (operation : Operation) (operands : List ValueType)
    : Except TypeError ValueType :=
  (Typing.infer operation operands).mapError fun fault => ⟨operation.name, fault⟩

/-- Narrows a type to another one that it accepts. -/
def ValueType.refine (old new : ValueType) : Except TypeError ValueType :=
  if old.accepts new then .ok new else .error ⟨"refine", .parameter (.notRefined new old)⟩

end Dataflow
