import Dataflow.Execution.Error
import Dataflow.HostValue
import Dataflow.Shape.RowMajor

/-! Tensors and values as kernels see them, and the way to host values and back. -/

namespace Dataflow

-----------------------------------------------------------------------------------------
-- Tensors
-----------------------------------------------------------------------------------------

/-- A tensor: the sizes of its axes, and its elements in row-major order. -/
structure Tensor where
  sizes : List Nat
  elements : Elements
  deriving DecidableEq

namespace Tensor

/-- The element type. -/
def dtype (tensor : Tensor) : DType := tensor.elements.dtype

/-- The number of axes. -/
def rank (tensor : Tensor) : Nat := tensor.sizes.length

/-- The type. -/
def type (tensor : Tensor) : TensorType := ⟨tensor.dtype, .ofSizes tensor.sizes⟩

/-- A tensor of a single integer. -/
def ofInt (value : Int64) : Tensor := ⟨[], .si64 [value]⟩

/-- A tensor of a single size. -/
def ofSize (size : Nat) : Tensor := ofInt (Int64.ofNat size)

/-- The tensor of a literal. Its extents must be known, and its bytes must fit them. -/
def ofLiteral (literal : Literal) : Outcome Tensor :=
  match literal.type.shape.sizes? with
  | none => .fail .unknownExtent
  | some sizes =>
    let count := RowMajor.count sizes
    if literal.bytes.length = count * literal.type.dtype.byteSize then
      .ok ⟨sizes, literal.elements⟩
    else
      .fail (.literalSize literal.bytes.length count literal.type.dtype)

/-- The literal of a tensor. -/
def toLiteral (tensor : Tensor) : Literal := .ofElements tensor.sizes tensor.elements

/-- The integer that a tensor of one element holds. -/
def index (tensor : Tensor) : Outcome Int :=
  match tensor.dtype.isInteger, tensor.elements.toInts with
  | true, [value] => .ok value.toInt
  | _, values => .fail (.integerExpected tensor.dtype values.length)

/-- Whether two tensors have the same type and numerically equal elements. -/
def equal (a b : Tensor) : Bool := a.sizes = b.sizes && a.elements.equal b.elements

/-- The tensor of the elements at some positions. -/
def gather (tensor : Tensor) (sizes positions : List Nat) : Outcome Tensor := do
  let elements ← Outcome.require .missingElement (tensor.elements.gather? positions)
  .ok ⟨sizes, elements⟩

end Tensor

-----------------------------------------------------------------------------------------
-- Values
-----------------------------------------------------------------------------------------

/-- A value that flows between nodes. -/
inductive Value where
  | tensor (content : Tensor)
  | list (items : List Tensor)
  | tuple (parts : List Value)

namespace Value

/-- The tensor. -/
def asTensor : Value → Outcome Tensor
  | .tensor content => .ok content
  | _ => .fail .tensorExpected

/-- The items of the list. -/
def asList : Value → Outcome (List Tensor)
  | .list items => .ok items
  | _ => .fail .listExpected

mutual

/-- The value of a host value. -/
def ofHost : HostValue → Outcome Value
  | .tensor literal => do
    let tensor ← Tensor.ofLiteral literal
    .ok (.tensor tensor)
  | .list items => do
    let items ← items.mapM Tensor.ofLiteral
    .ok (.list items)
  | .tuple parts => do
    let parts ← ofHostParts parts
    .ok (.tuple parts)

/-- The values of the parts of a tuple. -/
def ofHostParts : List HostValue → Outcome (List Value)
  | [] => .ok []
  | part :: parts => do
    let value ← ofHost part
    let values ← ofHostParts parts
    .ok (value :: values)

end

mutual

/-- The host value of a value. -/
def toHost : Value → HostValue
  | .tensor content => .tensor content.toLiteral
  | .list items => .list (items.map Tensor.toLiteral)
  | .tuple parts => .tuple (toHostParts parts)

/-- The host values of the parts of a tuple. -/
def toHostParts : List Value → List HostValue
  | [] => []
  | part :: parts => part.toHost :: toHostParts parts

end

end Value

-----------------------------------------------------------------------------------------
-- Operands
-----------------------------------------------------------------------------------------

/-- The values of operands, by position. -/
abbrev Inputs := List Value

namespace Inputs

/-- The value at a position. -/
def value (inputs : Inputs) (position : Nat) : Outcome Value :=
  match inputs[position]? with
  | some value => .ok value
  | none => .fail (.missingOperand position)

/-- The tensor at a position. -/
def tensor (inputs : Inputs) (position : Nat) : Outcome Tensor := do
  (← inputs.value position).asTensor

/-- The list at a position. -/
def list (inputs : Inputs) (position : Nat) : Outcome (List Tensor) := do
  (← inputs.value position).asList

/-- The integer at a position. -/
def index (inputs : Inputs) (position : Nat) : Outcome Int := do
  (← inputs.tensor position).index

/-- All values, which must be tensors. -/
def tensors (inputs : Inputs) : Outcome (List Tensor) := inputs.mapM Value.asTensor

/-- The number of an index. -/
def scalar (inputs : Inputs) : IndexScalar → Outcome Int
  | .static value => .ok value
  | .operand position => inputs.index position

end Inputs

end Dataflow
