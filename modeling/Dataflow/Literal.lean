import Dataflow.Tensor.Elements
import Dataflow.TensorType

/-!
Literals: a tensor type with the bytes of its elements. A literal keeps whatever bytes it was
given; whether they fit its type is asked when a tensor is made from it.
-/

namespace Dataflow

/-- A constant tensor as little-endian bytes. -/
structure Literal where
  type : TensorType
  bytes : List UInt8
  deriving DecidableEq

namespace Literal

/-- The sizes of the axes, or none if one of them is unknown. -/
def sizes (literal : Literal) : List Nat := literal.type.shape.sizes?.getD []

/-- The whole elements of the payload. -/
def elements (literal : Literal) : Elements := .decode literal.type.dtype literal.bytes

/-- The payload as numbers, whatever its element type. -/
def floats (literal : Literal) : List Float := literal.elements.toFloats

/-- Whether a number passes for an integer index: it is integral and at most two to the
sixty-third power in size.
-/
def passesAsInteger (value : Float) : Bool :=
  Binary.isIntegral value && decide (value.abs ≤ Binary.integerBound)

/-- The payload as integers, or the first element that does not pass for one. -/
def integers (literal : Literal) : Except Float (List Int64) :=
  match literal.elements with
  | .si64 values => .ok values
  | elements => elements.toFloats.mapM fun value =>
    if passesAsInteger value then .ok (Binary.toInt64 value) else .error value

-----------------------------------------------------------------------------------------
-- Construction
-----------------------------------------------------------------------------------------

/-- A literal of known sizes that holds some elements. -/
def ofElements (sizes : List Nat) (elements : Elements) : Literal :=
  ⟨⟨elements.dtype, .ofSizes sizes⟩, elements.encode⟩

/-- A literal of integers. -/
def ofInts (sizes : List Nat) (values : List Int64) : Literal := ofElements sizes (.si64 values)

/-- A literal of numbers. -/
def ofFloats (sizes : List Nat) (values : List Float) : Literal :=
  ofElements sizes (.f64 (values.map Float.toBits))

/-- A single integer. -/
def ofInt (value : Int64) : Literal := ofInts [] [value]

/-- A literal of zeros; `none` unless the number of bytes is known and fits a word. -/
def zeros? (type : TensorType) : Option Literal :=
  type.byteCount?.map fun count => ⟨type, List.replicate count 0⟩

/-- How a literal's payload is counted in messages. -/
def byteCount (literal : Literal) : Nat := literal.bytes.length

end Literal

end Dataflow
