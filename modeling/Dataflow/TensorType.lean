import Dataflow.DType
import Dataflow.Shape.Basic

/-!
Tensor types: an element type and a shape. `accepts` orders them by how much they say, and
`join` is what two types agree on.
-/

namespace Dataflow

/-- The type of a tensor. -/
structure TensorType where
  dtype : DType
  shape : Shape
  deriving DecidableEq

namespace TensorType

/-- The type of tensors without axes. -/
def scalar (dtype : DType) : TensorType := ⟨dtype, .scalar⟩

/-- The number of axes. -/
def rank (type : TensorType) : Nat := type.shape.rank

/-- The number of elements, where it is known and fits a word. -/
def elementCount? (type : TensorType) : Option Nat := type.shape.elementCount?

/-- The number of bytes, where it is known and fits a word. -/
def byteCount? (type : TensorType) : Option Nat :=
  type.elementCount?.bind fun count => checkedProduct [count, type.dtype.byteSize]

/-- Whether `relation` holds between the extents of two shapes of one rank, axis by axis. -/
def agreeOn (relation : Dimension → Dimension → Bool) (a b : TensorType) : Bool :=
  a.dtype = b.dtype && a.rank = b.rank &&
    (a.shape.dims.zip b.shape.dims).all fun (x, y) => relation x y

/-- Whether every tensor of type `other` is also one of type `self`. -/
def accepts (self other : TensorType) : Bool := agreeOn Dimension.accepts self other

/-- Whether some tensor has both types. -/
def compatibleWith (a b : TensorType) : Bool :=
  agreeOn (fun x y => (x.meet y).isSome) a b

/-- The type that both types agree on; extents that differ become unknown. -/
def join (a b : TensorType) : Option TensorType :=
  if a.dtype = b.dtype ∧ a.rank = b.rank then
    some ⟨a.dtype, ⟨List.zipWith Dimension.join a.shape.dims b.shape.dims⟩⟩
  else
    none

/-- How a tensor type is written in messages. -/
def describe (type : TensorType) : String :=
  "TensorSpec \x7b dtype: " ++ type.dtype.name ++ ", shape: " ++ type.shape.describe ++ " \x7d"

end TensorType

end Dataflow
