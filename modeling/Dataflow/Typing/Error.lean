import Dataflow.ValueId
import Dataflow.ValueType

/-!
Why the operands of an operation do not fit together. A type error names the operation and
holds a fault; a fault keeps what its message shows.
-/

namespace Dataflow

-----------------------------------------------------------------------------------------
-- Faults
-----------------------------------------------------------------------------------------

/-- What an operand has to be. -/
inductive OperandKind where
  | tensor
  | list
  | tuple
  | integerScalar
  deriving DecidableEq

/-- How messages call it. -/
def OperandKind.describe : OperandKind → String
  | .tensor => "tensor"
  | .list => "typed list"
  | .tuple => "tuple"
  | .integerScalar => "integer scalar"

/-- Element types that do not fit. -/
inductive DTypeFault where
  | unsupported (dtype : DType)
  | differ (lhs rhs : DType)
  /-- Both operands have one type, but it is not numeric. -/
  | numericRequired
  | notNumeric (dtype : DType)
  /-- A list cannot be extended with a list of other elements. -/
  | extension (element other : TensorType)
  /-- A list does not take a tensor as element. -/
  | listElement (element value : TensorType)
  | block (index : Nat) (found expected : DType)
  deriving DecidableEq

/-- The part of the message that says what is wrong. -/
def DTypeFault.describe : DTypeFault → String
  | .unsupported dtype => dtype.name ++ " not supported"
  | .differ lhs rhs => lhs.name ++ " vs " ++ rhs.name
  | .numericRequired => "numeric operands required"
  | .notNumeric dtype => dtype.name ++ " is not numeric"
  | .extension element other =>
    "cannot extend list of " ++ element.describe ++ " with list of " ++ other.describe
  | .listElement element value =>
    "list element type " ++ element.describe ++ " does not accept " ++ value.describe
  | .block index found expected =>
    "block " ++ toString index ++ " is " ++ found.name ++ ", expected " ++ expected.name

/-- Shapes that do not fit. -/
inductive ShapeFault where
  | broadcast (lhs rhs : List Dimension)
  /-- A value has more axes than the tensor it should fill. -/
  | allocRank (value target : Nat)
  | allocExtent (size target axis : Nat)
  /-- The known sizes of a new shape do not divide the number of elements. -/
  | inferredExtent (count known : Nat)
  | elementCount (count target : Nat)
  | productRanks (lhs rhs : Nat)
  | contraction (lhs rhs : Dimension)
  | blockRank (index rank : Nat)
  | coefficientRank
  | coefficientExtents
  | rightSideRank
  | rightSideExtent (found expected : Dimension)
  deriving DecidableEq

/-- The part of the message that says what is wrong. -/
def ShapeFault.describe : ShapeFault → String
  | .broadcast lhs rhs => describeDims lhs ++ " vs " ++ describeDims rhs
  | .allocRank value target =>
    "value of rank " ++ toString value ++ " does not fit target rank " ++ toString target
  | .allocExtent size target axis =>
    "cannot broadcast extent " ++ toString size ++ " to " ++ toString target ++ " on axis "
      ++ toString axis
  | .inferredExtent count known =>
    "cannot infer dimension: " ++ toString count ++ " elements into " ++ toString known
  | .elementCount count target =>
    "element count " ++ toString count ++ " does not match target " ++ toString target
  | .productRanks lhs rhs => "unsupported ranks " ++ toString lhs ++ " and " ++ toString rhs
  | .contraction lhs rhs =>
    "contracting extents " ++ lhs.describe ++ " and " ++ rhs.describe ++ " differ"
  | .blockRank index rank => "block " ++ toString index ++ " has rank " ++ toString rank
  | .coefficientRank => "coefficient matrix must be rank 2"
  | .coefficientExtents => "coefficient matrix must be square"
  | .rightSideRank => "right-hand side must be rank 1 or 2"
  | .rightSideExtent found expected =>
    "right-hand side leading extent " ++ found.describe ++ " vs " ++ expected.describe

/-- Parameters of an operation that do not fit its operands. -/
inductive ParameterFault where
  | tupleIndex (index count : Nat)
  | emptyList
  | elementType (index : Nat)
  | repeatedAxis (axis : Nat)
  | droppedAxis (axis : Nat) (dim : Dimension)
  | tooManyIndices (count rank : Nat)
  | indexBounds (index : Int) (axis size : Nat)
  | zeroStep
  /-- The first operand holds the data and cannot be read as an index. -/
  | dataAsIndex
  | severalInferred
  | noBlocks
  | undefinedOperand (index : Nat) (value : ValueId)
  | notRefined (new old : ValueType)
  deriving DecidableEq

/-- The part of the message that says what is wrong. -/
def ParameterFault.describe : ParameterFault → String
  | .tupleIndex index count =>
    "index " ++ toString index ++ " out of range for " ++ toString count ++ " elements"
  | .emptyList => "at least one element is required"
  | .elementType index =>
    "element " ++ toString index ++ " does not share the type of element 0"
  | .repeatedAxis axis => "axis " ++ toString axis ++ " appears more than once"
  | .droppedAxis axis dim =>
    "cannot drop axis " ++ toString axis ++ " of extent " ++ dim.describe
      ++ "; only static size-1 axes may be dropped"
  | .tooManyIndices count rank =>
    toString count ++ " indices supplied for rank " ++ toString rank
  | .indexBounds index axis size =>
    "index " ++ toString index ++ " out of bounds for axis " ++ toString axis ++ " of size "
      ++ toString size
  | .zeroStep => "slice step cannot be zero"
  | .dataAsIndex => "operand 0 cannot be used as an index"
  | .severalInferred => "at most one inferred dimension"
  | .noBlocks => "at least one block is required"
  | .undefinedOperand index value =>
    "operand " ++ toString index ++ " (" ++ value.describe ++ ") is undefined"
  | .notRefined new old => new.describe ++ " is not a refinement of " ++ old.describe

/-- What is wrong with the operands of an operation. -/
inductive TypeFault where
  | arity (expected found : Nat)
  | operandKind (index : Nat) (expected : OperandKind)
  | dtype (fault : DTypeFault)
  | shape (fault : ShapeFault)
  | axis (axis : Int) (rank : Nat)
  | parameter (fault : ParameterFault)
  deriving DecidableEq

-----------------------------------------------------------------------------------------
-- Type errors
-----------------------------------------------------------------------------------------

/-- A fault at an operation, which is named. -/
structure TypeError where
  operation : String
  fault : TypeFault
  deriving DecidableEq

namespace TypeError

/-- The message. -/
def message (error : TypeError) : String :=
  match error.fault with
  | .arity expected found =>
    error.operation ++ " expects " ++ toString expected ++ " operands, found "
      ++ toString found
  | .operandKind index expected =>
    error.operation ++ " operand " ++ toString index ++ ": expected " ++ expected.describe
  | .dtype fault => error.operation ++ ": dtype mismatch (" ++ fault.describe ++ ")"
  | .shape fault => error.operation ++ ": incompatible shapes (" ++ fault.describe ++ ")"
  | .axis axis rank =>
    error.operation ++ ": axis " ++ toString axis ++ " out of range for rank "
      ++ toString rank
  | .parameter fault => error.operation ++ ": " ++ fault.describe

end TypeError

end Dataflow
