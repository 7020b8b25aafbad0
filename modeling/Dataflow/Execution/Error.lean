import Dataflow.Graph.Error
import Dataflow.Number.Shortest
import Dataflow.Operation.Basic

/-!
Why the execution of a node or a graph failed. A fault keeps what its message shows; around the
fault of a node, an error says where the node stands.
-/

namespace Dataflow

-----------------------------------------------------------------------------------------
-- Texts of parameters
-----------------------------------------------------------------------------------------

/-- How messages show an extent of a new shape. -/
def ReshapeExtent.describe : ReshapeExtent → String
  | .explicit size => "Explicit(" ++ toString size ++ ")"
  | .infer => "Infer"
  | .operand position => "Operand(" ++ toString position ++ ")"

/-- How messages show a function of one number. -/
def UnaryKind.describe : UnaryKind → String
  | .neg => "Neg"
  | .abs => "Abs"
  | .exp => "Exp"
  | .log => "Log"

-----------------------------------------------------------------------------------------
-- Faults of nodes
-----------------------------------------------------------------------------------------

/-- Why a kernel refused its operands. -/
inductive KernelFault where
  -- operands
  | missingOperand (index : Nat)
  | tensorExpected
  | listExpected
  | tupleExpected
  | integerExpected (dtype : DType) (count : Nat)
  | noTupleElement (index : Nat)
  -- literals
  | unknownExtent
  | literalSize (bytes count : Nat) (dtype : DType)
  | notAnInteger (value : Float)
  -- numbers
  | divisionByZero
  | broadcast (lhs rhs : Nat)
  | emptyReduction
  | emptyArgMax
  | noAxis (axis : Int) (rank : Nat)
  -- movement
  | droppedAxis (axis size : Nat)
  | negativeExtent (operation : String) (value : Int)
  | allocRank
  | allocExtent (size target : Nat)
  | tooManyIndices
  | indexBounds (index : Int) (axis size : Nat)
  | zeroStep
  | inferredReshape (count : Nat) (extents : List ReshapeExtent)
  | reshape (count : Nat) (sizes : List Nat)
  -- matrices
  | productRanks
  | contraction (lhs rhs : Nat)
  | noBlocks
  | blockRank (sizes : List Nat)
  | notSquare (sizes : List Nat)
  | rightSide (coefficients sizes : List Nat)
  | singular (row : Nat)
  -- lists
  | listIndex
  | notInList
  /-- A fault that was put in on purpose. -/
  | injected
  deriving DecidableEq

namespace KernelFault

/-- What is wrong. -/
def describe : KernelFault → String
  | .missingOperand index => "missing operand " ++ toString index
  | .tensorExpected => "expected a tensor value"
  | .listExpected => "expected a list value"
  | .tupleExpected => "get_tuple_element expects a tuple"
  | .integerExpected dtype count =>
    "expected an integer scalar, got " ++ dtype.name ++ " with " ++ toString count
      ++ " elements"
  | .noTupleElement index => "tuple has no element " ++ toString index
  | .unknownExtent => "unknown dimension in a runtime tensor"
  | .literalSize bytes count dtype =>
    "literal holds " ++ toString bytes ++ " bytes, expected " ++ toString count ++ " "
      ++ dtype.name ++ " elements"
  | .notAnInteger value => Shortest.render value ++ " is not an integer index"
  | .divisionByZero => "integer division by zero"
  | .broadcast lhs rhs =>
    "operands could not be broadcast together: " ++ toString lhs ++ " vs " ++ toString rhs
  | .emptyReduction => "zero-size reduction has no identity for max/min"
  | .emptyArgMax => "attempt to get argmax of an empty sequence"
  | .noAxis axis rank =>
    "axis " ++ toString axis ++ " out of range for rank " ++ toString rank
  | .droppedAxis axis size =>
    "dimshuffle drops axis " ++ toString axis ++ " of extent " ++ toString size
  | .negativeExtent operation value =>
    operation ++ " extent must be non-negative, got " ++ toString value
  | .allocRank => "alloc value has higher rank than its target"
  | .allocExtent size target =>
    "alloc cannot broadcast extent " ++ toString size ++ " to " ++ toString target
  | .tooManyIndices => "too many indices for subtensor"
  | .indexBounds index axis size =>
    "index " ++ toString index ++ " is out of bounds for axis " ++ toString axis
      ++ " with size " ++ toString size
  | .zeroStep => "slice step cannot be zero"
  | .inferredReshape count extents =>
    "cannot reshape " ++ toString count ++ " elements into "
      ++ bracketed (extents.map ReshapeExtent.describe)
  | .reshape count sizes =>
    "cannot reshape " ++ toString count ++ " elements into " ++ describeSizes sizes
  | .productRanks => "dot expects rank 1 or 2 operands"
  | .contraction lhs rhs =>
    "dot contracting extents differ: " ++ toString lhs ++ " vs " ++ toString rhs
  | .noBlocks => "block_diag needs at least one block"
  | .blockRank sizes =>
    "block_diag blocks must be matrices, got dims " ++ describeSizes sizes
  | .notSquare sizes => "expected square matrix, got dims " ++ describeSizes sizes
  | .rightSide coefficients sizes =>
    "shapes of a " ++ describeSizes coefficients ++ " and b " ++ describeSizes sizes
      ++ " are incompatible"
  | .singular row => "singular matrix: resolution failed at diagonal " ++ toString row
  | .listIndex => "list index out of range"
  | .notInList => "tensor is not in list"
  | .injected => "injected"

end KernelFault

-----------------------------------------------------------------------------------------
-- Faults of runs
-----------------------------------------------------------------------------------------

/-- Why a run failed. -/
inductive RunFault where
  | kernel (fault : KernelFault)
  /-- A fault of the node at a position of a graph. -/
  | located (graph : String) (position : Nat) (value : ValueId) (operation : String)
      (fault : RunFault)
  | noEntry
  | inputCount (graph : String) (expected found : Nat)
  | order (graph : String) (error : GraphError)
  | inputType (graph : String) (index : Nat) (value : ValueId) (type : ValueType)
  | unavailable (reader value : ValueId)
  | noResult (graph : String) (value : ValueId)
  deriving DecidableEq

namespace RunFault

/-- What is wrong. -/
def describe : RunFault → String
  | .kernel fault => fault.describe
  | .located graph position value operation fault =>
    "@" ++ graph ++ " body[" ++ toString position ++ "] " ++ value.describe ++ " = "
      ++ operation ++ ": " ++ fault.describe
  | .noEntry => "entry function not found"
  | .inputCount graph expected found =>
    "@" ++ graph ++ " expects " ++ toString expected ++ " inputs, got " ++ toString found
  | .order graph error => "@" ++ graph ++ ": " ++ error.message
  | .inputType graph index value type =>
    "@" ++ graph ++ " input " ++ toString index ++ " (" ++ value.describe
      ++ ") does not match its declared type " ++ type.describe
  | .unavailable reader value =>
    reader.describe ++ " reads " ++ value.describe
      ++ ", which was consumed or never defined"
  | .noResult graph value =>
    "result " ++ value.describe ++ " of @" ++ graph ++ " is unavailable"

end RunFault

-----------------------------------------------------------------------------------------
-- Errors
-----------------------------------------------------------------------------------------

/-- Why an execution failed. -/
inductive BackendError where
  | type (error : TypeError)
  /-- A value holds numbers that are not finite, at the given positions. -/
  | notFinite (operation : String) (value : ValueId) (positions : List Nat)
  /-- A function of one number that the element type does not have. -/
  | unsupported (kind : UnaryKind) (dtype : DType)
  | execution (fault : RunFault)
  | breach (breach : Breach)
  deriving DecidableEq

namespace BackendError

/-- The error of a kernel. -/
def ofKernel (fault : KernelFault) : BackendError := .execution (.kernel fault)

/-- The message. A breach has none. -/
def message : BackendError → String
  | .type error => error.message
  | .notFinite operation value positions =>
    "Non-numeric values (nan or inf) returned by " ++ operation ++ " for " ++ value.describe
      ++ " at flat positions " ++ describeSizes positions
  | .unsupported kind dtype =>
    "elementwise_unary is not implemented: " ++ kind.describe ++ " on " ++ dtype.name
  | .execution fault => "backend execution failure: " ++ fault.describe
  | .breach _ => ""

end BackendError

/-- The outcome of an execution. -/
abbrev Outcome (α : Type) := Except BackendError α

/-- Fails with the fault of a kernel. -/
def Outcome.fail {α : Type} (fault : KernelFault) : Outcome α := .error (.ofKernel fault)

/-- Requires an item; a missing one is a broken promise. -/
def Outcome.require {α : Type} (breach : Breach) : Option α → Outcome α
  | some value => .ok value
  | none => .error (.breach breach)

end Dataflow
