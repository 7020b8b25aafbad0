import Dataflow.Literal
import Dataflow.Operation.Index
import Dataflow.Operation.Kind
import Dataflow.Operation.Shuffle

/-!
Operations: what a node does with its operands. Everything that is fixed when a graph is built
belongs to the operation; what is only known at run time comes from operands.
-/

namespace Dataflow

-----------------------------------------------------------------------------------------
-- Parameters
-----------------------------------------------------------------------------------------

/-- A reduction along some axes. Negative axes count from the end; no axes stand for all. -/
structure Reduction where
  kind : ReduceKind
  axes : List Int
  /-- Reduced axes stay, with extent one. -/
  keepAxes : Bool
  deriving DecidableEq

/-- How the coefficient matrix of a triangular system is read. -/
inductive MatrixView where
  | plain
  | transposed
  /-- Conjugation changes nothing on real numbers, so this is the transposed view. -/
  | conjugateTransposed
  deriving DecidableEq

/-- A triangular system of equations. -/
structure TriangularSystem where
  /-- Which triangle of the coefficient matrix holds the coefficients. -/
  lower : Bool
  view : MatrixView
  /-- The diagonal is taken for ones and not read. -/
  unitDiagonal : Bool
  /-- Operands and result must hold finite numbers. -/
  checkFinite : Bool
  deriving DecidableEq

/-- The system that stands if nothing else is said. -/
def TriangularSystem.standard : TriangularSystem := ⟨true, .plain, false, false⟩

-----------------------------------------------------------------------------------------
-- Operations
-----------------------------------------------------------------------------------------

/-- What a node does. -/
inductive Operation where
  | constant (literal : Literal)
  | unary (kind : UnaryKind)
  | binary (kind : BinaryKind)
  | reduce (reduction : Reduction)
  /-- The index of the first largest element along an axis. -/
  | argMax (axis : Int) (keepAxes : Bool)
  /-- The largest element along an axis, and the index of the first one. -/
  | maxAndArgMax (axis : Int)
  | tupleElement (index : Nat)
  | shuffle (order : ShuffleOrder)
  /-- Fills a new tensor of the given shape with a value. -/
  | alloc (extents : List ExtentSource)
  /-- Indexes the leading axes; the other ones are kept whole. -/
  | subtensor (entries : List IndexEntry)
  | reshape (extents : List ReshapeExtent)
  /-- The size of an axis, as a tensor. -/
  | extent (axis : Nat)
  | dot
  /-- Puts matrices on the diagonal of a larger one. -/
  | blockDiagonal
  | solveTriangular (system : TriangularSystem)
  | makeList
  | listGet (entry : IndexEntry)
  | listLength
  | listMutation (mutation : ListMutation) (inplace : Bool)
  | listIndex
  | listCount
  deriving DecidableEq

/-- Whether the result of an operation shares storage with an operand. -/
inductive StorageUse where
  /-- The result is new. -/
  | owned
  /-- The result may share storage with the operand at `position`. -/
  | viewOf (position : Nat)
  /-- The operand at `position` is destroyed: nothing may read it afterwards. -/
  | consumes (position : Nat)
  deriving DecidableEq

namespace Operation

/-- The name that texts use. -/
def name : Operation → String
  | .constant _ => "constant"
  | .unary kind => kind.name
  | .binary kind => kind.name
  | .reduce reduction => reduction.kind.name
  | .argMax _ _ => "argmax"
  | .maxAndArgMax _ => "max_and_argmax"
  | .tupleElement _ => "get_tuple_element"
  | .shuffle _ => "dimshuffle"
  | .alloc _ => "alloc"
  | .subtensor _ => "subtensor"
  | .reshape _ => "reshape"
  | .extent _ => "shape_i"
  | .dot => "dot"
  | .blockDiagonal => "block_diag"
  | .solveTriangular _ => "solve_triangular"
  | .makeList => "make_list"
  | .listGet _ => "list_getitem"
  | .listLength => "list_length"
  | .listMutation mutation _ => mutation.name
  | .listIndex => "list_index"
  | .listCount => "list_count"

/-- The storage of the result. -/
def storage : Operation → StorageUse
  | .listMutation _ true => .consumes 0
  | .listGet _ | .tupleElement _ | .shuffle _ | .reshape _ => .viewOf 0
  | _ => .owned

/-- Whether an operand is destroyed. -/
def isInplace : Operation → Bool
  | .listMutation _ inplace => inplace
  | _ => false

/-- The copying or in-place form of a list mutation. -/
def withInplace (inplace : Bool) : Operation → Option Operation
  | .listMutation mutation _ => some (.listMutation mutation inplace)
  | _ => none

/-- The revision of an operation's meaning; compiled programs of another revision are stale. -/
def revision : Operation → Nat
  | .subtensor _ | .solveTriangular _ => 2
  | _ => 1

end Operation

end Dataflow
