import Dataflow.Compile.Basic
import Dataflow.Execution.Run

/-!
Observed backends. An observer passes every execution on to a backend and remembers it. It can
also tamper with the executions of an operation, to see whether a check notices.
-/

namespace Dataflow

-----------------------------------------------------------------------------------------
-- Tampering
-----------------------------------------------------------------------------------------

/-- What is put in the place of a result. -/
inductive FaultKind where
  /-- A failure. -/
  | error
  /-- The result with all bytes set to zero. -/
  | zero
  | emptyList
  | emptyTuple
  deriving DecidableEq

/-- The fault of some name. -/
def FaultKind.named? : String → Option FaultKind
  | "error" => some .error
  | "zero" => some .zero
  | "list" => some .emptyList
  | "tuple" => some .emptyTuple
  | _ => none

/-- A fault in the executions of an operation. -/
structure Fault where
  /-- The name of the operation. -/
  operation : String
  kind : FaultKind
  /-- The number of the execution, from zero on; none for all of them. -/
  occurrence : Option Nat
  deriving DecidableEq

namespace Tensor

/-- The tensor with all bytes set to zero. -/
def cleared (tensor : Tensor) : Tensor :=
  ⟨tensor.sizes, .ofInts tensor.dtype (List.replicate tensor.elements.size 0)⟩

end Tensor

namespace Value

mutual

/-- The value with all bytes set to zero. -/
def cleared : Value → Value
  | .tensor content => .tensor content.cleared
  | .list items => .list (items.map Tensor.cleared)
  | .tuple parts => .tuple (clearedParts parts)

/-- The parts of a tuple with all bytes set to zero. -/
def clearedParts : List Value → List Value
  | [] => []
  | part :: parts => part.cleared :: clearedParts parts

end

end Value

namespace Fault

/-- The number of executions of an operation. -/
def count (operation : String) (executions : List Execution) : Nat :=
  executions.countP fun execution => execution.node.operation.name = operation

/-- Whether a fault hits the next execution. -/
def hits (fault : Fault) (earlier : List Execution) (node : Node) : Bool :=
  node.operation.name = fault.operation &&
    match fault.occurrence with
    | none => true
    | some number => count fault.operation earlier = number

/-- What a fault makes of a result. -/
def apply (kind : FaultKind) (result : Outcome Value) : Outcome Value :=
  match kind with
  | .error => .fail .injected
  | .zero => result.map Value.cleared
  | .emptyList => .ok (.list [])
  | .emptyTuple => .ok (.tuple [])

end Fault

-----------------------------------------------------------------------------------------
-- Observers
-----------------------------------------------------------------------------------------

/-- A backend with a fault, if there is one. -/
structure Observer where
  backend : Backend
  fault : Option Fault

namespace Observer

/-- The fault that hits the next execution. -/
def hit? (observer : Observer) (earlier : List Execution) (node : Node) : Option Fault :=
  observer.fault.filter fun fault => fault.hits earlier node

/-- Executes a node, with its fault. -/
def executor (observer : Observer) : Executor := fun earlier node inputs =>
  let result := observer.backend.execute node.operation inputs
  match observer.hit? earlier node with
  | some fault => Fault.apply fault.kind result
  | none => result

/-- Whether the backend is asked to execute a node. -/
def asksBackend (observer : Observer) (earlier : List Execution) (node : Node) : Bool :=
  match observer.hit? earlier node with
  | some fault => fault.kind = .zero
  | none => true

/-- The log of executions, the first of which came after `earlier`. -/
def log (observer : Observer) : List Execution → List Execution → List LogLine
  | _, [] => []
  | earlier, execution :: rest =>
    let lines := Run.executionLines observer.backend execution
    (if observer.asksBackend earlier execution.node then lines else lines.take 1)
      ++ observer.log (earlier ++ [execution]) rest

end Observer

end Dataflow
