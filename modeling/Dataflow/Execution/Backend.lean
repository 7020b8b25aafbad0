import Dataflow.Execution.Kernel
import Dataflow.Log

/-!
Backends. The reference backend evaluates every operation with its kernel. The accelerated one
has kernels of its own for products and triangular systems of floating-point numbers of one
type, and leaves everything else to the reference.
-/

namespace Dataflow

/-- A way to evaluate operations. -/
structure Backend where
  name : String
  /-- Whether an operation has a kernel that is not only the reference. -/
  supports : Operation → Bool
  execute : Operation → Inputs → Outcome Value
  /-- What a backend logs about an operation. -/
  notes : Operation → Inputs → List LogLine

namespace Backend

/-- The reference backend. -/
def reference : Backend where
  name := "cpu"
  supports _ := true
  execute := Kernel.execute
  notes _ _ := []

-----------------------------------------------------------------------------------------
-- Acceleration
-----------------------------------------------------------------------------------------

/-- The name of the accelerated backend. -/
def acceleratedName : String := "faer"

/-- The operations that have accelerated kernels. -/
def isAccelerated : Operation → Bool
  | .dot | .solveTriangular _ => true
  | _ => false

/-- The accelerated kernel of an operation. A system is refused at the first zero of its
diagonal, from the start, before anything is solved.
-/
def acceleratedKernel? : Operation → Option (Tensor → Tensor → Outcome Tensor)
  | .dot => some Matrix.product
  | .solveTriangular system => some (Matrix.solveChecked system)
  | _ => none

/-- The operands that accelerated kernels take: two tensors of numbers of one type. -/
def acceleratedOperands? : Inputs → Option (Tensor × Tensor)
  | [.tensor lhs, .tensor rhs] =>
    if lhs.dtype.isFloat ∧ lhs.dtype = rhs.dtype then some (lhs, rhs) else none
  | _ => none

/-- Evaluates an operation with an accelerated kernel, if there is one and it takes the
operands.
-/
def accelerate? (operation : Operation) (inputs : Inputs) : Option (Outcome Value) := do
  let (lhs, rhs) ← acceleratedOperands? inputs
  let kernel ← acceleratedKernel? operation
  some ((kernel lhs rhs).map .tensor)

/-- Evaluates an operation with an accelerated kernel, or else with the reference. -/
def executeAccelerated (operation : Operation) (inputs : Inputs) : Outcome Value :=
  (accelerate? operation inputs).getD (Kernel.execute operation inputs)

/-- Where the log lines of backends come from. -/
def target : String := "tgraph::backend"

/-- The line about operands that an accelerated kernel does not take. -/
def declinedNotes (operation : Operation) (inputs : Inputs) : List LogLine :=
  if isAccelerated operation && (acceleratedOperands? inputs).isNone then
    [⟨.trace, target,
      acceleratedName ++ " declined " ++ operation.name ++ "; using the interpreter"⟩]
  else []

/-- The line about an operation without an accelerated kernel. -/
def fallbackNotes (operation : Operation) : List LogLine :=
  if isAccelerated operation then []
  else
    [⟨.trace, target,
      acceleratedName ++ ": " ++ operation.name ++ " falls back to the interpreter"⟩]

/-- The accelerated backend. -/
def accelerated : Backend where
  name := acceleratedName
  supports := isAccelerated
  execute := executeAccelerated
  notes operation inputs := fallbackNotes operation ++ declinedNotes operation inputs

/-- The accelerated kernels alone: a backend that does not say what it supports. -/
def acceleratedKernels : Backend where
  name := acceleratedName
  supports _ := true
  execute := executeAccelerated
  notes := declinedNotes

end Backend

end Dataflow
