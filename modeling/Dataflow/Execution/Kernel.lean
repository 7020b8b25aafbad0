import Dataflow.Tensor.Elementwise
import Dataflow.Tensor.Matrix
import Dataflow.Tensor.Movement
import Dataflow.Tensor.Reduction
import Dataflow.Tensor.Sequence

/-! The kernel of every operation. Operands are taken as they are, without a look at types. -/

namespace Dataflow

/-- A part of a tuple. -/
def Inputs.tupleElement (inputs : Inputs) (index : Nat) : Outcome Value :=
  match inputs with
  | .tuple parts :: _ =>
    match parts[index]? with
    | some part => .ok part
    | none => .fail (.noTupleElement index)
  | _ => .fail .tupleExpected

namespace Kernel

/-- A tensor as a value. -/
def tensor (result : Outcome Tensor) : Outcome Value := result.map .tensor

/-- Applies a kernel to the first operand. -/
def onFirst (kernel : Tensor → Outcome Tensor) (inputs : Inputs) : Outcome Value := do
  let input ← inputs.tensor 0
  tensor (kernel input)

/-- Applies a kernel to the first two operands. -/
def onTwo (kernel : Tensor → Tensor → Outcome Tensor) (inputs : Inputs) : Outcome Value := do
  let lhs ← inputs.tensor 0
  let rhs ← inputs.tensor 1
  tensor (kernel lhs rhs)

/-- The largest elements and their places, as a pair. -/
def maxAndArgMax (axis : Int) (inputs : Inputs) : Outcome Value := do
  let input ← inputs.tensor 0
  let (values, places) ← Reduce.maxAndArgMax axis input
  .ok (.tuple [.tensor values, .tensor places])

/-- Evaluates an operation on the values of its operands. -/
def execute (operation : Operation) (inputs : Inputs) : Outcome Value :=
  match operation with
  | .constant literal => tensor (Tensor.ofLiteral literal)
  | .unary kind => onFirst (Elementwise.unary kind) inputs
  | .binary kind => onTwo (Elementwise.binary kind) inputs
  | .reduce reduction => onFirst (Reduce.reduce reduction) inputs
  | .argMax axis keepAxes => onFirst (Reduce.argMax axis keepAxes) inputs
  | .maxAndArgMax axis => maxAndArgMax axis inputs
  | .tupleElement index => inputs.tupleElement index
  | .shuffle order => onFirst (Movement.shuffle order) inputs
  | .alloc extents => tensor (Movement.alloc extents inputs)
  | .subtensor entries => tensor (Movement.subtensor entries inputs)
  | .reshape extents => tensor (Movement.reshape extents inputs)
  | .extent axis => onFirst (Movement.extent axis) inputs
  | .dot => onTwo Matrix.product inputs
  | .blockDiagonal => do
    let blocks ← inputs.tensors
    tensor (Matrix.blockDiagonal blocks)
  | .solveTriangular system => onTwo (Matrix.solve system) inputs
  | .makeList => inputs.tensors.map .list
  | .listGet entry => Sequence.get entry inputs
  | .listLength => do
    let items ← inputs.list 0
    .ok (.tensor (.ofSize items.length))
  | .listMutation mutation _ => (Sequence.mutate mutation inputs).map .list
  | .listIndex => tensor (Sequence.position inputs)
  | .listCount => tensor (Sequence.count inputs)

end Kernel

end Dataflow
