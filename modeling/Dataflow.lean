import Dataflow.Compile.Basic
import Dataflow.Conformance.Catalog
import Dataflow.Conformance.Check
import Dataflow.Conformance.Indexing
import Dataflow.Conformance.Lists
import Dataflow.Conformance.Matrices
import Dataflow.Conformance.Observer
import Dataflow.Conformance.Reductions
import Dataflow.DType
import Dataflow.Encoding.Error
import Dataflow.Encoding.Graph
import Dataflow.Encoding.Operation
import Dataflow.Encoding.Pass
import Dataflow.Encoding.Session
import Dataflow.Encoding.Type
import Dataflow.Encoding.Value
import Dataflow.Execution.Backend
import Dataflow.Execution.Error
import Dataflow.Execution.Kernel
import Dataflow.Execution.Memory
import Dataflow.Execution.Run
import Dataflow.Graph.Basic
import Dataflow.Graph.Builder
import Dataflow.Graph.Error
import Dataflow.Graph.Fingerprint
import Dataflow.Graph.Order
import Dataflow.Graph.Storage
import Dataflow.Graph.Text
import Dataflow.HostValue
import Dataflow.Json.Basic
import Dataflow.Json.Decode
import Dataflow.Json.Printer
import Dataflow.Json.Reader
import Dataflow.Literal
import Dataflow.Log
import Dataflow.Number.Binary
import Dataflow.Number.Increasing
import Dataflow.Number.Shortest
import Dataflow.Number.Word
import Dataflow.Operation.Basic
import Dataflow.Operation.Index
import Dataflow.Operation.Kind
import Dataflow.Operation.Shuffle
import Dataflow.Pass.Basic
import Dataflow.Pass.Catalog
import Dataflow.Pass.Cleanup
import Dataflow.Pass.Error
import Dataflow.Pass.Optimizer
import Dataflow.Proofs.Compile.Recency
import Dataflow.Proofs.Compile.Schedulable
import Dataflow.Proofs.Compile.Transparency
import Dataflow.Proofs.Encoding.Programs
import Dataflow.Proofs.Execution.Acceleration
import Dataflow.Proofs.Execution.Checked
import Dataflow.Proofs.Execution.Congruence
import Dataflow.Proofs.Execution.Copying
import Dataflow.Proofs.Execution.Finiteness
import Dataflow.Proofs.Execution.Interpretations
import Dataflow.Proofs.Execution.Progress
import Dataflow.Proofs.Execution.Reordering
import Dataflow.Proofs.Execution.Runs
import Dataflow.Proofs.Execution.Safety
import Dataflow.Proofs.Graph.Calls
import Dataflow.Proofs.Graph.Destruction
import Dataflow.Proofs.Graph.LeastOrder
import Dataflow.Proofs.Graph.Ordering
import Dataflow.Proofs.Graph.Sorting
import Dataflow.Proofs.Pass.Cleanup
import Dataflow.Proofs.Pass.FastRun
import Dataflow.Proofs.Pass.Idempotence
import Dataflow.Proofs.Pass.Inplace
import Dataflow.Proofs.Pass.NormalForm
import Dataflow.Proofs.Pass.Preservation
import Dataflow.Proofs.Pass.Reports
import Dataflow.Proofs.Pass.WellTyped
import Dataflow.Proofs.Rewrite.Additions
import Dataflow.Proofs.Rewrite.Atomicity
import Dataflow.Proofs.Rewrite.Budgets
import Dataflow.Proofs.Rewrite.Building
import Dataflow.Proofs.Rewrite.Changes
import Dataflow.Proofs.Rewrite.Description
import Dataflow.Proofs.Rewrite.EditSequences
import Dataflow.Proofs.Rewrite.Edits
import Dataflow.Proofs.Rewrite.FixedPoint
import Dataflow.Proofs.Rewrite.Placement
import Dataflow.Proofs.Rewrite.Replacement
import Dataflow.Proofs.Rewrite.Retyping
import Dataflow.Proofs.Rewrite.Rules.Negations
import Dataflow.Proofs.Rewrite.Rules.Upstream
import Dataflow.Proofs.Rewrite.TypedEdits
import Dataflow.Proofs.Rewrite.Versions
import Dataflow.Proofs.Shape.Orders
import Dataflow.Proofs.Shape.Points
import Dataflow.Proofs.Shape.Slices
import Dataflow.Proofs.Tensor.BlockDiagonals
import Dataflow.Proofs.Tensor.Elementwise
import Dataflow.Proofs.Tensor.Filling
import Dataflow.Proofs.Tensor.FirstPlaces
import Dataflow.Proofs.Tensor.HostValues
import Dataflow.Proofs.Tensor.Indexing
import Dataflow.Proofs.Tensor.IntegerArithmetic
import Dataflow.Proofs.Tensor.Largest
import Dataflow.Proofs.Tensor.Matrix
import Dataflow.Proofs.Tensor.Movement
import Dataflow.Proofs.Tensor.Reduction
import Dataflow.Proofs.Tensor.Relocation
import Dataflow.Proofs.Tensor.Searching
import Dataflow.Proofs.Tensor.Slicing
import Dataflow.Proofs.Tensor.TriangularSystems
import Dataflow.Proofs.Tensor.Validity
import Dataflow.Proofs.Typing.Monotonicity
import Dataflow.Proofs.Typing.Operands
import Dataflow.Proofs.Typing.TypeOrder
import Dataflow.Rewrite.Index
import Dataflow.Rewrite.Rule
import Dataflow.Rewrite.Rules.ListMutation
import Dataflow.Rewrite.Rules.MaxAndArgMax
import Dataflow.Rewrite.Rules.Negation
import Dataflow.Rewrite.Rules.Shuffle
import Dataflow.Rewrite.Session
import Dataflow.Rewrite.Sweep
import Dataflow.Settings
import Dataflow.Shape.Basic
import Dataflow.Shape.RowMajor
import Dataflow.Shape.Slice
import Dataflow.Table
import Dataflow.Tensor.Basic
import Dataflow.Tensor.Elements
import Dataflow.Tensor.Elementwise
import Dataflow.Tensor.Matrix
import Dataflow.Tensor.Movement
import Dataflow.Tensor.Reduction
import Dataflow.Tensor.Sequence
import Dataflow.TensorType
import Dataflow.Typing.Axes
import Dataflow.Typing.Error
import Dataflow.Typing.Infer
import Dataflow.Typing.Matrix
import Dataflow.Typing.Operand
import Dataflow.ValueId
import Dataflow.ValueType
