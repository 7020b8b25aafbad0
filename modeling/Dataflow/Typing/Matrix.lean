import Dataflow.Typing.Operand

/-! Types of products, block matrices and triangular systems. -/

namespace Dataflow.Typing

/-- The contracted extents of a product, and the extents that are left. -/
def productDims : List Dimension → List Dimension
    → Check (Dimension × Dimension × List Dimension)
  | [k], [l] => .ok (k, l, [])
  | [m, k], [l] => .ok (k, l, [m])
  | [k], [l, n] => .ok (k, l, [n])
  | [m, k], [l, n] => .ok (k, l, [m, n])
  | lhs, rhs => .error (.shape (.productRanks lhs.length rhs.length))

/-- The type of a product of vectors or matrices. -/
def product (operands : List ValueType) : Check ValueType := do
  arity 2 operands
  let lhs ← tensorAt operands 0
  let rhs ← tensorAt operands 1
  sameFloat lhs rhs
  let (k, l, dims) ← productDims lhs.shape.dims rhs.shape.dims
  if (k.meet l).isNone then .error (.shape (.contraction k l))
  else .ok (.tensor ⟨lhs.dtype, ⟨dims⟩⟩)

/-- The sum of two extents, where both are known. -/
def addDims : Dimension → Dimension → Dimension
  | .static a, .static b => .static (a + b)
  | _, _ => .unknown

/-- The extents of all blocks together; `index` is the number of the first one. -/
def blockDims (dtype : DType) (operands : List ValueType) : Nat → List ValueType
    → Dimension → Dimension → Check (List Dimension)
  | _, [], rows, columns => .ok [rows, columns]
  | index, _ :: rest, rows, columns => do
    let block ← tensorAt operands index
    if block.dtype ≠ dtype then .error (.dtype (.block index block.dtype dtype))
    else match block.shape.dims with
      | [m, n] =>
        blockDims dtype operands (index + 1) rest (addDims rows m) (addDims columns n)
      | dims => .error (.shape (.blockRank index dims.length))

/-- The type of a block diagonal matrix. -/
def blockDiagonal (operands : List ValueType) : Check ValueType :=
  if operands.isEmpty then .error (.parameter .noBlocks)
  else do
    let first ← tensorAt operands 0
    let dims ← blockDims first.dtype operands 0 operands (.static 0) (.static 0)
    .ok (.tensor ⟨first.dtype, ⟨dims⟩⟩)

/-- The number of equations of a system. -/
def systemSize (coefficients : TensorType) : Check Dimension :=
  match coefficients.shape.dims with
  | [m, n] =>
    match m.meet n with
    | some dim => .ok dim
    | none => .error (.shape .coefficientExtents)
  | _ => .error (.shape .coefficientRank)

/-- The extents of the solution. -/
def solutionDims (size : Dimension) : List Dimension → Check (List Dimension)
  | dims@(dim :: rest) =>
    if dims.length ≤ 2 then
      match dim.meet size with
      | some dim => .ok (dim :: rest)
      | none => .error (.shape (.rightSideExtent dim size))
    else .error (.shape .rightSideRank)
  | [] => .error (.shape .rightSideRank)

/-- The type of the solution of a triangular system. -/
def solution (operands : List ValueType) : Check ValueType := do
  arity 2 operands
  let coefficients ← tensorAt operands 0
  let rightSide ← tensorAt operands 1
  sameFloat coefficients rightSide
  let size ← systemSize coefficients
  let dims ← solutionDims size rightSide.shape.dims
  .ok (.tensor ⟨rightSide.dtype, ⟨dims⟩⟩)

end Dataflow.Typing
