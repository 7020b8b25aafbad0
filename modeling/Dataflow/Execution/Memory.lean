import Dataflow.Execution.Backend

/-!
Memory. Results are stored in pieces of eight-byte words, and a piece has fewer than 2^63 bytes.
Kernels are defined without a look at memory; a bounded backend asks for the pieces of an
operation before it evaluates it. Operands are in memory already, so only what can be larger
than they are counts: a tensor without elements may still have huge axes.
-/

namespace Dataflow

namespace Memory

-----------------------------------------------------------------------------------------
-- Pieces
-----------------------------------------------------------------------------------------

/-- Pieces have fewer bytes than this. -/
def limit : Nat := 1 <<< 63

/-- The number of bytes of a word. -/
def wordSize : Nat := 8

/-- Whether there can be a piece of some words. -/
def holds (words : Nat) : Bool := wordSize * words < limit

/-- The results before the first error. -/
def untilError {ε α : Type} : List (Except ε α) → List α
  | .ok value :: rest => value :: untilError rest
  | _ => []

/-- The pieces that the kernel of an operation asks for, in words. A subtensor asks for the places
of one axis after the other, until an axis refuses its entry; other kernels look at their
operands first, and an error says that they refuse them.
-/
def pieces (operation : Operation) (inputs : Inputs) : Outcome (List Nat) :=
  match operation with
  | .reduce reduction => do
    let input ← inputs.tensor 0
    let axes ← Reduce.combinedAxes reduction input.sizes
    .ok [RowMajor.count (Reduce.keptSizes axes 0 input.sizes)]
  | .argMax axis _ | .maxAndArgMax axis => do
    let input ← inputs.tensor 0
    let axis ← Reduce.resolveAxis axis input.rank
    if input.sizes[axis]? = some 0 then .fail .emptyArgMax
    else .ok [RowMajor.count (Reduce.keptSizes [axis] 0 input.sizes)]
  | .alloc extents => do
    let value ← inputs.tensor 0
    let target ← Movement.allocSizes extents value inputs
    .ok [RowMajor.count target]
  | .subtensor entries => do
    let input ← inputs.tensor 0
    if input.rank < entries.length then .fail .tooManyIndices
    else
      .ok ((untilError (Movement.selections inputs 0 input.sizes entries)).map (·.walk.count))
  | .dot => do
    let lhs ← inputs.tensor 0
    let rhs ← inputs.tensor 1
    let (m, _, n) ← Matrix.contraction lhs.sizes rhs.sizes
    .ok [m * n]
  | .blockDiagonal => do
    let blocks ← inputs.tensors
    let sizes ← blocks.mapM Matrix.blockSizes
    .ok [RowMajor.count (Matrix.diagonalSizes sizes)]
  | _ => .ok []

/-- Whether memory is enough for an operation. One that refuses its operands needs none. -/
def isEnough (operation : Operation) (inputs : Inputs) : Bool :=
  match pieces operation inputs with
  | .ok words => words.all holds
  | .error _ => true

-----------------------------------------------------------------------------------------
-- Outside of kernels
-----------------------------------------------------------------------------------------

/-- Asks for the list of axes that a reduction combines. No axes stand for all. -/
def checkAxes (axes : List Int) (rank : Nat) : Except Breach Unit :=
  if axes.isEmpty && !holds rank then .error .memory else .ok ()

/-- A literal of zeros; `none` unless the number of bytes is known and fits a word. -/
def zeros? (type : TensorType) : Except Breach (Option Literal) :=
  match type.byteCount? with
  | some count => if count < limit then .ok (Literal.zeros? type) else .error .memory
  | none => .ok none

end Memory

-----------------------------------------------------------------------------------------
-- Bounded backends
-----------------------------------------------------------------------------------------

namespace Backend

/-- The backend that asks for memory before it evaluates an operation. -/
def bounded (backend : Backend) : Backend :=
  { backend with
    execute operation inputs :=
      if Memory.isEnough operation inputs then backend.execute operation inputs
      else .error (.breach .memory) }

/-- The backend that goes by some name. -/
def named? : String → Option Backend
  | "cpu" => some reference.bounded
  | "faer" => some accelerated.bounded
  | "generic" => some acceleratedKernels.bounded
  | _ => none

end Backend

end Dataflow
