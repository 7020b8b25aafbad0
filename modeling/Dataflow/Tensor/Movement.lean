import Dataflow.Shape.Slice
import Dataflow.Tensor.Elementwise

/-! Kernels that move elements: shuffling axes, filling, indexing and reshaping. -/

namespace Dataflow.Movement

-----------------------------------------------------------------------------------------
-- Shuffling
-----------------------------------------------------------------------------------------

/-- What an axis of a result takes from the axes of the source: `unit` if it is new. -/
def pick (items : List Nat) (unit : Nat) : ShuffleAxis → Outcome Nat
  | .broadcast => .ok unit
  | .axis source => Outcome.require .missingAxis items[source]?

/-- Dropped axes must have one element. -/
def checkDropped (sizes : List Nat) (axis : Nat) : Outcome Unit :=
  match sizes[axis]? with
  | some 1 => .ok ()
  | some size => .fail (.droppedAxis axis size)
  | none => .ok ()

/-- Shuffles the axes of a tensor. -/
def shuffle (order : ShuffleOrder) (input : Tensor) : Outcome Tensor := do
  (order.dropped input.rank).forM (checkDropped input.sizes)
  let sizes ← order.mapM (pick input.sizes 1)
  let steps ← order.mapM (pick (RowMajor.steps input.sizes) 0)
  input.gather sizes (RowMajor.strided sizes steps)

-----------------------------------------------------------------------------------------
-- Sizes from operands
-----------------------------------------------------------------------------------------

/-- The size that an operand holds, which must not be negative. -/
def operandSize (operation : String) (inputs : Inputs) (position : Nat) : Outcome Nat := do
  let value ← inputs.index position
  if value < 0 then .fail (.negativeExtent operation value) else .ok value.toNat

-----------------------------------------------------------------------------------------
-- Filling
-----------------------------------------------------------------------------------------

/-- The size of an axis of a new tensor. -/
def allocSize (inputs : Inputs) : ExtentSource → Outcome Nat
  | .static size => .ok size
  | .operand position => operandSize "alloc" inputs position

/-- An axis of a value must have one element or the size of its target. -/
def checkFill (size target : Nat) : Outcome Unit :=
  if size = 1 ∨ size = target then .ok () else .fail (.allocExtent size target)

/-- The sizes of a new tensor, which must have room for the axes of its value. -/
def allocSizes (extents : List ExtentSource) (value : Tensor) (inputs : Inputs)
    : Outcome (List Nat) := do
  let target ← extents.mapM (allocSize inputs)
  if target.length < value.rank then .fail .allocRank
  else
    (value.sizes.zip (target.drop (target.length - value.rank))).forM fun (size, target) =>
      checkFill size target
    .ok target

/-- Fills a new tensor with a value. -/
def alloc (extents : List ExtentSource) (inputs : Inputs) : Outcome Tensor := do
  let value ← inputs.tensor 0
  let target ← allocSizes extents value inputs
  value.gather target (Elementwise.broadcastPositions value.sizes target)

-----------------------------------------------------------------------------------------
-- Indexing
-----------------------------------------------------------------------------------------

/-- A bound of a slice. -/
def bound (inputs : Inputs) : Option IndexScalar → Outcome (Option Int)
  | none => .ok none
  | some scalar => do
    let value ← inputs.scalar scalar
    .ok (some value)

/-- The walk of a slice over `length` positions. -/
def sliceWalk (bounds : SliceBounds) (inputs : Inputs) (length : Nat)
    : Outcome Slice.Walk := do
  let step ← bound inputs bounds.step
  if step = some 0 then .fail .zeroStep
  else
    let start ← bound inputs bounds.start
    let stop ← bound inputs bounds.stop
    .ok (Slice.walk length start stop step)

/-- The positions that a slice takes from `length` ones. -/
def slicePositions (bounds : SliceBounds) (inputs : Inputs) (length : Nat)
    : Outcome (List Nat) := do
  let walk ← sliceWalk bounds inputs length
  .ok walk.positions

/-- What is taken from an axis: the walk over its places, and whether the axis stays. -/
structure Selection where
  walk : Slice.Walk
  isKept : Bool

/-- What an entry takes from an axis. -/
def select (inputs : Inputs) (axis size : Nat) : IndexEntry → Outcome Selection
  | .scalar scalar => do
    let index ← inputs.scalar scalar
    match Slice.position? index size with
    | some position => .ok ⟨.single position, false⟩
    | none => .fail (.indexBounds index axis size)
  | .slice bounds => do
    let walk ← sliceWalk bounds inputs size
    .ok ⟨walk, true⟩

/-- What is taken from every axis, one after the other; `axis` is the number of the first one.
Axes without an entry are kept whole.
-/
def selections (inputs : Inputs)
    : Nat → List Nat → List IndexEntry → List (Outcome Selection)
  | _, [], _ => []
  | axis, size :: sizes, [] =>
    .ok ⟨.whole size, true⟩ :: selections inputs (axis + 1) sizes []
  | axis, size :: sizes, entry :: entries =>
    select inputs axis size entry :: selections inputs (axis + 1) sizes entries

/-- The positions of the elements that lie on the walks of all axes. A walk without places
leaves no position, however long the others are.
-/
def crossings (walks : List Slice.Walk) (strides : List Nat) : List Nat :=
  if walks.any fun walk => walk.count = 0 then []
  else
    RowMajor.select
      (List.zipWith (fun walk stride => walk.positions.map (· * stride)) walks strides)

/-- Takes a part of a tensor. -/
def subtensor (entries : List IndexEntry) (inputs : Inputs) : Outcome Tensor := do
  let input ← inputs.tensor 0
  if input.rank < entries.length then .fail .tooManyIndices
  else
    let taken ← (selections inputs 0 input.sizes entries).mapM id
    let sizes := (taken.filter (·.isKept)).map (·.walk.count)
    input.gather sizes (crossings (taken.map (·.walk)) (RowMajor.steps input.sizes))

-----------------------------------------------------------------------------------------
-- Reshaping
-----------------------------------------------------------------------------------------

/-- A size of a new shape, and whether it is to be inferred. -/
def reshapeSize (inputs : Inputs) : ReshapeExtent → Outcome (Nat × Bool)
  | .explicit size => .ok (size, false)
  | .infer => .ok (1, true)
  | .operand position => do
    let size ← operandSize "reshape" inputs position
    .ok (size, false)

/-- Puts a size in the last place that is to be inferred. Places are listed from the last one.
-/
def fillInferred (size : Nat) : List (Nat × Bool) → List Nat
  | [] => []
  | (_, true) :: rest => size :: rest.map (·.1)
  | (other, false) :: rest => other :: fillInferred size rest

/-- Gives a tensor a new shape. -/
def reshape (extents : List ReshapeExtent) (inputs : Inputs) : Outcome Tensor := do
  let input ← inputs.tensor 0
  let count := input.elements.size
  let places ← extents.mapM (reshapeSize inputs)
  let sizes := places.map (·.1)
  let known := RowMajor.count sizes
  if places.any (·.2) then
    if known = 0 ∨ count % known ≠ 0 then .fail (.inferredReshape count extents)
    else .ok ⟨(fillInferred (count / known) places.reverse).reverse, input.elements⟩
  else if known = count then .ok ⟨sizes, input.elements⟩
  else .fail (.reshape count sizes)

/-- The size of an axis. -/
def extent (axis : Nat) (input : Tensor) : Outcome Tensor :=
  match input.sizes[axis]? with
  | some size => .ok (.ofSize size)
  | none => .fail (.noAxis axis input.rank)

end Dataflow.Movement
