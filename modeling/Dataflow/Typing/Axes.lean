import Dataflow.Number.Increasing
import Dataflow.Number.Word
import Dataflow.Shape.Slice
import Dataflow.Typing.Operand

/-! Axes of reductions, shuffles and indexing, and the shapes they lead to. -/

namespace Dataflow.Typing

-----------------------------------------------------------------------------------------
-- Reduced axes
-----------------------------------------------------------------------------------------

/-- One axis, counted from the end if it is negative. -/
def singleAxis (axis : Int) (rank : Nat) : Check Nat :=
  match Slice.position? axis rank with
  | some position => .ok position
  | none => .error (.axis axis rank)

/-- The axes that a reduction combines, in increasing order. No axes stand for all. -/
def reducedAxes (axes : List Int) (rank : Nat) : Check (List Nat) :=
  if axes.isEmpty then .ok (List.range rank)
  else do
    let positions ← axes.mapM (singleAxis · rank)
    .ok (increasing positions)

/-- The extents that are left; `axis` is the number of the first one. Reduced axes go away, or
stay with extent one.
-/
def reducedDims (axes : List Nat) (keepAxes : Bool) : Nat → List Dimension → List Dimension
  | _, [] => []
  | axis, dim :: dims =>
    let rest := reducedDims axes keepAxes (axis + 1) dims
    if !axes.contains axis then dim :: rest
    else if keepAxes then .static 1 :: rest
    else rest

/-- The shape after a reduction. -/
def reducedShape (shape : Shape) (axes : List Nat) (keepAxes : Bool) : Shape :=
  ⟨reducedDims axes keepAxes 0 shape.dims⟩

-----------------------------------------------------------------------------------------
-- Shuffled axes
-----------------------------------------------------------------------------------------

/-- The extents that an order selects; `seen` are the source axes used so far. -/
def selectDims (dims : List Dimension) (seen : List Nat) : ShuffleOrder → Check (List Dimension)
  | [] => .ok []
  | .broadcast :: order => do
    let rest ← selectDims dims seen order
    .ok (.static 1 :: rest)
  | .axis source :: order =>
    match dims[source]? with
    | none => .error (.axis (signedSize source) dims.length)
    | some dim =>
      if seen.contains source then .error (.parameter (.repeatedAxis source))
      else do
        let rest ← selectDims dims (source :: seen) order
        .ok (dim :: rest)

/-- Only axes of extent one may be dropped. -/
def droppable (dims : List Dimension) (axis : Nat) : Check Unit :=
  match dims[axis]? with
  | none => .ok ()
  | some dim =>
    if dim.isUnit then .ok () else .error (.parameter (.droppedAxis axis dim))

/-- The shape that an order of axes makes of a shape. -/
def shuffledShape (order : ShuffleOrder) (shape : Shape) : Check Shape := do
  let dims ← selectDims shape.dims [] order
  (order.dropped shape.rank).forM (droppable shape.dims)
  .ok ⟨dims⟩

-----------------------------------------------------------------------------------------
-- Indexed axes
-----------------------------------------------------------------------------------------

/-- The extent that an entry leaves of an axis, if the axis stays. -/
def indexedDim (axis : Nat) (dim : Dimension) : IndexEntry → Check (Option Dimension)
  | .scalar (.operand _) => .ok none
  | .scalar (.static index) =>
    match dim with
    | .unknown => .ok none
    | .static size =>
      if (Slice.position? index size).isSome then .ok none
      else .error (.parameter (.indexBounds index axis size))
  | .slice bounds =>
    if bounds.step = some (.static 0) then .error (.parameter .zeroStep)
    else .ok (some (bounds.extent dim))

/-- The extents that the entries leave; `axis` is the number of the first one. Axes without
an entry are kept whole.
-/
def indexedDims : Nat → List Dimension → List IndexEntry → Check (List Dimension)
  | _, dims, [] => .ok dims
  | _, [], _ => .ok []
  | axis, dim :: dims, entry :: entries => do
    let left ← indexedDim axis dim entry
    let rest ← indexedDims (axis + 1) dims entries
    .ok (left.toList ++ rest)

/-- The shape that indexing leaves. -/
def indexedShape (entries : List IndexEntry) (shape : Shape) : Check Shape :=
  if shape.rank < entries.length then
    .error (.parameter (.tooManyIndices entries.length shape.rank))
  else do
    let dims ← indexedDims 0 shape.dims entries
    .ok ⟨dims⟩

end Dataflow.Typing
