import Dataflow.Tensor.Basic
import Dataflow.Typing.Axes

/-!
Reductions. Every input element belongs to one position of the result; the elements of a
position are combined in their order.
-/

namespace Dataflow.Reduce

-----------------------------------------------------------------------------------------
-- Sums and extremes
-----------------------------------------------------------------------------------------

/-- The value of a reduction of no numbers. -/
def floatUnit : ReduceKind → Float
  | .sum => Float.ofBits 0
  | .max => -Binary.infinity
  | .min => Binary.infinity

/-- Adds a number to a reduction. -/
def floatStep (kind : ReduceKind) (x y : Float) : Float :=
  match kind with
  | .sum => x + y
  | .max => Binary.maximum x y
  | .min => Binary.minimum x y

/-- The value of a reduction of no integers. -/
def intUnit : ReduceKind → Int64
  | .sum => 0
  | .max => Int64.minValue
  | .min => Int64.maxValue

/-- Adds an integer to a reduction. -/
def intStep (kind : ReduceKind) (x y : Int64) : Int64 :=
  match kind with
  | .sum => x + y
  | .max => if x < y then y else x
  | .min => if y < x then y else x

/-- Sizes with one for every reduced axis; `axis` is the number of the first one. -/
def keptSizes (axes : List Nat) : Nat → List Nat → List Nat
  | _, [] => []
  | axis, size :: sizes =>
    (if axes.contains axis then 1 else size) :: keptSizes axes (axis + 1) sizes

/-- Sizes without the reduced axes; `axis` is the number of the first one. -/
def remainingSizes (axes : List Nat) : Nat → List Nat → List Nat
  | _, [] => []
  | axis, size :: sizes =>
    if axes.contains axis then remainingSizes axes (axis + 1) sizes
    else size :: remainingSizes axes (axis + 1) sizes

/-- The sizes of a result. -/
def resultSizes (axes : List Nat) (keepAxes : Bool) (sizes : List Nat) : List Nat :=
  if keepAxes then keptSizes axes 0 sizes else remainingSizes axes 0 sizes

/-- For every input position, the position of the result that it belongs to. -/
def targets (sizes kept : List Nat) : List Nat :=
  RowMajor.strided sizes
    (List.zipWith (fun size stride => if size = 1 then 0 else stride) kept
      (RowMajor.steps kept))

/-- The items that belong to a position of the result, in their order. -/
def group {α : Type} (targets : List Nat) (items : List α) (position : Nat) : List α :=
  ((items.zip targets).filter fun (_, target) => target = position).map (·.1)

/-- Combines the items of every position of the result. -/
def combine {α : Type} (step : α → α → α) (unit : α) (targets : List Nat) (items : List α)
    (count : Nat) : List α :=
  (List.range count).map fun position => (group targets items position).foldl step unit

/-- Whether some reduced axis has no elements. -/
def hasEmptyAxis (axes sizes : List Nat) : Bool := axes.any fun axis => sizes[axis]? = some 0

/-- The axes that a reduction combines. Extremes need an element on each of them. -/
def combinedAxes (reduction : Reduction) (sizes : List Nat) : Outcome (List Nat) :=
  match Typing.reducedAxes reduction.axes sizes.length with
  | .error fault => .error (.type ⟨"reduce", fault⟩)
  | .ok axes =>
    if reduction.kind ≠ .sum ∧ hasEmptyAxis axes sizes then .fail .emptyReduction else .ok axes

/-- Reduces a tensor along some axes. -/
def reduce (reduction : Reduction) (input : Tensor) : Outcome Tensor := do
  let axes ← combinedAxes reduction input.sizes
  let kept := keptSizes axes 0 input.sizes
  let targets := targets input.sizes kept
  let count := RowMajor.count kept
  let elements :=
    if input.dtype.isFloat then
      Elements.ofFloats input.dtype
        (combine (floatStep reduction.kind) (floatUnit reduction.kind) targets
          input.elements.toFloats count)
    else
      Elements.ofInts input.dtype
        (combine (intStep reduction.kind) (intUnit reduction.kind) targets
          input.elements.toInts count)
  .ok ⟨resultSizes axes reduction.keepAxes input.sizes, elements⟩

-----------------------------------------------------------------------------------------
-- Places of the largest elements
-----------------------------------------------------------------------------------------

/-- The positions of all lanes along an axis: each lane holds the positions that differ in the
coordinate of the axis only.
-/
def lanes (sizes : List Nat) (axis : Nat) : List (List Nat) :=
  let extent := sizes.getD axis 0
  let inner := RowMajor.count (sizes.drop (axis + 1))
  let outer := RowMajor.count (sizes.take axis)
  (List.range (outer * inner)).map fun lane =>
    let first := lane / inner * (extent * inner) + lane % inner
    (List.range extent).map fun k => first + k * inner

/-- The place of the first item that no later one beats. The best item so far has the place
`best`; `place` is the one of the first item of the list.
-/
def firstBest {α : Type} (beats : α → α → Bool) (best : Nat) (item : α)
    : Nat → List α → Nat
  | _, [] => best
  | place, next :: rest =>
    if beats next item then firstBest beats place next (place + 1) rest
    else firstBest beats best item (place + 1) rest

/-- The place of the best item of a lane. -/
def bestPlace {α : Type} (beats : α → α → Bool) : List α → Nat
  | [] => 0
  | item :: rest => firstBest beats 0 item 1 rest

/-- A number is beaten by a larger one, and by what is no number. -/
def beatsFloat (candidate current : Float) : Bool :=
  !current.isNaN && (candidate.isNaN || decide (current < candidate))

/-- An integer is beaten by a larger one. -/
def beatsInt (candidate current : Int64) : Bool := decide (current < candidate)

/-- The place of the best item of every lane. -/
def bestPlaces {α : Type} (beats : α → α → Bool) (items : List α) (lanes : List (List Nat))
    : Outcome (List Nat) :=
  lanes.mapM fun lane => do
    let items ← Outcome.require .missingElement (Elements.select? lane items)
    .ok (bestPlace beats items)

/-- The places of the largest elements along an axis. -/
def largest (input : Tensor) (axis : Nat) : Outcome (List Nat) :=
  if input.sizes[axis]? = some 0 then .fail .emptyArgMax
  else
    let lanes := lanes input.sizes axis
    if input.dtype.isFloat then bestPlaces beatsFloat input.elements.toFloats lanes
    else bestPlaces beatsInt input.elements.toInts lanes

/-- The axis that a number means. -/
def resolveAxis (axis : Int) (rank : Nat) : Outcome Nat :=
  match Slice.position? axis rank with
  | some axis => .ok axis
  | none => .fail (.noAxis axis rank)

/-- A tensor of indices. -/
def indexTensor (sizes places : List Nat) : Tensor := ⟨sizes, .si64 (places.map Int64.ofNat)⟩

/-- The places of the largest elements, as a tensor. -/
def argMax (axis : Int) (keepAxes : Bool) (input : Tensor) : Outcome Tensor := do
  let axis ← resolveAxis axis input.rank
  let places ← largest input axis
  .ok (indexTensor (resultSizes [axis] keepAxes input.sizes) places)

/-- The largest elements and their places. -/
def maxAndArgMax (axis : Int) (input : Tensor) : Outcome (Tensor × Tensor) := do
  let axis ← resolveAxis axis input.rank
  let places ← largest input axis
  let sizes := resultSizes [axis] false input.sizes
  let positions ← Outcome.require .missingElement
    (((lanes input.sizes axis).zip places).mapM fun (lane, place) => lane[place]?)
  let values ← input.gather sizes positions
  .ok (values, indexTensor sizes places)

end Dataflow.Reduce
