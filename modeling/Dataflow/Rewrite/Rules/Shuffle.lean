import Dataflow.Rewrite.Rule

/-!
Rules for shuffles of a tensor and of another shuffle, before and after a reshape and the filling of
a new tensor, and behind an indexing. A shuffle that keeps axes in their order only adds and drops
axes of extent one, so the elements stay in their order. Filling aligns a value at the last axis, so
new axes in front of it need no shuffle.
-/

namespace Dataflow.Rules

-----------------------------------------------------------------------------------------
-- Shuffles of shuffles
-----------------------------------------------------------------------------------------

/-- The order that an operation shuffles axes into. -/
def shuffleOrder? : Operation → Option ShuffleOrder
  | .shuffle order => some order
  | _ => none

/-- Whether the operation shuffles axes. -/
def isShuffle (operation : Operation) : Bool := (shuffleOrder? operation).isSome

/-- One axis of an order that is applied after `inner`. -/
def composeAxis (inner : ShuffleOrder) : ShuffleAxis → Option ShuffleAxis
  | .broadcast => some .broadcast
  | .axis source => inner[source]?

/-- The order that `outer` makes of the result of `inner`. -/
def compose (inner outer : ShuffleOrder) : Option ShuffleOrder := outer.mapM (composeAxis inner)

/-- A shuffle that keeps every axis in its place changes nothing. -/
def eliminateIdentityShuffle : Rule where
  name := "EliminateIdentityDimShuffle"
  benefit := 1
  tracks := isShuffle
  plan session id := do
    let node ← session.node? id
    let order ← shuffleOrder? node.operation
    let source ← node.input? 0
    let rank ← session.rank? source
    guard (order.isIdentity rank)
    some (Session.replaceNode id node.value source)

/-- Two shuffles in a row are one, or none if together they keep every axis in its place. -/
def collapseShuffleChain : Rule where
  name := "CollapseDimShuffleChain"
  benefit := 1
  tracks := isShuffle
  plan session id := do
    let outer ← session.node? id
    let outerOrder ← shuffleOrder? outer.operation
    let inner ← session.producer? (← outer.input? 0)
    let innerOrder ← shuffleOrder? inner.operation
    let base ← inner.input? 0
    let order ← compose innerOrder outerOrder
    if (session.rank? base).any order.isIdentity then
      some (Session.replaceNode id outer.value base)
    else
      some (Session.substitute id outer.value (.shuffle order) [.value base])

-----------------------------------------------------------------------------------------
-- Shuffles and reshapes
-----------------------------------------------------------------------------------------

/-- The extents that an operation reshapes to. -/
def reshapeExtents? : Operation → Option (List ReshapeExtent)
  | .reshape extents => some extents
  | _ => none

/-- A reshape does not see a shuffle that keeps the elements in their order. -/
def reshapeOfShuffle : Rule where
  name := "ReshapeOfDimShuffle"
  benefit := 1
  tracks operation := (reshapeExtents? operation).isSome
  plan session id := do
    let outer ← session.node? id
    let extents ← reshapeExtents? outer.operation
    let inner ← session.producer? (← outer.input? 0)
    let order ← shuffleOrder? inner.operation
    guard order.preservesOrder
    let base ← inner.input? 0
    some (Session.substitute id outer.value (.reshape extents)
      (.value base :: outer.operands.drop 1))

/-- The extent of an axis of a shuffled reshape. -/
def shuffledReshapeExtent (extents : List ReshapeExtent) : ShuffleAxis → Option ReshapeExtent
  | .broadcast => some (.explicit 1)
  | .axis source => extents[source]?

/-- A shuffle after a reshape that keeps the elements in their order belongs to the new shape.
The shuffle must name axes of the reshape only.
-/
def shuffleOfReshape : Rule where
  name := "DimShuffleOfReshape"
  benefit := 1
  tracks := isShuffle
  plan session id := do
    let outer ← session.node? id
    let order ← shuffleOrder? outer.operation
    guard order.preservesOrder
    let inner ← session.producer? (← outer.input? 0)
    let extents ← reshapeExtents? inner.operation
    match order.mapM (shuffledReshapeExtent extents) with
    | none => some (throw (.graph (.breach .missingAxis)))
    | some shape => some (Session.substitute id outer.value (.reshape shape) inner.operands)

-----------------------------------------------------------------------------------------
-- Shuffles and fillings
-----------------------------------------------------------------------------------------

/-- The extents of the tensor that an operation fills. -/
def allocExtents? : Operation → Option (List ExtentSource)
  | .alloc extents => some extents
  | _ => none

/-- Whether no new axis stands behind an axis of the value, whose axes start at `lead`. -/
def insertsInFront (order : ShuffleOrder) (lead : Nat) : Bool :=
  let behind := order.dropWhile fun axis =>
    match axis with
    | .axis source => source < lead
    | .broadcast => true
  !behind.contains .broadcast

/-- The extent of an axis of a shuffled new tensor. -/
def shuffledExtent (extents : List ExtentSource) : ShuffleAxis → Option ExtentSource
  | .broadcast => some (.static 1)
  | .axis source => extents[source]?

/-- A new tensor with more axes in front of those of its value is a new tensor with a longer
shape.
-/
def shuffleOfAlloc : Rule where
  name := "DimShuffleOfAlloc"
  benefit := 1
  tracks := isShuffle
  plan session id := do
    let outer ← session.node? id
    let order ← shuffleOrder? outer.operation
    let inner ← session.producer? (← outer.input? 0)
    let extents ← allocExtents? inner.operation
    let filler ← inner.operands.head?
    let type ← (← session.operandType? filler).tensor?
    guard (order.insertsAxes && order.kept == List.range extents.length)
    guard (insertsInFront order (extents.length - type.rank))
    let shape ← order.mapM (shuffledExtent extents)
    some (Session.substitute id outer.value (.alloc shape) inner.operands)

/-- Whether an order only puts new axes in front of `rank` axes, and at least one. -/
def isLeftPadding (order : ShuffleOrder) (rank : Nat) : Bool :=
  let own := order.dropWhile (· = .broadcast)
  own = ShuffleOrder.identity rank && own.length < order.length

/-- A value that only got new axes in front need not get them to fill a new tensor. -/
def allocOfShuffle : Rule where
  name := "AllocOfDimShuffle"
  benefit := 1
  tracks operation := (allocExtents? operation).isSome
  plan session id := do
    let outer ← session.node? id
    let extents ← allocExtents? outer.operation
    let inner ← session.producer? (← outer.input? 0)
    let order ← shuffleOrder? inner.operation
    let base ← inner.input? 0
    let rank ← session.rank? base
    guard (isLeftPadding order rank)
    some (Session.substitute id outer.value (.alloc extents)
      (.value base :: outer.operands.drop 1))

-----------------------------------------------------------------------------------------
-- Shuffles and indexing
-----------------------------------------------------------------------------------------

/-- The entries that an operation indexes with. -/
def indexEntries? : Operation → Option (List IndexEntry)
  | .subtensor entries => some entries
  | _ => none

/-- The index that takes what a slice of one element takes. A slice that reads operands has
none, since it may fail.
-/
def singleIndex? (bounds : SliceBounds) (dim : Dimension) : Option Int :=
  match bounds.operands with
  | _ :: _ => none
  | [] =>
    if bounds.isFull || dim.isUnit then some 0
    else do
      let length ← dim.size?
      let walk ← bounds.walk? length
      some walk.start

/-- Turns the slices of dropped axes into indices. Slices are counted from `axis`; axes without
an entry count as full slices, and the entries end with the last one that is needed.
-/
def foldDropped (dropped : List Nat)
    : Nat → List Dimension → List IndexEntry → Option (List IndexEntry)
  | _, [], entries => some entries
  | axis, _ :: dims, .scalar index :: entries =>
    (foldDropped dropped axis dims entries).map (.scalar index :: ·)
  | axis, dim :: dims, .slice bounds :: entries =>
    if dropped.contains axis then do
      let index ← singleIndex? bounds dim
      let rest ← foldDropped dropped (axis + 1) dims entries
      some (.scalar (.static index) :: rest)
    else
      (foldDropped dropped (axis + 1) dims entries).map (.slice bounds :: ·)
  | axis, dim :: dims, [] =>
    if dropped.contains axis then do
      let index ← singleIndex? .full dim
      let rest ← foldDropped dropped (axis + 1) dims []
      some (.scalar (.static index) :: rest)
    else do
      let rest ← foldDropped dropped (axis + 1) dims []
      some (if rest.isEmpty then [] else .slice .full :: rest)

/-- An axis that is sliced and then dropped can be indexed at once. -/
def shuffleOfSubtensor : Rule where
  name := "DimShuffleOfSubtensor"
  benefit := 1
  tracks := isShuffle
  plan session id := do
    let outer ← session.node? id
    let order ← shuffleOrder? outer.operation
    guard (!order.insertsAxes && order.preservesOrder)
    let sliced ← outer.input? 0
    let inner ← session.producer? sliced
    let entries ← indexEntries? inner.operation
    let rank ← session.rank? sliced
    let dropped := order.dropped rank
    guard !dropped.isEmpty
    let source ← inner.operands.head?
    let type ← (← session.operandType? source).tensor?
    let folded ← foldDropped dropped 0 type.shape.dims entries
    some (Session.substitute id outer.value (.subtensor folded) inner.operands)

end Dataflow.Rules
