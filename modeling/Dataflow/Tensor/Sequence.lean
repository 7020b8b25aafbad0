import Dataflow.Tensor.Movement

/-! Kernels on lists of tensors. Items are compared by their types and numeric equality. -/

namespace Dataflow.Sequence

/-- The items without the first one that equals another tensor. -/
def removeFirst (needle : Tensor) : List Tensor → List Tensor
  | [] => []
  | item :: rest => if item.equal needle then rest else item :: removeFirst needle rest

/-- Where an item is inserted: an index before the start or behind the end means that end. -/
def insertPosition (index : Int) (length : Nat) : Nat :=
  let counted := if index < 0 then index + length else index
  (max 0 (min counted length)).toNat

/-- The item or the part that an index takes from a list. -/
def get (entry : IndexEntry) (inputs : Inputs) : Outcome Value := do
  let items ← inputs.list 0
  match entry with
  | .scalar scalar =>
    let index ← inputs.scalar scalar
    match (Slice.position? index items.length).bind (items[·]?) with
    | some item => .ok (.tensor item)
    | none => .fail .listIndex
  | .slice bounds =>
    let positions ← Movement.slicePositions bounds inputs items.length
    let taken ← Outcome.require .missingElement (Elements.select? positions items)
    .ok (.list taken)

/-- A list after a change. -/
def mutate (mutation : ListMutation) (inputs : Inputs) : Outcome (List Tensor) := do
  let items ← inputs.list 0
  match mutation with
  | .append =>
    let item ← inputs.tensor 1
    .ok (items ++ [item])
  | .extend =>
    let others ← inputs.list 1
    .ok (items ++ others)
  | .insert =>
    let index ← inputs.index 1
    let item ← inputs.tensor 2
    .ok (items.insertIdx (insertPosition index items.length) item)
  | .remove =>
    let needle ← inputs.tensor 1
    .ok (removeFirst needle items)
  | .reverse => .ok items.reverse

/-- The position of the first item that equals a tensor. -/
def position (inputs : Inputs) : Outcome Tensor := do
  let needle ← inputs.tensor 1
  let items ← inputs.list 0
  match items.findIdx? (·.equal needle) with
  | some position => .ok (.ofSize position)
  | none => .fail .notInList

/-- The number of items that equal a tensor. -/
def count (inputs : Inputs) : Outcome Tensor := do
  let needle ← inputs.tensor 1
  let items ← inputs.list 0
  .ok (.ofSize (items.countP (·.equal needle)))

end Dataflow.Sequence
