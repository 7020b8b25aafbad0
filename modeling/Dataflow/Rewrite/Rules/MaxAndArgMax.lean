import Dataflow.Rewrite.Rule

/-! Rules for the pair of largest elements and their indices, of which one half is not read. -/

namespace Dataflow.Rules

/-- The axis along which an operation looks for the largest elements and their indices. -/
def maxAndArgMaxAxis? : Operation → Option Int
  | .maxAndArgMax axis => some axis
  | _ => none

/-- The node, if it reads the part `index` of a tuple. -/
def projection? (session : Session) (index : Nat) (id : NodeId) : Option NodeId := do
  let node ← session.node? id
  guard (node.operation = .tupleElement index)
  some id

/-- All readers of a tuple, if there are some and they all read the part `index`. -/
def projections? (session : Session) (tuple : ValueId) (index : Nat)
    : Option (List NodeId) := do
  guard !session.isOutput tuple
  let readers := session.index.distinctReaders tuple
  guard !readers.isEmpty
  readers.mapM (projection? session index)

/-- Puts `new` in the place of a node that reads a part of a tuple. -/
def retireProjection (new : ValueId) (id : NodeId) : Edit Unit := do
  let projection ← Session.node id
  Session.replaceNode id projection.value new

/-- Puts a new node in the place of all nodes that read a tuple, and drops the tuple. -/
def retireTuple (id : NodeId) (projections : List NodeId) (operation : Operation)
    (input : ValueId) : Edit Unit := do
  let new ← Session.insertBefore id operation [.value input]
  projections.forM (retireProjection new)
  Session.erase id

/-- The largest elements alone are a reduction. -/
def maxAndArgMaxToReduce : Rule where
  name := "MaxAndArgmaxToReduce"
  benefit := 1
  tracks operation := (maxAndArgMaxAxis? operation).isSome
  plan session id := do
    let node ← session.node? id
    let axis ← maxAndArgMaxAxis? node.operation
    let projections ← projections? session node.value 0
    let input ← node.input? 0
    some (retireTuple id projections (.reduce ⟨.max, [axis], false⟩) input)

/-- The indices of the largest elements have an operation of their own. -/
def maxAndArgMaxToArgMax : Rule where
  name := "MaxAndArgmaxToArgMax"
  benefit := 1
  tracks operation := (maxAndArgMaxAxis? operation).isSome
  plan session id := do
    let node ← session.node? id
    let axis ← maxAndArgMaxAxis? node.operation
    let projections ← projections? session node.value 1
    let input ← node.input? 0
    some (retireTuple id projections (.argMax axis false) input)

end Dataflow.Rules
