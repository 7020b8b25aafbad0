import Dataflow.Graph.Basic
import Dataflow.Graph.Error

/-!
The order of a body. `checkOrder` refuses a graph that reads a value before it is defined.
`sortedPositions` is the order that a body can be put in: every node counts the operands that it
waits for, and among the nodes that wait for none the first one goes next, so a body in order stays
as it is.
-/

namespace Dataflow.Graph

-----------------------------------------------------------------------------------------
-- Checking an order
-----------------------------------------------------------------------------------------

/-- Adds names to those that are defined; each name must be new. -/
def define (defined : List ValueId) : List ValueId → Except GraphError (List ValueId)
  | [] => .ok defined
  | value :: rest =>
    if defined.contains value then .error (.redefined value)
    else define (value :: defined) rest

/-- The first of some values that is not defined. -/
def firstUndefined (defined values : List ValueId) : Option ValueId :=
  values.find? fun value => !defined.contains value

/-- Goes through a body, from what is defined before it to what is defined after it. -/
def checkBody (defined : List ValueId) : List Node → Except GraphError (List ValueId)
  | [] => .ok defined
  | node :: rest =>
    match firstUndefined defined node.reads with
    | some value => .error (.usedBeforeDefined value)
    | none =>
      if defined.contains node.value then .error (.redefined node.value)
      else checkBody (node.value :: defined) rest

/-- Every value is defined once and before it is read, and every output is defined. -/
def checkOrder (graph : Graph) : Except GraphError Unit := do
  let inputs ← define [] graph.inputs
  let defined ← checkBody inputs graph.body
  match firstUndefined defined graph.outputs with
  | some value => .error (.unknownValue value)
  | none => .ok ()

-----------------------------------------------------------------------------------------
-- Sorting
-----------------------------------------------------------------------------------------

/-- The last position at which a value is produced; `position` is the one of the first node. -/
def lastPosition (value : ValueId) : Nat → List Node → Option Nat
  | _, [] => none
  | position, node :: rest =>
    (lastPosition value (position + 1) rest).or
      (if node.value = value then some position else none)

/-- The position at which a value is produced. -/
def position? (graph : Graph) (value : ValueId) : Option Nat :=
  lastPosition value 0 graph.body

/-- The positions that a node waits for. -/
def needs (graph : Graph) (node : Node) : List Nat := node.reads.filterMap graph.position?

/-- The first operand, in the order of the body, that is neither an input nor produced. -/
def unknownOperand? (graph : Graph) : Option ValueId :=
  (graph.body.flatMap Node.reads).find? fun value =>
    (graph.position? value).isNone && !graph.inputs.contains value

/-- The positions that wait for the node at a position, once per operand that reads its value. -/
def dependents (needs : List (List Nat)) (position : Nat) : List Nat :=
  needs.zipIdx.flatMap fun reader => List.replicate (reader.1.count position) reader.2

/-- A body that is being sorted: the positions that are done, the number of operands that every
position still waits for, and the positions that wait for none and are not done.
-/
structure Queue where
  order : List Nat
  pending : List Nat
  ready : List Nat

namespace Queue

/-- At first, nothing is done. -/
def start (needs : List (List Nat)) : Queue where
  order := []
  pending := needs.map List.length
  ready := (List.range needs.length).filter fun position => (needs.getD position []).isEmpty

/-- A position waits for one operand less. -/
def supply (queue : Queue) (position : Nat) : Queue :=
  let missing := queue.pending.getD position 0 - 1
  { queue with
    pending := queue.pending.set position missing
    ready := if missing = 0 then position :: queue.ready else queue.ready }

/-- A ready position is done. -/
def finish (queue : Queue) (position : Nat) : Queue :=
  { queue with order := queue.order ++ [position], ready := queue.ready.erase position }

/-- The first ready position is done, and those that depend on it have its value. -/
def next? (needs : List (List Nat)) (queue : Queue) : Option Queue :=
  queue.ready.min?.map fun position =>
    (dependents needs position).foldl supply (queue.finish position)

/-- Goes on while some position is ready, up to a number of positions. -/
def drain (needs : List (List Nat)) : Nat → Queue → Queue
  | 0, queue => queue
  | count + 1, queue =>
    match queue.next? needs with
    | some next => drain needs count next
    | none => queue

end Queue

/-- The positions of the body in an order in which every value is produced before it is read. If
some positions wait forever, the first of them is reported.
-/
def sortedPositions (graph : Graph) : Except GraphError (List Nat) :=
  match graph.unknownOperand? with
  | some value => .error (.unknownValue value)
  | none =>
    let needs := graph.body.map graph.needs
    let queue := (Queue.start needs).drain needs graph.body.length
    if queue.order.length = graph.body.length then .ok queue.order
    else
      match (queue.pending.findIdx? (0 < ·)).bind (graph.body[·]?) with
      | some node => .error (.cyclic node.value)
      | none => .ok queue.order

/-- The body with its nodes at the given positions, in their order. -/
def permute (body : List Node) (order : List Nat) : List Node := order.filterMap (body[·]?)

/-- The graph with a sorted body. -/
def sorted (graph : Graph) : Except GraphError Graph := do
  let order ← graph.sortedPositions
  .ok { graph with body := permute graph.body order }

end Dataflow.Graph
