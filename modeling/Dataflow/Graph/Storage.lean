import Dataflow.Graph.Order
import Dataflow.Table

/-!
Shared storage. The result of a view lies in the storage of its operand, so values fall into
classes, each with the value that owns the storage as its root. A class that some node destroys
must have no input or output in it, must be destroyed once, and must not be read afterwards.
-/

namespace Dataflow.Graph

-----------------------------------------------------------------------------------------
-- Roots
-----------------------------------------------------------------------------------------

/-- The root of the value that a node produces, given the roots before it. -/
def rootOf (roots : Table ValueId ValueId) (node : Node) : ValueId :=
  match node.operation.storage with
  | .viewOf position =>
    match node.input? position with
    | some value => (roots.get? value).getD node.value
    | none => node.value
  | .owned | .consumes _ => node.value

/-- The root of every value. -/
def storageRoots (graph : Graph) : Table ValueId ValueId :=
  graph.body.foldl (fun roots node => roots.set node.value (rootOf roots node))
    (graph.inputs.foldl (fun roots value => roots.set value value) [])

/-- The root of a value; a value without one is its own. -/
def rootIn (roots : Table ValueId ValueId) (value : ValueId) : ValueId :=
  (roots.get? value).getD value

-----------------------------------------------------------------------------------------
-- Destruction
-----------------------------------------------------------------------------------------

/-- The value that a node destroys. -/
def destroyed? (node : Node) : Option ValueId :=
  match node.operation.storage with
  | .consumes position => node.input? position
  | _ => none

/-- Whether a class of storage holds an input or an output. -/
def isBoundary (graph : Graph) (roots : Table ValueId ValueId) (root : ValueId) : Bool :=
  graph.inputs.contains root || graph.outputs.any fun output => rootIn roots output = root

/-- The destroyer of every class that is destroyed, with its position in the body. -/
abbrev Destroyers := Table ValueId (ValueId × Nat)

/-- Collects the destroyers of a body; `position` is the one of its first node. -/
def destroyers (graph : Graph) (roots : Table ValueId ValueId)
    : Destroyers → Nat → List Node → Except GraphError Destroyers
  | found, _, [] => .ok found
  | found, position, node :: rest =>
    match destroyed? node with
    | none => destroyers graph roots found (position + 1) rest
    | some target =>
      let root := rootIn roots target
      if graph.isBoundary roots root then .error (.destroysBoundary target node.value)
      else match found.get? root with
        | some (first, _) => .error (.doubleDestroy target first node.value)
        | none =>
          destroyers graph roots (found.set root (node.value, position)) (position + 1) rest

/-- The destroyer of a class that is read at a later position. -/
def lateRead? (roots : Table ValueId ValueId) (found : Destroyers) (position : Nat)
    (value : ValueId) : Option ValueId :=
  match found.get? (rootIn roots value) with
  | some (destroyer, destroyedAt) => if destroyedAt < position then some destroyer else none
  | none => none

/-- No node of a body reads what was destroyed before it; `position` is the one of its first
node.
-/
def checkReads (roots : Table ValueId ValueId) (found : Destroyers)
    : Nat → List Node → Except GraphError Unit
  | _, [] => .ok ()
  | position, node :: rest =>
    match node.reads.findSome? (lateRead? roots found position) with
    | some destroyer => .error (.readAfterDestroy node.value destroyer)
    | none => checkReads roots found (position + 1) rest

/-- The body is in order, and nothing that is destroyed is an input or output, is destroyed
twice or is read later.
-/
def checkStorage (graph : Graph) : Except GraphError Unit := do
  graph.checkOrder
  let roots := graph.storageRoots
  let found ← destroyers graph roots [] 0 graph.body
  checkReads roots found 0 graph.body

end Dataflow.Graph
