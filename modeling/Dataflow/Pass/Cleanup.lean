import Dataflow.Pass.Basic

/-!
Passes that clean a graph up. Sharing makes nodes that compute the same value one; nodes that destroy
an operand stay as they are. Liveness drops the nodes that no output depends on: in a body in order,
readers stand behind what they read, so one walk from the end sees every reader first.
-/

namespace Dataflow

-----------------------------------------------------------------------------------------
-- Sharing
-----------------------------------------------------------------------------------------

namespace Sharing

/-- What determines the value of a node. -/
structure Key where
  operation : Operation
  operands : List Operand
  type : ValueType
  deriving DecidableEq

/-- The key of a node. -/
def Key.ofNode (node : Node) : Key := ⟨node.operation, node.operands, node.type⟩

/-- Goes through nodes and puts the first value of each key in the place of the later ones.
Returns the number of nodes that were dropped.
-/
def mergeNodes : Table Key ValueId → Nat → List NodeId → Edit Nat
  | _, merged, [] => return merged
  | seen, merged, id :: rest => do
    match (← get).node? id with
    | none => mergeNodes seen merged rest
    | some node =>
      if node.operation.isInplace then mergeNodes seen merged rest
      else match seen.get? (.ofNode node) with
        | none => mergeNodes (seen.set (.ofNode node) node.value) merged rest
        | some first =>
          Session.replaceNode id node.value first
          mergeNodes seen (merged + 1) rest

/-- Shares all nodes of a graph that compute the same value. -/
def run (graph : Graph) : PassRun :=
  match Session.start graph with
  | .error error => ⟨graph, .error (.graph error), 1, []⟩
  | .ok session =>
    let nodes := session.index.ordered
    match mergeNodes [] 0 nodes session with
    | .error error session => ⟨session.graph, .error (.graph error), 1, []⟩
    | .ok merged session =>
      ⟨session.graph, .ok ⟨0 < merged, nodes.length, merged, merged⟩, 1, []⟩

/-- The pass. -/
def pass : Pass := ⟨"cse", fun _ graph => run graph⟩

end Sharing

-----------------------------------------------------------------------------------------
-- Liveness
-----------------------------------------------------------------------------------------

namespace Liveness

/-- The live nodes of a body, with the values that are read in front of it. -/
def keepLive (outputs : List ValueId) : List Node → List Node × List ValueId
  | [] => ([], outputs)
  | node :: rest =>
    let (kept, live) := keepLive outputs rest
    if live.contains node.value then (node :: kept, node.reads ++ live) else (kept, live)

/-- Drops the dead nodes of a graph. -/
def run (graph : Graph) : PassRun :=
  let kept := (keepLive graph.outputs graph.body).1
  let erased := graph.body.length - kept.length
  ⟨{ graph with body := kept }, .ok ⟨0 < erased, 0, 0, erased⟩, 1, []⟩

/-- The pass. -/
def pass : Pass := ⟨"dce", fun _ graph => run graph⟩

end Liveness

end Dataflow
