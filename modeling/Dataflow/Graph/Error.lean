import Dataflow.Typing.Error

/-! What can be wrong with a graph or with a change of it. -/

namespace Dataflow

/-- A broken promise: a condition that a caller of a function has to ensure and did not. Nothing is
reported about it to a user.
-/
inductive Breach where
  /-- An edit names a node that was erased. -/
  | erasedNode
  /-- An output has no declared type. -/
  | untypedOutput
  /-- A shuffle names an axis that its source does not have. -/
  | missingAxis
  /-- An operation has fewer operands than it reads. -/
  | missingOperand
  /-- An element outside the storage of a tensor is read. -/
  | missingElement
  /-- A piece of memory has too many bytes. -/
  | memory
  deriving DecidableEq

/-- What is wrong with a graph or with a change of it. -/
inductive GraphError where
  | type (error : TypeError)
  | unknownValue (value : ValueId)
  /-- A replacement would let a value depend on itself. -/
  | cycle (source target : ValueId)
  | incompatible (source target : ValueId)
  /-- The graph has a cycle already. -/
  | cyclic (value : ValueId)
  | stillUsed (value : ValueId)
  | usedBeforeDefined (value : ValueId)
  | redefined (value : ValueId)
  | readAfterDestroy (value destroyer : ValueId)
  | doubleDestroy (value first second : ValueId)
  /-- An input or output of the graph is destroyed. -/
  | destroysBoundary (value destroyer : ValueId)
  | breach (breach : Breach)
  deriving DecidableEq

namespace GraphError

/-- The message. A breach has none. -/
def message : GraphError → String
  | .type error => error.message
  | .unknownValue value => "value " ++ value.describe ++ " is not defined in this function"
  | .cycle source target =>
    "replacing " ++ source.describe ++ " with " ++ target.describe ++ " would create a cycle"
  | .incompatible source target =>
    "cannot replace " ++ source.describe ++ " with " ++ target.describe
      ++ ": types are incompatible"
  | .cyclic value => "graph contains a cycle through " ++ value.describe
  | .stillUsed value => "instruction " ++ value.describe ++ " still has users"
  | .usedBeforeDefined value =>
    "value " ++ value.describe ++ " is used before it is defined"
  | .redefined value => "value " ++ value.describe ++ " is defined more than once"
  | .readAfterDestroy value destroyer =>
    value.describe ++ " reads a list destroyed by " ++ destroyer.describe
  | .doubleDestroy value first second =>
    value.describe ++ " is destroyed by both " ++ first.describe ++ " and "
      ++ second.describe
  | .destroysBoundary value destroyer =>
    destroyer.describe ++ " destroys " ++ value.describe
      ++ ", which is a graph input or output"
  | .breach _ => ""

end GraphError

end Dataflow
