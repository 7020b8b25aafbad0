import Dataflow.Rewrite.Rule

/-! Why a pass stopped. -/

namespace Dataflow

/-- Why a pass stopped. -/
inductive PassError where
  /-- A rule failed at a node. -/
  | ruleFailed (rule : String) (node : ValueId) (cause : RuleError)
  | graph (error : GraphError)
  deriving DecidableEq

namespace PassError

/-- The message. -/
def message : PassError → String
  | .ruleFailed rule node cause =>
    "rewrite \x60" ++ rule ++ "\x60 failed at " ++ node.describe ++ ": " ++ cause.describe
  | .graph error => error.message

end PassError

end Dataflow
