import Dataflow.Compile.Basic
import Dataflow.Execution.Error
import Dataflow.Json.Basic

/-!
JSON forms of errors: the kind of the error, and its message. A breach is no error of a request,
so it has no form.
-/

namespace Dataflow

/-- An error of some kind, without a message. -/
def errorToJson (kind : String) : Json := .tagged "error" (.ofString kind)

/-- An error of some kind with its message. -/
def describedErrorToJson (kind message : String) : Json :=
  .ofMembers [("error", .ofString kind), ("message", .ofString message)]

-----------------------------------------------------------------------------------------
-- Types
-----------------------------------------------------------------------------------------

/-- The kind of a fault. -/
def TypeFault.kind : TypeFault → String
  | .arity _ _ => "Arity"
  | .operandKind _ _ => "OperandKind"
  | .dtype _ => "DType"
  | .shape _ => "Shape"
  | .axis _ _ => "Axis"
  | .parameter _ => "Invalid"

/-- The JSON form. -/
def TypeError.toJson (error : TypeError) : Json :=
  describedErrorToJson ("TypeError." ++ error.fault.kind) error.message

-----------------------------------------------------------------------------------------
-- Graphs and passes
-----------------------------------------------------------------------------------------

namespace GraphError

/-- The kind of an error, unless it is a breach. -/
def kind? : GraphError → Option String
  | .type _ => some "Type"
  | .unknownValue _ => some "UnknownValue"
  | .cycle _ _ => some "Cycle"
  | .incompatible _ _ => some "IncompatibleReplacement"
  | .cyclic _ => some "Cyclic"
  | .stillUsed _ => some "StillUsed"
  | .usedBeforeDefined _ => some "UseBeforeDef"
  | .redefined _ => some "Redefined"
  | .readAfterDestroy _ _ => some "ReadAfterDestroy"
  | .doubleDestroy _ _ _ => some "DoubleDestroy"
  | .destroysBoundary _ _ => some "DestroysBoundary"
  | .breach _ => none

/-- The JSON form. -/
def toJson? (error : GraphError) : Option Json :=
  error.kind?.map fun kind => describedErrorToJson ("GraphError." ++ kind) error.message

end GraphError

namespace PassError

/-- The kind of an error, unless it is a breach. -/
def kind? : PassError → Option String
  | .ruleFailed _ _ (.graph cause) => cause.kind?.map fun _ => "Rewrite"
  | .ruleFailed _ _ (.message _) => some "Rewrite"
  | .graph cause => cause.kind?.map fun _ => "Graph"

/-- The JSON form. -/
def toJson? (error : PassError) : Option Json :=
  error.kind?.map fun kind => describedErrorToJson ("PassError." ++ kind) error.message

end PassError

namespace CatalogError

/-- The kind of an error. -/
def kind : CatalogError → String
  | .unknownPass _ => "UnknownPass"
  | .duplicatePass _ => "DuplicatePass"

/-- The JSON form. -/
def toJson (error : CatalogError) : Json :=
  describedErrorToJson ("DatabaseError." ++ error.kind) error.message

end CatalogError

-----------------------------------------------------------------------------------------
-- Compiling and running
-----------------------------------------------------------------------------------------

namespace BackendError

/-- The kind of an error, unless it is a breach. -/
def kind? : BackendError → Option String
  | .type _ => some "Type"
  | .notFinite _ _ _ => some "NumericValidation"
  | .unsupported _ _ => some "Unimplemented"
  | .execution _ => some "Execution"
  | .breach _ => none

/-- The JSON form. -/
def toJson? (error : BackendError) : Option Json :=
  error.kind?.map fun kind => describedErrorToJson ("BackendError." ++ kind) error.message

end BackendError

namespace CompileError

/-- Whether a breach is behind an error. -/
def isBreach : CompileError → Bool
  | .noEntry _ => false
  | .optimizing _ cause => cause.kind?.isNone
  | .illFormed _ cause | .order cause | .storage _ cause => cause.kind?.isNone

/-- The JSON form. -/
def toJson? (error : CompileError) : Option Json :=
  if error.isBreach then none else some (describedErrorToJson "Compile" error.message)

end CompileError

end Dataflow
