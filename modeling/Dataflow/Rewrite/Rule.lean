import Dataflow.Rewrite.Session

/-!
Local rewrite rules. A rule looks at one node and says how to change the graph there, or
declines. Looking changes nothing; only the edits of a plan do.
-/

namespace Dataflow

-----------------------------------------------------------------------------------------
-- Errors
-----------------------------------------------------------------------------------------

/-- Why a rule failed. -/
inductive RuleError where
  | graph (error : GraphError)
  | message (text : String)
  deriving DecidableEq

/-- The message. -/
def RuleError.describe : RuleError → String
  | .graph error => error.message
  | .message text => text

/-- A step of a rule: like an edit, but it may fail with a message of its own. -/
abbrev Rewriting (α : Type) := EStateM RuleError Session α

/-- An edit as a step of a rule. -/
def Edit.toRewriting {α : Type} (edit : Edit α) : Rewriting α := fun session =>
  match edit session with
  | .ok value session => .ok value session
  | .error error session => .error (.graph error) session

instance : MonadLift (EStateM GraphError Session) (EStateM RuleError Session) :=
  ⟨Edit.toRewriting⟩

-----------------------------------------------------------------------------------------
-- Rules
-----------------------------------------------------------------------------------------

/-- A rewrite rule. -/
structure Rule where
  name : String
  /-- Of two rules for one node, the one with more benefit goes first. -/
  benefit : Nat
  /-- The operations that the rule wants to see. -/
  tracks : Operation → Bool
  /-- What to do at a node, or none if the rule does not apply there. -/
  plan : Session → NodeId → Option (Rewriting Unit)

/-- Rules in the order in which they are tried. -/
abbrev RuleSet := List Rule

namespace RuleSet

/-- Inserts a rule behind all rules that have as much benefit. -/
def insert (rule : Rule) : RuleSet → RuleSet
  | [] => [rule]
  | first :: rest =>
    if first.benefit < rule.benefit then rule :: first :: rest
    else first :: insert rule rest

/-- Orders rules by falling benefit; equal ones keep their order. -/
def ofList (rules : List Rule) : RuleSet := rules.foldl (fun set rule => insert rule set) []

/-- The rules that want to see an operation, with their places in the order. -/
def tracking (rules : RuleSet) (operation : Operation) : List (Nat × Rule) :=
  (rules.zipIdx.filter fun (rule, _) => rule.tracks operation).map fun (rule, slot) =>
    (slot, rule)

end RuleSet

namespace Session

/-- Puts the value `new` in the place of a node, whose value is `old`. -/
def replaceNode (id : NodeId) (old new : ValueId) : Edit Unit := do
  replace old new
  erase id

/-- Puts a new node in the place of a node. -/
def substitute (id : NodeId) (old : ValueId) (operation : Operation)
    (operands : List Operand) : Edit Unit := do
  let new ← insertBefore id operation operands
  replaceNode id old new

/-- The number of axes of a tensor. -/
def rank? (session : Session) (value : ValueId) : Option Nat :=
  ((session.index.type? value).bind ValueType.tensor?).map TensorType.rank

end Session

end Dataflow
