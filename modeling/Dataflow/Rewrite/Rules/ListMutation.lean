import Dataflow.Rewrite.Rule

/-! A rule for changes of lists that nobody else can see. -/

namespace Dataflow.Rules

/-- The change that an operation makes on a copy. -/
def copyingMutation? : Operation → Option ListMutation
  | .listMutation mutation false => some mutation
  | _ => none

/-- Whether the result of an operation has storage of its own. -/
def ownsStorage (operation : Operation) : Bool :=
  match operation.storage with
  | .owned | .consumes _ => true
  | .viewOf _ => false

/-- Whether a list is made by a node, is no output and no view, and is read by one node. -/
def isPrivate (session : Session) (list : ValueId) : Bool :=
  !session.index.isInput list && !session.isOutput list && session.useCount list = 1
    && (session.producer? list).any fun node => ownsStorage node.operation

/-- A list that only this node reads can be changed in place. -/
def promoteListMutation : Rule where
  name := "PromoteListMutationInplace"
  benefit := 1
  tracks operation := (copyingMutation? operation).isSome
  plan session id := do
    let node ← session.node? id
    let mutation ← copyingMutation? node.operation
    let list ← node.input? 0
    guard (isPrivate session list && !(node.operands.drop 1).contains (.value list))
    some (Session.setOperation id (.listMutation mutation true))

end Dataflow.Rules
