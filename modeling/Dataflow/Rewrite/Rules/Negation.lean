import Dataflow.Rewrite.Rule

/-! Rules that move or remove negations. -/

namespace Dataflow.Rules

/-- The value that `value` negates. -/
def negated? (session : Session) (value : ValueId) : Option ValueId := do
  let node ← session.producer? value
  guard (node.operation = .unary .neg)
  node.input? 0

/-- Whether the operation is a function of one number. -/
def isUnary : Operation → Bool
  | .unary _ => true
  | _ => false

/-- The reduction that an operation is. -/
def reduction? : Operation → Option Reduction
  | .reduce reduction => some reduction
  | _ => none

/-- A number negated twice is itself. -/
def eliminateDoubleNegation : Rule where
  name := "EliminateDoubleNegation"
  benefit := 1
  tracks := isUnary
  plan session id := do
    let outer ← session.node? id
    guard (outer.operation = .unary .neg)
    let inner ← outer.input? 0
    let base ← negated? session inner
    some (Session.replaceNode id outer.value base)

/-- The largest of negated numbers is the smallest number, negated, and the other way round.
The negated numbers must have no other reader.
-/
def reduceOfNegation : Rule where
  name := "ReduceOfNegation"
  benefit := 1
  tracks operation := (reduction? operation).isSome
  plan session id := do
    let outer ← session.node? id
    let reduction ← reduction? outer.operation
    let dual ← reduction.kind.negatedDual
    let inner ← outer.input? 0
    guard (session.useCount inner = 1)
    let base ← negated? session inner
    some do
      let reduced ←
        Session.insertBefore id (.reduce { reduction with kind := dual }) [.value base]
      Session.substitute id outer.value (.unary .neg) [.value reduced]

/-- The negated largest of negated numbers is the smallest number, and the other way round. -/
def localMaxToMin : Rule where
  name := "LocalMaxToMin"
  benefit := 2
  tracks := isUnary
  plan session id := do
    let outer ← session.node? id
    guard (outer.operation = .unary .neg)
    let reduced ← outer.input? 0
    let middle ← session.producer? reduced
    let reduction ← reduction? middle.operation
    let dual ← reduction.kind.negatedDual
    let inner ← middle.input? 0
    let base ← negated? session inner
    some (Session.substitute id outer.value (.reduce { reduction with kind := dual })
      [.value base])

end Dataflow.Rules
