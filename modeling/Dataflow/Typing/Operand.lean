import Dataflow.Operation.Basic
import Dataflow.Typing.Error

/-! Checks of single operands. Each one fails with the fault that a message can show. -/

namespace Dataflow.Typing

/-- The outcome of a check. -/
abbrev Check (α : Type) := Except TypeFault α

/-- There must be `expected` operands. -/
def arity (expected : Nat) (operands : List ValueType) : Check Unit :=
  if operands.length = expected then .ok () else .error (.arity expected operands.length)

/-- The operand at `index` must be a tensor. -/
def tensorAt (operands : List ValueType) (index : Nat) : Check TensorType :=
  match operands[index]?.bind ValueType.tensor? with
  | some type => .ok type
  | none => .error (.operandKind index .tensor)

/-- The operand at `index` must be a list. -/
def listAt (operands : List ValueType) (index : Nat) : Check TensorType :=
  match operands[index]?.bind ValueType.element? with
  | some element => .ok element
  | none => .error (.operandKind index .list)

/-- Whether a type describes single integers. -/
def isIntegerScalar (type : TensorType) : Bool := type.dtype.isInteger && type.rank = 0

/-- The operand at `index` must be a single integer. -/
def integerAt (operands : List ValueType) (index : Nat) : Check Unit :=
  match operands[index]?.bind ValueType.tensor? with
  | some type =>
    if isIntegerScalar type then .ok () else .error (.operandKind index .integerScalar)
  | none => .error (.operandKind index .integerScalar)

/-- The operand at `position` must be an index, and is not the data. -/
def indexAt (operands : List ValueType) (position : Nat) : Check Unit :=
  if position = 0 then .error (.parameter .dataAsIndex) else integerAt operands position

/-- All operands at `positions` must be indices. -/
def indicesAt (operands : List ValueType) (positions : List Nat) : Check Unit :=
  positions.forM (indexAt operands)

/-- The operand at `index` must be an element of a list. -/
def elementAt (element : TensorType) (operands : List ValueType) (index : Nat)
    : Check Unit := do
  let value ← tensorAt operands index
  if element.accepts value then .ok () else .error (.dtype (.listElement element value))

/-- The elements must be numbers. -/
def numeric (type : TensorType) : Check Unit :=
  if type.dtype.isNumeric then .ok () else .error (.dtype (.notNumeric type.dtype))

/-- Both tensors must hold floating-point numbers of one type. -/
def sameFloat (lhs rhs : TensorType) : Check Unit :=
  if lhs.dtype = rhs.dtype ∧ lhs.dtype.isFloat then .ok ()
  else .error (.dtype (.differ lhs.dtype rhs.dtype))

end Dataflow.Typing
