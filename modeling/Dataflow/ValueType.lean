import Dataflow.TensorType

/-!
Types of the values that flow between nodes: tensors, lists of tensors of one type, and
tuples of values. The orders of tensor types extend to them part by part.
-/

namespace Dataflow

/-- The type of a value. -/
inductive ValueType where
  | tensor (type : TensorType)
  /-- A list of tensors that `element` describes. -/
  | list (element : TensorType)
  | tuple (parts : List ValueType)

namespace ValueType

-----------------------------------------------------------------------------------------
-- Equality
-----------------------------------------------------------------------------------------

mutual

/-- Whether two types are the same. -/
def same : ValueType → ValueType → Bool
  | .tensor a, .tensor b => a = b
  | .list a, .list b => a = b
  | .tuple as, .tuple bs => sameParts as bs
  | _, _ => false

/-- Whether two lists of types are the same. -/
def sameParts : List ValueType → List ValueType → Bool
  | [], [] => true
  | a :: as, b :: bs => a.same b && sameParts as bs
  | _, _ => false

end

mutual

theorem eq_of_same : ∀ {a b : ValueType}, a.same b = true → a = b
  | .tensor _, .tensor _, h => by simpa [same] using h
  | .list _, .list _, h => by simpa [same] using h
  | .tuple _, .tuple _, h => by simpa using eq_of_sameParts (by simpa [same] using h)
  | .tensor _, .list _, h => by simp [same] at h
  | .tensor _, .tuple _, h => by simp [same] at h
  | .list _, .tensor _, h => by simp [same] at h
  | .list _, .tuple _, h => by simp [same] at h
  | .tuple _, .tensor _, h => by simp [same] at h
  | .tuple _, .list _, h => by simp [same] at h

theorem eq_of_sameParts : ∀ {as bs : List ValueType}, sameParts as bs = true → as = bs
  | [], [], _ => rfl
  | a :: as, b :: bs, h => by
    have parts : a.same b = true ∧ sameParts as bs = true := by simpa [sameParts] using h
    rw [eq_of_same parts.1, eq_of_sameParts parts.2]
  | [], _ :: _, h => by simp [sameParts] at h
  | _ :: _, [], h => by simp [sameParts] at h

end

mutual

theorem same_self : ∀ (a : ValueType), a.same a = true
  | .tensor _ => by simp [same]
  | .list _ => by simp [same]
  | .tuple parts => by simpa [same] using sameParts_self parts

theorem sameParts_self : ∀ (as : List ValueType), sameParts as as = true
  | [] => by simp [sameParts]
  | a :: as => by simp [sameParts, same_self a, sameParts_self as]

end

instance : DecidableEq ValueType := fun a b =>
  if h : a.same b = true then isTrue (eq_of_same h)
  else isFalse fun equal => h (equal ▸ same_self a)

-----------------------------------------------------------------------------------------
-- Views
-----------------------------------------------------------------------------------------

/-- The type of a tensor. -/
def tensor? : ValueType → Option TensorType
  | .tensor type => some type
  | _ => none

/-- The element type of a list. -/
def element? : ValueType → Option TensorType
  | .list element => some element
  | _ => none

-----------------------------------------------------------------------------------------
-- Orders
-----------------------------------------------------------------------------------------

mutual

/-- Whether every value of type `other` is also one of type `self`. -/
def accepts : ValueType → ValueType → Bool
  | .tensor a, .tensor b => a.accepts b
  | .list a, .list b => a.accepts b
  | .tuple as, .tuple bs => acceptsParts as bs
  | _, _ => false

/-- Whether the parts of a tuple accept the parts of another one. -/
def acceptsParts : List ValueType → List ValueType → Bool
  | [], [] => true
  | a :: as, b :: bs => a.accepts b && acceptsParts as bs
  | _, _ => false

end

mutual

/-- Whether the two types can describe the same value. -/
def compatibleWith : ValueType → ValueType → Bool
  | .tensor a, .tensor b => a.compatibleWith b
  | .list a, .list b => a.compatibleWith b
  | .tuple as, .tuple bs => compatibleParts as bs
  | _, _ => false

/-- Whether the parts of two tuples are compatible. -/
def compatibleParts : List ValueType → List ValueType → Bool
  | [], [] => true
  | a :: as, b :: bs => a.compatibleWith b && compatibleParts as bs
  | _, _ => false

end

-----------------------------------------------------------------------------------------
-- Text
-----------------------------------------------------------------------------------------

mutual

/-- How a type is written in messages. -/
def describe : ValueType → String
  | .tensor type => "Tensor(" ++ type.describe ++ ")"
  | .list element => "List(" ++ element.describe ++ ")"
  | .tuple parts => "Tuple(" ++ bracketed (describeParts parts) ++ ")"

/-- How the parts of a tuple are written. -/
def describeParts : List ValueType → List String
  | [] => []
  | part :: parts => part.describe :: describeParts parts

end

end ValueType

end Dataflow
