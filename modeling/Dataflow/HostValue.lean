import Dataflow.Literal
import Dataflow.ValueType

/-!
Values as the host sees them: literals, lists of literals, and tuples. `conformsTo` says which
values a type describes.
-/

namespace Dataflow

/-- A value outside a backend. -/
inductive HostValue where
  | tensor (literal : Literal)
  | list (items : List Literal)
  | tuple (parts : List HostValue)

namespace HostValue

/-- The literal of a tensor. -/
def tensor? : HostValue → Option Literal
  | .tensor literal => some literal
  | _ => none

/-- The items of a list. -/
def list? : HostValue → Option (List Literal)
  | .list items => some items
  | _ => none

mutual

/-- Whether a type describes a value. -/
def conformsTo : HostValue → ValueType → Bool
  | .tensor literal, .tensor type => type.accepts literal.type
  | .list items, .list element => items.all fun item => element.accepts item.type
  | .tuple parts, .tuple types => partsConformTo parts types
  | _, _ => false

/-- Whether types describe the parts of a tuple, one by one. -/
def partsConformTo : List HostValue → List ValueType → Bool
  | [], [] => true
  | part :: parts, type :: types => part.conformsTo type && partsConformTo parts types
  | _, _ => false

end

-----------------------------------------------------------------------------------------
-- Content
-----------------------------------------------------------------------------------------

mutual

/-- All literals of a value, in order. -/
def literals : HostValue → List Literal
  | .tensor literal => [literal]
  | .list items => items
  | .tuple parts => literalsOfParts parts

/-- All literals of the parts of a tuple, in order. -/
def literalsOfParts : List HostValue → List Literal
  | [] => []
  | part :: parts => part.literals ++ literalsOfParts parts

end

end HostValue

end Dataflow
