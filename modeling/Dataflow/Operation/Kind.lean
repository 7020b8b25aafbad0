/-! The families of operations that differ only in the function they apply. -/

namespace Dataflow

/-- Functions of one number. -/
inductive UnaryKind where
  | neg
  | abs
  | exp
  | log
  deriving DecidableEq

/-- The name that texts use. -/
def UnaryKind.name : UnaryKind → String
  | .neg => "neg"
  | .abs => "abs"
  | .exp => "exp"
  | .log => "log"

/-- Functions of two numbers. -/
inductive BinaryKind where
  | add
  | sub
  | mul
  | div
  | maximum
  | minimum
  deriving DecidableEq

/-- The name that texts use. -/
def BinaryKind.name : BinaryKind → String
  | .add => "add"
  | .sub => "sub"
  | .mul => "mul"
  | .div => "div"
  | .maximum => "maximum"
  | .minimum => "minimum"

/-- Functions that combine all numbers along some axes. -/
inductive ReduceKind where
  | sum
  | max
  | min
  deriving DecidableEq

namespace ReduceKind

/-- The name that texts use. -/
def name : ReduceKind → String
  | .sum => "reduce_sum"
  | .max => "reduce_max"
  | .min => "reduce_min"

/-- The reduction that sees the negated numbers: a maximum of negated numbers is the negated
minimum, and the other way round. A sum has no such partner.
-/
def negatedDual : ReduceKind → Option ReduceKind
  | .max => some .min
  | .min => some .max
  | .sum => none

end ReduceKind

/-- Changes of a list, which may be made on a copy or in place. -/
inductive ListMutation where
  | append
  | extend
  | insert
  | remove
  | reverse
  deriving DecidableEq

/-- The name that texts use. -/
def ListMutation.name : ListMutation → String
  | .append => "list_append"
  | .extend => "list_extend"
  | .insert => "list_insert"
  | .remove => "list_remove"
  | .reverse => "list_reverse"

end Dataflow
