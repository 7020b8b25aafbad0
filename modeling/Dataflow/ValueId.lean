/-! Names of the values in a graph. -/

namespace Dataflow

/-- The name of a value: an input of a graph or what one of its nodes produces. Numbers have no limit:
nothing is said of graphs that use up the words of 32 bits in which they are stored.
-/
structure ValueId where
  number : Nat
  deriving DecidableEq

namespace ValueId

/-- How a value is written in texts and messages. -/
def describe (id : ValueId) : String := "%" ++ toString id.number

end ValueId

end Dataflow
