/-! Numbers in increasing order, each one once. -/

namespace Dataflow

/-- Inserts a number into an increasing list, unless it is there. -/
def insertIncreasing (number : Nat) : List Nat → List Nat
  | [] => [number]
  | first :: rest =>
    if number < first then number :: first :: rest
    else if number = first then first :: rest
    else first :: insertIncreasing number rest

/-- The numbers of a list in increasing order, each one once. -/
def increasing (numbers : List Nat) : List Nat := numbers.foldr insertIncreasing []

end Dataflow
