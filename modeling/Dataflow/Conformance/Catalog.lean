import Dataflow.Conformance.Indexing
import Dataflow.Conformance.Lists
import Dataflow.Conformance.Matrices
import Dataflow.Conformance.Reductions

/-! All scenarios by name. -/

namespace Dataflow.Scenarios

/-- All scenarios. -/
def all : List Scenario :=
  [product, blockDiagonal, triangularSystem, checkedSystem, checkedRun, reduceOfNegation,
    maxAndArgMaxSplit, maxOfNotANumber, droppedAxis, slicedCases, zeroStep, mismatchedInput,
    shuffledAlloc, extent, listOperations, listErrors, consumedList]

/-- The scenario of some name. -/
def find? (name : String) : Option Scenario := all.find? fun scenario => scenario.name = name

end Dataflow.Scenarios
