import Dataflow.Conformance.Check

/-! Scenarios of reductions and of checks for finite numbers. -/

namespace Dataflow.Scenarios

open Sample (float)

/-- A checked run refuses the logarithm of zero, and an unchecked one does not. -/
def checkedRun : Scenario where
  name := "check_finite_rejects_non_finite_results"
  sampled := false
  check observer := do
    let program ← Check.program "log" do
      let x ← Building.input (Sample.fixedType [3])
      let y ← Building.apply (.unary .log) [x]
      return [y]
    let inputs := [Sample.integers [3] [1, 0, 2]]
    let unchecked ← observer.optimize program
    let results ← observer.results unchecked inputs
    let y ← Check.tensor results 0
    let middle ← Check.expect y.floats[1]?
    Check.require middle.isInf
    let checked ← observer.optimize program
    let outcome ← observer.call checked true inputs
    match ← Check.fail outcome with
    | .notFinite operation _ positions =>
      Check.require (operation = "log" && positions = [1])
    | _ => Check.require false

/-- The smaller of two numbers. -/
def smaller (x y : Float) : Float := if y < x then y else x

/-- The negated largest of negated numbers is computed as the smallest number. -/
def reduceOfNegation : Scenario where
  name := "reduce_of_negation_matches_unoptimized"
  sampled := true
  check observer := do
    let program ← Check.program "neg_max" do
      let x ← Building.input (Sample.fixedType [3, 4])
      let negated ← Building.apply (.unary .neg) [x]
      let reduced ← Building.apply (.reduce ⟨.max, [1], false⟩) [negated]
      let out ← Building.apply (.unary .neg) [reduced]
      return [out]
    let values := Sample.numbers 6 12
    let (results, graph) ← observer.runBoth program [Sample.tensor [3, 4] values]
    Check.require (graph.operationNames = ["reduce_min"])
    let out ← Check.tensor results 0
    let expected := (groupsOf 4 3 values).map fun row => row.foldl smaller Binary.infinity
    Check.require (Close.sameNumbers out.floats expected)

/-- Each half of the largest elements and their places is computed alone. -/
def maxAndArgMaxSplit : Scenario where
  name := "max_and_argmax_split_matches_unoptimized"
  sampled := false
  check observer := do
    let input := Sample.integers [2, 3] [1, 7, 7, -2, -5, -1]
    [(0, "reduce_max", [7, -1]), (1, "argmax", [1, 2])].forM
      fun (index, name, expected) => do
        let program ← Check.program "split" do
          let x ← Building.input (Sample.fixedType [2, 3])
          let pair ← Building.apply (.maxAndArgMax (-1)) [x]
          let out ← Building.apply (.tupleElement index) [pair]
          return [out]
        let (results, graph) ← observer.runBoth program [input]
        Check.require (graph.operationNames = [name])
        let out ← Check.tensor results 0
        Check.require (Close.sameNumbers out.floats (expected.map float))

/-- What is no number stays so in a reduction to the largest element. -/
def maxOfNotANumber : Scenario where
  name := "reduce_max_propagates_nan"
  sampled := false
  check observer := do
    let program ← Check.program "nan_max" do
      let x ← Building.input (Sample.fixedType [2, 2])
      let out ← Building.apply (.reduce ⟨.max, [1], true⟩) [x]
      return [out]
    let input := Sample.tensor [2, 2] (Binary.notANumber :: [1, 2, 3].map float)
    let (results, _) ← observer.runBoth program [input]
    let out ← Check.tensor results 0
    Check.require (out.sizes = [2, 1])
    let first ← Check.expect out.floats[0]?
    let second ← Check.expect out.floats[1]?
    Check.require first.isNaN
    Check.require (second == float 3)

end Dataflow.Scenarios
