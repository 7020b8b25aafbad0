import Dataflow.Conformance.Check

/-! Scenarios of indexing, filling and sizes. -/

namespace Dataflow.Scenarios

open Sample (float)

/-- A dropped axis of a slice is indexed away. -/
def droppedAxis : Scenario where
  name := "dimshuffle_of_subtensor_folds_dropped_axis"
  sampled := false
  check observer := do
    let program ← Check.program "squeeze" do
      let x ← Building.input (Sample.fixedType [3, 1, 4])
      let sliced ← Building.apply (.subtensor [.slice (.range 1 3)]) [x]
      let out ← Building.apply (.shuffle [.axis 0, .axis 2]) [sliced]
      return [out]
    let values := Sample.counting 12
    let (results, graph) ← observer.runBoth program [Sample.tensor [3, 1, 4] values]
    Check.require (graph.operationNames = ["subtensor"])
    let out ← Check.tensor results 0
    Check.require (out.sizes = [2, 4])
    Check.require (Close.sameNumbers out.floats (values.drop 4))

-----------------------------------------------------------------------------------------
-- Slices and shuffles
-----------------------------------------------------------------------------------------

/-- A part of a tensor whose axes are then shuffled. -/
structure SlicedCase where
  declared : List (Option Nat)
  entries : List IndexEntry
  order : ShuffleOrder
  sizes : List Nat
  /-- The value of the operand that the entries read. -/
  operand : Option Int
  /-- Whether the shuffle can be left out. -/
  folds : Bool

namespace SlicedCase

/-- A slice with known bounds. -/
def slice (start stop step : Option Int) : IndexEntry :=
  .slice ⟨start.map .static, stop.map .static, step.map .static⟩

/-- A slice whose step comes from an operand. -/
def operandStep : IndexEntry := .slice ⟨none, none, some (.operand 1)⟩

/-- The cases. -/
def all : List SlicedCase :=
  [{ declared := [none, some 1, none, none]
     entries := [.slice .full, .slice .full, slice (some 10) (some 30) none, operandStep]
     order := [.axis 0, .axis 2, .axis 3]
     sizes := [2, 1, 32, 5]
     operand := some 2
     folds := true },
    { declared := [none, some 1, none]
      entries := [.scalar (.operand 1)]
      order := [.axis 1]
      sizes := [3, 1, 4]
      operand := some (-1)
      folds := true },
    { declared := [none, some 1, none, some 1]
      entries := [.scalar (.operand 1)]
      order := [.axis 1]
      sizes := [3, 1, 4, 1]
      operand := some 1
      folds := true },
    { declared := [some 5, some 4]
      entries := [slice (some 2) (some 3) none, slice none (some (-2)) none]
      order := [.axis 1]
      sizes := [5, 4]
      operand := none
      folds := true },
    { declared := [some 5, some 4]
      entries := [slice none (some 1) none, slice (some 0) (some 3) none]
      order := [.axis 1]
      sizes := [5, 4]
      operand := none
      folds := true },
    { declared := [some 5, some 4]
      entries := [slice (some (-1)) none none, .slice .full]
      order := [.axis 1]
      sizes := [5, 4]
      operand := none
      folds := true },
    { declared := [some 5, some 4]
      entries := [slice (some 4) (some 3) (some (-1)), slice (some 1) none none]
      order := [.axis 1]
      sizes := [5, 4]
      operand := none
      folds := true },
    { declared := [none, some 1, none]
      entries := [.slice .full, operandStep]
      order := [.axis 0, .axis 2]
      sizes := [2, 1, 3]
      operand := some 1
      folds := false },
    { declared := [some 5, some 4]
      entries := [slice (some 2) (some 3) none, slice none (some (-2)) none]
      order := [.axis 1, .axis 0]
      sizes := [5, 4]
      operand := none
      folds := false }]

/-- The program of a case. -/
def program (case : SlicedCase) : Check Program :=
  Check.program "sliced" do
    let x ← Building.input (Sample.floatType case.declared)
    let index ←
      if case.operand.isSome then do
        let index ← Building.input (.tensor (.scalar .si64))
        pure [index]
      else pure []
    let sliced ← Building.apply (.subtensor case.entries) (x :: index)
    let out ← Building.apply (.shuffle case.order) [sliced]
    return [out]

/-- The inputs of a case, with some value of the operand. -/
def inputs (case : SlicedCase) (operand : Option Int) : List HostValue :=
  Sample.tensor case.sizes (Sample.counting (RowMajor.count case.sizes))
    :: (operand.map fun value => .tensor (.ofInt (Int64.ofInt value))).toList

end SlicedCase

/-- Shuffles after slices are left out where they can be, and the results stay. -/
def slicedCases : Scenario where
  name := "dimshuffle_of_subtensor_matches_unoptimized"
  sampled := false
  check observer :=
    SlicedCase.all.forM fun case => do
      let program ← case.program
      let (_, graph) ← observer.runBoth program (case.inputs case.operand)
      Check.require
        (graph.operationNames =
          if case.folds then ["subtensor"] else ["subtensor", "dimshuffle"])

/-- A step of zero fails, whatever the optimizer did. -/
def zeroStep : Scenario where
  name := "zero_runtime_step_fails_with_and_without_rewrites"
  sampled := false
  check observer :=
    (SlicedCase.all.filter fun case => case.entries.contains SlicedCase.operandStep).forM
      fun case => do
        let program ← case.program
        let inputs := case.inputs (some 0)
        let plain ← observer.schedule program
        let optimized ← observer.optimize program
        let _ ← Check.fail (← observer.call plain false inputs)
        let _ ← Check.fail (← observer.call optimized false inputs)

/-- An input that does not have its declared type is refused, whatever the optimizer did. -/
def mismatchedInput : Scenario where
  name := "input_not_matching_declared_type_is_rejected"
  sampled := false
  check observer := do
    let program ← Check.program "squeeze" do
      let x ← Building.input (Sample.floatType [none, some 1, none])
      let sliced ← Building.apply (.subtensor [.slice .full]) [x]
      let out ← Building.apply (.shuffle [.axis 0, .axis 2]) [sliced]
      return [out]
    let inputs := [Sample.tensor [2, 2, 3] (List.replicate 12 (float 0))]
    let plain ← observer.schedule program
    let optimized ← observer.optimize program
    [plain, optimized].forM fun compiled => do
      let error ← Check.fail (← observer.call compiled false inputs)
      Check.mention error.message "declared type"

-----------------------------------------------------------------------------------------
-- Filling and sizes
-----------------------------------------------------------------------------------------

/-- New axes of a new tensor belong to its shape. -/
def shuffledAlloc : Scenario where
  name := "dimshuffle_of_alloc_folds_into_alloc"
  sampled := false
  check observer := do
    let program ← Check.program "expand" do
      let x ← Building.input (Sample.fixedType [3])
      let filled ← Building.apply (.alloc [.static 2, .static 3]) [x]
      let out ← Building.apply (.shuffle [.broadcast, .axis 0, .axis 1]) [filled]
      return [out]
    let (results, graph) ← observer.runBoth program [Sample.integers [3] [1, 2, 3]]
    Check.require (graph.operationNames = ["alloc"])
    let out ← Check.tensor results 0
    Check.require (out.sizes = [1, 2, 3])
    Check.require (Close.sameNumbers out.floats ([1, 2, 3, 1, 2, 3].map float))

/-- The size of an axis is the one at run time. -/
def extent : Scenario where
  name := "shape_i_reads_runtime_extent"
  sampled := false
  check observer := do
    let program ← Check.program "shape" do
      let x ← Building.input (Sample.floatType [none, some 2])
      let rows ← Building.apply (.extent 0) [x]
      return [rows]
    let compiled ← observer.optimize program
    let results ← observer.results compiled
      [Sample.tensor [5, 2] (List.replicate 10 (float 0))]
    let rows ← Check.tensor results 0
    let values ← Check.succeed rows.integers
    Check.require (values = [5])

end Dataflow.Scenarios
