import Dataflow.Conformance.Check

/-! Scenarios of products, block diagonals and triangular systems. -/

namespace Dataflow.Scenarios

open Sample (float)

/-- A product of matrices has the expected elements. -/
def product : Scenario where
  name := "dot_matches_expected"
  sampled := false
  check observer := do
    let program ← Check.program "dot" do
      let a ← Building.input (Sample.fixedType [2, 2])
      let b ← Building.input (Sample.fixedType [2, 2])
      let out ← Building.apply .dot [a, b]
      return [out]
    let compiled ← observer.optimize program
    let results ← observer.results compiled
      [Sample.integers [2, 2] [1, 2, 3, 4], Sample.integers [2, 2] [5, 6, 7, 8]]
    let out ← Check.tensor results 0
    Check.require (Close.sameNumbers out.floats ([19, 22, 43, 50].map float))

-----------------------------------------------------------------------------------------
-- Block diagonals
-----------------------------------------------------------------------------------------

/-- The element of a block diagonal matrix; the first block starts at the row and column
`start`.
-/
def blockElement (row column : Nat)
    : Nat × Nat → List ((Nat × Nat) × List Float) → Float
  | _, [] => float 0
  | (top, left), ((m, n), values) :: rest =>
    if top ≤ row ∧ row < top + m ∧ left ≤ column ∧ column < left + n then
      values.getD ((row - top) * n + (column - left)) (float 0)
    else
      blockElement row column (top + m, left + n) rest

/-- Blocks stand on the diagonal, and zeros stand everywhere else. -/
def blockDiagonal : Scenario where
  name := "block_diag_places_blocks"
  sampled := true
  check observer := do
    let blocks : List ((Nat × Nat) × List Float) :=
      [((3, 4), Sample.numbers 1 12), ((5, 5), Sample.numbers 2 25),
        ((6, 5), Sample.numbers 3 30)]
    let program ← Check.program "block_diag" do
      let inputs ← blocks.mapM fun ((m, n), _) => Building.input (Sample.fixedType [m, n])
      let out ← Building.apply .blockDiagonal inputs
      return [out]
    let compiled ← observer.optimize program
    let results ← observer.results compiled
      (blocks.map fun ((m, n), values) => Sample.tensor [m, n] values)
    let out ← Check.tensor results 0
    Check.require (out.sizes = [14, 14])
    let expected := (List.range 14).flatMap fun row =>
      (List.range 14).map fun column => blockElement row column (0, 0) blocks
    Check.require (Close.sameNumbers out.floats expected)

-----------------------------------------------------------------------------------------
-- Triangular systems
-----------------------------------------------------------------------------------------

/-- The coefficient that a system uses at a row and a column of its matrix. -/
def usedCoefficient (system : TriangularSystem) (matrix : Nat → Nat → Float)
    (row column : Nat) : Float :=
  let (i, j) := if system.view = .plain then (row, column) else (column, row)
  let kept := if system.lower then j ≤ i else i ≤ j
  if !kept then float 0
  else if i = j ∧ system.unitDiagonal then float 1
  else matrix i j

/-- The number of equations of the sampled system. -/
def systemSize : Nat := 5

/-- The sampled coefficient matrix; its diagonal is far from zero. -/
def sampledMatrix (row column : Nat) : Float :=
  let value := (Sample.numbers 4 (systemSize * systemSize)).getD (row * systemSize + column)
    (float 0)
  if row = column then float 2 + value.abs else value

/-- The solution of a system satisfies its equations, for some number of right sides. -/
def checkSystem (observer : Observer) (system : TriangularSystem) (sizes : List Nat)
    (columns : Nat) : Check Unit := do
  let n := systemSize
  let places := (List.range n).flatMap fun i => (List.range n).map fun j => (i, j)
  let rightSide := Sample.numbers (5 + columns) (n * columns)
  let program ← Check.program "solve" do
    let a ← Building.input (Sample.fixedType [n, n])
    let b ← Building.input (Sample.fixedType sizes)
    let x ← Building.apply (.solveTriangular system) [a, b]
    return [x]
  let compiled ← observer.optimize program
  let results ← observer.results compiled
    [Sample.tensor [n, n] (places.map fun (i, j) => sampledMatrix i j),
      Sample.tensor sizes rightSide]
  let x ← Check.tensor results 0
  Check.require (x.sizes = sizes)
  let entryAt (values : List Float) (row column : Nat) : Float :=
    values.getD (row * columns + column) (float 0)
  (List.range n).forM fun row =>
    (List.range columns).forM fun column => do
      let sum := (List.range n).foldl
        (fun sum j => sum + usedCoefficient system sampledMatrix row j * entryAt x.floats j column)
        (float 0)
      Check.require (Close.number sum (entryAt rightSide row column))

/-- Solutions satisfy their equations, for both triangles, both views and both kinds of
diagonal.
-/
def triangularSystem : Scenario where
  name := "solve_triangular_satisfies_system"
  sampled := true
  check observer :=
    [([systemSize], 1), ([systemSize, 3], 3)].forM fun (sizes, columns) =>
      [true, false].forM fun lower =>
        [MatrixView.plain, .transposed].forM fun view =>
          [false, true].forM fun unitDiagonal =>
            checkSystem observer ⟨lower, view, unitDiagonal, false⟩ sizes columns

/-- A checked system refuses numbers that are not finite. -/
def checkedSystem : Scenario where
  name := "solve_triangular_rejects_non_finite"
  sampled := false
  check observer := do
    let program ← Check.program "solve" do
      let a ← Building.input (Sample.fixedType [2, 2])
      let b ← Building.input (Sample.fixedType [2])
      let x ← Building.apply
        (.solveTriangular { TriangularSystem.standard with checkFinite := true }) [a, b]
      return [x]
    let compiled ← observer.optimize program
    let a := Sample.integers [2, 2] [1, 0, 2, 1]
    [Binary.notANumber, Binary.infinity].forM fun bad => do
      let outcome ← observer.call compiled false [a, Sample.tensor [2] [float 1, bad]]
      match ← Check.fail outcome with
      | .notFinite _ _ positions => Check.require (positions = [1])
      | _ => Check.require false
    let results ← observer.results compiled [a, Sample.integers [2] [1, 4]]
    let x ← Check.tensor results 0
    Check.require (Close.sameNumbers x.floats ([1, 2].map float))

end Dataflow.Scenarios
