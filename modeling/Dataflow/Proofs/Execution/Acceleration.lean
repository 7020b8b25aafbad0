import Dataflow.Execution.Memory
import Dataflow.Proofs.Tensor.Triangular

/-!
Accelerated kernels and the reference. What accelerates products and triangular systems is a library
that has its own way to round, so numbers may differ. Which operands are refused, with which errors,
and the types of results are settled before the library is asked for anything.
-/

namespace Dataflow

-----------------------------------------------------------------------------------------
-- Libraries
-----------------------------------------------------------------------------------------

/-- The kernels of a library. They are asked for numbers only, and always have some. -/
structure Library where
  /-- The elements of a product of `m` rows and `n` columns that combines a size `k`. -/
  multiply : (m k n : Nat) → List Float → List Float → List Float
  /-- The elements of a solution, given the numbers of equations and of right sides. -/
  solve : TriangularSystem → (size count : Nat) → List Float → List Float → List Float

namespace Library

/-- The product of vectors or matrices. The library is not asked for one of nothing. -/
def product (library : Library) (lhs rhs : Tensor) : Outcome Tensor := do
  let (m, k, n) ← Matrix.contraction lhs.sizes rhs.sizes
  let result :=
    if 0 < m ∧ 0 < n ∧ 0 < k then
      library.multiply m k n lhs.elements.toFloats rhs.elements.toFloats
    else List.replicate (m * n) (Float.ofBits 0)
  .ok ⟨Matrix.productSizes lhs.sizes rhs.sizes, .ofFloats lhs.dtype result⟩

/-- Solves a triangular system after the whole diagonal was checked. Without equations or right sides
there is nothing to solve.
-/
def solution (library : Library) (system : TriangularSystem) (coefficients rightSide : Tensor)
    : Outcome Tensor := do
  let size ← Matrix.systemSize coefficients.sizes
  let count ← Matrix.rightSideCount coefficients.sizes size rightSide.sizes
  let matrix := Matrix.rows size size coefficients.elements.toFloats
  match Matrix.singularRow? system matrix with
  | some row => .fail (.singular row)
  | none =>
    let result :=
      if 0 < size ∧ 0 < count then
        library.solve system size count coefficients.elements.toFloats rightSide.elements.toFloats
      else rightSide.elements.toFloats
    .ok ⟨rightSide.sizes, .ofFloats rightSide.dtype result⟩

/-- The kernel of an operation. -/
def kernel? (library : Library) : Operation → Option (Tensor → Tensor → Outcome Tensor)
  | .dot => some library.product
  | .solveTriangular system => some (library.solution system)
  | _ => none

/-- Evaluates an operation with the library, or else with the reference. -/
def execute (library : Library) (operation : Operation) (inputs : Inputs) : Outcome Value :=
  match Backend.acceleratedOperands? inputs, library.kernel? operation with
  | some (lhs, rhs), some kernel => (kernel lhs rhs).map .tensor
  | _, _ => Kernel.execute operation inputs

/-- The library that rounds as the reference does. -/
def exact : Library where
  multiply m k n lhs rhs := Matrix.productElements Matrix.floats m k n lhs rhs
  solve system size count coefficients rightSide :=
    match Matrix.substitute Matrix.floats system (Matrix.rows size size coefficients)
        (Matrix.rows size count rightSide) with
    | .ok solved => solved.flatten
    | .error _ => rightSide

end Library

/-- The accelerated backend with the kernels of a library. -/
def Backend.acceleratedBy (library : Library) : Backend :=
  { accelerated with execute := library.execute }

-----------------------------------------------------------------------------------------
-- The library of the reference
-----------------------------------------------------------------------------------------

/-- A product without rows or columns, or one that combines nothing, consists of zeros. -/
theorem Matrix.productElements_of_empty {α : Type} (arithmetic : Arithmetic α) {m k n : Nat}
    (empty : ¬(0 < m ∧ 0 < n ∧ 0 < k)) (lhs rhs : List α)
    : productElements arithmetic m k n lhs rhs = List.replicate (m * n) arithmetic.zero := by
  rw [productElements]
  split_ifs with narrow
  · rw [narrow, Nat.mul_zero, List.replicate_zero]
  · rw [← List.flatten_replicate_replicate]
    refine congrArg List.flatten (List.eq_replicate_iff.mpr ⟨?_, fun row member => ?_⟩)
    · rw [productRows, List.length_map, length_rows]
    · obtain ⟨factors, listed, rfl⟩ := List.mem_map.mp member
      have some := List.length_pos_of_mem listed
      rw [length_rows] at some
      obtain rfl : k = 0 := by omega
      rw [combineRows, rows, groupsOf, List.zip_nil_right, List.foldl_nil]

namespace Library

theorem product_exact (lhs rhs : Tensor) : exact.product lhs rhs = Matrix.product lhs rhs := by
  rw [product, Matrix.product]
  refine Steps.bind_congr ?_
  rintro ⟨m, k, n⟩
  dsimp only
  split_ifs with some
  · rfl
  · rw [Matrix.productElements_of_empty _ some]
    rfl

/-- A system without equations or right sides has a solution without elements. -/
theorem solution_exact (system : TriangularSystem) (coefficients : Tensor) {rightSide : Tensor}
    (valid : rightSide.Valid)
    : exact.solution system coefficients rightSide
      = Matrix.solveChecked system coefficients rightSide := by
  rw [solution, Matrix.solveChecked, Matrix.solve]
  cases sized : Matrix.systemSize coefficients.sizes with
  | error error => rfl
  | ok size =>
      simp only [Steps.ok_bind]
      cases counted : Matrix.rightSideCount coefficients.sizes size rightSide.sizes with
      | error error => rfl
      | ok count =>
          simp only [Steps.ok_bind, Matrix.singularRow?_rows sized]
          cases zeros : Matrix.zerosOf system coefficients with
          | cons row rows => rfl
          | nil =>
              obtain ⟨solved, done⟩ := @Matrix.exists_substitute_rows system _ _ sized count
                rightSide.elements.toFloats zeros
              simp only [List.head?_nil, exact, done]
              split_ifs with some
              · rfl
              · have length : rightSide.elements.toFloats.length = size * count :=
                  (Elements.length_toFloats _).trans
                    (valid.trans ((Matrix.safe_rightSideCount _ _ _).holds counted).2)
                obtain ⟨wide, rows⟩ := Matrix.substitute_eq_ok (Matrix.wide_rows (Nat.le_of_eq length.symm))
                  ((Matrix.length_rows ..).trans (Matrix.length_rows ..).symm) done
                have nothing : size * count = 0 := by
                  rw [Nat.mul_eq_zero]
                  omega
                rw [List.length_eq_zero_iff.mp (length.trans nothing),
                  List.length_eq_zero_iff.mp ((Matrix.length_flatten_of_wide wide).trans ?_)]
                rw [rows, Matrix.length_rows, nothing]

/-- On valid operands, the accelerated backend is the one with the library of the reference. -/
theorem execute_exact {operation : Operation} {inputs : Inputs}
    (valid : ∀ input ∈ inputs, input.Valid)
    : (Backend.acceleratedBy exact).execute operation inputs
      = Backend.accelerated.execute operation inputs := by
  change exact.execute operation inputs = Backend.executeAccelerated operation inputs
  rw [execute, Backend.executeAccelerated, Backend.accelerate?]
  cases taken : Backend.acceleratedOperands? inputs with
  | none => rfl
  | some pair =>
      obtain ⟨lhs, rhs⟩ := pair
      cases operation with
      | dot => exact congrArg (Except.map Value.tensor) (product_exact lhs rhs)
      | solveTriangular system =>
          have valid : rhs.Valid := by
            unfold Backend.acceleratedOperands? at taken
            split at taken
            · split_ifs at taken
              obtain ⟨rfl, rfl⟩ := Prod.mk.inj (Option.some.inj taken)
              exact valid _ (List.mem_cons_of_mem _ List.mem_cons_self)
            · cases taken
          exact congrArg (Except.map Value.tensor) (solution_exact system lhs valid)
      | _ => rfl

end Library

-----------------------------------------------------------------------------------------
-- Agreement
-----------------------------------------------------------------------------------------

/-- A system that is solved from its last equation on, with the first and the last place of the
diagonal at which it cannot be solved.
-/
structure Matrix.EndsOfZeros (system : TriangularSystem) (coefficients : Tensor)
    (first last : Nat) : Prop where
  backward : isBackward system = true
  first : (zerosOf system coefficients).head? = some first
  last : (zerosOf system coefficients).getLast? = some last

/-- Two backends agree about an operation on two tensors, of which the first one holds the coefficients
of a system: there are results of one type, or the errors are the same. A system that is solved from
its last equation on may be refused for the two ends of the zeros on its diagonal.
-/
inductive Backend.Agree (operation : Operation) (coefficients : Tensor)
    : Outcome Value → Outcome Value → Prop where
  | results {fast exact : Tensor} (dtype : fast.dtype = exact.dtype)
      (sizes : fast.sizes = exact.sizes)
      : Agree operation coefficients (.ok (.tensor fast)) (.ok (.tensor exact))
  | errors (error : BackendError)
      : Agree operation coefficients (.error error) (.error error)
  | singular {system : TriangularSystem} {first last : Nat}
      (solves : operation = .solveTriangular system)
      (ends : Matrix.EndsOfZeros system coefficients first last)
      : Agree operation coefficients (.error (.ofKernel (.singular first)))
          (.error (.ofKernel (.singular last)))

/-- An outcome agrees with itself. -/
theorem Backend.Agree.refl (operation : Operation) (coefficients : Tensor) (outcome : Outcome Tensor)
    : Agree operation coefficients (outcome.map .tensor) (outcome.map .tensor) := by
  cases outcome with
  | error error => exact .errors error
  | ok result => exact .results rfl rfl

namespace Library

/-- A library has a product iff the reference has one, of the same type. -/
theorem product_agrees (library : Library) (lhs rhs : Tensor)
    : Backend.Agree .dot lhs ((library.product lhs rhs).map .tensor)
        ((Matrix.product lhs rhs).map .tensor) := by
  rw [product, Matrix.product]
  cases Matrix.contraction lhs.sizes rhs.sizes with
  | error error => exact .errors error
  | ok sizes =>
      refine .results ?_ rfl
      exact (Elements.dtype_ofFloats ..).trans (Elements.dtype_ofFloats ..).symm

/-- A library has a solution iff the reference has one, of the same type. -/
theorem solution_agrees (library : Library) (system : TriangularSystem)
    (coefficients rightSide : Tensor)
    : Backend.Agree (.solveTriangular system) coefficients
        ((library.solution system coefficients rightSide).map .tensor)
        ((Matrix.solve system coefficients rightSide).map .tensor) := by
  rw [solution, Matrix.solve]
  cases sized : Matrix.systemSize coefficients.sizes with
  | error error => exact .errors error
  | ok size =>
      simp only [Steps.ok_bind]
      cases Matrix.rightSideCount coefficients.sizes size rightSide.sizes with
      | error error => exact .errors error
      | ok count =>
          simp only [Steps.ok_bind, Matrix.singularRow?_rows sized]
          cases zeros : Matrix.zerosOf system coefficients with
          | nil =>
              obtain ⟨solved, done⟩ := @Matrix.exists_substitute_rows system _ _ sized count
                rightSide.elements.toFloats zeros
              simp only [List.head?_nil, done]
              refine .results ?_ rfl
              exact (Elements.dtype_ofFloats ..).trans (Elements.dtype_ofFloats ..).symm
          | cons first rest =>
              have named := fun row => @Matrix.substitute_rows_eq_error_iff system _ _ sized count row
                rightSide.elements.toFloats
              simp only [zeros] at named
              cases backward : Matrix.isBackward system with
              | false =>
                  rw [(named first).mpr (by rw [backward]; rfl)]
                  exact .errors _
              | true =>
                  have last : (first :: rest).getLast? = some _ := List.getLast?_cons
                  rw [(named _).mpr (by rw [backward, if_pos rfl]; exact last)]
                  exact .singular rfl ⟨backward, congrArg List.head? zeros, zeros ▸ last⟩

end Library

/-- A library agrees with the reference on two tensors, whether it takes them or not. -/
theorem Library.execute_agrees (library : Library) {operation : Operation}
    (accelerates : Backend.isAccelerated operation = true) (lhs rhs : Tensor)
    : Backend.Agree operation lhs (library.execute operation [.tensor lhs, .tensor rhs])
        (Kernel.execute operation [.tensor lhs, .tensor rhs]) := by
  rw [execute, Backend.acceleratedOperands?]
  cases operation with
  | dot =>
      split_ifs
      · exact library.product_agrees lhs rhs
      · exact .refl _ _ (Matrix.product lhs rhs)
  | solveTriangular system =>
      split_ifs
      · exact library.solution_agrees system lhs rhs
      · exact .refl _ _ (Matrix.solve system lhs rhs)
  | _ => cases accelerates

/-- Whatever the library, the accelerated backend and the reference agree about products and triangular
systems of all tensors, with and without a bound of memory.
-/
theorem Backend.acceleratedBy_agrees (library : Library) {operation : Operation}
    (accelerates : isAccelerated operation = true) (lhs rhs : Tensor)
    : Agree operation lhs
          ((acceleratedBy library).execute operation [.tensor lhs, .tensor rhs])
          (reference.execute operation [.tensor lhs, .tensor rhs])
      ∧ Agree operation lhs
          ((acceleratedBy library).bounded.execute operation [.tensor lhs, .tensor rhs])
          (reference.bounded.execute operation [.tensor lhs, .tensor rhs]) := by
  have agree := library.execute_agrees accelerates lhs rhs
  refine ⟨agree, ?_⟩
  change Agree operation lhs
    (if Memory.isEnough operation [.tensor lhs, .tensor rhs] then
        library.execute operation [.tensor lhs, .tensor rhs]
      else .error (.breach .memory))
    (if Memory.isEnough operation [.tensor lhs, .tensor rhs] then
        Kernel.execute operation [.tensor lhs, .tensor rhs]
      else .error (.breach .memory))
  split_ifs
  · exact agree
  · exact .errors _

/-- A lower triangle of ones. -/
def Tensor.ones : Tensor :=
  ⟨[2, 2], .f64 [0x3ff0000000000000, 0, 0x3ff0000000000000, 0x3ff0000000000000]⟩

/-- One and three. -/
def Tensor.oneThree : Tensor := ⟨[2], .f64 [0x3ff0000000000000, 0x4008000000000000]⟩

/-- One and two, which solve the system of ones. -/
def Tensor.oneTwo : Tensor := ⟨[2], .f64 [0x3ff0000000000000, 0x4000000000000000]⟩

/-- A system of ones is solved by both. -/
theorem Backend.ones_agrees
    : isAccelerated (.solveTriangular .standard) = true
      ∧ (acceleratedBy .exact).execute (.solveTriangular .standard)
            [.tensor .ones, .tensor .oneThree]
          = .ok (.tensor .oneTwo)
      ∧ Agree (.solveTriangular .standard) .ones
          ((acceleratedBy .exact).execute (.solveTriangular .standard)
            [.tensor .ones, .tensor .oneThree])
          (reference.execute (.solveTriangular .standard) [.tensor .ones, .tensor .oneThree]) :=
  ⟨rfl, rfl, (acceleratedBy_agrees .exact rfl .ones .oneThree).1⟩

/-- Two rows of zeros. -/
def Tensor.zeroSquare : Tensor := ⟨[2, 2], .f64 [0, 0, 0, 0]⟩

/-- Two zeros. -/
def Tensor.zeroPair : Tensor := ⟨[2], .f64 [0, 0]⟩

/-- An upper triangle, which is solved from its last row on. -/
def TriangularSystem.upper : TriangularSystem := ⟨false, .plain, false, false⟩

/-- If the diagonal holds two zeros, then the errors of an upper triangle differ: whatever the library,
the accelerated backend names the first row, and the reference the last one.
-/
theorem Backend.zeroSquare_errors_differ
    : (∀ library,
          (acceleratedBy library).execute (.solveTriangular .upper)
              [.tensor .zeroSquare, .tensor .zeroPair]
            = .error (.ofKernel (.singular 0)))
      ∧ accelerated.execute (.solveTriangular .upper) [.tensor .zeroSquare, .tensor .zeroPair]
          = .error (.ofKernel (.singular 0))
      ∧ reference.execute (.solveTriangular .upper) [.tensor .zeroSquare, .tensor .zeroPair]
          = .error (.ofKernel (.singular 1))
      ∧ (BackendError.ofKernel (.singular 0)).message
          ≠ (BackendError.ofKernel (.singular 1)).message := by
  refine ⟨fun _ => rfl, rfl, rfl, ?_⟩
  decide

end Dataflow
