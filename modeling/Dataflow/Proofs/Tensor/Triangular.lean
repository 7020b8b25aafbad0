import Dataflow.Proofs.Tensor.Matrix

/-!
Singular systems. Whatever is solved, substitution only fails at a zero on the diagonal: at the first
one if the equations are solved from the first one on, and at the last one otherwise. A check of the
whole diagonal names the first one.
-/

namespace Dataflow.Matrix

variable {α : Type} {arithmetic : Arithmetic α}

-----------------------------------------------------------------------------------------
-- Equations
-----------------------------------------------------------------------------------------

/-- The numbers of the equations that cannot be solved; `index` is the one of the first equation. -/
def unsolvable (arithmetic : Arithmetic α) (unitDiagonal : Bool)
    : Nat → List (Equation α) → List Nat
  | _, [] => []
  | index, equation :: rest =>
    match diagonal arithmetic unitDiagonal index equation with
    | .error row => row :: unsolvable arithmetic unitDiagonal (index + 1) rest
    | .ok _ => unsolvable arithmetic unitDiagonal (index + 1) rest

/-- From the first equation on, the first one that cannot be solved is named. By induction on the
equations.
-/
theorem solveForward_eq_error_iff {unitDiagonal : Bool} {solved : List (List α)}
    {equations : List (Equation α)} {row : Nat}
    : solveForward arithmetic unitDiagonal solved equations = .error row
      ↔ (unsolvable arithmetic unitDiagonal solved.length equations).head? = some row := by
  induction equations generalizing solved with
  | nil => exact iff_of_false (nomatch ·) (nomatch ·)
  | cons equation rest ih =>
      rw [solveForward, unsolvable, Steps.bind_eq_error_iff]
      cases diagonal arithmetic unitDiagonal solved.length equation with
      | error other => simp
      | ok pivot => simp [ih]

/-- From the last equation on, the last one that cannot be solved is named. By induction on the
equations, of which the first one counts if none behind it fails.
-/
theorem solveBackward_eq_error_iff {unitDiagonal : Bool} {index : Nat}
    {equations : List (Equation α)} {row : Nat}
    : solveBackward arithmetic unitDiagonal index equations = .error row
      ↔ (unsolvable arithmetic unitDiagonal index equations).getLast? = some row := by
  induction equations generalizing index row with
  | nil => exact iff_of_false (nomatch ·) (nomatch ·)
  | cons equation rest ih =>
      rw [solveBackward, unsolvable, Steps.bind_eq_error_iff]
      cases later : solveBackward arithmetic unitDiagonal (index + 1) rest with
      | error last =>
          have named := ih.mp later
          cases diagonal arithmetic unitDiagonal index equation <;>
            simp [List.getLast?_cons, named]
      | ok solved =>
          have none : (unsolvable arithmetic unitDiagonal (index + 1) rest).getLast? = none :=
            Option.eq_none_iff_forall_ne_some.mpr fun last named =>
              nomatch later.symm.trans (ih.mpr named)
          cases diagonal arithmetic unitDiagonal index equation <;>
            simp [List.getLast?_cons, none, Steps.bind_eq_error_iff]

-----------------------------------------------------------------------------------------
-- Diagonals
-----------------------------------------------------------------------------------------

/-- The places of the zeros on the diagonal of a matrix. -/
def zeroPlaces (arithmetic : Arithmetic α) (matrix : List (List α)) : List Nat :=
  (List.range matrix.length).filter fun place =>
    arithmetic.isZero ((matrix.getD place []).getD place arithmetic.zero)

/-- The places at which a system cannot be solved: a diagonal that is not read has none. -/
def singularPlaces (arithmetic : Arithmetic α) (system : TriangularSystem)
    (matrix : List (List α)) : List Nat :=
  if system.unitDiagonal then [] else zeroPlaces arithmetic matrix

/-- A check of the whole diagonal names the first place at which the system cannot be solved. -/
theorem singularRow?_eq (system : TriangularSystem) (matrix : List (List Float))
    : singularRow? system matrix = (singularPlaces floats system matrix).head? := by
  rw [singularRow?, singularPlaces]
  split_ifs
  · rfl
  · exact (List.head?_filter ..).symm

/-- Every equation can be solved if the diagonal is taken for ones. -/
theorem unsolvable_unit (index : Nat) (equations : List (Equation α))
    : unsolvable arithmetic true index equations = [] := by
  induction equations generalizing index with
  | nil => rfl
  | cons equation rest ih => exact ih (index + 1)

/-- Otherwise an equation cannot be solved if there is a zero at its place on the diagonal. By
induction on the equations.
-/
theorem unsolvable_eq (index : Nat) (equations : List (Equation α))
    : unsolvable arithmetic false index equations
      = (List.range' index equations.length).filter fun place =>
          arithmetic.isZero
            (((equations.map (·.coefficients)).getD (place - index) []).getD place
              arithmetic.zero) := by
  induction equations generalizing index with
  | nil => rfl
  | cons equation rest ih =>
      have later
          : (List.range' (index + 1) rest.length).filter (fun place =>
                arithmetic.isZero
                  (((rest.map (·.coefficients)).getD (place - (index + 1)) []).getD place
                    arithmetic.zero))
            = (List.range' (index + 1) rest.length).filter fun place =>
                arithmetic.isZero
                  ((((equation :: rest).map (·.coefficients)).getD (place - index) []).getD place
                    arithmetic.zero) := by
        refine List.filter_congr fun place member => ?_
        have behind := (List.mem_range'_1.mp member).1
        rw [List.map_cons, show place - index = place - (index + 1) + 1 by omega,
          List.getD_cons_succ]
      rw [unsolvable, ih, later, diagonal, List.length_cons, List.range'_succ, List.filter_cons,
        if_neg Bool.false_ne_true, Nat.sub_self, List.map_cons, List.getD_cons_zero]
      dsimp only
      split_ifs <;> rfl

/-- Transposing a square matrix keeps its diagonal. -/
theorem zeroPlaces_transpose (matrix : List (List α))
    : zeroPlaces arithmetic (transpose arithmetic.zero matrix.length matrix)
      = zeroPlaces arithmetic matrix := by
  rw [zeroPlaces, zeroPlaces, transpose, List.length_map, List.length_range]
  refine List.filter_congr fun place member => ?_
  have inside := List.mem_range.mp member
  simp [List.getD_eq_getElem?_getD, List.getElem?_range inside, List.getElem?_eq_getElem inside]

-----------------------------------------------------------------------------------------
-- Systems
-----------------------------------------------------------------------------------------

/-- Whether a system is solved from its last equation on. -/
def isBackward (system : TriangularSystem) : Bool := system.lower = isTransposed system

/-- Substitution fails at a zero on the diagonal: at the last one if the system is solved from the last
equation on, and at the first one otherwise.
-/
theorem substitute_eq_error_iff {system : TriangularSystem}
    {coefficients rightSide : List (List α)} {row : Nat}
    (square : coefficients.length = rightSide.length)
    : substitute arithmetic system coefficients rightSide = .error row
      ↔ (if isBackward system then (singularPlaces arithmetic system coefficients).getLast?
          else (singularPlaces arithmetic system coefficients).head?) = some row := by
  have places
      : ∀ matrix : List (List α),
          matrix.length = rightSide.length
          → zeroPlaces arithmetic matrix = zeroPlaces arithmetic coefficients
          → unsolvable arithmetic system.unitDiagonal 0 (List.zipWith Equation.mk matrix rightSide)
            = singularPlaces arithmetic system coefficients := by
    intro matrix length same
    rw [singularPlaces, ← same]
    cases system.unitDiagonal with
    | true => exact unsolvable_unit 0 _
    | false =>
        have rows : (List.zipWith Equation.mk matrix rightSide).map (·.coefficients) = matrix := by
          rw [← List.map_uncurry_zip_eq_zipWith, List.map_map]
          exact List.map_fst_zip (Nat.le_of_eq length)
        rw [unsolvable_eq, rows, List.length_zipWith, ← length, Nat.min_self,
          ← List.range_eq_range']
        rfl
  have chosen
      : unsolvable arithmetic system.unitDiagonal 0
          (List.zipWith Equation.mk
            (if isTransposed system then
                transpose arithmetic.zero coefficients.length coefficients
              else coefficients)
            rightSide)
        = singularPlaces arithmetic system coefficients := by
    split_ifs
    · refine places _ ?_ (zeroPlaces_transpose coefficients)
      rw [transpose, List.length_map, List.length_range, square]
    · exact places coefficients square rfl
  rw [substitute, isBackward, ← chosen]
  by_cases backward : system.lower = isTransposed system
  · rw [if_pos backward, decide_eq_true backward, if_pos rfl]
    exact solveBackward_eq_error_iff
  · rw [if_neg backward, decide_eq_false backward, if_neg Bool.false_ne_true]
    exact solveForward_eq_error_iff

/-- The places of the diagonal of a tensor at which a system cannot be solved. -/
def zerosOf (system : TriangularSystem) (coefficients : Tensor) : List Nat :=
  let size := coefficients.sizes.headD 0
  singularPlaces floats system (rows size size coefficients.elements.toFloats)

section

variable {system : TriangularSystem} {coefficients : Tensor} {size : Nat}
  (sized : systemSize coefficients.sizes = .ok size)

include sized

theorem zerosOf_eq
    : zerosOf system coefficients
      = singularPlaces floats system (rows size size coefficients.elements.toFloats) := by
  rw [zerosOf, (safe_systemSize coefficients.sizes).holds sized]
  rfl

/-- The whole diagonal is checked from its first place on. -/
theorem singularRow?_rows
    : singularRow? system (rows size size coefficients.elements.toFloats)
      = (zerosOf system coefficients).head? := by
  rw [singularRow?_eq, zerosOf_eq sized]

/-- Substitution fails at one of the two ends of the places at which the system cannot be solved. -/
theorem substitute_rows_eq_error_iff {count row : Nat} {items : List Float}
    : substitute floats system (rows size size coefficients.elements.toFloats)
          (rows size count items)
        = .error row
      ↔ (if isBackward system then (zerosOf system coefficients).getLast?
          else (zerosOf system coefficients).head?) = some row := by
  rw [zerosOf_eq sized]
  exact substitute_eq_error_iff (by rw [length_rows, length_rows])

/-- There is a solution if there is no such place. -/
theorem exists_substitute_rows {count : Nat} {items : List Float}
    (none : zerosOf system coefficients = [])
    : ∃ solved,
        substitute floats system (rows size size coefficients.elements.toFloats)
            (rows size count items)
          = .ok solved := by
  cases done : substitute floats system (rows size size coefficients.elements.toFloats)
      (rows size count items) with
  | ok solved => exact ⟨solved, rfl⟩
  | error row =>
      have place := (substitute_rows_eq_error_iff sized).mp done
      rw [none] at place
      split_ifs at place <;> cases place

end

end Dataflow.Matrix
