import Dataflow.Proofs.Tensor.HostValues
import Dataflow.Proofs.Tensor.Triangular
import Mathlib.Algebra.BigOperators.Intervals
import Mathlib.Algebra.Field.Rat
import Mathlib.Data.List.GetD
import Mathlib.Tactic.IntervalCases

/-!
Triangular systems in exact arithmetic. Substitution fails at a zero of a diagonal that is read, and
otherwise solves every equation. Whatever the arithmetic, it reads nothing but the chosen triangle.
-/

namespace Dataflow.Matrix

variable {α : Type}

-----------------------------------------------------------------------------------------
-- The triangle
-----------------------------------------------------------------------------------------

/-- An entry of a square matrix that is stored row by row. -/
def entry (arithmetic : Arithmetic α) (size : Nat) (items : List α) (row column : Nat) : α :=
  items.getD (row * size + column) arithmetic.zero

/-- An entry of the matrix of which only the chosen triangle is kept. The diagonal belongs to it, or is
replaced by ones.
-/
def triangle (arithmetic : Arithmetic α) (system : TriangularSystem) (entry : Nat → Nat → α)
    (row column : Nat) : α :=
  if row = column then if system.unitDiagonal then arithmetic.one else entry row column
  else if (if system.lower then column < row else row < column) then entry row column
  else arithmetic.zero

/-- An entry of the matrix that is solved for: the triangle, or its transpose. -/
def operator (arithmetic : Arithmetic α) (system : TriangularSystem) (entry : Nat → Nat → α)
    (row column : Nat) : α :=
  if isTransposed system then triangle arithmetic system entry column row
  else triangle arithmetic system entry row column

/-- The coefficient of an unknown in the equation `row`. Solved from the last equation on, only those
behind the diagonal are read, and otherwise only those before it.
-/
def coefficient (arithmetic : Arithmetic α) (unitDiagonal backward : Bool)
    (coefficients : List α) (row column : Nat) : α :=
  if row = column then
    if unitDiagonal then arithmetic.one else coefficients.getD row arithmetic.zero
  else if (if backward then row < column else column < row) then
    coefficients.getD column arithmetic.zero
  else arithmetic.zero

section

variable {arithmetic : Arithmetic α} {unitDiagonal backward : Bool} {coefficients : List α}
  {row column : Nat}

theorem coefficient_eq_getD (reads : if backward then row < column else column < row)
    : coefficient arithmetic unitDiagonal backward coefficients row column
      = coefficients.getD column arithmetic.zero := by
  have other : row ≠ column := by
    split_ifs at reads <;> omega
  rw [coefficient, if_neg other, if_pos reads]

theorem coefficient_eq_zero (other : row ≠ column)
    (skips : ¬if backward then row < column else column < row)
    : coefficient arithmetic unitDiagonal backward coefficients row column = arithmetic.zero := by
  rw [coefficient, if_neg other, if_neg skips]

end

-----------------------------------------------------------------------------------------
-- Exact arithmetic
-----------------------------------------------------------------------------------------

/-- The exact arithmetic of a field. -/
def ofField (K : Type) [Field K] [DecidableEq K] : Arithmetic K where
  zero := 0
  one := 1
  add x y := x + y
  sub x y := x - y
  mul x y := x * y
  div x y := x / y
  isZero x := decide (x = 0)

variable {K : Type} [Field K]

/-- The sum of a column of some rows, each one times its weight. -/
def weighted (weight : Nat → K) (rows : List (List K)) (column : Nat) : K :=
  ∑ place ∈ Finset.range rows.length, weight place * (rows.getD place []).getD column 0

section

variable {weight other : Nat → K} {rows : List (List K)} {column : Nat}

@[simp] theorem weighted_nil : weighted weight [] column = 0 := rfl

theorem weighted_cons (row : List K)
    : weighted weight (row :: rows) column
      = weight 0 * row.getD column 0 + weighted (fun place => weight (place + 1)) rows column := by
  rw [weighted, List.length_cons, Finset.sum_range_succ', add_comm]
  rfl

theorem weighted_append (later : List (List K))
    : weighted weight (rows ++ later) column
      = weighted weight rows column
        + weighted (fun place => weight (rows.length + place)) later column := by
  induction rows generalizing weight with
  | nil => simp
  | cons row rows ih =>
      rw [List.cons_append, weighted_cons, weighted_cons, ih, add_assoc]
      simp only [List.length_cons, Nat.add_right_comm _ 1]

theorem weighted_congr (same : ∀ place < rows.length, weight place = other place)
    : weighted weight rows column = weighted other rows column :=
  Finset.sum_congr rfl fun place member => by rw [same place (Finset.mem_range.mp member)]

theorem weighted_eq_zero (zero : ∀ place, weight place = 0) : weighted weight rows column = 0 :=
  Finset.sum_eq_zero fun place _ => by rw [zero, zero_mul]

end

variable [DecidableEq K]

-----------------------------------------------------------------------------------------
-- One equation
-----------------------------------------------------------------------------------------

section

variable {width column : Nat} (inside : column < width)

include inside

/-- A multiple of a row is subtracted from another one in each column. -/
theorem getD_subtractScaled {row others : List K} (length : row.length = width)
    (same : others.length = width) (factor : K)
    : (subtractScaled (ofField K) row factor others).getD column 0
      = row.getD column 0 - factor * others.getD column 0 := by
  have left : column < row.length := by omega
  have right : column < others.length := by omega
  simp [subtractScaled, ofField, List.getD_eq_getElem?_getD, List.getElem?_zipWith,
    List.getElem?_eq_getElem left, List.getElem?_eq_getElem right]

/-- What is solved is subtracted, by induction on the solved rows. -/
theorem getD_foldl_subtractScaled {solved : List (List K)} (wide : Wide width solved)
    {factors row : List K} (length : row.length = width)
    : ((factors.zip solved).foldl
          (fun row (factor, other) => subtractScaled (ofField K) row factor other) row).getD column 0
      = row.getD column 0 - weighted (fun place => factors.getD place 0) solved column := by
  induction solved generalizing factors row with
  | nil => simp
  | cons first solved ih =>
      cases factors with
      | nil => simp [weighted_eq_zero]
      | cons factor factors =>
          have same := wide first List.mem_cons_self
          have kept : (subtractScaled (ofField K) row factor first).length = width := by
            rw [subtractScaled, List.length_zipWith, length, same, Nat.min_self]
          have later : Wide width solved :=
            fun row member => wide row (List.mem_cons_of_mem _ member)
          rw [List.zip_cons_cons, List.foldl_cons, ih later kept,
            getD_subtractScaled inside length same, weighted_cons, sub_sub]
          rfl

/-- A solved row satisfies its equation. -/
theorem solveRow_solves {solved : List (List K)} (wide : Wide width solved) {factors row : List K}
    (length : row.length = width) {pivot : K} (nonzero : pivot ≠ 0)
    : pivot * (solveRow (ofField K) pivot factors solved row).getD column 0
        + weighted (fun place => factors.getD place 0) solved column
      = row.getD column 0 := by
  have divided (items : List K)
      : (items.map ((ofField K).div · pivot)).getD column 0 = items.getD column 0 / pivot := by
    conv_lhs => rw [← zero_div pivot]
    exact List.getD_map ..
  rw [solveRow, divided, mul_div_cancel₀ _ nonzero, getD_foldl_subtractScaled inside wide length,
    sub_add_cancel]

end

/-- Some rows, of which the first one is the row `first`, satisfy the equation `row` in each column. -/
def Satisfies (unitDiagonal backward : Bool) (first width : Nat) (solution : List (List K))
    (row : Nat) (equation : Equation K) : Prop :=
  ∀ column < width,
    weighted
        (fun place =>
          coefficient (ofField K) unitDiagonal backward equation.coefficients row (first + place))
        solution column
      = equation.rightSide.getD column 0

section

variable {unitDiagonal : Bool} {width index : Nat} {equation : Equation K} {pivot : K}
  {solved : List (List K)} (wide : Wide width solved) (length : equation.rightSide.length = width)
  (known : diagonal (ofField K) unitDiagonal index equation = .ok pivot)

include known in
/-- A pivot is the coefficient on the diagonal, and not zero. -/
theorem pivot_eq (backward : Bool)
    : coefficient (ofField K) unitDiagonal backward equation.coefficients index index = pivot
      ∧ pivot ≠ 0 := by
  rw [coefficient, if_pos rfl]
  rw [diagonal] at known
  dsimp only at known
  split_ifs at known with unit zero
  · obtain rfl := Except.ok.inj known
    exact ⟨if_pos unit, one_ne_zero⟩
  · obtain rfl := Except.ok.inj known
    exact ⟨if_neg unit, fun vanishes => zero (decide_eq_true vanishes)⟩

include wide length

/-- Behind the rows that are solved already, the next one satisfies its equation, whatever follows. -/
theorem satisfies_forward {later : List (List K)}
    (known : diagonal (ofField K) unitDiagonal solved.length equation = .ok pivot)
    : Satisfies unitDiagonal false 0 width
        (solved
          ++ solveRow (ofField K) pivot (equation.coefficients.take solved.length) solved
              equation.rightSide
            :: later)
        solved.length equation := by
  intro column inside
  obtain ⟨here, nonzero⟩ := pivot_eq known false
  have before
      : weighted
            (fun place =>
              coefficient (ofField K) unitDiagonal false equation.coefficients solved.length
                (0 + place))
            solved column
        = weighted (fun place => (equation.coefficients.take solved.length).getD place 0) solved
            column := by
    refine weighted_congr fun place below => ?_
    rw [Nat.zero_add, List.getD_eq_getElem?_getD, List.getElem?_take_of_lt below,
      ← List.getD_eq_getElem?_getD]
    exact coefficient_eq_getD below
  have behind
      : weighted
            (fun place =>
              coefficient (ofField K) unitDiagonal false equation.coefficients solved.length
                (0 + (solved.length + (place + 1))))
            later column
        = 0 := by
    refine weighted_eq_zero fun place => coefficient_eq_zero ?_ ?_
    · omega
    · rw [if_neg Bool.false_ne_true]
      omega
  rw [weighted_append, weighted_cons, before, behind, add_zero, Nat.zero_add, Nat.add_zero, here,
    add_comm]
  exact solveRow_solves inside wide length nonzero

include known

/-- In front of the rows that are solved already, the next one satisfies its equation. -/
theorem satisfies_backward
    : Satisfies unitDiagonal true index width
        (solveRow (ofField K) pivot (equation.coefficients.drop (index + 1)) solved
            equation.rightSide
          :: solved)
        index equation := by
  intro column inside
  obtain ⟨here, nonzero⟩ := pivot_eq known true
  have behind
      : weighted
            (fun place =>
              coefficient (ofField K) unitDiagonal true equation.coefficients index
                (index + (place + 1)))
            solved column
        = weighted (fun place => (equation.coefficients.drop (index + 1)).getD place 0) solved
            column := by
    refine weighted_congr fun place _ => ?_
    rw [List.getD_eq_getElem?_getD, List.getElem?_drop, ← List.getD_eq_getElem?_getD,
      Nat.add_assoc, Nat.add_comm 1 place]
    exact coefficient_eq_getD (Nat.lt_add_of_pos_right place.succ_pos)
  rw [weighted_cons, behind, Nat.add_zero, here]
  exact solveRow_solves inside wide length nonzero

end

-----------------------------------------------------------------------------------------
-- Substitution
-----------------------------------------------------------------------------------------

section

variable {unitDiagonal : Bool} {width : Nat}

/-- A row in front of the others is not read by the equations behind it. -/
theorem Satisfies.cons {first row : Nat} {solution : List (List K)} {equation : Equation K}
    (satisfies : Satisfies unitDiagonal true (first + 1) width solution row equation)
    (behind : first < row) (front : List K)
    : Satisfies unitDiagonal true first width (front :: solution) row equation := by
  intro column inside
  have skipped
      : coefficient (ofField K) unitDiagonal true equation.coefficients row (first + 0) = 0 :=
    coefficient_eq_zero (Nat.ne_of_gt behind) (Nat.lt_asymm behind)
  rw [weighted_cons, skipped, zero_mul, zero_add, ← satisfies column inside]
  exact weighted_congr fun place _ => by rw [Nat.add_assoc first 1, Nat.add_comm 1]

/-- Solved from the first one on, every equation is satisfied, and no solved row changes. By induction
on the equations.
-/
theorem solveForward_satisfies {solved solution : List (List K)} {equations : List (Equation K)}
    (before : Wide width solved)
    (wide : ∀ equation ∈ equations, equation.rightSide.length = width)
    (done : solveForward (ofField K) unitDiagonal solved equations = .ok solution)
    : solved <+: solution
      ∧ ∀ place equation, equations[place]? = some equation →
          Satisfies unitDiagonal false 0 width solution (solved.length + place) equation := by
  induction equations generalizing solved with
  | nil =>
      obtain rfl := Except.ok.inj done
      exact ⟨List.prefix_rfl, nofun⟩
  | cons equation equations ih =>
      obtain ⟨pivot, known, done⟩ := Steps.bind_eq_ok_iff.mp done
      have length := wide equation List.mem_cons_self
      obtain ⟨⟨later, rfl⟩, rest⟩ :=
        ih (before.concat (length_solveRow _ pivot before length))
          (fun other member => wide other (List.mem_cons_of_mem _ member)) done
      rw [List.append_assoc, List.singleton_append] at rest ⊢
      refine ⟨List.prefix_append .., fun place other found => ?_⟩
      cases place with
      | zero =>
          obtain rfl := Option.some.inj found
          exact satisfies_forward before length known
      | succ place =>
          have satisfied := rest place other found
          rwa [List.length_append, List.length_singleton, Nat.add_assoc, Nat.add_comm 1]
            at satisfied

/-- Solved from the last one on, every equation is satisfied. By induction on the equations. -/
theorem solveBackward_satisfies {index : Nat} {solution : List (List K)}
    {equations : List (Equation K)}
    (wide : ∀ equation ∈ equations, equation.rightSide.length = width)
    (done : solveBackward (ofField K) unitDiagonal index equations = .ok solution)
    : ∀ place equation, equations[place]? = some equation →
        Satisfies unitDiagonal true index width solution (index + place) equation := by
  induction equations generalizing index solution with
  | nil => exact nofun
  | cons equation equations ih =>
      obtain ⟨solved, later, done⟩ := Steps.bind_eq_ok_iff.mp done
      obtain ⟨pivot, known, done⟩ := Steps.bind_eq_ok_iff.mp done
      obtain rfl := Except.ok.inj done
      have wideLater : ∀ other ∈ equations, other.rightSide.length = width :=
        fun other member => wide other (List.mem_cons_of_mem _ member)
      intro place other found
      cases place with
      | zero =>
          obtain rfl := Option.some.inj found
          exact satisfies_backward (solveBackward_eq_ok wideLater later).1
            (wide _ List.mem_cons_self) known
      | succ place =>
          have satisfied := ih wideLater later place other found
          rw [Nat.add_assoc, Nat.add_comm 1] at satisfied
          exact satisfied.cons (by omega) _

end

-----------------------------------------------------------------------------------------
-- Equations
-----------------------------------------------------------------------------------------

/-- The equations of a system, with the coefficients in the order of the unknowns. -/
def equations (arithmetic : Arithmetic α) (system : TriangularSystem)
    (coefficients rightSide : List (List α)) : List (Equation α) :=
  List.zipWith Equation.mk
    (if isTransposed system then transpose arithmetic.zero coefficients.length coefficients
      else coefficients)
    rightSide

/-- Substitution solves the equations in one of the two directions. -/
theorem substitute_eq (arithmetic : Arithmetic α) (system : TriangularSystem)
    (coefficients rightSide : List (List α))
    : substitute arithmetic system coefficients rightSide
      = if isBackward system then
          solveBackward arithmetic system.unitDiagonal 0
            (equations arithmetic system coefficients rightSide)
        else
          solveForward arithmetic system.unitDiagonal []
            (equations arithmetic system coefficients rightSide) := by
  rw [substitute, isBackward]
  simp only [decide_eq_true_eq]
  rfl

/-- A solution satisfies every equation. -/
theorem substitute_satisfies {system : TriangularSystem} {width : Nat}
    {coefficients rightSide solution : List (List K)} (wide : Wide width rightSide)
    (done : substitute (ofField K) system coefficients rightSide = .ok solution)
    : ∀ row equation, (equations (ofField K) system coefficients rightSide)[row]? = some equation →
        Satisfies system.unitDiagonal (isBackward system) 0 width solution row equation := by
  have wideEquations
      : ∀ equation ∈ equations (ofField K) system coefficients rightSide,
          equation.rightSide.length = width :=
    fun _ member => wide _ (rightSide_mem member)
  have none : Wide width ([] : List (List K)) := fun row member => absurd member List.not_mem_nil
  intro row equation found
  rw [substitute_eq] at done
  split_ifs at done with backward
  · rw [backward, ← Nat.zero_add row]
    exact solveBackward_satisfies wideEquations done row equation found
  · rw [Bool.eq_false_iff.mpr backward, ← Nat.zero_add row]
    exact (solveForward_satisfies none wideEquations done).2 row equation found

-----------------------------------------------------------------------------------------
-- What is read
-----------------------------------------------------------------------------------------

/-- Two equations that are the same as far as they are read. -/
structure Alike (arithmetic : Arithmetic α) (unitDiagonal backward : Bool) (row : Nat)
    (left right : Equation α) : Prop where
  rightSide : left.rightSide = right.rightSide
  pivot
    : diagonal arithmetic unitDiagonal row left = diagonal arithmetic unitDiagonal row right
  factors
    : if backward then left.coefficients.drop (row + 1) = right.coefficients.drop (row + 1)
      else left.coefficients.take row = right.coefficients.take row

section

variable {arithmetic : Arithmetic α} {unitDiagonal : Bool} {left right : List (Equation α)}
  (length : left.length = right.length)

include length

/-- Equations that are alike are solved alike from the first one on. -/
theorem solveForward_congr {solved : List (List α)}
    (alike
      : ∀ place first second, left[place]? = some first → right[place]? = some second →
          Alike arithmetic unitDiagonal false (solved.length + place) first second)
    : solveForward arithmetic unitDiagonal solved left
      = solveForward arithmetic unitDiagonal solved right := by
  induction left generalizing right solved with
  | nil => rw [List.eq_nil_of_length_eq_zero length.symm]
  | cons first left ih =>
      obtain ⟨second, right, rfl⟩ := List.exists_cons_of_length_eq_add_one length.symm
      have same := alike 0 first second rfl rfl
      rw [solveForward, solveForward, same.rightSide, ← Nat.add_zero solved.length, same.pivot,
        show first.coefficients.take (solved.length + 0) = _ from same.factors]
      refine bind_congr fun pivot => ih (Nat.succ.inj length) fun place left right here there => ?_
      have later := alike (place + 1) left right here there
      rwa [List.length_append, List.length_singleton, Nat.add_assoc, Nat.add_comm 1]

/-- Equations that are alike are solved alike from the last one on. -/
theorem solveBackward_congr {index : Nat}
    (alike
      : ∀ place first second, left[place]? = some first → right[place]? = some second →
          Alike arithmetic unitDiagonal true (index + place) first second)
    : solveBackward arithmetic unitDiagonal index left
      = solveBackward arithmetic unitDiagonal index right := by
  induction left generalizing right index with
  | nil => rw [List.eq_nil_of_length_eq_zero length.symm]
  | cons first left ih =>
      obtain ⟨second, right, rfl⟩ := List.exists_cons_of_length_eq_add_one length.symm
      have same := alike 0 first second rfl rfl
      have later
          : solveBackward arithmetic unitDiagonal (index + 1) left
            = solveBackward arithmetic unitDiagonal (index + 1) right := by
        refine ih (Nat.succ.inj length) fun place left right here there => ?_
        rw [Nat.add_assoc, Nat.add_comm 1]
        exact alike (place + 1) left right here there
      rw [Nat.add_zero] at same
      rw [solveBackward, solveBackward, later, same.rightSide, same.pivot,
        show first.coefficients.drop (index + 1) = _ from same.factors]

end

/-- Equations are alike if their coefficients are that count. -/
theorem alike_of_coefficients {arithmetic : Arithmetic α} {unitDiagonal backward : Bool}
    {size row : Nat} {left right : Equation α} (rightSide : left.rightSide = right.rightSide)
    (inside : row < size) (lengthLeft : left.coefficients.length = size)
    (lengthRight : right.coefficients.length = size)
    (same
      : ∀ column < size,
          coefficient arithmetic unitDiagonal backward left.coefficients row column
          = coefficient arithmetic unitDiagonal backward right.coefficients row column)
    : Alike arithmetic unitDiagonal backward row left right := by
  have item {column : Nat} (insideLeft : column < left.coefficients.length)
      (insideRight : column < right.coefficients.length)
      (reads : if backward then row < column else column < row)
      : left.coefficients[column] = right.coefficients[column] := by
    have equal := same column (lengthLeft ▸ insideLeft)
    rwa [coefficient_eq_getD reads, coefficient_eq_getD reads, List.getD_eq_getElem _ _ insideLeft,
      List.getD_eq_getElem _ _ insideRight] at equal
  refine ⟨rightSide, ?_, ?_⟩
  · have equal := same row inside
    rw [coefficient, coefficient, if_pos rfl, if_pos rfl] at equal
    rw [diagonal, diagonal]
    split_ifs at equal ⊢ <;> simp_all
  · split_ifs with direction
    · refine List.ext_getElem (by simp [lengthLeft, lengthRight]) fun place _ _ => ?_
      rw [List.getElem_drop, List.getElem_drop]
      exact item _ _ (by rw [if_pos direction]; omega)
    · refine List.ext_getElem (by simp [lengthLeft, lengthRight]) fun place below _ => ?_
      rw [List.getElem_take, List.getElem_take]
      rw [List.length_take] at below
      exact item _ _ (by rw [if_neg direction]; omega)

-----------------------------------------------------------------------------------------
-- Systems
-----------------------------------------------------------------------------------------

/-- Rows of one width are stored one after the other. -/
theorem getD_flatten {width : Nat} {rows : List (List α)} (wide : Wide width rows)
    {row column : Nat} (inside : column < width) (default : α)
    : rows.flatten.getD (row * width + column) default = (rows.getD row []).getD column default := by
  induction rows generalizing row with
  | nil => simp
  | cons first rows ih =>
      have length := wide first List.mem_cons_self
      rw [List.flatten_cons]
      cases row with
      | zero =>
          rw [Nat.zero_mul, Nat.zero_add, List.getD_append _ _ _ _ (length ▸ inside),
            List.getD_cons_zero]
      | succ row =>
          have behind : (row + 1) * width + column - first.length = row * width + column := by
            rw [length, Nat.succ_mul]
            omega
          rw [List.getD_append_right _ _ _ _ (by rw [length, Nat.succ_mul]; omega), behind,
            ih fun row member => wide row (List.mem_cons_of_mem _ member), List.getD_cons_succ]

/-- An item of a row of a matrix. -/
theorem getD_rows {rowCount columnCount : Nat} {items : List α}
    (length : items.length = rowCount * columnCount) {row column : Nat}
    (inside : column < columnCount) (default : α)
    : ((rows rowCount columnCount items).getD row []).getD column default
      = items.getD (row * columnCount + column) default := by
  rw [← getD_flatten (wide_rows (Nat.le_of_eq length.symm)) inside, rows,
    (groupsOf_exact length).1]

section

variable {arithmetic : Arithmetic α} {system : TriangularSystem} {size width row : Nat}
  {coefficients : List α} (square : coefficients.length = size * size) (inside : row < size)

/-- As many equations as right sides. -/
theorem length_equations {rightSide : List (List α)} (same : rightSide.length = size)
    : (equations arithmetic system (rows size size coefficients) rightSide).length = size := by
  rw [equations, List.length_zipWith, same]
  split_ifs <;> simp [transpose, length_rows]

include square inside

/-- The coefficients of an equation are those of a row or of a column, in the order of the unknowns. -/
theorem exists_equation {rightSide : List (List α)} (same : rightSide.length = size)
    : ∃ items,
        (equations arithmetic system (rows size size coefficients) rightSide)[row]?
          = some ⟨items, rightSide.getD row []⟩
        ∧ items.length = size
        ∧ ∀ column < size,
            items.getD column arithmetic.zero
            = if isTransposed system then entry arithmetic size coefficients column row
              else entry arithmetic size coefficients row column := by
  have count : (rows size size coefficients).length = size := length_rows size size coefficients
  have there : rightSide[row]? = some (rightSide.getD row []) := by
    rw [List.getD_eq_getElem _ _ (same ▸ inside), List.getElem?_eq_getElem]
  by_cases transposed : isTransposed system = true
  · refine ⟨(rows size size coefficients).map (·.getD row arithmetic.zero), ?_, ?_,
      fun column below => ?_⟩
    · rw [equations, if_pos transposed, List.getElem?_zipWith, there, transpose, count,
        List.getElem?_map, List.getElem?_range inside]
      rfl
    · rw [List.length_map, count]
    · have known : column < (rows size size coefficients).length := count.symm ▸ below
      rw [if_pos transposed, entry, ← getD_rows square inside, List.getD_eq_getElem _ _ known,
        List.getD_eq_getElem _ _ (by rwa [List.length_map]), List.getElem_map]
  · have known : row < (rows size size coefficients).length := count.symm ▸ inside
    refine ⟨(rows size size coefficients).getD row [], ?_, ?_, fun column below => ?_⟩
    · rw [equations, if_neg transposed, List.getElem?_zipWith, there,
        List.getD_eq_getElem _ _ known, List.getElem?_eq_getElem known]
    · rw [List.getD_eq_getElem _ _ known]
      exact wide_rows (Nat.le_of_eq square.symm) _ (List.getElem_mem known)
    · rw [if_neg transposed, getD_rows square below, entry]

end

/-- The coefficients of an equation that count are those of the operator. -/
theorem coefficient_eq_operator {arithmetic : Arithmetic α} {system : TriangularSystem}
    {items : List α} {entry : Nat → Nat → α} {size row column : Nat}
    (reads
      : ∀ column < size,
          items.getD column arithmetic.zero
          = if isTransposed system then entry column row else entry row column)
    (inside : row < size) (below : column < size)
    : coefficient arithmetic system.unitDiagonal (isBackward system) items row column
      = operator arithmetic system entry row column := by
  rw [coefficient, reads row inside, reads column below, operator, triangle, triangle, isBackward]
  by_cases same : row = column
  · subst same
    simp only [if_pos, ite_self]
  · rw [if_neg same, if_neg same, if_neg (Ne.symm same)]
    cases system.lower <;> cases isTransposed system <;> simp

-----------------------------------------------------------------------------------------
-- Exact solutions
-----------------------------------------------------------------------------------------

section

variable {system : TriangularSystem} {size width : Nat} {coefficients rightSide : List K}
  (square : coefficients.length = size * size) (filled : rightSide.length = size * width)

include square filled

/-- A solution satisfies the equation of each row. -/
theorem operator_solves {solution : List (List K)}
    (done
      : substitute (ofField K) system (rows size size coefficients) (rows size width rightSide)
        = .ok solution)
    : solution.flatten.length = size * width
      ∧ ∀ row < size, ∀ column < width,
          ∑ place ∈ Finset.range size,
            operator (ofField K) system (entry (ofField K) size coefficients) row place
              * solution.flatten.getD (place * width + column) 0
          = rightSide.getD (row * width + column) 0 := by
  have count : (rows size width rightSide).length = size := length_rows size width rightSide
  have wide : Wide width (rows size width rightSide) := wide_rows (Nat.le_of_eq filled.symm)
  obtain ⟨wideSolution, length⟩ :=
    substitute_eq_ok wide (by rw [length_rows, length_rows]) done
  rw [count] at length
  refine ⟨by rw [length_flatten_of_wide wideSolution, length], fun row inside column below => ?_⟩
  obtain ⟨items, found, -, reads⟩ :=
    @exists_equation K (ofField K) system size row coefficients square inside _ count
  have solves := substitute_satisfies wide done row _ found column below
  rw [weighted, length, getD_rows filled below] at solves
  rw [← solves]
  refine Finset.sum_congr rfl fun place member => ?_
  rw [Nat.zero_add, getD_flatten wideSolution below,
    coefficient_eq_operator reads inside (Finset.mem_range.mp member)]

omit filled in
/-- There is no solution iff a diagonal that is read has a zero. -/
theorem exists_error_iff
    : (∃ row,
          substitute (ofField K) system (rows size size coefficients) (rows size width rightSide)
          = .error row)
      ↔ system.unitDiagonal = false
        ∧ ∃ place < size, entry (ofField K) size coefficients place place = 0 := by
  have places
      : (∃ row,
            substitute (ofField K) system (rows size size coefficients) (rows size width rightSide)
            = .error row)
        ↔ singularPlaces (ofField K) system (rows size size coefficients) ≠ [] := by
    simp only [substitute_eq_error_iff
      (show (rows size size coefficients).length = (rows size width rightSide).length by
        rw [length_rows, length_rows])]
    split_ifs
    · rw [← Option.isSome_iff_exists, List.getLast?_isSome]
    · rw [← Option.isSome_iff_exists, List.isSome_head?]
  rw [places, singularPlaces]
  cases system.unitDiagonal with
  | true => simp
  | false =>
      rw [if_neg Bool.false_ne_true, zeroPlaces, length_rows, Ne, List.filter_eq_nil_iff]
      simp only [List.mem_range, not_forall, not_not, true_and, exists_prop]
      refine exists_congr fun place => and_congr_right fun inside => ?_
      rw [getD_rows square inside, entry]
      exact decide_eq_true_iff

end

section

variable {arithmetic : Arithmetic α} {system : TriangularSystem} {size width : Nat}
  {left right : List α} (squareLeft : left.length = size * size)
  (squareRight : right.length = size * size)
  (same
    : ∀ row < size, ∀ column < size,
        triangle arithmetic system (entry arithmetic size left) row column
        = triangle arithmetic system (entry arithmetic size right) row column)

include squareLeft squareRight same

/-- The equations of systems whose triangles are the same are alike. -/
theorem alike_equations {rightSide : List (List α)} (count : rightSide.length = size) {row : Nat}
    {first second : Equation α}
    (here
      : (equations arithmetic system (rows size size left) rightSide)[row]? = some first)
    (there
      : (equations arithmetic system (rows size size right) rightSide)[row]? = some second)
    : Alike arithmetic system.unitDiagonal (isBackward system) row first second := by
  obtain ⟨below, -⟩ := List.getElem?_eq_some_iff.mp here
  have inside : row < size := by rwa [length_equations count] at below
  obtain ⟨itemsLeft, foundLeft, lengthLeft, readsLeft⟩ :=
    @exists_equation α arithmetic system size row left squareLeft inside _ count
  obtain ⟨itemsRight, foundRight, lengthRight, readsRight⟩ :=
    @exists_equation α arithmetic system size row right squareRight inside _ count
  obtain rfl := Option.some.inj (here.symm.trans foundLeft)
  obtain rfl := Option.some.inj (there.symm.trans foundRight)
  refine alike_of_coefficients rfl inside lengthLeft lengthRight fun column known => ?_
  rw [coefficient_eq_operator readsLeft inside known,
    coefficient_eq_operator readsRight inside known, operator, operator]
  split_ifs
  · exact same column known row inside
  · exact same row inside column known

/-- Systems whose triangles are the same have the same solution, or fail alike. -/
theorem substitute_congr (rightSide : List α)
    : substitute arithmetic system (rows size size left) (rows size width rightSide)
      = substitute arithmetic system (rows size size right) (rows size width rightSide) := by
  have count : (rows size width rightSide).length = size := length_rows size width rightSide
  have lengths
      : (equations arithmetic system (rows size size left) (rows size width rightSide)).length
        = (equations arithmetic system (rows size size right) (rows size width rightSide)).length := by
    rw [length_equations count, length_equations count]
  rw [substitute_eq, substitute_eq]
  split_ifs with backward
  · refine solveBackward_congr lengths fun place first second here there => ?_
    rw [Nat.zero_add, ← backward]
    exact alike_equations squareLeft squareRight same count here there
  · refine solveForward_congr lengths fun place first second here there => ?_
    rw [List.length_nil, Nat.zero_add, ← Bool.eq_false_iff.mpr backward]
    exact alike_equations squareLeft squareRight same count here there

end

/-- Triangular systems in exact arithmetic. There is no solution iff the diagonal is read and has a
zero. A solution is as large as the right sides, and the operator takes it to them. Matrices with the
same triangle have the same outcome.
-/
theorem substitution_exact {system : TriangularSystem} {size width : Nat}
    {coefficients rightSide : List K} (square : coefficients.length = size * size)
    (filled : rightSide.length = size * width)
    : ((∃ row,
            substitute (ofField K) system (rows size size coefficients) (rows size width rightSide)
            = .error row)
        ↔ system.unitDiagonal = false
          ∧ ∃ place < size, entry (ofField K) size coefficients place place = 0)
      ∧ (∀ solution,
          substitute (ofField K) system (rows size size coefficients) (rows size width rightSide)
              = .ok solution →
            solution.flatten.length = size * width
            ∧ ∀ row < size, ∀ column < width,
                ∑ place ∈ Finset.range size,
                  operator (ofField K) system (entry (ofField K) size coefficients) row place
                    * solution.flatten.getD (place * width + column) 0
                = rightSide.getD (row * width + column) 0)
      ∧ ∀ others : List K,
          others.length = size * size →
          (∀ row < size, ∀ column < size,
            triangle (ofField K) system (entry (ofField K) size others) row column
            = triangle (ofField K) system (entry (ofField K) size coefficients) row column) →
          substitute (ofField K) system (rows size size others) (rows size width rightSide)
          = substitute (ofField K) system (rows size size coefficients)
              (rows size width rightSide) :=
  ⟨exists_error_iff square, fun _ done => operator_solves square filled done,
    fun _ squareToo same => substitute_congr squareToo square same rightSide⟩

/-- A system of the transpose of an upper triangle. -/
def upperTransposed : TriangularSystem := ⟨false, .transposed, false, false⟩

/-- A matrix whose upper triangle holds the coefficients of two equations. -/
def twoEquations : List ℚ := [2, 3, 7, 4]

/-- The equations of `twoEquations` are solved, and the number below its diagonal does not matter. -/
theorem twoEquations_solved
    : twoEquations.length = 2 * 2
      ∧ ([4, 14] : List ℚ).length = 2 * 1
      ∧ ∃ solution,
          substitute (ofField ℚ) upperTransposed (rows 2 2 twoEquations) (rows 2 1 [4, 14])
              = .ok solution
          ∧ solution.flatten.length = 2
          ∧ 2 * solution.flatten.getD 0 0 = 4
          ∧ 3 * solution.flatten.getD 0 0 + 4 * solution.flatten.getD 1 0 = 14
          ∧ substitute (ofField ℚ) upperTransposed (rows 2 2 [2, 3, 0, 4]) (rows 2 1 [4, 14])
              = .ok solution := by
  have square : twoEquations.length = 2 * 2 := rfl
  have filled : ([4, 14] : List ℚ).length = 2 * 1 := rfl
  obtain ⟨fails, solves, others⟩ :=
    @substitution_exact ℚ _ _ upperTransposed 2 1 twoEquations [4, 14] square filled
  refine ⟨square, filled, ?_⟩
  cases done : substitute (ofField ℚ) upperTransposed (rows 2 2 twoEquations) (rows 2 1 [4, 14]) with
  | error row =>
      obtain ⟨-, place, inside, zero⟩ := fails.mp ⟨row, done⟩
      interval_cases place <;> simp [entry, twoEquations] at zero
  | ok solution =>
      obtain ⟨length, satisfied⟩ := solves solution done
      refine ⟨solution, rfl, length, ?_, ?_, ?_⟩
      · simpa [Finset.sum_range_succ, operator, triangle, entry, isTransposed, upperTransposed,
          twoEquations, ofField] using satisfied 0 Nat.two_pos 0 Nat.one_pos
      · simpa [Finset.sum_range_succ, operator, triangle, entry, isTransposed, upperTransposed,
          twoEquations, ofField] using satisfied 1 Nat.one_lt_two 0 Nat.one_pos
      · refine (others [2, 3, 0, 4] rfl fun row inside column below => ?_).trans done
        interval_cases row <;> interval_cases column <;> rfl

end Dataflow.Matrix
