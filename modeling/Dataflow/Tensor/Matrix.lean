import Dataflow.Tensor.Basic

/-!
Kernels on matrices: products, block diagonals and triangular systems. Products and systems are
written over any arithmetic; kernels use the one of binary64 numbers.
-/

namespace Dataflow.Matrix

-----------------------------------------------------------------------------------------
-- Arithmetic
-----------------------------------------------------------------------------------------

/-- The operations that products and systems need. -/
structure Arithmetic (α : Type) where
  zero : α
  one : α
  add : α → α → α
  sub : α → α → α
  mul : α → α → α
  div : α → α → α
  isZero : α → Bool

/-- Binary64 numbers. Both zeros are zero. -/
def floats : Arithmetic Float where
  zero := Float.ofBits 0
  one := Float.ofBits 0x3ff0000000000000
  add x y := x + y
  sub x y := x - y
  mul x y := x * y
  div x y := x / y
  isZero x := x == Float.ofBits 0

/-- The rows of a row-major matrix. -/
def rows {α : Type} (rowCount columnCount : Nat) (items : List α) : List (List α) :=
  groupsOf columnCount rowCount items

-----------------------------------------------------------------------------------------
-- Products
-----------------------------------------------------------------------------------------

variable {α : Type}

/-- Adds a multiple of a row, element by element. -/
def addScaled (arithmetic : Arithmetic α) (row : List α) (factor : α) (other : List α)
    : List α :=
  List.zipWith (fun x y => arithmetic.add x (arithmetic.mul factor y)) row other

/-- The combination of some rows, each one times a factor, in their order. -/
def combineRows (arithmetic : Arithmetic α) (width : Nat) (factors : List α)
    (others : List (List α)) : List α :=
  (factors.zip others).foldl (fun row (factor, other) => addScaled arithmetic row factor other)
    (List.replicate width arithmetic.zero)

/-- The rows of a product. -/
def productRows (arithmetic : Arithmetic α) (width : Nat) (lhs rhs : List (List α))
    : List (List α) :=
  lhs.map fun factors => combineRows arithmetic width factors rhs

/-- The sizes of a left operand as a matrix: a vector is a row. -/
def leftSizes : List Nat → Outcome (Nat × Nat)
  | [k] => .ok (1, k)
  | [m, k] => .ok (m, k)
  | _ => .fail .productRanks

/-- The sizes of a right operand as a matrix: a vector is a column. -/
def rightSizes : List Nat → Outcome (Nat × Nat)
  | [k] => .ok (k, 1)
  | [k, n] => .ok (k, n)
  | _ => .fail .productRanks

/-- The sizes of a product: a vector leaves no axis. -/
def productSizes (lhs rhs : List Nat) : List Nat :=
  (if lhs.length = 2 then lhs.take 1 else []) ++ (if rhs.length = 2 then rhs.drop 1 else [])

/-- The number of rows of a product, the size that it combines, and its number of columns. -/
def contraction (lhs rhs : List Nat) : Outcome (Nat × Nat × Nat) := do
  let (m, k) ← leftSizes lhs
  let (l, n) ← rightSizes rhs
  if k ≠ l then .fail (.contraction k l) else .ok (m, k, n)

/-- The elements of a product. Without columns there are none, however many rows there are. -/
def productElements (arithmetic : Arithmetic α) (m k n : Nat) (lhs rhs : List α) : List α :=
  if n = 0 then [] else (productRows arithmetic n (rows m k lhs) (rows k n rhs)).flatten

/-- The product of vectors or matrices. -/
def product (lhs rhs : Tensor) : Outcome Tensor := do
  let (m, k, n) ← contraction lhs.sizes rhs.sizes
  let result := productElements floats m k n lhs.elements.toFloats rhs.elements.toFloats
  .ok ⟨productSizes lhs.sizes rhs.sizes, .ofFloats lhs.dtype result⟩

-----------------------------------------------------------------------------------------
-- Block diagonals
-----------------------------------------------------------------------------------------

/-- The rows of a block with zeros on both sides. -/
def padRows (zero : α) (left right : Nat) (block : List (List α)) : List (List α) :=
  block.map fun row => List.replicate left zero ++ row ++ List.replicate right zero

/-- The rows of a block diagonal matrix of some width; the blocks come with their numbers of
columns, and the first one starts at column `left`.
-/
def blockRows (zero : α) (width : Nat) : Nat → List (Nat × List (List α)) → List (List α)
  | _, [] => []
  | left, (columns, block) :: rest =>
    padRows zero left (width - left - columns) block
      ++ blockRows zero width (left + columns) rest

/-- The sizes of a block. -/
def blockSizes (block : Tensor) : Outcome (Nat × Nat) :=
  match block.sizes with
  | [m, n] => .ok (m, n)
  | sizes => .fail (.blockRank sizes)

/-- The sum of some sizes. -/
def total (sizes : List Nat) : Nat := sizes.foldr (· + ·) 0

/-- The elements of a block diagonal matrix, given the items of each block. Without columns
there are none, however many rows there are.
-/
def blockElements (zero : α) (sizes : List (Nat × Nat)) (items : List (List α)) : List α :=
  let width := total (sizes.map (·.2))
  if width = 0 then []
  else
    let blocks := List.zipWith (fun (m, n) items => (n, rows m n items)) sizes items
    (blockRows zero width 0 blocks).flatten

/-- The sizes of a block diagonal matrix. -/
def diagonalSizes (blocks : List (Nat × Nat)) : List Nat :=
  [total (blocks.map (·.1)), total (blocks.map (·.2))]

/-- Puts matrices on the diagonal of a matrix of zeros. -/
def blockDiagonal (blocks : List Tensor) : Outcome Tensor :=
  match blocks with
  | [] => .fail .noBlocks
  | first :: _ => do
    let sizes ← blocks.mapM blockSizes
    let elements :=
      if first.dtype.isFloat then
        Elements.ofFloats first.dtype
          (blockElements (Float.ofBits 0) sizes (blocks.map (·.elements.toFloats)))
      else
        Elements.ofInts first.dtype
          (blockElements 0 sizes (blocks.map (·.elements.toInts)))
    .ok ⟨diagonalSizes sizes, elements⟩

-----------------------------------------------------------------------------------------
-- Triangular systems
-----------------------------------------------------------------------------------------

/-- Subtracts a multiple of a row, element by element. -/
def subtractScaled (arithmetic : Arithmetic α) (row : List α) (factor : α) (other : List α)
    : List α :=
  List.zipWith (fun x y => arithmetic.sub x (arithmetic.mul factor y)) row other

/-- Solves one equation: subtracts what is solved, and divides by the diagonal. -/
def solveRow (arithmetic : Arithmetic α) (diagonal : α) (factors : List α)
    (solved : List (List α)) (row : List α) : List α :=
  ((factors.zip solved).foldl
    (fun row (factor, other) => subtractScaled arithmetic row factor other) row).map
      (arithmetic.div · diagonal)

/-- An equation: its coefficients and its right side. -/
structure Equation (α : Type) where
  coefficients : List α
  rightSide : List α

/-- The diagonal coefficient of the equation `index`; an error names an equation that has none
but zero.
-/
def diagonal (arithmetic : Arithmetic α) (unitDiagonal : Bool) (index : Nat)
    (equation : Equation α) : Except Nat α :=
  if unitDiagonal then .ok arithmetic.one
  else
    let value := equation.coefficients.getD index arithmetic.zero
    if arithmetic.isZero value then .error index else .ok value

/-- Solves equations from the first one on; `solved` are the solutions before them. -/
def solveForward (arithmetic : Arithmetic α) (unitDiagonal : Bool)
    : List (List α) → List (Equation α) → Except Nat (List (List α))
  | solved, [] => .ok solved
  | solved, equation :: rest => do
    let pivot ← diagonal arithmetic unitDiagonal solved.length equation
    let row := solveRow arithmetic pivot (equation.coefficients.take solved.length) solved
      equation.rightSide
    solveForward arithmetic unitDiagonal (solved ++ [row]) rest

/-- Solves equations from the last one on; `index` is the number of the first one. -/
def solveBackward (arithmetic : Arithmetic α) (unitDiagonal : Bool)
    : Nat → List (Equation α) → Except Nat (List (List α))
  | _, [] => .ok []
  | index, equation :: rest => do
    let solved ← solveBackward arithmetic unitDiagonal (index + 1) rest
    let pivot ← diagonal arithmetic unitDiagonal index equation
    let row := solveRow arithmetic pivot (equation.coefficients.drop (index + 1)) solved
      equation.rightSide
    .ok (row :: solved)

/-- The columns of a square matrix, as rows. -/
def transpose (zero : α) (size : Nat) (matrix : List (List α)) : List (List α) :=
  (List.range size).map fun column => matrix.map fun row => row.getD column zero

/-- Whether the coefficient matrix is read by columns. -/
def isTransposed (system : TriangularSystem) : Bool := system.view ≠ .plain

/-- Solves a triangular system by substitution. Only the chosen triangle is read. The error is
the number of the first equation, in the order of the substitution, whose diagonal is zero.
-/
def substitute (arithmetic : Arithmetic α) (system : TriangularSystem)
    (coefficients rightSide : List (List α)) : Except Nat (List (List α)) :=
  let matrix :=
    if isTransposed system then
      transpose arithmetic.zero coefficients.length coefficients
    else coefficients
  let equations := List.zipWith Equation.mk matrix rightSide
  if system.lower = isTransposed system then
    solveBackward arithmetic system.unitDiagonal 0 equations
  else
    solveForward arithmetic system.unitDiagonal [] equations

/-- The number of equations of a system. -/
def systemSize (sizes : List Nat) : Outcome Nat :=
  match sizes with
  | [m, n] => if m = n then .ok m else .fail (.notSquare sizes)
  | _ => .fail (.notSquare sizes)

/-- The number of right sides of a system. -/
def rightSideCount (coefficients : List Nat) (size : Nat) (sizes : List Nat) : Outcome Nat :=
  match sizes with
  | [m] => if m = size then .ok 1 else .fail (.rightSide coefficients sizes)
  | [m, n] => if m = size then .ok n else .fail (.rightSide coefficients sizes)
  | _ => .fail (.rightSide coefficients sizes)

/-- Solves a triangular system. -/
def solve (system : TriangularSystem) (coefficients rightSide : Tensor) : Outcome Tensor := do
  let size ← systemSize coefficients.sizes
  let count ← rightSideCount coefficients.sizes size rightSide.sizes
  let matrix := rows size size coefficients.elements.toFloats
  match substitute floats system matrix (rows size count rightSide.elements.toFloats) with
  | .error row => .fail (.singular row)
  | .ok result => .ok ⟨rightSide.sizes, .ofFloats rightSide.dtype result.flatten⟩

/-- The first equation whose diagonal is zero, unless the diagonal is not read. -/
def singularRow? (system : TriangularSystem) (matrix : List (List Float)) : Option Nat :=
  if system.unitDiagonal then none
  else
    (List.range matrix.length).find? fun index =>
      floats.isZero ((matrix.getD index []).getD index floats.zero)

/-- Solves a triangular system after the whole diagonal was checked, from its start. -/
def solveChecked (system : TriangularSystem) (coefficients rightSide : Tensor)
    : Outcome Tensor := do
  let size ← systemSize coefficients.sizes
  let _ ← rightSideCount coefficients.sizes size rightSide.sizes
  match singularRow? system (rows size size coefficients.elements.toFloats) with
  | some row => .fail (.singular row)
  | none => solve system coefficients rightSide

end Dataflow.Matrix
