import Dataflow.Proofs.Typing.Operands
import Dataflow.Tensor.Matrix
import Dataflow.Typing.Infer
import Mathlib.Algebra.GroupWithZero.Nat
import Mathlib.Data.List.Basic
import Mathlib.Data.List.Forall2

/-!
Kernels on matrices. Whatever the arithmetic, rows keep their width, so products, block diagonals
and solutions have as many elements as their sizes say, and the inferred types.
-/

namespace Dataflow.Matrix

variable {α : Type}

-----------------------------------------------------------------------------------------
-- Rows
-----------------------------------------------------------------------------------------

/-- All rows have one width. -/
def Wide (width : Nat) (rows : List (List α)) : Prop := ∀ row ∈ rows, row.length = width

/-- A row of the same width behind the others. -/
theorem Wide.concat {width : Nat} {rows : List (List α)} {row : List α} (wide : Wide width rows)
    (length : row.length = width)
    : Wide width (rows ++ [row]) := by
  intro other member
  rcases List.mem_append.mp member with earlier | last
  · exact wide other earlier
  · rwa [List.mem_singleton.mp last]

/-- The rows of a matrix have its width, by induction on their number. -/
theorem wide_rows {rowCount columnCount : Nat} {items : List α}
    (length : rowCount * columnCount ≤ items.length)
    : Wide columnCount (rows rowCount columnCount items) := by
  rw [rows]
  induction rowCount generalizing items with
  | zero => exact fun row member => absurd member List.not_mem_nil
  | succ rowCount ih =>
      rw [Nat.succ_mul] at length
      intro row member
      rcases List.mem_cons.mp member with rfl | later
      · rw [List.length_take]
        omega
      · exact ih (by rw [List.length_drop]; omega) row later

/-- The number of rows. -/
theorem length_rows (rowCount columnCount : Nat) (items : List α)
    : (rows rowCount columnCount items).length = rowCount :=
  Elements.length_groupsOf columnCount rowCount items

/-- The number of elements of rows of one width. -/
theorem length_flatten_of_wide {width : Nat} {rows : List (List α)} (wide : Wide width rows)
    : rows.flatten.length = rows.length * width := by
  induction rows with
  | nil => simp
  | cons row rows ih =>
      rw [List.flatten_cons, List.length_append, wide row List.mem_cons_self,
        ih fun other member => wide other (List.mem_cons_of_mem _ member), List.length_cons,
        Nat.succ_mul, Nat.add_comm]

/-- Changing a row by others of its width, one after the other, keeps the width. -/
theorem length_foldl_rows {width : Nat} {change : List α → α → List α → List α}
    (keeps
      : ∀ row factor other,
          row.length = width → other.length = width → (change row factor other).length = width)
    {pairs : List (α × List α)} (wide : ∀ pair ∈ pairs, pair.2.length = width) {row : List α}
    (start : row.length = width)
    : (pairs.foldl (fun row (factor, other) => change row factor other) row).length = width := by
  induction pairs generalizing row with
  | nil => exact start
  | cons pair pairs ih =>
      refine ih (fun other member => wide other (List.mem_cons_of_mem _ member)) ?_
      exact keeps row pair.1 pair.2 start (wide pair List.mem_cons_self)

/-- The rows behind factors are those of the zipped list. -/
theorem wide_zip {width : Nat} {factors : List α} {others : List (List α)}
    (wide : Wide width others)
    : ∀ pair ∈ factors.zip others, pair.2.length = width :=
  fun _ member => wide _ (List.of_mem_zip member).2

-----------------------------------------------------------------------------------------
-- Products
-----------------------------------------------------------------------------------------

/-- A combination of rows has their width. -/
theorem length_combineRows (arithmetic : Arithmetic α) {width : Nat} (factors : List α)
    {others : List (List α)} (wide : Wide width others)
    : (combineRows arithmetic width factors others).length = width := by
  refine length_foldl_rows ?_ (wide_zip wide) List.length_replicate
  intro row factor other length same
  rw [addScaled, List.length_zipWith, length, same, Nat.min_self]

/-- A product has an element for each row and column. -/
theorem length_productElements (arithmetic : Arithmetic α) {m k n : Nat} (lhs : List α)
    {rhs : List α} (length : k * n ≤ rhs.length)
    : (productElements arithmetic m k n lhs rhs).length = m * n := by
  rw [productElements]
  split_ifs with empty
  · rw [empty]
    rfl
  · have wide : Wide n (productRows arithmetic n (rows m k lhs) (rows k n rhs)) := by
      intro row member
      obtain ⟨factors, _, rfl⟩ := List.mem_map.mp member
      exact length_combineRows arithmetic factors (wide_rows length)
    rw [length_flatten_of_wide wide, productRows, List.length_map, length_rows]

/-- A left operand is a vector or a matrix. -/
theorem leftSizes_eq_ok {sizes : List Nat} {m k : Nat} (done : leftSizes sizes = .ok (m, k))
    : sizes = [k] ∧ m = 1 ∨ sizes = [m, k] := by
  unfold leftSizes at done
  split at done
  · obtain ⟨rfl, rfl⟩ := Prod.mk.inj (Except.ok.inj done)
    exact .inl ⟨rfl, rfl⟩
  · obtain ⟨rfl, rfl⟩ := Prod.mk.inj (Except.ok.inj done)
    exact .inr rfl
  · cases done

/-- A right operand is a vector or a matrix. -/
theorem rightSizes_eq_ok {sizes : List Nat} {k n : Nat} (done : rightSizes sizes = .ok (k, n))
    : sizes = [k] ∧ n = 1 ∨ sizes = [k, n] := by
  unfold rightSizes at done
  split at done
  · obtain ⟨rfl, rfl⟩ := Prod.mk.inj (Except.ok.inj done)
    exact .inl ⟨rfl, rfl⟩
  · obtain ⟨rfl, rfl⟩ := Prod.mk.inj (Except.ok.inj done)
    exact .inr rfl
  · cases done

/-- The sizes of a product agree in the size that it combines. -/
theorem contraction_eq_ok {lhs rhs : List Nat} {m k n : Nat}
    (done : contraction lhs rhs = .ok (m, k, n))
    : leftSizes lhs = .ok (m, k) ∧ rightSizes rhs = .ok (k, n) := by
  obtain ⟨⟨m', k'⟩, left, done⟩ := Steps.bind_eq_ok_iff.mp done
  obtain ⟨⟨l, n'⟩, right, done⟩ := Steps.bind_eq_ok_iff.mp done
  dsimp only at done
  split_ifs at done with differ
  · cases done
  · obtain ⟨rfl, rfl, rfl⟩ : m' = m ∧ k' = k ∧ n' = n := by simpa using done
    obtain rfl := Decidable.not_not.mp differ
    exact ⟨left, right⟩

/-- Looking for the size that a product combines breaks no promise. -/
theorem safe_contraction (lhs rhs : List Nat)
    : Outcome.Safe (fun sizes => contraction lhs rhs = .ok sizes) (contraction lhs rhs) := by
  refine ⟨id, ?_⟩
  have left : Outcome.Safe (fun _ => True) (leftSizes lhs) := by
    unfold leftSizes
    split
    · exact Outcome.safe_ok trivial
    · exact Outcome.safe_ok trivial
    · exact Outcome.safe_fail _ _
  have right : Outcome.Safe (fun _ => True) (rightSizes rhs) := by
    unfold rightSizes
    split
    · exact Outcome.safe_ok trivial
    · exact Outcome.safe_ok trivial
    · exact Outcome.safe_fail _ _
  refine (left.bind fun lhs _ => right.bind fun rhs _ => ?_ : Outcome.Safe (fun _ => True) _).kept
  dsimp only
  split_ifs
  · exact Outcome.safe_fail _ _
  · exact Outcome.safe_ok trivial

/-- The sizes of a product count its elements. -/
theorem count_productSizes {lhs rhs : List Nat} {m k n : Nat}
    (left : leftSizes lhs = .ok (m, k)) (right : rightSizes rhs = .ok (k, n))
    : RowMajor.count (productSizes lhs rhs) = m * n ∧ RowMajor.count rhs = k * n := by
  rcases leftSizes_eq_ok left with ⟨rfl, rfl⟩ | rfl <;>
    rcases rightSizes_eq_ok right with ⟨rfl, rfl⟩ | rfl <;> simp [productSizes]

/-- The sizes of a product are allowed by the inferred extents. -/
theorem fits_productSizes {lhsDims rhsDims dims : List Dimension} {lhs rhs : List Nat}
    {inner other : Dimension} {m k n : Nat} (fitsLhs : Fits lhsDims lhs)
    (fitsRhs : Fits rhsDims rhs)
    (typed : Typing.productDims lhsDims rhsDims = .ok (inner, other, dims))
    (left : leftSizes lhs = .ok (m, k)) (right : rightSizes rhs = .ok (k, n))
    : Fits dims (productSizes lhs rhs) := by
  rcases leftSizes_eq_ok left with ⟨rfl, rfl⟩ | rfl <;>
    rcases rightSizes_eq_ok right with ⟨rfl, rfl⟩ | rfl
  · rcases fitsLhs with _ | ⟨_, _ | _⟩
    rcases fitsRhs with _ | ⟨_, _ | _⟩
    obtain ⟨-, -, rfl⟩ : _ ∧ _ ∧ [] = dims := by simpa [Typing.productDims] using typed
    exact .nil
  · rcases fitsLhs with _ | ⟨_, _ | _⟩
    rcases fitsRhs with _ | ⟨_, _ | ⟨allows, _ | _⟩⟩
    obtain ⟨-, -, rfl⟩ : _ ∧ _ ∧ [_] = dims := by simpa [Typing.productDims] using typed
    exact .cons allows .nil
  · rcases fitsLhs with _ | ⟨allows, _ | ⟨_, _ | _⟩⟩
    rcases fitsRhs with _ | ⟨_, _ | _⟩
    obtain ⟨-, -, rfl⟩ : _ ∧ _ ∧ [_] = dims := by simpa [Typing.productDims] using typed
    exact .cons allows .nil
  · rcases fitsLhs with _ | ⟨allowsM, _ | ⟨_, _ | _⟩⟩
    rcases fitsRhs with _ | ⟨_, _ | ⟨allowsN, _ | _⟩⟩
    obtain ⟨-, -, rfl⟩ : _ ∧ _ ∧ [_, _] = dims := by simpa [Typing.productDims] using typed
    exact .cons allowsM (.cons allowsN .nil)

/-- A product is safe, and has the inferred type. -/
theorem safe_product {lhs rhs : Tensor} {lhsType rhsType : TensorType} {dims : List Dimension}
    {inner other : Dimension} (typedLhs : lhs.HasType lhsType) (typedRhs : rhs.HasType rhsType)
    (typed : Typing.productDims lhsType.shape.dims rhsType.shape.dims = .ok (inner, other, dims))
    : Outcome.Safe (fun result => result.HasType ⟨lhsType.dtype, ⟨dims⟩⟩) (product lhs rhs) := by
  refine (safe_contraction lhs.sizes rhs.sizes).bind ?_
  rintro ⟨m, k, n⟩ done
  obtain ⟨left, right⟩ := contraction_eq_ok done
  obtain ⟨count, countRhs⟩ := count_productSizes left right
  refine Outcome.safe_ok ⟨?_, ?_, fits_productSizes typedLhs.fits typedRhs.fits typed left right⟩
  · have valid : rhs.elements.size = k * n := typedRhs.valid.trans countRhs
    have length : k * n ≤ rhs.elements.toFloats.length := by
      exact Nat.le_of_eq (valid.symm.trans (Elements.length_toFloats _).symm)
    rw [Tensor.Valid, Elements.size_ofFloats, length_productElements _ _ length, count]
  · rw [Tensor.dtype, Elements.dtype_ofFloats]
    exact typedLhs.dtype

-----------------------------------------------------------------------------------------
-- Block diagonals
-----------------------------------------------------------------------------------------

/-- Rows of a block diagonal matrix have its width, and there is one for each row of a block. By
induction on the blocks.
-/
theorem wide_blockRows {zero : α} {width left : Nat} {blocks : List (Nat × List (List α))}
    (wide : ∀ block ∈ blocks, Wide block.1 block.2)
    (fits : left + (blocks.map (·.1)).sum ≤ width)
    : Wide width (blockRows zero width left blocks) := by
  induction blocks generalizing left with
  | nil => exact fun row member => absurd member List.not_mem_nil
  | cons block blocks ih =>
      obtain ⟨columns, block⟩ := block
      rw [List.map_cons, List.sum_cons] at fits
      intro row member
      rcases List.mem_append.mp member with here | later
      · obtain ⟨inner, listed, rfl⟩ := List.mem_map.mp here
        have length : inner.length = columns := wide _ List.mem_cons_self inner listed
        simp only [List.length_append, List.length_replicate, length]
        omega
      · refine ih (fun other member => wide other (List.mem_cons_of_mem _ member)) ?_ row later
        omega

/-- The number of rows of a block diagonal matrix. -/
theorem length_blockRows (zero : α) (width left : Nat) (blocks : List (Nat × List (List α)))
    : (blockRows zero width left blocks).length = (blocks.map (·.2.length)).sum := by
  induction blocks generalizing left with
  | nil => rfl
  | cons block blocks ih =>
      rw [blockRows, List.length_append, ih, padRows, List.length_map, List.map_cons,
        List.sum_cons]

theorem total_eq_sum (sizes : List Nat) : total sizes = sizes.sum := List.sum_eq_foldr.symm

/-- The rows of blocks, with their numbers of columns. -/
def blockParts (sizes : List (Nat × Nat)) (items : List (List α))
    : List (Nat × List (List α)) :=
  List.zipWith (fun (m, n) items => (n, rows m n items)) sizes items

/-- The parts of blocks have the sizes of the blocks. -/
theorem sizes_blockParts {sizes : List (Nat × Nat)} {items : List (List α)}
    (length : List.Forall₂ (fun size (items : List α) => items.length = size.1 * size.2) sizes items)
    : (blockParts sizes items).map (·.1) = sizes.map (·.2)
      ∧ (blockParts sizes items).map (·.2.length) = sizes.map (·.1)
      ∧ ∀ block ∈ blockParts sizes items, Wide block.1 block.2 := by
  induction length with
  | nil => exact ⟨rfl, rfl, fun block member => absurd member List.not_mem_nil⟩
  | cons here _ ih =>
      obtain ⟨columns, rowCounts, wide⟩ := ih
      refine ⟨congrArg (_ :: ·) columns, congrArg₂ (· :: ·) (length_rows _ _ _) rowCounts, ?_⟩
      intro block member
      rcases List.mem_cons.mp member with rfl | later
      · exact wide_rows (Nat.le_of_eq here.symm)
      · exact wide block later

/-- The rows of a block diagonal matrix have its width. -/
theorem wide_blockParts {zero : α} {sizes : List (Nat × Nat)} {items : List (List α)}
    (length : List.Forall₂ (fun size (items : List α) => items.length = size.1 * size.2) sizes items)
    : Wide (sizes.map (·.2)).sum
        (blockRows zero (sizes.map (·.2)).sum 0 (blockParts sizes items)) := by
  obtain ⟨columns, -, wide⟩ := sizes_blockParts length
  exact wide_blockRows wide (by simp [columns])

/-- A block diagonal matrix has an element for each row and column. -/
theorem length_blockElements (zero : α) {sizes : List (Nat × Nat)} {items : List (List α)}
    (length : List.Forall₂ (fun size (items : List α) => items.length = size.1 * size.2) sizes items)
    : (blockElements zero sizes items).length = (sizes.map (·.1)).sum * (sizes.map (·.2)).sum := by
  rw [blockElements, total_eq_sum]
  split_ifs with empty
  · rw [empty]
    rfl
  · have wide := @wide_blockParts _ zero _ _ length
    rw [blockParts] at wide
    rw [length_flatten_of_wide wide, length_blockRows]
    exact congrArg (List.sum · * _) (sizes_blockParts length).2.1

/-- The sum of two sizes is allowed by the sum of their extents. -/
theorem allows_addDims {a b : Dimension} {x y : Nat} (allowsX : a.Allows x) (allowsY : b.Allows y)
    : (Typing.addDims a b).Allows (x + y) := by
  cases a with
  | unknown => trivial
  | static a =>
      cases b with
      | unknown => trivial
      | static b =>
          obtain rfl : a = x := allowsX
          obtain rfl : b = y := allowsY
          rfl

/-- Blocks that were checked are matrices of one element type, and their sizes add up to sizes that
the inferred extents allow. By induction on the operands from `index` on.
-/
theorem exists_blocks {inputs : Inputs} {types rest : List ValueType} {dtype : DType} {index : Nat}
    {rowDim columnDim : Dimension} {dims : List Dimension} {x y : Nat}
    (typed : inputs.HaveTypes types) (suffix : types.drop index = rest)
    (done : Typing.blockDims dtype types index rest rowDim columnDim = .ok dims)
    (allowsRows : rowDim.Allows x) (allowsColumns : columnDim.Allows y)
    : ∃ (blocks : List Tensor) (sizes : List (Nat × Nat)),
        (inputs.drop index).mapM Value.asTensor = .ok blocks
        ∧ List.Forall₂
            (fun (block : Tensor) size =>
              block.Valid ∧ block.dtype = dtype ∧ block.sizes = [size.1, size.2])
            blocks sizes
        ∧ Fits dims [x + (sizes.map (·.1)).sum, y + (sizes.map (·.2)).sum] := by
  induction rest generalizing index rowDim columnDim x y with
  | nil =>
      obtain rfl := Except.ok.inj done
      have short : inputs.length ≤ index := by
        rw [typed.length_eq]
        exact List.drop_eq_nil_iff.mp suffix
      exact ⟨[], [], by rw [List.drop_eq_nil_iff.mpr short]; rfl, .nil,
        .cons allowsRows (.cons allowsColumns .nil)⟩
  | cons type rest ih =>
      obtain ⟨blockType, checked, done⟩ := Steps.bind_eq_ok_iff.mp done
      split_ifs at done with differ
      split at done
      · rename_i m n shape
        obtain ⟨content, known, fine⟩ := typed.exists_tensor checked
        obtain ⟨value, here, read⟩ := Inputs.tensor_eq_ok known
        have fits := fine.fits
        rw [shape] at fits
        obtain ⟨size, same⟩ : ∃ size : Nat × Nat, content.sizes = [size.1, size.2] := by
          generalize content.sizes = sizes at fits
          rcases fits with _ | ⟨_, _ | ⟨_, _ | _⟩⟩
          exact ⟨(_, _), rfl⟩
        rw [same] at fits
        rcases fits with _ | ⟨allowsM, _ | ⟨allowsN, _ | _⟩⟩
        have later : types.drop (index + 1) = rest := by
          rw [← List.drop_drop, suffix]
          rfl
        obtain ⟨blocks, sizes, all, each, sums⟩ :=
          ih later done (allows_addDims allowsRows allowsM) (allows_addDims allowsColumns allowsN)
        refine ⟨content :: blocks, size :: sizes, ?_, .cons ⟨fine.valid, ?_, same⟩ each, ?_⟩
        · obtain ⟨inside, rfl⟩ := List.getElem?_eq_some_iff.mp here
          rw [List.drop_eq_getElem_cons inside, List.mapM_cons, read, all]
          rfl
        · exact fine.dtype.symm.trans (Decidable.not_not.mp differ)
        · simpa [Nat.add_assoc] using sums
      · cases done

/-- The sizes of blocks that are matrices. -/
theorem mapM_blockSizes {blocks : List Tensor} {sizes : List (Nat × Nat)}
    (each
      : List.Forall₂ (fun (block : Tensor) size => block.sizes = [size.1, size.2]) blocks sizes)
    : blocks.mapM blockSizes = .ok sizes := by
  refine Steps.mapM_eq_ok_iff.mpr ?_
  induction each with
  | nil => rfl
  | cons here _ ih => rw [List.map_cons, List.map_cons, ih, blockSizes, here]

/-- A block diagonal matrix is safe, and has the inferred type. -/
theorem safe_blockDiagonal {blocks : List Tensor} {sizes : List (Nat × Nat)} {dtype : DType}
    {dims : List Dimension}
    (each
      : List.Forall₂
          (fun (block : Tensor) size =>
            block.Valid ∧ block.dtype = dtype ∧ block.sizes = [size.1, size.2])
          blocks sizes)
    (fits : Fits dims [(sizes.map (·.1)).sum, (sizes.map (·.2)).sum])
    : Outcome.Safe (fun result => result.HasType ⟨dtype, ⟨dims⟩⟩) (blockDiagonal blocks) := by
  cases blocks with
  | nil => exact Outcome.safe_fail _ _
  | cons first rest =>
      have known : (first :: rest).mapM blockSizes = .ok sizes :=
        mapM_blockSizes (each.imp fun _ _ here => here.2.2)
      have same : first.dtype = dtype := by
        cases each with
        | cons here _ => exact here.2.1
      have lengths
          : ∀ {α : Type} (read : Elements → List α),
              (∀ elements, (read elements).length = elements.size)
              → List.Forall₂ (fun size (items : List α) => items.length = size.1 * size.2) sizes
                  ((first :: rest).map fun block => read block.elements) := by
        intro α read reads
        rw [List.forall₂_map_right_iff]
        refine each.flip.imp ?_
        rintro size block ⟨valid, -, sizes⟩
        rw [reads, show block.elements.size = _ from valid, sizes]
        simp
      rw [blockDiagonal, known]
      refine Outcome.safe_ok ⟨?_, ?_, fits⟩
      · have count
            : RowMajor.count (diagonalSizes sizes)
              = (sizes.map (·.1)).sum * (sizes.map (·.2)).sum := by
          simp [diagonalSizes, total_eq_sum]
        rw [Tensor.Valid, count]
        split_ifs
        · rw [Elements.size_ofFloats]
          exact length_blockElements _ (lengths Elements.toFloats Elements.length_toFloats)
        · rw [Elements.size_ofInts]
          exact length_blockElements _ (lengths Elements.toInts Elements.length_toInts)
      · rw [Tensor.dtype]
        split_ifs
        · rw [Elements.dtype_ofFloats, same]
        · rw [Elements.dtype_ofInts, same]

-----------------------------------------------------------------------------------------
-- Triangular systems
-----------------------------------------------------------------------------------------

/-- A solved equation has as many right sides as before. -/
theorem length_solveRow (arithmetic : Arithmetic α) (pivot : α) {factors : List α} {width : Nat}
    {solved : List (List α)} {row : List α} (wide : Wide width solved) (length : row.length = width)
    : (solveRow arithmetic pivot factors solved row).length = width := by
  rw [solveRow, List.length_map]
  refine length_foldl_rows ?_ (wide_zip wide) length
  intro row factor other length same
  rw [subtractScaled, List.length_zipWith, length, same, Nat.min_self]

/-- Solutions from the first equation on, by induction on the equations. -/
theorem solveForward_eq_ok {arithmetic : Arithmetic α} {unitDiagonal : Bool} {width : Nat}
    {solved result : List (List α)} {equations : List (Equation α)} (before : Wide width solved)
    (wide : ∀ equation ∈ equations, equation.rightSide.length = width)
    (done : solveForward arithmetic unitDiagonal solved equations = .ok result)
    : Wide width result ∧ result.length = solved.length + equations.length := by
  induction equations generalizing solved with
  | nil =>
      obtain rfl := Except.ok.inj done
      exact ⟨before, rfl⟩
  | cons equation equations ih =>
      obtain ⟨pivot, _, done⟩ := Steps.bind_eq_ok_iff.mp done
      have here := wide equation List.mem_cons_self
      obtain ⟨all, length⟩ :=
        ih (before.concat (length_solveRow arithmetic pivot before here))
          (fun other member => wide other (List.mem_cons_of_mem _ member)) done
      refine ⟨all, length.trans ?_⟩
      simp only [List.length_append, List.length_cons, List.length_nil]
      omega

/-- Solutions from the last equation on, by induction on the equations. -/
theorem solveBackward_eq_ok {arithmetic : Arithmetic α} {unitDiagonal : Bool} {width index : Nat}
    {result : List (List α)} {equations : List (Equation α)}
    (wide : ∀ equation ∈ equations, equation.rightSide.length = width)
    (done : solveBackward arithmetic unitDiagonal index equations = .ok result)
    : Wide width result ∧ result.length = equations.length := by
  induction equations generalizing index result with
  | nil =>
      obtain rfl := Except.ok.inj done
      exact ⟨fun row member => absurd member List.not_mem_nil, rfl⟩
  | cons equation equations ih =>
      obtain ⟨solved, later, done⟩ := Steps.bind_eq_ok_iff.mp done
      obtain ⟨pivot, _, done⟩ := Steps.bind_eq_ok_iff.mp done
      obtain rfl := Except.ok.inj done
      obtain ⟨all, length⟩ :=
        ih (fun other member => wide other (List.mem_cons_of_mem _ member)) later
      refine ⟨?_, by simp [length]⟩
      intro row member
      rcases List.mem_cons.mp member with rfl | other
      · exact length_solveRow arithmetic pivot all (wide equation List.mem_cons_self)
      · exact all row other

/-- The right side of an equation is one of those that are given. -/
theorem rightSide_mem {matrix rightSide : List (List α)} {equation : Equation α}
    (member : equation ∈ List.zipWith Equation.mk matrix rightSide)
    : equation.rightSide ∈ rightSide := by
  rw [← List.map_uncurry_zip_eq_zipWith] at member
  obtain ⟨pair, listed, rfl⟩ := List.mem_map.mp member
  exact (List.of_mem_zip listed).2

/-- Solutions have the width and the number of the right sides. -/
theorem substitute_eq_ok {arithmetic : Arithmetic α} {system : TriangularSystem} {width : Nat}
    {coefficients rightSide result : List (List α)} (wide : Wide width rightSide)
    (square : coefficients.length = rightSide.length)
    (done : substitute arithmetic system coefficients rightSide = .ok result)
    : Wide width result ∧ result.length = rightSide.length := by
  rw [substitute] at done
  have rowsOfMatrix
      : (if isTransposed system then
            transpose arithmetic.zero coefficients.length coefficients
          else coefficients).length
        = rightSide.length := by
    split_ifs
    · rw [transpose, List.length_map, List.length_range, square]
    · exact square
  generalize (if isTransposed system then
      transpose arithmetic.zero coefficients.length coefficients
    else coefficients) = matrix at done rowsOfMatrix
  have equationsWide
      : ∀ equation ∈ List.zipWith Equation.mk matrix rightSide, equation.rightSide.length = width :=
    fun _ member => wide _ (rightSide_mem member)
  have length : (List.zipWith Equation.mk matrix rightSide).length = rightSide.length := by
    rw [List.length_zipWith, rowsOfMatrix, Nat.min_self]
  split_ifs at done
  · obtain ⟨all, same⟩ := solveBackward_eq_ok equationsWide done
    exact ⟨all, same.trans length⟩
  · obtain ⟨all, same⟩ :=
      solveForward_eq_ok (fun row member => absurd member List.not_mem_nil) equationsWide done
    refine ⟨all, same.trans ?_⟩
    rw [List.length_nil, Nat.zero_add, length]

/-- The number of equations breaks no promise. -/
theorem safe_systemSize (sizes : List Nat)
    : Outcome.Safe (fun size => sizes = [size, size]) (systemSize sizes) := by
  unfold systemSize
  split
  · split_ifs with same
    · exact Outcome.safe_ok (same ▸ rfl)
    · exact Outcome.safe_fail _ _
  · exact Outcome.safe_fail _ _

/-- The number of right sides breaks no promise, and there is a row of them for each equation. -/
theorem safe_rightSideCount (coefficients : List Nat) (size : Nat) (sizes : List Nat)
    : Outcome.Safe
        (fun count => sizes.head? = some size ∧ RowMajor.count sizes = size * count)
        (rightSideCount coefficients size sizes) := by
  unfold rightSideCount
  split
  · split_ifs with same
    · exact Outcome.safe_ok (by simp [same])
    · exact Outcome.safe_fail _ _
  · split_ifs with same
    · exact Outcome.safe_ok (by simp [same])
    · exact Outcome.safe_fail _ _
  · exact Outcome.safe_fail _ _

/-- A size that two extents allow is allowed by what they say together. -/
theorem allows_meet {a b both : Dimension} {size : Nat} (allowsA : a.Allows size)
    (allowsB : b.Allows size) (done : a.meet b = some both)
    : both.Allows size := by
  cases a with
  | unknown =>
      obtain rfl : b = both := by simpa [Dimension.meet] using done
      exact allowsB
  | static known =>
      cases b with
      | unknown =>
          obtain rfl := Option.some.inj done
          exact allowsA
      | static other =>
          rw [Dimension.meet] at done
          split_ifs at done
          obtain rfl := Option.some.inj done
          exact allowsA

/-- The inferred number of equations allows the number that there are. -/
theorem allows_systemSize {type : TensorType} {dim : Dimension} {size : Nat}
    (fits : Fits type.shape.dims [size, size]) (done : Typing.systemSize type = .ok dim)
    : dim.Allows size := by
  rw [Typing.systemSize] at done
  generalize type.shape.dims = dims at fits done
  rcases fits with _ | ⟨allowsM, _ | ⟨allowsN, _ | _⟩⟩
  dsimp only at done
  split at done
  · rename_i both met
    obtain rfl := Except.ok.inj done
    exact allows_meet allowsM allowsN met
  · cases done

/-- The sizes of a solution are allowed by the inferred extents. -/
theorem fits_solutionDims {size : Dimension} {dims result : List Dimension} {sizes : List Nat}
    {count : Nat} (fits : Fits dims sizes) (allows : size.Allows count)
    (first : sizes.head? = some count) (done : Typing.solutionDims size dims = .ok result)
    : Fits result sizes := by
  rcases fits with _ | ⟨here, later⟩
  · cases first
  · obtain rfl := Option.some.inj first
    rw [Typing.solutionDims] at done
    split_ifs at done
    split at done
    · rename_i both met
      obtain rfl := Except.ok.inj done
      exact .cons (allows_meet here allows met) later
    · cases done

/-- Solving a triangular system is safe, and the solution has the inferred type. -/
theorem safe_solve {system : TriangularSystem} {coefficients rightSide : Tensor}
    {coefficientType rightType : TensorType} {size : Dimension} {dims : List Dimension}
    (typedLeft : coefficients.HasType coefficientType) (typedRight : rightSide.HasType rightType)
    (sized : Typing.systemSize coefficientType = .ok size)
    (done : Typing.solutionDims size rightType.shape.dims = .ok dims)
    : Outcome.Safe (fun result => result.HasType ⟨rightType.dtype, ⟨dims⟩⟩)
        (solve system coefficients rightSide) := by
  refine (safe_systemSize coefficients.sizes).bind ?_
  intro rowCount square
  refine (safe_rightSideCount coefficients.sizes rowCount rightSide.sizes).bind ?_
  rintro width ⟨first, count⟩
  have allows : size.Allows rowCount := allows_systemSize (square ▸ typedLeft.fits) sized
  have valid : rightSide.elements.size = rowCount * width := typedRight.valid.trans count
  have wide : Wide width (rows rowCount width rightSide.elements.toFloats) :=
    wide_rows (Nat.le_of_eq (valid.symm.trans (Elements.length_toFloats _).symm))
  dsimp only
  split
  · exact Outcome.safe_fail _ _
  · rename_i result solved
    have same
        : (rows rowCount rowCount coefficients.elements.toFloats).length
          = (rows rowCount width rightSide.elements.toFloats).length := by
      rw [length_rows, length_rows]
    obtain ⟨all, length⟩ := substitute_eq_ok wide same solved
    refine Outcome.safe_ok ⟨?_, ?_, fits_solutionDims typedRight.fits allows first done⟩
    · rw [Tensor.Valid, Elements.size_ofFloats, length_flatten_of_wide all, length, length_rows]
      exact count.symm
    · rw [Tensor.dtype, Elements.dtype_ofFloats]
      exact typedRight.dtype

end Dataflow.Matrix
