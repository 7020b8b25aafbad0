import Dataflow.Proofs.Tensor.HostValues
import Dataflow.Proofs.Tensor.Matrix
import Dataflow.Proofs.Tensor.Relocation

/-!
Block diagonal matrices, element by element. A row of the result is a row of one block between
zeros, and the blocks before it say how many zeros there are in front. This holds for any number of
blocks, those without rows or without columns included, which only move the blocks behind them.
-/

namespace Dataflow

-----------------------------------------------------------------------------------------
-- Rows
-----------------------------------------------------------------------------------------

namespace Matrix

/-- The sum of the sizes in front of a place. -/
def before (sizes : List Nat) (place : Nat) : Nat := (sizes.take place).sum

theorem before_add_le {sizes : List Nat} {k size : Nat} (listed : sizes[k]? = some size)
    : before sizes k + size ≤ sizes.sum := by
  obtain ⟨inside, rfl⟩ := List.getElem?_eq_some_iff.mp listed
  have split := congrArg List.sum (List.take_append_drop k sizes)
  rw [List.drop_eq_getElem_cons inside, List.sum_append, List.sum_cons] at split
  rw [before]
  omega

/-- A number below a sum of sizes lies in one of them, behind the sizes in front of it. -/
theorem exists_before_add {sizes : List Nat} {place : Nat} (inside : place < sizes.sum)
    : ∃ k size inner, sizes[k]? = some size ∧ inner < size ∧ place = before sizes k + inner := by
  induction sizes generalizing place with
  | nil => simp at inside
  | cons first rest ih =>
      by_cases here : place < first
      · exact ⟨0, first, place, rfl, here, by simp [before]⟩
      · rw [List.sum_cons] at inside
        obtain ⟨k, size, inner, listed, below, same⟩ := @ih (place - first) (by omega)
        refine ⟨k + 1, size, inner, listed, below, ?_⟩
        rw [before] at same ⊢
        rw [List.take_succ_cons, List.sum_cons]
        omega

section

variable {α : Type} {zero : α}

/-- An item of rows of one width, which stand behind each other. -/
theorem getElem?_flatten_of_wide {width : Nat} {rows : List (List α)} (wide : Wide width rows)
    (row : Nat) {column : Nat} (inside : column < width)
    : rows.flatten[row * width + column]? = rows[row]?.bind (·[column]?) := by
  rw [← RowMajor.getElem?_flatMap_uniform wide row inside, List.flatMap_id']

/-- An item of a matrix that is cut into rows. -/
theorem getElem?_rows {rowCount columnCount : Nat} {items : List α}
    (exact : items.length = rowCount * columnCount) (row : Nat) {column : Nat}
    (inside : column < columnCount)
    : (rows rowCount columnCount items)[row]?.bind (·[column]?)
      = items[row * columnCount + column]? := by
  rw [← getElem?_flatten_of_wide (wide_rows (Nat.le_of_eq exact.symm)) row inside, rows,
    (groupsOf_exact exact).1]

/-- An item of a row between zeros. -/
theorem getElem?_padded {row : List α} {left right column : Nat}
    (inside : column < left + row.length + right)
    : (List.replicate left zero ++ row ++ List.replicate right zero)[column]?
      = if left ≤ column ∧ column < left + row.length then row[column - left]? else some zero := by
  rw [List.append_assoc]
  split_ifs with here
  · rw [List.getElem?_append_right (by simpa using here.1), List.length_replicate,
      List.getElem?_append_left (by omega)]
  · by_cases early : column < left
    · rw [List.getElem?_append_left (by simpa using early), List.getElem?_replicate, if_pos early]
    · rw [List.getElem?_append_right (by simpa using early), List.length_replicate,
        List.getElem?_append_right (by omega), List.getElem?_replicate, if_pos (by omega)]

/-- A row of a block stands behind the rows of the blocks in front of it, between zeros: on the left
one for each column of those blocks, on the right what is left. By induction on the blocks.
-/
theorem getElem?_blockRows {width left k : Nat} {blocks : List (Nat × List (List α))}
    {block : Nat × List (List α)} (listed : blocks[k]? = some block) {inner : Nat}
    (inside : inner < block.2.length)
    : (blockRows zero width left blocks)[before (blocks.map (·.2.length)) k + inner]?
      = some
          (List.replicate (left + before (blocks.map (·.1)) k) zero ++ block.2[inner]
            ++ List.replicate (width - (left + before (blocks.map (·.1)) k) - block.1) zero) := by
  induction blocks generalizing left k with
  | nil => simp at listed
  | cons first rest ih =>
      obtain ⟨columns, rows⟩ := first
      rw [blockRows, padRows]
      cases k with
      | zero =>
          obtain rfl : (columns, rows) = block := by simpa using listed
          simp only [before, List.take_zero, List.sum_nil, Nat.zero_add, Nat.add_zero]
          rw [List.getElem?_append_left (by simpa using inside)]
          simp [List.getElem?_eq_getElem inside]
      | succ k =>
          have later := @ih (left + columns) k listed
          simp only [before, List.map_cons, List.take_succ_cons, List.sum_cons] at later ⊢
          rw [Nat.add_assoc, List.getElem?_append_right (by simp), List.length_map,
            Nat.add_sub_cancel_left, later, Nat.add_assoc]

/-- An item of a block diagonal matrix, in a row of a block: one of the block in its columns, and
zero in all others.
-/
theorem getElem?_blockElements (zero : α) {sizes : List (Nat × Nat)} {items : List (List α)}
    (length
      : List.Forall₂ (fun size (items : List α) => items.length = size.1 * size.2) sizes items)
    {k m n : Nat} {part : List α} (sized : sizes[k]? = some (m, n)) (listed : items[k]? = some part)
    (exact : part.length = m * n) {inner column : Nat} (row : inner < m)
    (inside : column < (sizes.map (·.2)).sum)
    : (blockElements zero sizes items)[
          (before (sizes.map (·.1)) k + inner) * (sizes.map (·.2)).sum + column]?
      = if before (sizes.map (·.2)) k ≤ column ∧ column < before (sizes.map (·.2)) k + n then
          part[inner * n + (column - before (sizes.map (·.2)) k)]?
        else some zero := by
  have whole := @before_add_le (sizes.map (·.2)) k n (by simp [sized])
  have block : (blockParts sizes items)[k]? = some (n, rows m n part) := by
    rw [blockParts, List.getElem?_zipWith, sized, listed]
  have under : inner < (rows m n part).length := by rwa [length_rows]
  have width : ((rows m n part)[inner]).length = n :=
    wide_rows (Nat.le_of_eq exact.symm) _ (List.getElem_mem under)
  have placed := @getElem?_blockRows _ zero (sizes.map (·.2)).sum 0 k _ _ block _ under
  obtain ⟨columns, rowCounts, -⟩ := sizes_blockParts length
  rw [columns, rowCounts, Nat.zero_add] at placed
  rw [blockElements, total_eq_sum, if_neg (by omega)]
  change (blockRows zero _ 0 (blockParts sizes items)).flatten[_]? = _
  rw [getElem?_flatten_of_wide (wide_blockParts length) _ inside, placed, Option.bind_some,
    getElem?_padded (by rw [width]; omega), width]
  split_ifs with here
  · rw [← getElem?_rows exact inner (by omega), List.getElem?_eq_getElem under, Option.bind_some]
  · rfl

end

end Matrix

-----------------------------------------------------------------------------------------
-- Stored elements
-----------------------------------------------------------------------------------------

namespace Element

/-- The zero of an element type. -/
def zero : DType → Element
  | .i1 => .i1 0
  | .si32 => .si32 0
  | .si64 => .si64 0
  | .f32 => .f32 0
  | .f64 => .f64 0

/-- An element that is read and stored again is the same, except that a true one becomes one, and
what is no number may be stored as anything else that is none.
-/
inductive Restores : Element → Element → Prop
  | false : Restores (.i1 0) (.i1 0)
  | true {byte : UInt8} (set : byte ≠ 0) : Restores (.i1 byte) (.i1 1)
  | si32 (value : Int32) : Restores (.si32 value) (.si32 value)
  | si64 (value : Int64) : Restores (.si64 value) (.si64 value)
  | f32 (word : UInt32) : Restores (.f32 word) (.f32 word)
  | f64 (word : UInt64) : Restores (.f64 word) (.f64 word)
  | noSingle {word other : UInt32} (none : (Binary.widen word).isNaN = Bool.true)
    (same : (Binary.widen other).isNaN = Bool.true)
    : Restores (.f32 word) (.f32 other)
  | noDouble {word other : UInt64} (none : (Float.ofBits word).isNaN = Bool.true)
    (same : (Float.ofBits other).isNaN = Bool.true)
    : Restores (.f64 word) (.f64 other)

/-- The element that is stored for one that was read. -/
def restored : Element → Element
  | .i1 byte => .i1 (if byte = 0 then 0 else 1)
  | .si32 value => .si32 value
  | .si64 value => .si64 value
  | .f32 word => .f32 (Binary.narrow (Binary.widen word))
  | .f64 word => .f64 (Float.ofBits word).toBits

theorem restores_restored (element : Element) : element.Restores element.restored := by
  cases element with
  | i1 byte =>
      by_cases unset : byte = 0
      · rw [unset]
        exact .false
      · rw [restored, if_neg unset]
        exact .true unset
  | si32 value => exact .si32 value
  | si64 value => exact .si64 value
  | f32 word =>
      have read := Binary.narrow_widen_narrow (Binary.widen word)
      rcases Binary.eq_or_isNaN_of_narrow read with same | ⟨none, same⟩
      · rw [restored, same]
        exact .f32 word
      · exact .noSingle same none
  | f64 word =>
      have read := congrArg Float.toBits (Binary.ofBits_toBits (Float.ofBits word))
      rcases Binary.eq_or_isNaN_of_toBits read with same | ⟨none, same⟩
      · rw [restored, same]
        exact .f64 word
      · exact .noDouble same none

end Element

namespace Elements

variable {elements : Elements} {place source : Nat}

/-- Numbers that were read and are stored again. -/
theorem get?_ofFloats (float : elements.dtype.isFloat = true) {values : List Float}
    (same : values[place]? = elements.toFloats[source]?)
    : (ofFloats elements.dtype values).get? place = (elements.get? source).map .restored := by
  cases elements with
  | f32 words => simp [dtype, ofFloats, get?, same, toFloats, Function.comp_def, Element.restored]
  | f64 words => simp [dtype, ofFloats, get?, same, toFloats, Function.comp_def, Element.restored]
  | _ => cases float

/-- Integers that were read and are stored again. -/
theorem get?_ofInts (exact : ¬elements.dtype.isFloat = true) {values : List Int64}
    (same : values[place]? = elements.toInts[source]?)
    : (ofInts elements.dtype values).get? place = (elements.get? source).map .restored := by
  have truth_eq_zero_iff (byte : UInt8) : truth byte = 0 ↔ byte = 0 := by
    rw [truth]
    split_ifs with unset <;> simp [unset]
  cases elements with
  | i1 bytes =>
      simp [dtype, ofInts, get?, same, toInts, Function.comp_def, Element.restored,
        truth_eq_zero_iff]
  | si32 values => simp [dtype, ofInts, get?, same, toInts, Function.comp_def, Element.restored]
  | si64 values => simp [dtype, ofInts, get?, same, toInts, Function.comp_def, Element.restored]
  | f32 words => exact absurd rfl exact
  | f64 words => exact absurd rfl exact

/-- Zero is stored as the zero of the element type. -/
theorem get?_ofFloats_zero {dtype : DType} (float : dtype.isFloat = true) {values : List Float}
    (zero : values[place]? = some (Float.ofBits 0))
    : (ofFloats dtype values).get? place = some (.zero dtype) := by
  cases dtype with
  | f32 => simp [ofFloats, get?, zero, Element.zero]; decide
  | f64 => simp [ofFloats, get?, zero, Element.zero]; decide
  | _ => cases float

/-- Zero is stored as the zero of the element type. -/
theorem get?_ofInts_zero {dtype : DType} (exact : ¬dtype.isFloat = true) {values : List Int64}
    (zero : values[place]? = some 0)
    : (ofInts dtype values).get? place = some (.zero dtype) := by
  cases dtype with
  | f32 => exact absurd rfl exact
  | f64 => exact absurd rfl exact
  | i1 | si32 | si64 => simp [ofInts, get?, zero, Element.zero]

end Elements

-----------------------------------------------------------------------------------------
-- Blocks
-----------------------------------------------------------------------------------------

namespace Tensor

/-- The number of rows of a matrix. -/
def rowCount (matrix : Tensor) : Nat := matrix.sizes.getD 0 0

/-- The number of columns of a matrix. -/
def columnCount (matrix : Tensor) : Nat := matrix.sizes.getD 1 0

theorem sizes_of_rank {matrix : Tensor} (rank : matrix.rank = 2)
    : matrix.sizes = [matrix.rowCount, matrix.columnCount] := by
  obtain ⟨m, n, sizes⟩ := List.length_eq_two.mp rank
  simp [rowCount, columnCount, sizes]

theorem at?_pair {matrix : Tensor} {m n : Nat} (sizes : matrix.sizes = [m, n]) (row column : Nat)
    : matrix.at? [row, column] = matrix.elements.get? (row * n + column) := by
  simp [at?, sizes, RowMajor.steps]

end Tensor

namespace Matrix

/-- Matrices of one element type, at least one of them. -/
structure Blocks (blocks : List Tensor) (dtype : DType) : Prop where
  some : blocks ≠ []
  valid : ∀ block ∈ blocks, block.Valid
  dtype : ∀ block ∈ blocks, block.dtype = dtype
  matrix : ∀ block ∈ blocks, block.rank = 2

/-- The rows of the blocks in front of one. -/
def rowsBefore (blocks : List Tensor) (k : Nat) : Nat := before (blocks.map Tensor.rowCount) k

/-- The columns of the blocks in front of one. -/
def columnsBefore (blocks : List Tensor) (k : Nat) : Nat :=
  before (blocks.map Tensor.columnCount) k

/-- A place is in the rows and in the columns of a block. -/
def Covers (blocks : List Tensor) (k : Nat) (block : Tensor) (row column : Nat) : Prop :=
  (rowsBefore blocks k ≤ row ∧ row < rowsBefore blocks k + block.rowCount)
  ∧ columnsBefore blocks k ≤ column ∧ column < columnsBefore blocks k + block.columnCount

/-- A matrix of blocks along the diagonal, with zeros everywhere else. -/
structure IsDiagonal (result : Tensor) (blocks : List Tensor) (dtype : DType) : Prop where
  valid : result.Valid
  typed : result.dtype = dtype
  sizes
    : result.sizes
      = [(blocks.map Tensor.rowCount).sum, (blocks.map Tensor.columnCount).sum]
  covered
    : ∀ {k block row column},
        blocks[k]? = some block
        → Covers blocks k block row column
        → ∃ source element,
            block.at? [row - rowsBefore blocks k, column - columnsBefore blocks k] = some source
            ∧ result.at? [row, column] = some element
            ∧ source.Restores element
  uncovered
    : ∀ {row column},
        RowMajor.Inside [row, column] result.sizes
        → (∀ k block, blocks[k]? = some block → ¬Covers blocks k block row column)
        → result.at? [row, column] = some (.zero dtype)

/-- The items of a block diagonal matrix, given how those of the blocks are read. -/
def diagonalItems {α : Type} (zero : α) (read : Elements → List α) (blocks : List Tensor)
    : List α :=
  blockElements zero (blocks.map fun block => (block.rowCount, block.columnCount))
    (blocks.map fun block => read block.elements)

theorem diagonalSizes_map (blocks : List Tensor)
    : diagonalSizes (blocks.map fun block => (block.rowCount, block.columnCount))
      = [(blocks.map Tensor.rowCount).sum, (blocks.map Tensor.columnCount).sum] := by
  simp [diagonalSizes, total_eq_sum, Function.comp_def]

section

variable {blocks : List Tensor} {dtype : DType} (given : Blocks blocks dtype) {α : Type} {zero : α}
  {read : Elements → List α} (reads : ∀ elements, (read elements).length = elements.size)

include given

theorem Blocks.sizes_eq {block : Tensor} (member : block ∈ blocks)
    : block.sizes = [block.rowCount, block.columnCount] :=
  Tensor.sizes_of_rank (given.matrix block member)

include reads

theorem Blocks.length_items {block : Tensor} (member : block ∈ blocks)
    : (read block.elements).length = block.rowCount * block.columnCount := by
  have size : block.elements.size = RowMajor.count block.sizes := given.valid block member
  rw [reads, size, given.sizes_eq member]
  simp

theorem Blocks.forall₂_items
    : List.Forall₂ (fun size (items : List α) => items.length = size.1 * size.2)
        (blocks.map fun block => (block.rowCount, block.columnCount))
        (blocks.map fun block => read block.elements) := by
  rw [List.forall₂_map_left_iff, List.forall₂_map_right_iff, List.forall₂_same]
  exact fun block member => given.length_items reads member

theorem length_diagonalItems
    : (diagonalItems zero read blocks).length
      = (blocks.map Tensor.rowCount).sum * (blocks.map Tensor.columnCount).sum := by
  rw [diagonalItems, length_blockElements _ (given.forall₂_items reads)]
  simp [Function.comp_def]

/-- An item in a row of a block: one of the block in its columns, and zero in all others. -/
theorem getElem?_diagonalItems (zero : α) {k : Nat} {block : Tensor}
    (listed : blocks[k]? = some block) {inner column : Nat} (row : inner < block.rowCount)
    (inside : column < (blocks.map Tensor.columnCount).sum)
    : (diagonalItems zero read blocks)[
          (rowsBefore blocks k + inner) * (blocks.map Tensor.columnCount).sum + column]?
      = if columnsBefore blocks k ≤ column
            ∧ column < columnsBefore blocks k + block.columnCount then
          (read block.elements)[inner * block.columnCount + (column - columnsBefore blocks k)]?
        else some zero := by
  have member := List.mem_of_getElem? listed
  have sized
      : (blocks.map fun block => (block.rowCount, block.columnCount))[k]?
        = some (block.rowCount, block.columnCount) := by
    simp [listed]
  have part
      : (blocks.map fun block => read block.elements)[k]? = some (read block.elements) := by
    simp [listed]
  have within
      : column
        < ((blocks.map fun block => (block.rowCount, block.columnCount)).map (·.2)).sum := by
    simpa [Function.comp_def] using inside
  have item := getElem?_blockElements zero (given.forall₂_items reads) sized part
    (given.length_items reads member) row within
  simp only [List.map_map, Function.comp_def] at item
  exact item

/-- A way to store items that restores what was read stores a block diagonal matrix. -/
theorem isDiagonal_of_restores {store : List α → Elements}
    (size : ∀ items, (store items).size = items.length)
    (typed : ∀ items, (store items).dtype = dtype)
    (restores
      : ∀ {elements : Elements} {items place source},
          elements.dtype = dtype
          → items[place]? = (read elements)[source]?
          → (store items).get? place = (elements.get? source).map .restored)
    (zeros
      : ∀ {items place},
          items[place]? = some zero → (store items).get? place = some (.zero dtype))
    : IsDiagonal
        ⟨[(blocks.map Tensor.rowCount).sum, (blocks.map Tensor.columnCount).sum],
          store (diagonalItems zero read blocks)⟩
        blocks dtype := by
  refine ⟨?_, typed _, rfl, ?_, ?_⟩
  · rw [Tensor.Valid, size, length_diagonalItems given reads]
    simp
  · rintro k block row column listed ⟨⟨above, below⟩, left, right⟩
    have member := List.mem_of_getElem? listed
    have sizes := given.sizes_eq member
    have inner : row - rowsBefore blocks k < block.rowCount := by omega
    have columns
        : columnsBefore blocks k + block.columnCount ≤ (blocks.map Tensor.columnCount).sum :=
      before_add_le (by simp [listed])
    have item := getElem?_diagonalItems given reads zero listed inner (right.trans_le columns)
    rw [if_pos ⟨left, right⟩, Nat.add_sub_cancel' above] at item
    have point
        : RowMajor.Inside [row - rowsBefore blocks k, column - columnsBefore blocks k]
            block.sizes := by
      rw [sizes]
      exact .cons inner (.cons (by omega) .nil)
    obtain ⟨source, found⟩ := (given.valid block member).exists_at? point
    have stored := restores (given.dtype block member) item
    rw [← Tensor.at?_pair sizes, found, Option.map_some] at stored
    exact ⟨source, _, found, (Tensor.at?_pair rfl row column).trans stored,
      source.restores_restored⟩
  · intro row column inside uncovered
    rcases inside with _ | ⟨rowInside, _ | ⟨columnInside, _⟩⟩
    obtain ⟨k, size, inner, sized, below, rfl⟩ := exists_before_add rowInside
    rw [List.getElem?_map] at sized
    obtain ⟨block, listed, rfl⟩ := Option.map_eq_some_iff.mp sized
    have item := getElem?_diagonalItems given reads zero listed below columnInside
    have outside := uncovered k block listed
    have row := And.intro (Nat.le_add_right (rowsBefore blocks k) inner)
      (Nat.add_lt_add_left below (rowsBefore blocks k))
    rw [if_neg fun within => outside ⟨row, within⟩] at item
    exact (Tensor.at?_pair rfl _ column).trans (zeros item)

end

section

variable {blocks : List Tensor} {dtype : DType} (given : Blocks blocks dtype)

include given

theorem Blocks.mapM_blockSizes
    : blocks.mapM blockSizes
      = .ok (blocks.map fun block => (block.rowCount, block.columnCount)) := by
  refine Matrix.mapM_blockSizes ?_
  rw [List.forall₂_map_right_iff, List.forall₂_same]
  exact fun block member => given.sizes_eq member

/-- Blocks have a block diagonal matrix. -/
theorem exists_diagonal
    : ∃ result, blockDiagonal blocks = .ok result ∧ IsDiagonal result blocks dtype := by
  have sizes := given.mapM_blockSizes
  cases blocks with
  | nil => exact absurd rfl given.some
  | cons first rest =>
      have same : first.dtype = dtype := given.dtype first List.mem_cons_self
      rw [blockDiagonal, sizes, Steps.ok_bind, diagonalSizes_map, same]
      refine ⟨_, rfl, ?_⟩
      split_ifs with float
      · refine isDiagonal_of_restores given Elements.length_toFloats
          (Elements.size_ofFloats dtype) (Elements.dtype_ofFloats dtype) ?_
          (Elements.get?_ofFloats_zero float)
        rintro elements items place source rfl found
        exact Elements.get?_ofFloats float found
      · refine isDiagonal_of_restores given Elements.length_toInts (Elements.size_ofInts dtype)
          (Elements.dtype_ofInts dtype) ?_ (Elements.get?_ofInts_zero float)
        rintro elements items place source rfl found
        exact Elements.get?_ofInts float found

end

/-- Matrices of one element type, any number of them, have a matrix with the blocks along its
diagonal: each of its places has the element of the one block that covers it, or zero. A backend has
the same result as long as memory holds a word for each of its elements.
-/
theorem blocks_along_diagonal {blocks : List Tensor} {dtype : DType} (given : Blocks blocks dtype)
    : ∃ result : Tensor,
        Memory.Delivers .blockDiagonal (blocks.map .tensor) [RowMajor.count result.sizes]
          (.tensor result)
        ∧ IsDiagonal result blocks dtype := by
  obtain ⟨result, done, diagonal⟩ := exists_diagonal given
  have tensors : Inputs.tensors (blocks.map .tensor) = .ok blocks := by
    rw [Inputs.tensors, List.mapM_map, Steps.mapM_eq_ok_iff]
    rfl
  refine ⟨result, Memory.delivers_of_isEnough ?_ ?_, diagonal⟩
  · simp only [Kernel.execute, tensors, Steps.ok_bind, done]
    rfl
  · rw [diagonal.sizes, ← diagonalSizes_map]
    simp only [Memory.isEnough, Memory.pieces, tensors, Steps.ok_bind, given.mapM_blockSizes]

/-- Truth values, with a block without columns and one without rows between the others. -/
def truthBlocks : List Tensor :=
  [⟨[1, 2], .i1 [2, 0]⟩, ⟨[2, 0], .i1 []⟩, ⟨[0, 1], .i1 []⟩, ⟨[1, 1], .i1 [7]⟩]

/-- The last element of `truthBlocks` moves behind the rows and columns of all other blocks, and it
is stored as one.
-/
theorem truthBlocks_along_diagonal
    : Blocks truthBlocks .i1
      ∧ ∃ result : Tensor,
          Memory.Delivers .blockDiagonal (truthBlocks.map .tensor) [16] (.tensor result)
          ∧ result.sizes = [4, 4]
          ∧ result.at? [3, 3] = some (.i1 1) := by
  have given : Blocks truthBlocks .i1 :=
    ⟨by decide, by simp [truthBlocks, Tensor.Valid, Elements.size], by decide, by decide⟩
  obtain ⟨result, delivers, diagonal⟩ := blocks_along_diagonal given
  have sizes : result.sizes = [4, 4] := diagonal.sizes
  rw [sizes] at delivers
  have covers : Covers truthBlocks 3 ⟨[1, 1], .i1 [7]⟩ 3 3 := by
    unfold Covers
    decide
  obtain ⟨source, element, read, placed, restores⟩ := diagonal.covered rfl covers
  obtain rfl : Element.i1 7 = source := Option.some.inj read
  cases restores with
  | true set => exact ⟨given, result, delivers, sizes, placed⟩

/-- Two blocks without elements, of very many rows and of one column. -/
def endlessBlocks : List Tensor := [⟨[2 ^ 60, 0], .f64 []⟩, ⟨[0, 1], .f64 []⟩]

/-- The blocks fit together, but memory does not hold the zeros of a column of so many rows. -/
theorem endlessBlocks_lack_memory
    : Blocks endlessBlocks .f64
      ∧ Backend.reference.bounded.execute .blockDiagonal (endlessBlocks.map .tensor)
        = .error (.breach .memory) :=
  ⟨⟨by decide, by simp [endlessBlocks, Tensor.Valid, Elements.size], by decide, by decide⟩, rfl⟩

end Matrix

end Dataflow
