import Dataflow.Proofs.Execution.Room
import Dataflow.Proofs.Number.Increasing
import Dataflow.Proofs.Tensor.Relocation

/-!
Reductions of integers. The kernel scatters the elements over the positions of the result and
combines them in 64-bit words; the result is what the definition says. Every point of the result has
the sum modulo the width of the element type, the largest or the smallest of the integers at exactly
those points that agree with it on the axes that are left, each one counted once.
-/

namespace Dataflow

-----------------------------------------------------------------------------------------
-- Points that are combined
-----------------------------------------------------------------------------------------

namespace RowMajor

/-- Points with the same position are the same. -/
theorem eq_of_position_eq {first second sizes : List Nat} (insideFirst : Inside first sizes)
    (insideSecond : Inside second sizes)
    (same : position first (steps sizes) = position second (steps sizes))
    : first = second := by
  have found := getElem?_points insideFirst
  rw [same, getElem?_points insideSecond] at found
  exact (Option.some.inj found).symm

/-- Every point is listed once. -/
theorem nodup_points (sizes : List Nat) : (points sizes).Nodup := by
  refine List.Nodup.of_map (position · (steps sizes)) ?_
  rw [Tensor.map_position_points]
  exact List.nodup_range

end RowMajor

namespace Reduce

/-- The coordinates of a point without those on reduced axes, or with zeros there; `axis` is the
number of the first one.
-/
def projected (reduces : Nat → Bool) (keepAxes : Bool) : Nat → List Nat → List Nat
  | _, [] => []
  | axis, coord :: coords =>
    if !reduces axis then coord :: projected reduces keepAxes (axis + 1) coords
    else if keepAxes then 0 :: projected reduces keepAxes (axis + 1) coords
    else projected reduces keepAxes (axis + 1) coords

end Reduce

namespace Reduction

/-- Whether an axis is reduced: some number means it, or there are no numbers. -/
def reducesAxis (reduction : Reduction) (rank axis : Nat) : Bool :=
  axis < rank
  && (reduction.axes.isEmpty
      || reduction.axes.any fun number => Slice.position? number rank = some axis)

/-- The point of the result that a point of the operand is combined into. -/
def project (reduction : Reduction) (coords : List Nat) : List Nat :=
  Reduce.projected (reduction.reducesAxis coords.length) reduction.keepAxes 0 coords

/-- Whether there is nothing to take an extreme of. -/
def LacksElement (reduction : Reduction) (sizes : List Nat) : Prop :=
  reduction.kind ≠ .sum
  ∧ ∃ axis, reduction.reducesAxis sizes.length axis = true ∧ sizes[axis]? = some 0

end Reduction

/-- What a reduction of integers of a type is. The sum is the one that the type can store. -/
def ReduceKind.Combines (kind : ReduceKind) (dtype : DType) (integers : List Int) (value : Int)
    : Prop :=
  match kind with
  | .sum => value = integers.sum.bmod (2 ^ (8 * dtype.byteSize))
  | .max => value ∈ integers ∧ ∀ integer ∈ integers, integer ≤ value
  | .min => value ∈ integers ∧ ∀ integer ∈ integers, value ≤ integer

namespace Reduce

variable {axes : List Nat} {keepAxes : Bool} {sizes coords : List Nat}

/-- Projected points lie inside of the result, by induction on the axes. -/
theorem inside_projected {axis : Nat} (inside : RowMajor.Inside coords sizes)
    : RowMajor.Inside (projected (axes.contains ·) keepAxes axis coords)
        (if keepAxes then keptSizes axes axis sizes else remainingSizes axes axis sizes) := by
  induction inside generalizing axis with
  | nil => cases keepAxes <;> exact .nil
  | cons here _ ih =>
      have later := @ih (axis + 1)
      rw [projected, keptSizes, remainingSizes]
      cases axes.contains axis with
      | false => cases keepAxes <;> exact .cons here later
      | true =>
          cases keepAxes with
          | false => exact later
          | true => exact .cons Nat.zero_lt_one later

/-- A projected point has the position that its elements are scattered to, by induction on the
axes.
-/
theorem position_projected {axis : Nat} (inside : RowMajor.Inside coords sizes)
    : RowMajor.position (projected (axes.contains ·) keepAxes axis coords)
          (RowMajor.steps
            (if keepAxes then keptSizes axes axis sizes else remainingSizes axes axis sizes))
        = RowMajor.position (Elementwise.collapse (keptSizes axes axis sizes) coords)
            (RowMajor.steps (keptSizes axes axis sizes)) := by
  induction inside generalizing axis with
  | nil => cases keepAxes <;> rfl
  | @cons coord size coords sizes here _ ih =>
      have later := @ih (axis + 1)
      have collapsed (kept : Nat)
          : Elementwise.collapse (kept :: keptSizes axes (axis + 1) sizes) (coord :: coords)
            = (if kept = 1 then 0 else coord)
              :: Elementwise.collapse (keptSizes axes (axis + 1) sizes) coords :=
        rfl
      rw [projected, keptSizes, remainingSizes, collapsed]
      cases reduced : axes.contains axis with
      | false =>
          have same : (if size = 1 then 0 else coord) = coord := by
            split_ifs with single
            · omega
            · rfl
          cases keepAxes with
          | false =>
              simp only [Bool.not_false, if_true, Bool.false_eq_true, if_false] at later ⊢
              rw [RowMajor.steps, RowMajor.steps, RowMajor.position_cons, RowMajor.position_cons,
                same, later, count_keptSizes]
          | true =>
              simp only [Bool.not_false, if_true, Bool.false_eq_true, if_false] at later ⊢
              rw [RowMajor.steps, RowMajor.position_cons, RowMajor.position_cons, same, later]
      | true =>
          cases keepAxes with
          | false =>
              simp only [Bool.not_true, if_true, Bool.false_eq_true, if_false] at later ⊢
              rw [later, RowMajor.steps, RowMajor.position_cons, Nat.zero_mul, Nat.zero_add]
          | true =>
              simp only [Bool.not_true, if_true, Bool.false_eq_true, if_false] at later ⊢
              rw [RowMajor.steps, RowMajor.position_cons, RowMajor.position_cons, later]

end Reduce

-----------------------------------------------------------------------------------------
-- Axes
-----------------------------------------------------------------------------------------

/-- Numbers that mean axes have a list of these axes, in increasing order. -/
theorem Typing.exists_reducedAxes {reduction : Reduction} {rank : Nat}
    (known : ∀ number ∈ reduction.axes, (Slice.position? number rank).isSome = true)
    : ∃ axes,
        reducedAxes reduction.axes rank = .ok axes
        ∧ axes.Pairwise (· < ·)
        ∧ ∀ axis, axis ∈ axes ↔ reduction.reducesAxis rank axis = true := by
  by_cases all : reduction.axes = []
  · refine ⟨List.range rank, by rw [reducedAxes, all]; rfl, List.pairwise_lt_range, fun axis => ?_⟩
    simp [Reduction.reducesAxis, all]
  · have single {number : Int} {axis : Nat}
        : singleAxis number rank = .ok axis ↔ Slice.position? number rank = some axis := by
      rw [singleAxis]
      cases Slice.position? number rank <;> simp
    obtain ⟨positions, found⟩
        : ∃ positions, reduction.axes.mapM (singleAxis · rank) = .ok positions :=
      Steps.exists_mapM_eq_ok fun number member => by
        obtain ⟨axis, means⟩ := Option.isSome_iff_exists.mp (known number member)
        exact ⟨axis, single.mpr means⟩
    refine ⟨increasing positions, ?_, pairwise_increasing positions, fun axis => ?_⟩
    · rw [reducedAxes, if_neg (by simpa using all), found]
      rfl
    · have listed : Except.ok axis ∈ reduction.axes.map (singleAxis · rank)
          ↔ axis ∈ positions := by
        rw [Steps.mapM_eq_ok_iff.mp found]
        simp
      have inside : (∃ number ∈ reduction.axes, Slice.position? number rank = some axis)
          → axis < rank := by
        rintro ⟨_, _, means⟩
        exact Slice.lt_of_position? means
      rw [mem_increasing, ← listed, List.mem_map]
      simp only [single, Reduction.reducesAxis, Bool.and_eq_true, decide_eq_true_eq,
        Bool.or_eq_true, List.isEmpty_iff, all, false_or, List.any_eq_true]
      exact ⟨fun means => ⟨inside means, means⟩, And.right⟩

-----------------------------------------------------------------------------------------
-- Lanes
-----------------------------------------------------------------------------------------

/-- Looking up items that are listed beside their keys. -/
theorem mapM_filter_of_zip {α β γ : Type} {lookup : α → Option γ} {read : β → γ} {keys : List α}
    {items : List β} (length : keys.length ≤ items.length)
    (each : ∀ pair ∈ keys.zip items, lookup pair.1 = some (read pair.2)) (test : α → Bool)
    : (keys.filter test).mapM lookup
      = some ((((keys.zip items).filter fun pair => test pair.1).map (·.2)).map read) := by
  have filtered : keys.filter test
      = ((keys.zip items).filter fun pair => test pair.1).map (·.1) := by
    conv_lhs => rw [← List.map_fst_zip length, List.filter_map]
    rfl
  rw [filtered, Steps.mapM_eq_some_iff, List.map_map, List.map_map, List.map_map]
  exact List.map_congr_left fun pair member => each pair (List.mem_of_mem_filter member)

namespace Reduce

variable {axes : List Nat} {keepAxes : Bool} {input : Tensor} {coords : List Nat}

/-- The integers of a valid tensor stand in the order of its points. -/
theorem int?_of_mem_zip {pair : List Nat × Int64}
    (member : pair ∈ (RowMajor.points input.sizes).zip input.elements.toInts)
    : RowMajor.Inside pair.1 input.sizes ∧ input.int? pair.1 = some pair.2.toInt := by
  obtain ⟨place, bound, rfl⟩ := List.mem_iff_getElem.mp member
  rw [List.length_zip, Nat.lt_min] at bound
  have inside : RowMajor.Inside (RowMajor.points input.sizes)[place] input.sizes :=
    RowMajor.mem_points.mp (List.getElem_mem bound.1)
  have number : RowMajor.position (RowMajor.points input.sizes)[place] (RowMajor.steps input.sizes)
      = place := by
    have each := congrArg (·[place]?) (Tensor.map_position_points input.sizes)
    simpa [List.getElem?_eq_getElem bound.1, by simpa using bound.1] using each
  rw [List.getElem_zip]
  refine ⟨inside, ?_⟩
  rw [Tensor.int?, number, List.getElem?_eq_getElem bound.2, Option.map_some]

/-- The lane of a point of the result holds the integers at the points that are projected to it. -/
theorem mapM_int?_eq_lane (valid : input.Valid)
    (inside : RowMajor.Inside coords (resultSizes axes keepAxes input.sizes))
    : ((RowMajor.points input.sizes).filter fun place =>
          projected (axes.contains ·) keepAxes 0 place = coords).mapM input.int?
      = some ((lane axes input
          (RowMajor.position coords
            (RowMajor.steps (resultSizes axes keepAxes input.sizes)))).map Int64.toInt) := by
  have length : (RowMajor.points input.sizes).length ≤ input.elements.toInts.length := by
    rw [RowMajor.length_points, Elements.length_toInts]
    exact Nat.le_of_eq valid.symm
  rw [mapM_filter_of_zip length (fun pair member => (int?_of_mem_zip member).2), lane]
  dsimp only
  congr 3
  refine List.filter_congr fun pair member => ?_
  have point := (int?_of_mem_zip member).1
  have there : RowMajor.Inside (projected (axes.contains ·) keepAxes 0 pair.1)
      (resultSizes axes keepAxes input.sizes) :=
    inside_projected point
  rw [← @position_projected axes keepAxes _ _ 0 point, decide_eq_decide]
  exact ⟨fun same => by rw [same]; rfl, fun same => RowMajor.eq_of_position_eq there inside same⟩

end Reduce

-----------------------------------------------------------------------------------------
-- Values
-----------------------------------------------------------------------------------------

/-- A stored integer is read modulo the width of its type. -/
theorem DType.toInt_wrap {dtype : DType} (integer : dtype.isInteger = true) (x : Int64)
    : (dtype.wrap x).toInt = x.toInt.bmod (2 ^ (8 * dtype.byteSize)) := by
  cases dtype with
  | si32 => exact (Int32.toInt_toInt64 _).trans (Int64.toInt_toInt32 x)
  | si64 => exact (Int64.toInt_bmod x).symm
  | i1 | f32 | f64 => cases integer

namespace Reduce

/-- A sum of words is the sum of their integers as a word. -/
theorem toInt_foldl_add (items : List Int64) (start : Int64)
    : (items.foldl (intStep .sum) start).toInt
      = (start.toInt + (items.map Int64.toInt).sum).bmod (2 ^ 64) := by
  induction items generalizing start with
  | nil => simp
  | cons item items ih =>
      rw [List.foldl_cons, ih, intStep, Int64.toInt_add, Int.bmod_add_bmod, List.map_cons,
        List.sum_cons, Int.add_assoc]

/-- What a reduction of stored integers leaves, as it is read. -/
theorem combines_foldl {kind : ReduceKind} {dtype : DType} (integer : dtype.isInteger = true)
    {items : List Int64} (fits : ∀ item ∈ items, dtype.Fits item)
    (filled : kind ≠ .sum → items ≠ [])
    : kind.Combines dtype (items.map Int64.toInt)
        (dtype.wrap (items.foldl (intStep kind) (intUnit kind))).toInt := by
  have extreme (dual : ReduceKind) (known : kind.negatedDual = some dual) (other : kind ≠ .sum)
      : dtype.wrap (items.foldl (intStep kind) (intUnit kind))
            = items.foldl (intStep kind) (intUnit kind)
          ∧ kind.IsExtreme items (items.foldl (intStep kind) (intUnit kind)) :=
    ⟨fits_foldl known (filled other) fits, ReduceKind.isExtreme_foldl known (filled other)⟩
  cases kind with
  | sum =>
      have narrower : 2 ^ (8 * dtype.byteSize) ∣ 2 ^ 64 := by
        refine Nat.pow_dvd_pow 2 ?_
        cases dtype <;> decide
      rw [ReduceKind.Combines, DType.toInt_wrap integer, toInt_foldl_add, Int.bmod_bmod_of_dvd narrower]
      exact congrArg (Int.bmod · _) (Int.zero_add _)
  | max =>
      obtain ⟨same, listed, bounds⟩ := extreme .min rfl (by decide)
      rw [same]
      exact ⟨List.mem_map_of_mem listed, List.forall_mem_map.mpr bounds⟩
  | min =>
      obtain ⟨same, listed, bounds⟩ := extreme .max rfl (by decide)
      rw [same]
      exact ⟨List.mem_map_of_mem listed, List.forall_mem_map.mpr bounds⟩

/-- The integer at a point of the result is read from what its lane is combined into. -/
theorem int?_combined {kind : ReduceKind} {axes : List Nat} {keepAxes : Bool} {input : Tensor}
    {coords : List Nat} (integer : input.dtype.isInteger = true)
    (inside : RowMajor.Inside coords (resultSizes axes keepAxes input.sizes))
    : (combined kind axes keepAxes input).int? coords
      = some
          (input.dtype.wrap
            ((lane axes input
                (RowMajor.position coords
                  (RowMajor.steps (resultSizes axes keepAxes input.sizes)))).foldl
              (intStep kind) (intUnit kind))).toInt := by
  have bound := RowMajor.position_lt_count inside
  rw [count_resultSizes] at bound
  rw [Tensor.int?, sizes_combined, elements_combined (DType.isFloat_of_isInteger integer),
    Elements.toInts_ofInts integer, combine, List.getElem?_map, List.getElem?_map,
    List.getElem?_range bound, Option.map_some, Option.map_some, Option.map_some, group_targets]

end Reduce

-----------------------------------------------------------------------------------------
-- The kernel
-----------------------------------------------------------------------------------------

/-- A list with each of some points, once. -/
structure RowMajor.Enumerates (places : List (List Nat)) (listed : List Nat → Prop) : Prop where
  once : places.Nodup
  all : ∀ place, place ∈ places ↔ listed place

/-- A tensor of integers that is reduced from another one: at each of its points it combines the
integers at those points of the other one that are projected to it.
-/
def Reduction.IsResult (reduction : Reduction) (input result : Tensor) : Prop :=
  ∀ coords, RowMajor.Inside coords result.sizes →
    ∃ places integers value,
      RowMajor.Enumerates places
        (fun place => RowMajor.Inside place input.sizes ∧ reduction.project place = coords)
      ∧ places.mapM input.int? = some integers
      ∧ result.int? coords = some value
      ∧ reduction.kind.Combines input.dtype integers value

namespace Reduce

/-- The extents of a result are the known sizes of its type. -/
theorem reducedDims_static (axes : List Nat) (keepAxes : Bool) (axis : Nat) (sizes : List Nat)
    : Typing.reducedDims axes keepAxes axis (sizes.map .static)
      = (if keepAxes then keptSizes axes axis sizes else remainingSizes axes axis sizes).map
          .static := by
  induction sizes generalizing axis with
  | nil => cases keepAxes <;> rfl
  | cons size sizes ih =>
      rw [List.map_cons, Typing.reducedDims, ih, keptSizes, remainingSizes]
      cases axes.contains axis <;> cases keepAxes <;> rfl

/-- A reduction asks for as many words as its result has positions. -/
theorem pieces_reduce (reduction : Reduction) (input : Tensor)
    : Memory.pieces (.reduce reduction) [.tensor input]
      = (combinedAxes reduction input.sizes).map fun axes =>
          [RowMajor.count (keptSizes axes 0 input.sizes)] := by
  change (combinedAxes reduction input.sizes >>= _) = _
  cases combinedAxes reduction input.sizes <;> rfl

theorem execute_reduce (reduction : Reduction) (input : Tensor)
    : Kernel.execute (.reduce reduction) [.tensor input] = Kernel.tensor (reduce reduction input) :=
  rfl

section

variable {reduction : Reduction} {input : Tensor} {axes : List Nat}
  (found : Typing.reducedAxes reduction.axes input.sizes.length = .ok axes)
  (reduced : ∀ axis, axis ∈ axes ↔ reduction.reducesAxis input.sizes.length axis = true)

include reduced

theorem contains_eq : (axes.contains ·) = reduction.reducesAxis input.sizes.length := by
  funext axis
  rw [Bool.eq_iff_iff, List.contains_iff_mem, reduced]

theorem lacksElement_iff
    : reduction.LacksElement input.sizes
      ↔ reduction.kind ≠ .sum ∧ hasEmptyAxis axes input.sizes = true := by
  simp [Reduction.LacksElement, hasEmptyAxis, ← reduced]

/-- Each point of the result combines the integers that are projected to it. -/
theorem isResult_combined (integer : input.dtype.isInteger = true) (valid : input.Valid)
    (occupied : reduction.kind ≠ .sum → hasEmptyAxis axes input.sizes = false)
    : reduction.IsResult input (combined reduction.kind axes reduction.keepAxes input) := by
  intro coords inside
  have bound := RowMajor.position_lt_count inside
  rw [sizes_combined] at inside bound
  rw [count_resultSizes] at bound
  refine ⟨_, _, _, ⟨(RowMajor.nodup_points input.sizes).filter _, fun place => ?_⟩,
    mapM_int?_eq_lane valid inside, int?_combined integer inside,
    combines_foldl integer (fun _ => fits_of_mem_lane integer) fun extreme =>
      lane_ne_nil valid (occupied extreme) bound⟩
  rw [List.mem_filter, decide_eq_true_eq, RowMajor.mem_points, contains_eq reduced]
  refine and_congr_right fun point => ?_
  rw [Reduction.project, point.length_eq]

include found

theorem combinedAxes_of_reducedAxes
    : (reduction.LacksElement input.sizes
        → combinedAxes reduction input.sizes = .fail .emptyReduction)
      ∧ (¬reduction.LacksElement input.sizes → combinedAxes reduction input.sizes = .ok axes) := by
  rw [lacksElement_iff reduced, combinedAxes, found]
  exact ⟨fun lacks => if_pos lacks, fun fine => if_neg fine⟩

/-- An extreme of nothing is refused, with memory or without. -/
theorem fail_of_lacksElement (lacks : reduction.LacksElement input.sizes)
    : reduce reduction input = .fail .emptyReduction
      ∧ Backend.reference.bounded.execute (.reduce reduction) [.tensor input]
        = .fail .emptyReduction := by
  have refused := (combinedAxes_of_reducedAxes found reduced).1 lacks
  have failed : reduce reduction input = .fail .emptyReduction := by
    rw [reduce_eq, refused]
    rfl
  refine ⟨failed, ?_⟩
  rw [Backend.bounded_execute, Memory.isEnough, pieces_reduce, execute_reduce, refused, failed]
  rfl

/-- The reference backend has the result if memory holds its integers. -/
theorem delivers_combined (fine : ¬reduction.LacksElement input.sizes)
    : Memory.Delivers (.reduce reduction) [.tensor input]
        [RowMajor.count (resultSizes axes reduction.keepAxes input.sizes)]
        (.tensor (combined reduction.kind axes reduction.keepAxes input)) := by
  have known := (combinedAxes_of_reducedAxes found reduced).2 fine
  have done : reduce reduction input
      = .ok (combined reduction.kind axes reduction.keepAxes input) := by
    rw [reduce_eq, known]
    rfl
  refine Memory.delivers_of_isEnough
    (Kernel.onFirst_eq_ok_iff.mpr ⟨input, _, rfl, done, rfl⟩) ?_
  rw [Memory.isEnough, pieces_reduce, known, count_resultSizes]
  rfl

omit reduced in
/-- Inference has the type of the result. -/
theorem resultType_combined (integer : input.dtype.isInteger = true)
    : (Operation.reduce reduction).resultType [.tensor input.type]
      = .ok (.tensor (combined reduction.kind axes reduction.keepAxes input).type) := by
  have rank : input.type.rank = input.sizes.length := List.length_map _
  have known : Typing.reduce reduction [.tensor input.type]
      = .ok (.tensor (combined reduction.kind axes reduction.keepAxes input).type) := by
    refine Typing.reduce_eq_ok_iff.mpr ⟨input.type, axes, rfl, ?_, rank ▸ found, ?_⟩
    · exact Bool.or_eq_true_iff.mpr (.inl integer)
    · rw [Tensor.type, dtype_combined, sizes_combined, Typing.reducedShape]
      exact congrArg (fun dims => ValueType.tensor ⟨input.dtype, ⟨dims⟩⟩)
        (reducedDims_static axes reduction.keepAxes 0 input.sizes).symm
  rw [Operation.resultType, Typing.infer, known]
  rfl

end

/-- Reductions of one kind are the same if their numbers mean the same axes. -/
theorem reduce_congr {reduction : Reduction} {numbers : List Int} {input : Tensor}
    (same
      : Typing.reducedAxes numbers input.sizes.length
        = Typing.reducedAxes reduction.axes input.sizes.length)
    : reduce { reduction with axes := numbers } input = reduce reduction input
      ∧ Backend.reference.bounded.execute (.reduce { reduction with axes := numbers })
            [.tensor input]
        = Backend.reference.bounded.execute (.reduce reduction) [.tensor input] := by
  have axes : combinedAxes { reduction with axes := numbers } input.sizes
      = combinedAxes reduction input.sizes := by
    rw [combinedAxes, combinedAxes, same]
  have reduced : reduce { reduction with axes := numbers } input = reduce reduction input := by
    rw [reduce_eq, reduce_eq, axes]
  refine ⟨reduced, ?_⟩
  rw [Backend.bounded_execute, Backend.bounded_execute, Memory.isEnough, Memory.isEnough,
    pieces_reduce, pieces_reduce, execute_reduce, execute_reduce, axes, reduced]

/-- Integers whose sum their type does not have. -/
def largeIntegers : Tensor := ⟨[2, 2], .si32 [2147483647, 1, 5, -5]⟩

/-- Very many rows of integers without elements. -/
def endlessTotals : Tensor := ⟨[2 ^ 60, 0], .si64 []⟩

end Reduce

end Dataflow
