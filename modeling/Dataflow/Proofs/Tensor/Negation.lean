import Dataflow.Proofs.Number.Floats
import Dataflow.Proofs.Number.Integers
import Dataflow.Proofs.Tensor.Canonical
import Dataflow.Proofs.Tensor.Lanes

/-!
Negated tensors. A tensor that is negated twice is itself, and a largest element of a negated tensor
is a smallest one, negated, unless the least integer stands among others in some lane.
-/

namespace Dataflow

-----------------------------------------------------------------------------------------
-- Stored elements
-----------------------------------------------------------------------------------------

namespace Elements

/-- The canonical form of floating-point numbers stores the numbers that they are read as. -/
theorem canonical_eq_ofFloats {elements : Elements} (float : elements.dtype.isFloat = true)
    : elements.canonical = ofFloats elements.dtype elements.toFloats := by
  cases elements with
  | f32 words => simp [canonical, ofFloats, toFloats, dtype]
  | f64 words => simp [canonical, ofFloats, toFloats, dtype]
  | _ => exact absurd float Bool.false_ne_true

/-- Numbers of 32 bits are widened words. -/
theorem isSingle_of_mem_toFloats {elements : Elements} (single : elements.dtype = .f32)
    {x : Float} (member : x ∈ elements.toFloats)
    : Binary.IsSingle x := by
  cases elements with
  | f32 words =>
      obtain ⟨word, -, rfl⟩ := List.mem_map.mp member
      exact ⟨word, rfl⟩
  | _ => cases single

/-- Numbers that were stored are read again, if they are widened words in 32 bits. -/
theorem toFloats_ofFloats {dtype : DType} {values : List Float} (float : dtype.isFloat = true)
    (single : dtype = .f32 → ∀ x ∈ values, Binary.IsSingle x)
    : (ofFloats dtype values).toFloats = values := by
  cases dtype with
  | f32 =>
      simp only [ofFloats, toFloats, List.map_map]
      refine (List.map_congr_left ?_).trans (List.map_id values)
      exact fun x member => (single rfl x member).widen_narrow
  | f64 => simp [ofFloats, toFloats, Function.comp_def]
  | _ => exact absurd float Bool.false_ne_true

/-- Integers are read in the width of their type. -/
theorem toInts_ofInts {dtype : DType} (integer : dtype.isInteger = true) (values : List Int64)
    : (ofInts dtype values).toInts = values.map dtype.wrap := by
  cases dtype with
  | si32 => simp [ofInts, toInts, DType.wrap, Function.comp_def]
  | si64 => exact (List.map_id' values).symm
  | _ => exact absurd integer Bool.false_ne_true

/-- Integers are stored in the width of their type. -/
theorem ofInts_map_wrap {dtype : DType} (integer : dtype.isInteger = true) (values : List Int64)
    : ofInts dtype (values.map dtype.wrap) = ofInts dtype values := by
  cases dtype with
  | si32 => simp [ofInts, DType.wrap]
  | si64 => exact congrArg si64 (List.map_id' values)
  | _ => exact absurd integer Bool.false_ne_true

/-- Integers that are read fit the width of their type. -/
theorem fits_of_mem_toInts {elements : Elements} (integer : elements.dtype.isInteger = true)
    {x : Int64} (member : x ∈ elements.toInts)
    : elements.dtype.Fits x := by
  cases elements with
  | si32 values =>
      obtain ⟨value, -, rfl⟩ := List.mem_map.mp member
      exact congrArg Int32.toInt64 (Int32.toInt32_toInt64 value)
  | si64 values => exact rfl
  | _ => exact absurd integer Bool.false_ne_true

/-- Integers that are read and stored again are the same. -/
theorem ofInts_toInts {elements : Elements} (integer : elements.dtype.isInteger = true)
    : ofInts elements.dtype elements.toInts = elements := by
  cases elements with
  | si32 values => simp [ofInts, toInts, dtype, Function.comp_def]
  | si64 values => rfl
  | _ => exact absurd integer Bool.false_ne_true

end Elements

-----------------------------------------------------------------------------------------
-- Negation
-----------------------------------------------------------------------------------------

namespace Elementwise

/-- A tensor with all elements negated. -/
def negated (input : Tensor) : Tensor where
  sizes := input.sizes
  elements :=
    if input.dtype.isFloat then .ofFloats input.dtype (input.elements.toFloats.map fun x => -x)
    else .ofInts input.dtype (input.elements.toInts.map fun x => -x)

theorem unary_neg (input : Tensor) : unary .neg input = .ok (negated input) := by
  rw [unary, negated]
  split_ifs <;> rfl

@[simp] theorem sizes_negated (input : Tensor) : (negated input).sizes = input.sizes := rfl

theorem valid_negated {input : Tensor} (valid : input.Valid) : (negated input).Valid := by
  have length : input.elements.size = RowMajor.count input.sizes := valid
  rw [Tensor.Valid, negated]
  split_ifs <;> simpa using length

@[simp] theorem dtype_negated (input : Tensor) : (negated input).dtype = input.dtype := by
  rw [Tensor.dtype, negated]
  split_ifs <;> simp

/-- Negated numbers are stored, so they are canonical. -/
@[simp] theorem canonical_negated (input : Tensor) : (negated input).canonical = negated input := by
  rw [negated, Tensor.canonical]
  split_ifs <;> simp

theorem elements_negated_of_isFloat {input : Tensor} (float : input.dtype.isFloat = true)
    : (negated input).elements
      = .ofFloats input.dtype (input.elements.toFloats.map fun x => -x) :=
  if_pos float

theorem toFloats_negated {input : Tensor} (float : input.dtype.isFloat = true)
    : (negated input).elements.toFloats = input.elements.toFloats.map fun x => -x := by
  rw [elements_negated_of_isFloat float]
  apply Elements.toFloats_ofFloats float
  intro single x member
  obtain ⟨source, listed, rfl⟩ := List.mem_map.mp member
  exact (Elements.isSingle_of_mem_toFloats single listed).neg

/-- Integers are negated in the width of their type. -/
theorem elements_negated {input : Tensor} (integer : input.dtype.isInteger = true)
    : (negated input).elements
      = .ofInts input.dtype (input.elements.toInts.map input.dtype.negate) := by
  have exact := DType.isFloat_of_isInteger integer
  have twice : input.elements.toInts.map input.dtype.negate
      = (input.elements.toInts.map fun x => -x).map input.dtype.wrap := by
    rw [List.map_map]
    rfl
  rw [negated, exact, if_neg Bool.false_ne_true, twice, Elements.ofInts_map_wrap integer]

theorem toInts_negated {input : Tensor} (integer : input.dtype.isInteger = true)
    : (negated input).elements.toInts = input.elements.toInts.map input.dtype.negate := by
  have stored (x : Int64) : input.dtype.wrap (input.dtype.negate x) = input.dtype.negate x :=
    input.dtype.fits_negate x
  rw [elements_negated integer, Elements.toInts_ofInts integer, List.map_map]
  exact List.map_congr_left fun x _ => stored x

/-- A tensor of numbers that is negated twice is itself in its canonical form. -/
theorem negated_negated {input : Tensor} (numeric : input.dtype.isNumeric = true)
    : negated (negated input) = input.canonical := by
  have elements
      : (negated (negated input)).elements.canonical = input.elements.canonical := by
    obtain integer | float := Bool.or_eq_true_iff.mp numeric
    · have outer : (negated input).dtype.isInteger = true := by simpa using integer
      rw [elements_negated outer, toInts_negated integer, List.map_map, dtype_negated]
      have back : input.elements.toInts.map (input.dtype.negate ∘ input.dtype.negate)
          = input.elements.toInts := by
        refine (List.map_congr_left fun x member => ?_).trans (List.map_id _)
        exact DType.negate_negate (Elements.fits_of_mem_toInts integer member)
      rw [back]
      exact congrArg Elements.canonical (Elements.ofInts_toInts integer)
    · have outer : (negated (negated input)).elements.dtype.isFloat = true := by
        change (negated (negated input)).dtype.isFloat = true
        simpa using float
      have middle : (negated input).dtype.isFloat = true := by simpa using float
      rw [Elements.canonical_eq_ofFloats outer, Elements.canonical_eq_ofFloats float,
        toFloats_negated middle, toFloats_negated float]
      have same : (negated (negated input)).elements.dtype = input.elements.dtype := by
        change (negated (negated input)).dtype = input.dtype
        simp
      simp [same, Function.comp_def]
  rw [← canonical_negated (negated input), Tensor.canonical, elements]
  rfl

/-- Integers that are negated twice are the same. -/
theorem negated_negated_of_isInteger {input : Tensor} (integer : input.dtype.isInteger = true)
    : negated (negated input) = input := by
  rw [negated_negated (Bool.or_eq_true_iff.mpr (.inl integer)),
    Tensor.canonical_of_not_isFloat (DType.isFloat_of_isInteger integer)]

/-- An integer is the negation of another one iff this one is its negation. -/
theorem getElem?_negated_eq_iff {first second : Tensor} (integer : first.dtype.isInteger = true)
    (same : first.dtype = second.dtype) (position : Nat)
    : (negated first).elements.toInts[position]? = second.elements.toInts[position]?
      ↔ first.elements.toInts[position]? = (negated second).elements.toInts[position]? := by
  have negates {input : Tensor} (integer : input.dtype.isInteger = true)
      : (negated input).elements.toInts[position]?
        = input.elements.toInts[position]?.map input.dtype.negate := by
    rw [toInts_negated integer, List.getElem?_map]
  have back {input : Tensor} (integer : input.dtype.isInteger = true)
      : (negated input).elements.toInts[position]?.map input.dtype.negate
        = input.elements.toInts[position]? := by
    rw [← dtype_negated, ← negates (by simpa using integer), negated_negated_of_isInteger integer]
  have integer' : second.dtype.isInteger = true := same ▸ integer
  constructor
  · intro equal
    rw [negates integer', ← equal, ← same, back integer]
  · intro equal
    rw [negates integer, equal, same, back integer']

end Elementwise

-----------------------------------------------------------------------------------------
-- Extremes of negated tensors
-----------------------------------------------------------------------------------------

namespace Reduce

open Elementwise

/-- The extreme of negated numbers is the opposite extreme, negated, by induction on the numbers.
-/
theorem foldl_floatStep_neg {kind dual : ReduceKind} (known : kind.negatedDual = some dual)
    (items : List Float)
    : (items.map fun x => -x).foldl (floatStep kind) (floatUnit kind)
      = -items.foldl (floatStep dual) (floatUnit dual) := by
  have folded (start : Float)
      : (items.map fun x => -x).foldl (floatStep kind) (-start)
        = -items.foldl (floatStep dual) start := by
    induction items generalizing start with
    | nil => rfl
    | cons item items ih =>
        rw [List.map_cons, List.foldl_cons, List.foldl_cons, ← ih]
        congr 1
        cases kind with
        | sum => simp [ReduceKind.negatedDual] at known
        | max =>
            obtain rfl : ReduceKind.min = dual := Option.some.inj known
            exact Binary.maximum_neg start item
        | min =>
            obtain rfl : ReduceKind.max = dual := Option.some.inj known
            exact Binary.minimum_neg start item
  have unit : floatUnit kind = -floatUnit dual := by
    cases kind with
    | sum => simp [ReduceKind.negatedDual] at known
    | max =>
        obtain rfl : ReduceKind.min = dual := Option.some.inj known
        rfl
    | min =>
        obtain rfl : ReduceKind.max = dual := Option.some.inj known
        exact (Binary.neg_neg_float Binary.infinity).symm
  rw [unit, folded]

/-- An extreme of widened words is one, by induction on the words. -/
theorem isSingle_foldl {kind dual : ReduceKind} (known : kind.negatedDual = some dual)
    {items : List Float} (single : ∀ x ∈ items, Binary.IsSingle x)
    : Binary.IsSingle (items.foldl (floatStep kind) (floatUnit kind)) := by
  have folded {start : Float} (first : Binary.IsSingle start)
      : Binary.IsSingle (items.foldl (floatStep kind) start) := by
    induction items generalizing start with
    | nil => exact first
    | cons item items ih =>
        have here := single item List.mem_cons_self
        refine ih (fun x member => single x (List.mem_cons_of_mem _ member)) ?_
        cases kind with
        | sum => simp [ReduceKind.negatedDual] at known
        | max => exact first.maximum here
        | min => exact first.minimum here
  refine folded ?_
  cases kind with
  | sum => simp [ReduceKind.negatedDual] at known
  | max => exact Binary.isSingle_infinity.neg
  | min => exact Binary.isSingle_infinity

/-- An extreme of integers of a type is one of the type. -/
theorem fits_foldl {kind dual : ReduceKind} {dtype : DType}
    (known : kind.negatedDual = some dual) {items : List Int64} (some : items ≠ [])
    (fits : ∀ item ∈ items, dtype.Fits item)
    : dtype.Fits (items.foldl (intStep kind) (intUnit kind)) :=
  fits _ (ReduceKind.isExtreme_foldl known some).listed

/-- The least integer of its type does not stand among others in a lane. -/
def Unmixed (axes : List Nat) (input : Tensor) (position : Nat) : Prop :=
  input.dtype.least ∉ lane axes input position
  ∨ ∀ item ∈ lane axes input position, item = input.dtype.least

theorem fits_of_mem_lane {axes : List Nat} {input : Tensor} {position : Nat} {item : Int64}
    (integer : input.dtype.isInteger = true) (member : item ∈ lane axes input position)
    : input.dtype.Fits item :=
  Elements.fits_of_mem_toInts integer (mem_of_mem_lane member)

theorem lane_negated {input : Tensor} (integer : input.dtype.isInteger = true) (axes : List Nat)
    (position : Nat)
    : lane axes (negated input) position
      = (lane axes input position).map input.dtype.negate := by
  rw [← group_targets, ← group_targets, toInts_negated integer, sizes_negated, group_map]

section

variable {kind dual : ReduceKind} {axes : List Nat} {input : Tensor} {position : Nat}
  (known : kind.negatedDual = some dual) (integer : input.dtype.isInteger = true)
  (valid : input.Valid) (occupied : hasEmptyAxis axes input.sizes = false)

include known integer valid occupied

/-- The extremes of the integers of a tensor, as they are read. -/
theorem toInts_combined (keepAxes : Bool)
    : (combined kind axes keepAxes input).elements.toInts
      = (List.range (RowMajor.count (keptSizes axes 0 input.sizes))).map fun position =>
          (lane axes input position).foldl (intStep kind) (intUnit kind) := by
  rw [elements_combined (DType.isFloat_of_isInteger integer), Elements.toInts_ofInts integer,
    combine, List.map_map]
  refine List.map_congr_left fun position member => ?_
  rw [Function.comp_apply, group_targets]
  exact fits_foldl known (lane_ne_nil valid occupied (List.mem_range.mp member))
    fun _ => fits_of_mem_lane integer

/-- The extreme of a lane, as it is read. -/
theorem getElem?_toInts_combined (keepAxes : Bool)
    (inside : position < RowMajor.count (keptSizes axes 0 input.sizes))
    : (combined kind axes keepAxes input).elements.toInts[position]?
      = some ((lane axes input position).foldl (intStep kind) (intUnit kind)) := by
  rw [toInts_combined known integer valid occupied, List.getElem?_map, List.getElem?_range inside]
  rfl

/-- The extreme of a negated lane is the opposite extreme, negated, iff the least integer does not
stand among others there.
-/
theorem getElem?_combined_negated_iff (keepAxes : Bool)
    (inside : position < RowMajor.count (keptSizes axes 0 input.sizes))
    : (combined kind axes keepAxes (negated input)).elements.toInts[position]?
          = (negated (combined dual axes keepAxes input)).elements.toInts[position]?
      ↔ Unmixed axes input position := by
  have dualKnown := ReduceKind.negatedDual_symm known
  have turned : (negated input).dtype.isInteger = true := by simpa using integer
  have outer : (combined dual axes keepAxes input).dtype.isInteger = true := by simpa using integer
  rw [getElem?_toInts_combined known turned (valid_negated valid) occupied keepAxes inside,
    toInts_negated outer,
    List.getElem?_map, getElem?_toInts_combined dualKnown integer valid occupied keepAxes inside,
    lane_negated integer, dtype_combined, Option.map_some, Option.some.injEq,
    ReduceKind.foldl_negate_iff known (lane_ne_nil valid occupied inside)
      fun _ => fits_of_mem_lane integer,
    ReduceKind.mixesLeast_eq_false_iff, Unmixed]

end

/-- The extremes of the numbers of a tensor, as they are read. -/
theorem toFloats_combined {kind dual : ReduceKind} {axes : List Nat} {input : Tensor}
    (known : kind.negatedDual = some dual) (float : input.dtype.isFloat = true) (keepAxes : Bool)
    : (combined kind axes keepAxes input).elements.toFloats
      = combine (floatStep kind) (floatUnit kind)
          (targets input.sizes (keptSizes axes 0 input.sizes)) input.elements.toFloats
          (RowMajor.count (keptSizes axes 0 input.sizes)) := by
  rw [elements_combined_of_isFloat float]
  apply Elements.toFloats_ofFloats float
  intro single x member
  obtain ⟨position, -, rfl⟩ := List.mem_map.mp member
  exact isSingle_foldl known fun x listed =>
    Elements.isSingle_of_mem_toFloats single (mem_of_mem_group listed)

/-- The extremes of a negated tensor are the opposite extremes, negated, unless the least integer
stands among others in a lane.
-/
theorem combined_negated {kind dual : ReduceKind} {axes : List Nat} {keepAxes : Bool}
    {input : Tensor} (known : kind.negatedDual = some dual)
    (numeric : input.dtype.isNumeric = true) (valid : input.Valid)
    (occupied : hasEmptyAxis axes input.sizes = false)
    (unmixed
      : input.dtype.isInteger = true
        → ∀ position < RowMajor.count (keptSizes axes 0 input.sizes), Unmixed axes input position)
    : combined kind axes keepAxes (negated input) = negated (combined dual axes keepAxes input) := by
  have elements
      : (combined kind axes keepAxes (negated input)).elements
        = (negated (combined dual axes keepAxes input)).elements := by
    obtain integer | float := Bool.or_eq_true_iff.mp numeric
    · have turned : (negated input).dtype.isInteger = true := by simpa using integer
      have outer : (combined dual axes keepAxes input).dtype.isInteger = true := by
        simpa using integer
      rw [elements_combined (DType.isFloat_of_isInteger turned), elements_negated outer,
        toInts_combined (ReduceKind.negatedDual_symm known) integer valid occupied, dtype_negated,
        dtype_combined, List.map_map, combine]
      refine congrArg _ (List.map_congr_left fun position member => ?_)
      have inside := List.mem_range.mp member
      rw [group_targets, lane_negated integer, Function.comp_apply]
      refine (ReduceKind.foldl_negate_iff known (lane_ne_nil valid occupied inside)
        fun _ => fits_of_mem_lane integer).mpr ?_
      exact ReduceKind.mixesLeast_eq_false_iff.mpr (unmixed integer position inside)
    · have outer : (combined dual axes keepAxes input).dtype.isFloat = true := by
        simpa using float
      have inner : (negated input).dtype.isFloat = true := by simpa using float
      rw [elements_negated_of_isFloat outer, toFloats_combined (ReduceKind.negatedDual_symm known) float,
        elements_combined_of_isFloat inner, toFloats_negated float, sizes_negated, dtype_combined,
        dtype_negated]
      congr 1
      apply combine_map
      intro position _
      exact foldl_floatStep_neg known _
  exact congrArg (Tensor.mk _) elements

section

variable {reduction : Reduction} {dual : ReduceKind} {axes : List Nat} {input : Tensor}
  (known : reduction.kind.negatedDual = some dual)

include known

/-- Both kernels have results: the one that reduces the negated integers, and the dual one. -/
theorem reduce_negated_eq_ok
    (resolved : combinedAxes reduction input.sizes = .ok axes)
    : hasEmptyAxis axes input.sizes = false
      ∧ reduce reduction (negated input)
        = .ok (combined reduction.kind axes reduction.keepAxes (negated input))
      ∧ reduce { reduction with kind := dual } input
        = .ok (combined dual axes reduction.keepAxes input) := by
  have extreme : reduction.kind ≠ .sum := by
    intro sum
    rw [sum] at known
    cases known
  have other : dual ≠ .sum := by
    rintro rfl
    cases ReduceKind.negatedDual_symm known
  have resolved' : combinedAxes { reduction with kind := dual } input.sizes = .ok axes :=
    (combinedAxes_congr other extreme reduction.axes reduction.keepAxes input.sizes).trans resolved
  refine ⟨occupied_of_combinedAxes extreme resolved, ?_, ?_⟩
  · rw [reduce_eq, sizes_negated, resolved]
    rfl
  · rw [reduce_eq, resolved']
    rfl

variable (integer : input.dtype.isInteger = true) (valid : input.Valid)

include integer valid

/-- The extremes of negated integers are the opposite extremes, negated, iff the least integer does not
stand among others in any lane.
-/
theorem combined_negated_iff (occupied : hasEmptyAxis axes input.sizes = false) (keepAxes : Bool)
    : combined reduction.kind axes keepAxes (negated input)
          = negated (combined dual axes keepAxes input)
      ↔ ∀ position < RowMajor.count (keptSizes axes 0 input.sizes), Unmixed axes input position := by
  constructor
  · intro same position inside
    refine (getElem?_combined_negated_iff known integer valid occupied keepAxes inside).mp ?_
    rw [same]
  · intro unmixed
    exact combined_negated known (Bool.or_eq_true_iff.mpr (.inl integer)) valid occupied
      fun _ => unmixed

/-- The same holds of the negated extremes of negated integers, and the opposite ones. -/
theorem negated_combined_negated_iff (occupied : hasEmptyAxis axes input.sizes = false)
    (keepAxes : Bool)
    : negated (combined reduction.kind axes keepAxes (negated input))
          = combined dual axes keepAxes input
      ↔ ∀ position < RowMajor.count (keptSizes axes 0 input.sizes), Unmixed axes input position := by
  rw [← combined_negated_iff known integer valid occupied keepAxes]
  constructor
  · intro same
    rw [← same, negated_negated_of_isInteger (by simpa using integer)]
  · intro same
    rw [same, negated_negated_of_isInteger (by simpa using integer)]

/-- Position by position, the extreme of negated integers is the opposite extreme, negated, and the
other way round, iff the least integer does not stand among others in the lane.
-/
theorem exists_reduced_negated (resolved : combinedAxes reduction input.sizes = .ok axes)
    : ∃ negative reduced turned straight back : Tensor,
        unary .neg input = .ok negative
        ∧ reduce reduction negative = .ok reduced
        ∧ unary .neg reduced = .ok turned
        ∧ reduce { reduction with kind := dual } input = .ok straight
        ∧ unary .neg straight = .ok back
        ∧ (∀ result ∈ [reduced, turned, straight, back],
            result.Valid
            ∧ result.dtype = input.dtype
            ∧ result.sizes = resultSizes axes reduction.keepAxes input.sizes)
        ∧ ∀ position < RowMajor.count straight.sizes,
            (reduced.elements.toInts[position]? = back.elements.toInts[position]?
              ↔ Unmixed axes input position)
            ∧ (turned.elements.toInts[position]? = straight.elements.toInts[position]?
              ↔ Unmixed axes input position) := by
  obtain ⟨occupied, reduced, straight⟩ := reduce_negated_eq_ok known resolved
  have dualKnown := ReduceKind.negatedDual_symm known
  refine ⟨_, _, _, _, _, unary_neg input, reduced, unary_neg _, straight, unary_neg _, ?_, ?_⟩
  · simp [valid_combined, valid_negated]
  · intro position inside
    rw [sizes_combined, count_resultSizes] at inside
    have first :=
      getElem?_combined_negated_iff known integer valid occupied reduction.keepAxes inside
    refine ⟨first, (getElem?_negated_eq_iff ?_ ?_ position).trans first⟩
    · simpa using integer
    · simp

end

end Reduce

end Dataflow
