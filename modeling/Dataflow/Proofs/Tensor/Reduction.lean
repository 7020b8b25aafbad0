import Dataflow.Proofs.Shape.Slices
import Dataflow.Proofs.Typing.Operands
import Dataflow.Tensor.Reduction
import Dataflow.Typing.Infer
import Mathlib.Data.List.Basic
import Mathlib.Data.List.Forall2

/-!
Reductions. Their results have the inferred types, lanes hold elements that exist, and the place of
a largest element lies in its lane.
-/

namespace Dataflow.Reduce

-----------------------------------------------------------------------------------------
-- Sizes
-----------------------------------------------------------------------------------------

/-- Reduced axes count once, whether they stay or not. By induction on the axes. -/
theorem count_keptSizes (axes : List Nat) (axis : Nat) (sizes : List Nat)
    : RowMajor.count (keptSizes axes axis sizes)
      = RowMajor.count (remainingSizes axes axis sizes) := by
  induction sizes generalizing axis with
  | nil => rfl
  | cons size sizes ih =>
      rw [keptSizes, RowMajor.count_cons, ih, remainingSizes]
      split_ifs
      · rw [Nat.one_mul]
      · rw [RowMajor.count_cons]

/-- A result has as many elements as the sizes with ones for reduced axes say. -/
theorem count_resultSizes (axes : List Nat) (keepAxes : Bool) (sizes : List Nat)
    : RowMajor.count (resultSizes axes keepAxes sizes)
      = RowMajor.count (keptSizes axes 0 sizes) := by
  rw [resultSizes]
  split_ifs
  · rfl
  · exact (count_keptSizes axes 0 sizes).symm

/-- The sizes of a result are allowed by the inferred extents. -/
theorem fits_resultSizes {dims : List Dimension} {sizes : List Nat} (axes : List Nat)
    (keepAxes : Bool) (fits : Fits dims sizes)
    : Fits (Typing.reducedDims axes keepAxes 0 dims) (resultSizes axes keepAxes sizes) := by
  have all
      : ∀ axis : Nat,
          Fits (Typing.reducedDims axes keepAxes axis dims)
            (if keepAxes then keptSizes axes axis sizes else remainingSizes axes axis sizes) := by
    induction fits with
    | nil =>
        intro axis
        cases keepAxes <;> exact .nil
    | cons allows _ ih =>
        intro axis
        have later := ih (axis + 1)
        cases keepAxes with
        | true =>
            rw [Typing.reducedDims, if_pos rfl, keptSizes]
            rw [if_pos rfl] at later
            cases axes.contains axis with
            | true => exact .cons rfl later
            | false => exact .cons allows later
        | false =>
            rw [if_neg Bool.false_ne_true] at later
            rw [Typing.reducedDims, if_neg Bool.false_ne_true, remainingSizes]
            cases axes.contains axis with
            | true => exact later
            | false => exact .cons allows later
  exact all 0

/-- Nothing goes away behind the reduced axes. -/
theorem remainingSizes_of_lt {axes : List Nat} {axis : Nat} (behind : ∀ other ∈ axes, other < axis)
    (sizes : List Nat)
    : remainingSizes axes axis sizes = sizes := by
  induction sizes generalizing axis with
  | nil => rfl
  | cons size sizes ih =>
      have fresh : axes.contains axis = false := by
        rw [Bool.eq_false_iff, ne_eq, List.contains_iff_mem]
        exact fun member => Nat.lt_irrefl _ (behind axis member)
      rw [remainingSizes, fresh, if_neg Bool.false_ne_true,
        ih fun other member => Nat.lt_succ_of_lt (behind other member)]

/-- A single reduced axis goes away, by induction on the axes. -/
theorem remainingSizes_single (start axis : Nat) (sizes : List Nat)
    : remainingSizes [start + axis] start sizes = sizes.eraseIdx axis := by
  induction sizes generalizing start axis with
  | nil => rfl
  | cons size sizes ih =>
      rw [remainingSizes]
      cases axis with
      | zero =>
          rw [if_pos (by simp), remainingSizes_of_lt (by simp)]
          rfl
      | succ axis =>
          have other : [start + (axis + 1)].contains start = false := by simp
          have later := ih (start + 1) axis
          rw [Nat.add_right_comm, Nat.add_assoc] at later
          rw [other, if_neg Bool.false_ne_true, later]
          rfl

/-- A reduction is safe, and its result has the inferred type. -/
theorem safe_reduce {reduction : Reduction} {input : Tensor} {type : TensorType} {axes : List Nat}
    (typed : input.HasType type)
    (resolved : Typing.reducedAxes reduction.axes type.rank = .ok axes)
    : Outcome.Safe
        (fun result =>
          result.HasType
            ⟨type.dtype, Typing.reducedShape type.shape axes reduction.keepAxes⟩)
        (reduce reduction input) := by
  rw [← typed.rank] at resolved
  have combined
      : Outcome.Safe (fun found => found = axes) (combinedAxes reduction input.sizes) := by
    rw [combinedAxes, resolved]
    dsimp only
    split_ifs
    · exact Outcome.safe_fail _ _
    · exact Outcome.safe_ok rfl
  refine combined.bind ?_
  rintro found rfl
  refine Outcome.safe_ok ⟨?_, ?_, fits_resultSizes found reduction.keepAxes typed.fits⟩
  · rw [Tensor.Valid, count_resultSizes]
    split_ifs <;> simp [combine]
  · rw [Tensor.dtype]
    split_ifs
    · rw [Elements.dtype_ofFloats]
      exact typed.dtype
    · rw [Elements.dtype_ofInts]
      exact typed.dtype

-----------------------------------------------------------------------------------------
-- Lanes
-----------------------------------------------------------------------------------------

/-- The positions of a tensor are those of the axes in front, of an axis, and behind it. -/
theorem count_split {sizes : List Nat} {axis : Nat} (inside : axis < sizes.length)
    : RowMajor.count sizes
      = RowMajor.count (sizes.take axis)
        * (sizes[axis] * RowMajor.count (sizes.drop (axis + 1))) := by
  rw [← RowMajor.count_cons, ← RowMajor.count_append, List.getElem_cons_drop,
    List.take_append_drop]

/-- A lane has the length of its axis. -/
theorem length_of_mem_lanes {sizes lane : List Nat} {axis : Nat} (member : lane ∈ lanes sizes axis)
    : lane.length = sizes.getD axis 0 := by
  obtain ⟨_, _, rfl⟩ := List.mem_map.mp member
  simp

/-- There is a lane for each position of the other axes. -/
theorem length_lanes (sizes : List Nat) (axis : Nat)
    : (lanes sizes axis).length = RowMajor.count (sizes.eraseIdx axis) := by
  rw [lanes, List.length_map, List.length_range, List.eraseIdx_eq_take_drop_succ,
    RowMajor.count_append]

/-- Lanes hold positions of the tensor. -/
theorem lt_of_mem_lanes {sizes lane : List Nat} {axis position : Nat}
    (inside : axis < sizes.length) (member : lane ∈ lanes sizes axis) (here : position ∈ lane)
    : position < RowMajor.count sizes := by
  obtain ⟨number, listed, rfl⟩ := List.mem_map.mp member
  obtain ⟨k, below, rfl⟩ := List.mem_map.mp here
  have known : sizes.getD axis 0 = sizes[axis] := by simp [inside]
  rw [List.mem_range] at listed below
  rw [known] at below ⊢
  rw [count_split inside]
  generalize RowMajor.count (sizes.take axis) = outer at listed ⊢
  generalize RowMajor.count (sizes.drop (axis + 1)) = inner at listed ⊢
  generalize sizes[axis] = extent at below ⊢
  have positive : 0 < inner := Nat.pos_of_lt_mul_left listed
  have first : number / inner < outer := Nat.div_lt_of_lt_mul (Nat.mul_comm outer inner ▸ listed)
  have last : number % inner < inner := Nat.mod_lt number positive
  calc number / inner * (extent * inner) + number % inner + k * inner
      < number / inner * (extent * inner) + (inner + k * inner) := by omega
    _ = number / inner * (extent * inner) + (k + 1) * inner := by
        rw [Nat.succ_mul, Nat.add_comm inner]
    _ ≤ number / inner * (extent * inner) + extent * inner :=
        Nat.add_le_add_left (Nat.mul_le_mul_right inner below) _
    _ = (number / inner + 1) * (extent * inner) := (Nat.succ_mul _ _).symm
    _ ≤ outer * (extent * inner) := Nat.mul_le_mul_right _ first

/-- The best place stays below the end, by induction on the items. -/
theorem firstBest_lt {α : Type} {beats : α → α → Bool} {best place : Nat} {item : α}
    {rest : List α} (before : best < place)
    : firstBest beats best item place rest < place + rest.length := by
  induction rest generalizing best place item with
  | nil => exact before
  | cons next rest ih =>
      rw [firstBest, List.length_cons]
      split_ifs
      · have later : firstBest beats place next (place + 1) rest < place + 1 + rest.length :=
          ih (Nat.lt_succ_self place)
        omega
      · have later : firstBest beats best item (place + 1) rest < place + 1 + rest.length :=
          ih (Nat.lt_succ_of_lt before)
        omega

/-- The place of the best item lies in its lane. -/
theorem bestPlace_lt {α : Type} {beats : α → α → Bool} {items : List α} (some : 0 < items.length)
    : bestPlace beats items < items.length := by
  cases items with
  | nil => exact absurd some (Nat.lt_irrefl 0)
  | cons item rest =>
      rw [bestPlace, List.length_cons, Nat.add_comm]
      exact firstBest_lt Nat.one_pos

/-- The places of the best items of lanes that exist lie in the lanes. -/
theorem safe_bestPlaces {α : Type} {beats : α → α → Bool} {items : List α}
    {lanes : List (List Nat)}
    (inside : ∀ lane ∈ lanes, ∀ position ∈ lane, position < items.length)
    (some : ∀ lane ∈ lanes, 0 < lane.length)
    : Outcome.Safe (List.Forall₂ (fun lane place => place < lane.length) lanes)
        (bestPlaces beats items lanes) := by
  refine Outcome.Safe.mapM ?_
  intro lane member
  obtain ⟨selected, done, length⟩ := Elements.exists_select? (inside lane member)
  rw [done]
  refine Outcome.safe_ok ?_
  rw [← length]
  exact bestPlace_lt (length ▸ some lane member)

/-- The places of the largest elements along an axis lie in its lanes. -/
theorem safe_largest {input : Tensor} {axis : Nat} (valid : input.Valid)
    (inside : axis < input.sizes.length)
    : Outcome.Safe
        (List.Forall₂ (fun lane place => place < lane.length) (lanes input.sizes axis))
        (largest input axis) := by
  rw [largest]
  have valid : input.elements.size = RowMajor.count input.sizes := valid
  have below
      : ∀ lane ∈ lanes input.sizes axis, ∀ position ∈ lane, position < input.elements.size := by
    intro lane member position here
    rw [valid]
    exact lt_of_mem_lanes inside member here
  split_ifs with empty
  · exact Outcome.safe_fail _ _
  all_goals
    have some : ∀ lane ∈ lanes input.sizes axis, 0 < lane.length := by
      intro lane member
      have known : input.sizes[axis]? = some input.sizes[axis] := List.getElem?_eq_getElem inside
      rw [length_of_mem_lanes member, List.getD_eq_getElem?_getD, known, Option.getD_some]
      exact Nat.pos_of_ne_zero fun zero => empty (known.trans (congrArg Option.some zero))
  · exact safe_bestPlaces (by simpa using below) some
  · exact safe_bestPlaces (by simpa using below) some

/-- A resolved axis is the inferred one. -/
theorem safe_resolveAxis {axis : Int} {rank resolved : Nat}
    (known : Typing.singleAxis axis rank = .ok resolved)
    : Outcome.Safe (fun found => found = resolved ∧ resolved < rank) (resolveAxis axis rank) := by
  rw [Typing.singleAxis] at known
  rw [resolveAxis]
  cases found : Slice.position? axis rank with
  | none => simp [found] at known
  | some position =>
      rw [found] at known
      obtain rfl := Except.ok.inj known
      refine Outcome.safe_ok ⟨rfl, ?_⟩
      exact Slice.lt_of_position? found

-----------------------------------------------------------------------------------------
-- Largest elements
-----------------------------------------------------------------------------------------

/-- Without one axis, there is an element for each of its lanes. -/
theorem count_resultSizes_single (axis : Nat) (keepAxes : Bool) (sizes : List Nat)
    : RowMajor.count (resultSizes [axis] keepAxes sizes) = (lanes sizes axis).length := by
  have single : remainingSizes [axis] 0 sizes = sizes.eraseIdx axis := by
    have shifted := remainingSizes_single 0 axis sizes
    rwa [Nat.zero_add] at shifted
  rw [count_resultSizes, count_keptSizes, single, length_lanes]

/-- A tensor of places, one for each lane, has the inferred type. -/
theorem hasType_indexTensor {input : Tensor} {type : TensorType} {axis : Nat} {places : List Nat}
    (keepAxes : Bool) (typed : input.HasType type)
    (length : places.length = (lanes input.sizes axis).length)
    : (indexTensor (resultSizes [axis] keepAxes input.sizes) places).HasType
        ⟨.si64, Typing.reducedShape type.shape [axis] keepAxes⟩ := by
  refine ⟨?_, rfl, fits_resultSizes [axis] keepAxes typed.fits⟩
  rw [Tensor.Valid, indexTensor, count_resultSizes_single]
  simpa [Elements.size] using length

/-- The places of the largest elements are safe, and have the inferred type. -/
theorem safe_argMax {axis : Int} {keepAxes : Bool} {input : Tensor} {type : TensorType}
    {resolved : Nat} (typed : input.HasType type)
    (known : Typing.singleAxis axis type.rank = .ok resolved)
    : Outcome.Safe
        (fun result =>
          result.HasType ⟨.si64, Typing.reducedShape type.shape [resolved] keepAxes⟩)
        (argMax axis keepAxes input) := by
  rw [← typed.rank] at known
  refine (safe_resolveAxis known).bind ?_
  rintro found ⟨rfl, inside⟩
  refine (safe_largest typed.valid inside).bind ?_
  intro places each
  exact Outcome.safe_ok (hasType_indexTensor keepAxes typed each.length_eq.symm)

/-- The places in lanes are positions of the tensor. -/
theorem safe_bestPositions {sizes places : List Nat} {axis : Nat} (inside : axis < sizes.length)
    (each : List.Forall₂ (fun lane place => place < lane.length) (lanes sizes axis) places)
    : Outcome.Safe
        (fun positions =>
          (∀ position ∈ positions, position < RowMajor.count sizes)
          ∧ positions.length = (lanes sizes axis).length)
        (Outcome.require .missingElement
          (((lanes sizes axis).zip places).mapM fun (lane, place) => lane[place]?)) := by
  have listed
      : ∀ {lanes : List (List Nat)} {places : List Nat},
          List.Forall₂ (fun lane place => place < lane.length) lanes places
          → ∃ positions,
              (lanes.zip places).mapM (fun (lane, place) => lane[place]?) = some positions
              ∧ List.Forall₂ (· ∈ ·) positions lanes := by
    intro lanes places each
    induction each with
    | nil => exact ⟨[], rfl, .nil⟩
    | cons here _ ih =>
        rename_i lane place lanes places _
        obtain ⟨positions, done, members⟩ := ih
        refine ⟨lane[place] :: positions, ?_, .cons (List.getElem_mem here) members⟩
        have first : lane[place]? = some lane[place] := List.getElem?_eq_getElem here
        rw [List.zip_cons_cons, List.mapM_cons, done]
        dsimp only
        rw [first]
        rfl
  obtain ⟨positions, done, members⟩ := listed each
  refine Outcome.safe_require done ⟨?_, members.length_eq⟩
  intro position member
  obtain ⟨place, bound, rfl⟩ := List.mem_iff_getElem.mp member
  have boundLane : place < (lanes sizes axis).length := members.length_eq ▸ bound
  exact lt_of_mem_lanes inside (List.getElem_mem boundLane) (members.get bound boundLane)

/-- The largest elements and their places are safe, and have the inferred types. -/
theorem safe_maxAndArgMax {axis : Int} {input : Tensor} {type : TensorType} {resolved : Nat}
    (typed : input.HasType type) (known : Typing.singleAxis axis type.rank = .ok resolved)
    : Outcome.Safe
        (fun result =>
          result.1.HasType ⟨type.dtype, Typing.reducedShape type.shape [resolved] false⟩
          ∧ result.2.HasType ⟨.si64, Typing.reducedShape type.shape [resolved] false⟩)
        (maxAndArgMax axis input) := by
  rw [← typed.rank] at known
  refine (safe_resolveAxis known).bind ?_
  rintro found ⟨rfl, inside⟩
  refine (safe_largest typed.valid inside).bind ?_
  intro places each
  refine (safe_bestPositions inside each).bind ?_
  rintro positions ⟨below, length⟩
  rw [← typed.valid] at below
  refine (Tensor.safe_gather below ?_).bind ?_
  · rw [length, count_resultSizes_single]
  · rintro values ⟨valid, sizes, dtype⟩
    refine Outcome.safe_ok ⟨⟨valid, typed.dtype.trans dtype.symm, ?_⟩, ?_⟩
    · rw [sizes]
      exact fits_resultSizes [found] false typed.fits
    · exact hasType_indexTensor false typed each.length_eq.symm

end Dataflow.Reduce
