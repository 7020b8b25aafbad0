import Dataflow.Proofs.Tensor.Acceptance
import Dataflow.Proofs.Tensor.IntegerReductions
import Dataflow.Proofs.Typing.Monotonicity

/-!
First places of largest integers. The search along an axis walks from lane to lane and keeps the
place of an integer until a larger one comes; the reduction scatters the same integers over the
result. Both see the integers at the points that differ on the axis only, so the largest ones are
those of the reduction, and their places are the first ones where they stand.
-/

namespace Dataflow

-----------------------------------------------------------------------------------------
-- Searches
-----------------------------------------------------------------------------------------

namespace Reduce

/-- An integer is the largest of a list from its place on: none is larger, and those in front of the
place are smaller.
-/
def Tops (items : List Int64) (last place : Nat) (value : Int64) : Prop :=
  ∀ (other : Nat) (integer : Int64), other < last → items[other]? = some integer →
    integer.toInt ≤ value.toInt ∧ (other < place → integer.toInt < value.toInt)

/-- The search through the rest of a list ends at the first place of the largest integer, if it has
come to the first place of the largest one so far. By induction on the rest.
-/
theorem tops_firstBest {whole rest : List Int64} {best place : Nat} {item : Int64}
    (left : whole.drop place = rest) (before : best < place) (found : whole[best]? = some item)
    (tops : Tops whole place best item)
    : ∃ value,
        whole[firstBest beatsInt best item place rest]? = some value
        ∧ Tops whole whole.length (firstBest beatsInt best item place rest) value := by
  induction rest generalizing best place item with
  | nil =>
      have all : whole.length ≤ place := List.drop_eq_nil_iff.mp left
      exact ⟨item, found, fun other integer inside => tops other integer (inside.trans_le all)⟩
  | cons next rest ih =>
      have here : whole[place]? = some next := by
        have head := congrArg (·[0]?) left
        simpa using head
      have later : whole.drop (place + 1) = rest := by
        rw [← List.drop_drop, left]
        rfl
      rw [firstBest]
      split_ifs with beats
      · have above : item.toInt < next.toInt :=
          Int64.lt_iff_toInt_lt.mp (of_decide_eq_true beats)
        refine ih later (Nat.lt_succ_self place) here fun other integer inside there => ?_
        obtain earlier | rfl := Nat.lt_succ_iff_lt_or_eq.mp inside
        · have below := (tops other integer earlier there).1
          exact ⟨by omega, fun _ => by omega⟩
        · obtain rfl := Option.some.inj (here.symm.trans there)
          exact ⟨Int.le_refl _, fun less => absurd less (Nat.lt_irrefl _)⟩
      · have below : next.toInt ≤ item.toInt :=
          Int.not_lt.mp fun above => beats (decide_eq_true (Int64.lt_iff_toInt_lt.mpr above))
        refine ih later (before.trans (Nat.lt_succ_self place)) found
          fun other integer inside there => ?_
        obtain earlier | rfl := Nat.lt_succ_iff_lt_or_eq.mp inside
        · exact tops other integer earlier there
        · obtain rfl := Option.some.inj (here.symm.trans there)
          exact ⟨below, fun less => absurd (less.trans before) (Nat.lt_irrefl _)⟩

/-- The best place of some integers is the first one of the largest. -/
theorem tops_bestPlace {items : List Int64} (filled : items ≠ [])
    : ∃ value,
        items[bestPlace beatsInt items]? = some value
        ∧ Tops items items.length (bestPlace beatsInt items) value := by
  obtain ⟨item, rest, rfl⟩ := List.exists_cons_of_ne_nil filled
  refine tops_firstBest rfl Nat.one_pos rfl fun other integer inside there => ?_
  obtain rfl := Nat.lt_one_iff.mp inside
  obtain rfl := Option.some.inj there
  exact ⟨Int.le_refl _, fun less => absurd less (Nat.lt_irrefl _)⟩

end Reduce

-----------------------------------------------------------------------------------------
-- Points along an axis
-----------------------------------------------------------------------------------------

/-- The points of the lane of some coordinates: those that have every coordinate on the axis, and
the given ones elsewhere. An axis that was kept has a coordinate already.
-/
def alongAxis (keepAxes : Bool) (axis : Nat) (coords : List Nat) (place : Nat) : List Nat :=
  if keepAxes then coords.set axis place else coords.insertIdx axis place

namespace Reduce

/-- The sizes of a result without one axis, or with one element on it. -/
def withoutAxis (keepAxes : Bool) (axis unit : Nat) (items : List Nat) : List Nat :=
  if keepAxes then items.set axis unit else items.eraseIdx axis

theorem keptSizes_single (start axis : Nat) (sizes : List Nat)
    : keptSizes [start + axis] start sizes = sizes.set axis 1 := by
  induction sizes generalizing start axis with
  | nil => rfl
  | cons size sizes ih =>
      cases axis with
      | zero => simp [keptSizes, keptSizes_of_lt]
      | succ axis =>
          have later := ih (start + 1) axis
          rw [Nat.add_right_comm, Nat.add_assoc] at later
          simp [keptSizes, later]

theorem resultSizes_single (keepAxes : Bool) (axis : Nat) (sizes : List Nat)
    : resultSizes [axis] keepAxes sizes = withoutAxis keepAxes axis 1 sizes := by
  have kept := keptSizes_single 0 axis sizes
  have remaining := remainingSizes_single 0 axis sizes
  rw [Nat.zero_add] at kept remaining
  rw [resultSizes, withoutAxis, kept, remaining]

theorem projected_of_lt {axes : List Nat} {keepAxes : Bool} {axis : Nat}
    (behind : ∀ other ∈ axes, other < axis) (coords : List Nat)
    : projected (axes.contains ·) keepAxes axis coords = coords := by
  induction coords generalizing axis with
  | nil => rfl
  | cons coord coords ih =>
      have other : axes.contains axis = false := by
        simpa using fun member => Nat.lt_irrefl axis (behind axis member)
      rw [projected, other, Bool.not_false, if_pos rfl,
        ih fun other member => Nat.lt_succ_of_lt (behind other member)]

theorem projected_single (keepAxes : Bool) (start axis : Nat) (coords : List Nat)
    : projected ([start + axis].contains ·) keepAxes start coords
      = withoutAxis keepAxes axis 0 coords := by
  induction coords generalizing start axis with
  | nil => cases keepAxes <;> rfl
  | cons coord coords ih =>
      cases axis with
      | zero =>
          have rest := @projected_of_lt [start] keepAxes (start + 1) (by simp) coords
          simp only [Nat.add_zero, projected, rest]
          cases keepAxes <;> simp [withoutAxis]
      | succ axis =>
          have later := ih (start + 1) axis
          rw [Nat.add_right_comm, Nat.add_assoc] at later
          have other : [start + (axis + 1)].contains start = false := by simp
          rw [projected, later, other]
          cases keepAxes <;> simp [withoutAxis]

/-- The points of a lane lie inside, have the place as their coordinate and the coordinates of the
lane elsewhere. By induction on the axes in front.
-/
theorem alongAxis_spec {keepAxes : Bool} {axis place : Nat} {sizes coords : List Nat}
    (known : axis < sizes.length) (below : place < sizes[axis])
    (inside : RowMajor.Inside coords (withoutAxis keepAxes axis 1 sizes))
    : RowMajor.Inside (alongAxis keepAxes axis coords place) sizes
      ∧ (alongAxis keepAxes axis coords place)[axis]? = some place
      ∧ withoutAxis keepAxes axis 0 (alongAxis keepAxes axis coords place) = coords := by
  induction axis generalizing sizes coords with
  | zero =>
      obtain ⟨size, sizes, rfl⟩ := List.exists_cons_of_length_pos known
      cases keepAxes with
      | false => exact ⟨.cons below inside, rfl, rfl⟩
      | true =>
          obtain _ | ⟨here, later⟩ := inside
          obtain rfl := Nat.lt_one_iff.mp here
          exact ⟨.cons below later, rfl, rfl⟩
  | succ axis ih =>
      obtain ⟨size, sizes, rfl⟩ := List.exists_cons_of_length_pos (Nat.zero_lt_of_lt known)
      have known : axis < sizes.length := Nat.lt_of_succ_lt_succ known
      cases keepAxes with
      | false =>
          obtain _ | ⟨here, later⟩ := inside
          obtain ⟨point, coordinate, same⟩ := @ih sizes _ known below later
          exact ⟨.cons here point, coordinate, congrArg (List.cons _) same⟩
      | true =>
          obtain _ | ⟨here, later⟩ := inside
          obtain ⟨point, coordinate, same⟩ := @ih sizes _ known below later
          exact ⟨.cons here point, coordinate, congrArg (List.cons _) same⟩

end Reduce

/-- The coordinate on an axis is part of the position. By induction on the axes in front. -/
theorem RowMajor.coordinate_of_position {sizes coords : List Nat} {axis coord : Nat}
    (known : axis < sizes.length) (inside : Inside coords sizes)
    (found : coords[axis]? = some coord)
    : position coords (steps sizes) % (sizes[axis] * count (sizes.drop (axis + 1)))
          / count (sizes.drop (axis + 1))
        = coord := by
  induction inside generalizing axis with
  | nil => exact absurd known (Nat.not_lt_zero axis)
  | @cons first size coords sizes here later ih =>
      have below := position_lt_count later
      have whole := position_lt_count (List.Forall₂.cons here later)
      rw [steps, position_cons, count_cons] at whole
      rw [steps, position_cons]
      cases axis with
      | zero =>
          obtain rfl : first = coord := Option.some.inj found
          have positive : 0 < count sizes := Nat.zero_lt_of_lt below
          rw [List.getElem_cons_zero, Nat.zero_add, List.drop_succ_cons, List.drop_zero,
            Nat.mod_eq_of_lt whole, Nat.add_comm, Nat.add_mul_div_right _ _ positive,
            Nat.div_eq_of_lt below, Nat.zero_add]
      | succ axis =>
          have inside : axis < sizes.length := Nat.lt_of_succ_lt_succ known
          have split := Reduce.count_split inside
          rw [List.getElem_cons_succ, List.drop_succ_cons, split, ← Nat.mul_assoc, Nat.add_comm,
            Nat.add_mul_mod_self_right]
          exact ih inside found

namespace Reduce

section

variable {keepAxes : Bool} {axis : Nat} {sizes coords : List Nat} (known : axis < sizes.length)
  (inside : RowMajor.Inside coords (resultSizes [axis] keepAxes sizes))

include known inside

/-- Points of a lane have the positions of the lane with the number of its coordinates. -/
theorem position_alongAxis {place : Nat} (below : place < sizes[axis])
    : let number := RowMajor.position coords (RowMajor.steps (resultSizes [axis] keepAxes sizes))
      let inner := RowMajor.count (sizes.drop (axis + 1))
      RowMajor.position (alongAxis keepAxes axis coords place) (RowMajor.steps sizes)
        = number / inner * (sizes[axis] * inner) + number % inner + place * inner := by
  intro number inner
  obtain ⟨point, coordinate, same⟩ :=
    alongAxis_spec known below (resultSizes_single keepAxes axis sizes ▸ inside)
  have projects := projected_single keepAxes 0 axis (alongAxis keepAxes axis coords place)
  have scattered := position_collapse_single 0 point known
  have placed := @position_projected [axis] keepAxes _ _ 0 point
  rw [Nat.zero_add] at projects scattered
  rw [projects, same, scattered] at placed
  have positive : 0 < inner := Nat.pos_of_lt_mul_left <| by
    have below := RowMajor.position_lt_count point
    rwa [count_split known, ← Nat.mul_assoc] at below
  have parts := @place_of_target sizes[axis] inner
    (RowMajor.position (alongAxis keepAxes axis coords place) (RowMajor.steps sizes)) positive
  rw [← placed, RowMajor.coordinate_of_position known point coordinate] at parts
  exact parts.symm

/-- The lane of some coordinates lists the positions of its points. -/
theorem exists_lane
    : ∃ lane,
        (lanes sizes axis)[RowMajor.position coords
            (RowMajor.steps (resultSizes [axis] keepAxes sizes))]? = some lane
        ∧ lane.length = sizes[axis]
        ∧ ∀ place < sizes[axis],
            lane[place]?
            = some
                (RowMajor.position (alongAxis keepAxes axis coords place)
                  (RowMajor.steps sizes)) := by
  have number := RowMajor.position_lt_count inside
  rw [count_resultSizes_single] at number
  refine ⟨_, List.getElem?_eq_getElem number, ?_, fun place below => ?_⟩
  · simp [length_of_mem_lanes (List.getElem_mem number), known]
  · rw [position_alongAxis known inside below]
    simp [lanes, known, below]

end

end Reduce

-----------------------------------------------------------------------------------------
-- Largest integers
-----------------------------------------------------------------------------------------

/-- The first place of a lane where it holds its largest integer. -/
structure Tensor.FirstLargest (input : Tensor) (lane : Nat → List Nat) (extent place : Nat)
    : Prop where
  inside : place < extent
  largest
    : ∃ value,
        input.int? (lane place) = some value
        ∧ ∀ other < extent,
            ∃ integer,
              input.int? (lane other) = some integer
              ∧ integer ≤ value
              ∧ (other < place → integer < value)

/-- A valid tensor has its own type. -/
theorem Tensor.Valid.hasType {tensor : Tensor} (valid : tensor.Valid)
    : tensor.HasType tensor.type :=
  hasType_iff.mpr ⟨valid, TensorType.accepts_self _⟩

namespace Reduce

/-- A search finds the first place of the largest integer of each lane. -/
theorem firstLargest_of_largest {keepAxes : Bool} {axis : Nat} {input : Tensor}
    {coords places : List Nat} (exact : input.dtype.isFloat = false)
    (known : axis < input.sizes.length)
    (inside : RowMajor.Inside coords (resultSizes [axis] keepAxes input.sizes))
    (done : largest input axis = .ok places)
    : ∃ place,
        places[RowMajor.position coords
            (RowMajor.steps (resultSizes [axis] keepAxes input.sizes))]? = some place
        ∧ input.FirstLargest (alongAxis keepAxes axis coords) input.sizes[axis] place := by
  rw [largest] at done
  split_ifs at done with empty float
  · cases done
  · cases float.symm.trans exact
  obtain ⟨lane, numbered, length, listed⟩ := exists_lane known inside
  have each := congrArg (·[RowMajor.position coords
    (RowMajor.steps (resultSizes [axis] keepAxes input.sizes))]?) (Steps.mapM_eq_ok_iff.mp done)
  simp only [List.getElem?_map, numbered, Option.map_some] at each
  obtain ⟨place, found, searched⟩ := Option.map_eq_some_iff.mp each.symm
  obtain ⟨items, selected, best⟩ := Steps.bind_eq_ok_iff.mp searched.symm
  obtain rfl : bestPlace beatsInt items = place := Except.ok.inj best
  have selected := Outcome.require_eq_ok_iff.mp selected
  have extent : items.length = input.sizes[axis] :=
    (Elements.length_of_select? selected).trans length
  have read {other : Nat} (below : other < input.sizes[axis])
      : input.int? (alongAxis keepAxes axis coords other) = items[other]?.map Int64.toInt := by
    rw [Elements.getElem?_select? selected (listed other below)]
    rfl
  have filled : items ≠ [] := by
    rintro rfl
    exact empty ((List.getElem?_eq_getElem known).trans (congrArg some extent.symm))
  obtain ⟨value, top, tops⟩ := tops_bestPlace filled
  have below : bestPlace beatsInt items < input.sizes[axis] :=
    extent ▸ (List.getElem?_eq_some_iff.mp top).1
  refine ⟨_, found, below, value.toInt, by rw [read below, top]; rfl, fun other within => ?_⟩
  have there : items[other]? = some items[other] := List.getElem?_eq_getElem (extent ▸ within)
  refine ⟨items[other].toInt, by rw [read within, there]; rfl, ?_⟩
  exact tops other _ (extent ▸ within) there

-----------------------------------------------------------------------------------------
-- The kernels
-----------------------------------------------------------------------------------------

section

variable {axis : Int} {input : Tensor} {found : Nat}
  (known : Slice.position? axis input.rank = some found)

include known

theorem singleAxis_eq_of_position? : Typing.singleAxis axis input.rank = .ok found := by
  rw [Typing.singleAxis, known]

theorem singleAxis_type : Typing.singleAxis axis input.type.rank = .ok found := by
  rw [show input.type.rank = input.rank from List.length_map _]
  exact singleAxis_eq_of_position? known

/-- Nothing has a largest element along an axis without elements. -/
theorem fail_of_empty (empty : input.sizes[found]? = some 0)
    : (∀ keepAxes, argMax axis keepAxes input = .fail .emptyArgMax)
      ∧ maxAndArgMax axis input = .fail .emptyArgMax
      ∧ reduce ⟨.max, [axis], false⟩ input = .fail .emptyReduction := by
  have single := singleAxis_eq_of_position? known
  have searched : largest input found = .fail .emptyArgMax := if_pos empty
  refine ⟨fun keepAxes => ?_, ?_, ?_⟩
  · rw [argMax, resolveAxis_eq single, Steps.ok_bind, searched]
    rfl
  · rw [maxAndArgMax, resolveAxis_eq single, Steps.ok_bind, searched]
    rfl
  · rw [reduce, combinedAxes_eq single, if_pos empty]
    rfl

variable (filled : input.sizes[found]? ≠ some 0)

include filled

/-- Searches ask for as many words as there are lanes. -/
theorem isEnough_search (keepAxes : Bool)
    : Memory.isEnough (.argMax axis keepAxes) [.tensor input]
        = Memory.holds (RowMajor.count (keptSizes [found] 0 input.sizes))
      ∧ Memory.isEnough (.maxAndArgMax axis) [.tensor input]
        = Memory.holds (RowMajor.count (keptSizes [found] 0 input.sizes)) := by
  have single := singleAxis_eq_of_position? known
  constructor <;>
    · rw [Memory.isEnough, Memory.pieces, Inputs.tensor_cons_zero, Steps.ok_bind,
        resolveAxis_eq single, Steps.ok_bind, if_neg filled]
      simp

variable (integer : input.dtype.isInteger = true) (valid : input.Valid)

include integer valid

/-- The places that a search finds, as a tensor with the axis or without it. -/
theorem exists_firstPlaces (keepAxes : Bool)
    : ∃ result : Tensor,
        argMax axis keepAxes input = .ok result
        ∧ Memory.Delivers (.argMax axis keepAxes) [.tensor input] [RowMajor.count result.sizes]
            (.tensor result)
        ∧ result.Valid
        ∧ result.sizes = withoutAxis keepAxes found 1 input.sizes
        ∧ ∀ coords, RowMajor.Inside coords result.sizes →
            ∃ place,
              input.FirstLargest (alongAxis keepAxes found coords) (input.sizes.getD found 0) place
              ∧ result.int? coords = some ((place : Int).bmod (2 ^ 64)) := by
  have single := singleAxis_eq_of_position? known
  have below : found < input.sizes.length := Slice.lt_of_position? known
  obtain ⟨result, done⟩ := exists_argMax valid.hasType (singleAxis_type known) filled keepAxes
  have executed := done
  rw [argMax, resolveAxis_eq single, Steps.ok_bind] at done
  obtain ⟨places, searched, same⟩ := Steps.bind_eq_ok_iff.mp done
  obtain rfl := Except.ok.inj same
  refine ⟨_, executed, Memory.delivers_of_isEnough
    (Kernel.onFirst_eq_ok_iff.mpr ⟨input, _, rfl, executed, rfl⟩) ?_,
    (plain_argMax axis keepAxes input).holds executed,
    resultSizes_single keepAxes found input.sizes, fun coords inside => ?_⟩
  · rw [(isEnough_search known filled keepAxes).1, indexTensor, count_resultSizes]
    simp
  · obtain ⟨place, listed, largest⟩ :=
      firstLargest_of_largest (DType.isFloat_of_isInteger integer) below inside searched
    have extent : input.sizes.getD found 0 = input.sizes[found] := by simp [below]
    refine ⟨place, extent ▸ largest, ?_⟩
    change ((places.map Int64.ofNat)[RowMajor.position coords
      (RowMajor.steps (resultSizes [found] keepAxes input.sizes))]?).map Int64.toInt = _
    rw [List.getElem?_map, listed, Option.map_some, Option.map_some]
    exact congrArg some Int64.toInt_ofNat'

/-- The pair of both is what the reduction and the search without the axis make. -/
theorem exists_pair
    : ∃ values places : Tensor,
        reduce ⟨.max, [axis], false⟩ input = .ok values
        ∧ argMax axis false input = .ok places
        ∧ maxAndArgMax axis input = .ok (values, places)
        ∧ Memory.Delivers (.reduce ⟨.max, [axis], false⟩) [.tensor input]
            [RowMajor.count values.sizes] (.tensor values)
        ∧ Memory.Delivers (.maxAndArgMax axis) [.tensor input] [RowMajor.count values.sizes]
            (.tuple [.tensor values, .tensor places])
        ∧ RowMajor.count values.sizes ≤ input.elements.size := by
  have single := singleAxis_eq_of_position? known
  have below : found < input.sizes.length := Slice.lt_of_position? known
  have numeric : input.dtype.isNumeric = true := by rw [DType.isNumeric, integer, Bool.true_or]
  obtain ⟨⟨values, places⟩, both⟩ :=
    exists_maxAndArgMax valid.hasType (singleAxis_type known) filled
  have reduced := reduce_of_maxAndArgMax single integer valid both
  obtain ⟨_, -, -, -, searched⟩ := maxAndArgMax_eq_ok numeric valid both
  have sizes : values.sizes = resultSizes [found] false input.sizes := by
    rw [reduce_eq, combinedAxes_eq single, if_neg filled] at reduced
    rw [← Except.ok.inj reduced]
    exact sizes_combined ..
  have enough : Memory.isEnough (.maxAndArgMax axis) [.tensor input]
      = [RowMajor.count values.sizes].all Memory.holds := by
    rw [(isEnough_search known filled false).2, sizes, count_resultSizes]
    simp
  refine ⟨values, places, reduced, searched, both,
    Memory.delivers_of_isEnough (Kernel.onFirst_eq_ok_iff.mpr ⟨input, values, rfl, reduced, rfl⟩)
      ((isEnough_reduce_eq single).trans enough),
    Memory.delivers_of_isEnough ?_ enough, ?_⟩
  · change Kernel.maxAndArgMax axis _ = _
    rw [Kernel.maxAndArgMax, Inputs.tensor_cons_zero, Steps.ok_bind, both]
    rfl
  · have extent : 0 < input.sizes[found] :=
      Nat.pos_of_ne_zero fun zero => filled ((List.getElem?_eq_getElem below).trans (by rw [zero]))
    have lanes := count_keptSizes_single 0 found input.sizes
    rw [Nat.zero_add] at lanes
    rw [sizes, count_resultSizes, lanes,
      show input.elements.size = RowMajor.count input.sizes from valid, count_split below]
    exact Nat.mul_le_mul_left _ (Nat.le_mul_of_pos_left _ extent)

end

/-- A matrix whose rows hold their largest integers twice. -/
def twoPeaks : Tensor := ⟨[2, 3], .si64 [1, 4, 4, 9, 0, 9]⟩

end Reduce

end Dataflow
