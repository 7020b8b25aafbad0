import Dataflow.Proofs.Tensor.Negation
import Mathlib.Data.List.Induction

/-!
Largest elements and their places. The positions that a reduction of one axis combines are those of a
lane along the axis, in their order; and the element at the best place of a lane is what the
reduction of the lane keeps.
-/

namespace Dataflow

namespace Reduce

-----------------------------------------------------------------------------------------
-- Best places
-----------------------------------------------------------------------------------------

variable {α : Type}

/-- The item at the best place is the one that is kept by steps that keep the better of two items.
By induction on the items that are left.
-/
theorem getElem?_firstBest {step : α → α → α} {beats : α → α → Bool}
    (keeps : ∀ x y, step x y = if beats y x then y else x) {whole rest : List α} {best place : Nat}
    {item : α} (left : whole.drop place = rest) (found : whole[best]? = some item)
    : whole[firstBest beats best item place rest]? = some (rest.foldl step item) := by
  induction rest generalizing best place item with
  | nil => exact found
  | cons next rest ih =>
      have here : whole[place]? = some next := by
        rw [← Nat.add_zero place, ← List.getElem?_drop, left]
        rfl
      have behind : whole.drop (place + 1) = rest := by
        rw [← List.drop_drop, left]
        rfl
      rw [firstBest, List.foldl_cons, keeps]
      split_ifs
      · exact ih behind here
      · exact ih behind found

/-- The item at the best place of a lane is what the steps make of the lane. -/
theorem getElem?_bestPlace {step : α → α → α} {beats : α → α → Bool} {unit : α}
    (keeps : ∀ x y, step x y = if beats y x then y else x) (begins : ∀ x, step unit x = x)
    {items : List α} (some : items ≠ [])
    : items[bestPlace beats items]? = Option.some (items.foldl step unit) := by
  cases items with
  | nil => exact absurd rfl some
  | cons item rest =>
      rw [bestPlace, List.foldl_cons, begins]
      exact getElem?_firstBest keeps rfl rfl

theorem intStep_max (x y : Int64) : intStep .max x y = if beatsInt y x then y else x := by
  simp [intStep, beatsInt]

theorem intStep_intUnit_max (x : Int64) : intStep .max (intUnit .max) x = x := by
  obtain ⟨same, within⟩ | ⟨same, -⟩ := @ReduceKind.intStep_cases .max _ rfl (intUnit .max) x
  · rw [same]
    exact Int64.toInt_inj.mp (Int.le_antisymm x.le_toInt within)
  · exact same

theorem floatStep_max (x y : Float) : floatStep .max x y = if beatsFloat y x then y else x := by
  rw [floatStep, Binary.maximum, beatsFloat]
  cases none : x.isNaN with
  | true => simp [Binary.eq_notANumber none]
  | false =>
      cases other : y.isNaN with
      | true => simp [Binary.eq_notANumber other]
      | false => simp

theorem floatStep_floatUnit_max (x : Float) : floatStep .max (floatUnit .max) x = x := by
  rw [floatStep_max]
  split_ifs with beaten
  · rfl
  · have finite : (floatUnit .max).isNaN = false := by
      rw [floatUnit, Binary.isNaN_neg]
      exact Binary.isNaN_infinity
    simp only [beatsFloat, finite, Bool.not_false, Bool.true_and, Bool.or_eq_true,
      decide_eq_true_eq, not_or, Bool.not_eq_true] at beaten
    exact (Binary.eq_neg_infinity beaten.1 beaten.2).symm

-----------------------------------------------------------------------------------------
-- Lanes
-----------------------------------------------------------------------------------------

/-- The items of a group are those at the positions with its target. By induction on the items from
the last one.
-/
theorem group_map_range (target : Nat → Nat) (items : List α) (position : Nat)
    : group ((List.range items.length).map target) items position
      = ((List.range items.length).filter (target · = position)).filterMap (items[·]?) := by
  induction items using List.reverseRecOn with
  | nil => rfl
  | append_singleton items item ih =>
      have before : ((List.range items.length).filter (target · = position)).filterMap
            ((items ++ [item])[·]?)
          = ((List.range items.length).filter (target · = position)).filterMap (items[·]?) := by
        apply List.filterMap_congr
        intro place member
        exact List.getElem?_append_left (List.mem_range.mp (List.mem_filter.mp member).1)
      have lengths : items.length = ((List.range items.length).map target).length := by simp
      rw [List.length_append, List.length_singleton, List.range_succ, List.map_append, group,
        List.zip_append lengths, List.filter_append, List.map_append, List.filter_append,
        List.filterMap_append, before, ← ih, group]
      congr 1
      by_cases here : target items.length = position <;> simp [here]

theorem keptSizes_of_lt {axes : List Nat} {axis : Nat} (behind : ∀ other ∈ axes, other < axis)
    (sizes : List Nat)
    : keptSizes axes axis sizes = sizes := by
  induction sizes generalizing axis with
  | nil => rfl
  | cons size sizes ih =>
      have other : axes.contains axis = false := by
        simpa using fun member => Nat.lt_irrefl axis (behind axis member)
      rw [keptSizes, other, if_neg Bool.false_ne_true,
        ih fun other member => Nat.lt_succ_of_lt (behind other member)]

theorem count_keptSizes_single (start axis : Nat) (sizes : List Nat)
    : RowMajor.count (keptSizes [start + axis] start sizes)
      = RowMajor.count (sizes.take axis) * RowMajor.count (sizes.drop (axis + 1)) := by
  rw [count_keptSizes, remainingSizes_single, List.eraseIdx_eq_take_drop_succ,
    RowMajor.count_append]

/-- Coordinates on axes of size one are zero, by induction on the axes. -/
theorem collapse_eq_self {sizes coords : List Nat} (inside : RowMajor.Inside coords sizes)
    : Elementwise.collapse sizes coords = coords := by
  induction inside with
  | nil => rfl
  | cons here _ ih =>
      rw [Elementwise.collapse] at ih
      rw [Elementwise.collapse, List.zipWith_cons_cons, ih]
      congr 1
      split_ifs <;> omega

/-- The target of an element, if one axis is reduced: its position without the coordinate there. By
induction on the axes in front.
-/
theorem position_collapse_single {sizes coords : List Nat} (start : Nat) {axis : Nat}
    (inside : RowMajor.Inside coords sizes) (known : axis < sizes.length)
    : RowMajor.position (Elementwise.collapse (keptSizes [start + axis] start sizes) coords)
          (RowMajor.steps (keptSizes [start + axis] start sizes))
        = RowMajor.position coords (RowMajor.steps sizes)
              / (sizes[axis] * RowMajor.count (sizes.drop (axis + 1)))
              * RowMajor.count (sizes.drop (axis + 1))
            + RowMajor.position coords (RowMajor.steps sizes)
              % RowMajor.count (sizes.drop (axis + 1)) := by
  induction inside generalizing start axis with
  | nil => exact absurd known (Nat.not_lt_zero axis)
  | cons here later ih =>
      rename_i coord size coords sizes
      have below := RowMajor.position_lt_count later
      cases axis with
      | zero =>
          have rest : keptSizes [start] (start + 1) sizes = sizes :=
            keptSizes_of_lt (by simp) sizes
          have first : coord * RowMajor.count sizes + RowMajor.position coords (RowMajor.steps sizes)
              < size * RowMajor.count sizes := by
            have whole := RowMajor.position_lt_count (List.Forall₂.cons here later)
            rwa [RowMajor.steps, RowMajor.position_cons, RowMajor.count_cons] at whole
          have same := collapse_eq_self later
          rw [Elementwise.collapse] at same
          simp [keptSizes, rest, Elementwise.collapse, same, RowMajor.steps, Nat.div_eq_of_lt first,
            Nat.mod_eq_of_lt below]
      | succ axis =>
          have inside : axis < sizes.length := Nat.lt_of_succ_lt_succ known
          have behind := ih (start + 1) inside
          have kept := count_keptSizes_single (start + 1) axis sizes
          have shifted : start + 1 + axis = start + (axis + 1) := by omega
          rw [shifted] at behind kept
          have other : [start + (axis + 1)].contains start = false := by simp
          have coordinate : (if size = 1 then 0 else coord) = coord := by
            split_ifs <;> omega
          rw [count_split inside] at below
          simp only [keptSizes, other, Bool.false_eq_true, if_false, Elementwise.collapse,
            List.zipWith_cons_cons, coordinate, RowMajor.steps, RowMajor.position_cons, kept,
            List.getElem_cons_succ, List.drop_succ_cons]
          rw [Elementwise.collapse] at behind
          rw [behind, count_split inside]
          generalize RowMajor.position coords (RowMajor.steps sizes) = place at below ⊢
          generalize RowMajor.count (sizes.take axis) = outer at below ⊢
          generalize RowMajor.count (sizes.drop (axis + 1)) = inner at below ⊢
          generalize sizes[axis] = extent at below ⊢
          have positive : 0 < extent * inner := Nat.pos_of_lt_mul_left below
          have quotient : (coord * (outer * (extent * inner)) + place) / (extent * inner)
              = place / (extent * inner) + coord * outer := by
            rw [← Nat.mul_assoc, Nat.add_comm, Nat.add_mul_div_right _ _ positive]
          have rest : (coord * (outer * (extent * inner)) + place) % inner = place % inner := by
            rw [← Nat.mul_assoc, ← Nat.mul_assoc, Nat.add_comm, Nat.add_mul_mod_self_right]
          rw [quotient, rest, Nat.add_mul, Nat.mul_assoc]
          omega

/-- The targets of a reduction of one axis. -/
theorem targets_single {sizes : List Nat} {axis : Nat} (known : axis < sizes.length)
    : targets sizes (keptSizes [axis] 0 sizes)
      = (List.range (RowMajor.count sizes)).map fun place =>
          place / (sizes[axis] * RowMajor.count (sizes.drop (axis + 1)))
              * RowMajor.count (sizes.drop (axis + 1))
            + place % RowMajor.count (sizes.drop (axis + 1)) := by
  rw [targets_eq (by simp)]
  apply List.ext_getElem?
  intro place
  rw [List.getElem?_map, List.getElem?_map]
  by_cases inside : place < RowMajor.count sizes
  · obtain ⟨coords, below, rfl⟩ := RowMajor.exists_point inside
    have formula := position_collapse_single 0 below known
    rw [Nat.zero_add] at formula
    rw [RowMajor.getElem?_points below, List.getElem?_range inside, Option.map_some,
      Option.map_some, formula]
  · rw [List.getElem?_eq_none (by simpa using inside), List.getElem?_eq_none (by simpa using inside)]
    rfl

/-- A place splits into the lane, the place in the lane and the place behind the axis. -/
theorem place_of_target {extent inner place : Nat} (positive : 0 < inner)
    : (place / (extent * inner) * inner + place % inner) / inner * (extent * inner)
          + (place / (extent * inner) * inner + place % inner) % inner
          + place % (extent * inner) / inner * inner
        = place := by
  have last : place % inner < inner := Nat.mod_lt place positive
  have lane : (place / (extent * inner) * inner + place % inner) / inner
      = place / (extent * inner) := by
    rw [Nat.add_comm, Nat.add_mul_div_right _ _ positive, Nat.div_eq_of_lt last, Nat.zero_add]
  have behind : (place / (extent * inner) * inner + place % inner) % inner = place % inner := by
    rw [Nat.add_comm, Nat.add_mul_mod_self_right, Nat.mod_mod]
  have whole := Nat.div_add_mod place (extent * inner)
  have part := Nat.div_add_mod (place % (extent * inner)) inner
  rw [Nat.mod_mul_left_mod] at part
  rw [lane, behind, Nat.mul_comm (place / (extent * inner)), Nat.mul_comm (_ / inner)]
  omega

/-- The lane of a place in a lane. -/
theorem target_of_place {outer extent inner number k : Nat} (listed : number < outer * inner)
    (below : k < extent)
    : number / inner * (extent * inner) + number % inner + k * inner < outer * (extent * inner)
      ∧ (number / inner * (extent * inner) + number % inner + k * inner) / (extent * inner) * inner
            + (number / inner * (extent * inner) + number % inner + k * inner) % inner
          = number := by
  have positive : 0 < inner := Nat.pos_of_lt_mul_left listed
  have first : number / inner < outer := Nat.div_lt_of_lt_mul (Nat.mul_comm outer inner ▸ listed)
  have last : number % inner < inner := Nat.mod_lt number positive
  have part : number % inner + k * inner < extent * inner :=
    calc number % inner + k * inner
        < inner + k * inner := by omega
      _ = (k + 1) * inner := by rw [Nat.succ_mul, Nat.add_comm]
      _ ≤ extent * inner := Nat.mul_le_mul_right inner below
  have quotient
      : (number / inner * (extent * inner) + number % inner + k * inner) / (extent * inner)
        = number / inner := by
    rw [Nat.add_assoc, Nat.add_comm, Nat.add_mul_div_right _ _ (Nat.zero_lt_of_lt part),
      Nat.div_eq_of_lt part, Nat.zero_add]
  have rest
      : (number / inner * (extent * inner) + number % inner + k * inner) % inner
        = number % inner := by
    rw [Nat.add_mul_mod_self_right, ← Nat.mul_assoc, Nat.add_comm, Nat.add_mul_mod_self_right,
      Nat.mod_mod]
  constructor
  · calc number / inner * (extent * inner) + number % inner + k * inner
        < number / inner * (extent * inner) + extent * inner := by omega
      _ = (number / inner + 1) * (extent * inner) := (Nat.succ_mul _ _).symm
      _ ≤ outer * (extent * inner) := Nat.mul_le_mul_right _ first
  · rw [quotient, rest, Nat.mul_comm]
    exact Nat.div_add_mod number inner

/-- The positions with some target are those of a lane, in their order. -/
theorem filter_range_eq_lane {outer extent inner number : Nat} (listed : number < outer * inner)
    : (List.range (outer * (extent * inner))).filter
          (fun place => place / (extent * inner) * inner + place % inner = number)
        = (List.range extent).map fun k =>
            number / inner * (extent * inner) + number % inner + k * inner := by
  have positive : 0 < inner := Nat.pos_of_lt_mul_left listed
  have sorted
      : ((List.range extent).map fun k =>
          number / inner * (extent * inner) + number % inner + k * inner).Pairwise (· < ·) := by
    rw [List.pairwise_map]
    refine List.pairwise_lt_range.imp ?_
    intro a b before
    exact Nat.add_lt_add_left (Nat.mul_lt_mul_of_pos_right before positive) _
  have filtered := List.Pairwise.filter
    (fun place => decide (place / (extent * inner) * inner + place % inner = number))
    (List.pairwise_lt_range (n := outer * (extent * inner)))
  refine List.Perm.eq_of_pairwise (fun a b _ _ before after => absurd before after.asymm) filtered
    sorted ?_
  refine (List.perm_ext_iff_of_nodup (filtered.imp Nat.ne_of_lt) (sorted.imp Nat.ne_of_lt)).mpr ?_
  intro place
  rw [List.mem_filter, List.mem_range, List.mem_map, decide_eq_true_eq]
  constructor
  · rintro ⟨inside, rfl⟩
    have some : 0 < extent * inner := Nat.pos_of_lt_mul_left inside
    have below : place % (extent * inner) / inner < extent :=
      Nat.div_lt_of_lt_mul (Nat.mul_comm extent inner ▸ Nat.mod_lt place some)
    exact ⟨_, List.mem_range.mpr below, place_of_target positive⟩
  · rintro ⟨k, below, rfl⟩
    exact target_of_place listed (List.mem_range.mp below)

/-- Selected items are the items at the positions. -/
theorem filterMap_of_select? {positions : List Nat} {items selected : List α}
    (done : Elements.select? positions items = some selected)
    : positions.filterMap (items[·]?) = selected := by
  have each := congrArg (List.filterMap id) (Steps.mapM_eq_some_iff.mp done)
  rw [List.filterMap_map, List.filterMap_map] at each
  exact each.trans List.filterMap_some

/-- The items of a lane are those that a reduction of the axis combines. -/
theorem select?_lane {items : List α} {sizes : List Nat} {axis number : Nat} {lane : List Nat}
    (length : items.length = RowMajor.count sizes) (known : axis < sizes.length)
    (found : (lanes sizes axis)[number]? = some lane)
    : Elements.select? lane items
      = some (group (targets sizes (keptSizes [axis] 0 sizes)) items number) := by
  have inside : ∀ place ∈ lane, place < items.length := fun place member =>
    length ▸ lt_of_mem_lanes known (List.mem_of_getElem? found) member
  have listed : number < RowMajor.count (sizes.take axis)
      * RowMajor.count (sizes.drop (axis + 1)) := by
    have below := (List.getElem?_eq_some_iff.mp found).1
    simpa [lanes] using below
  have extent : sizes.getD axis 0 = sizes[axis] := by simp [known]
  rw [lanes, List.getElem?_map, List.getElem?_range (by simpa using listed), Option.map_some,
    Option.some.injEq, extent] at found
  have whole : items.length = RowMajor.count (sizes.take axis)
      * (sizes[axis] * RowMajor.count (sizes.drop (axis + 1))) :=
    length.trans (count_split known)
  have grouped := group_map_range
    (fun place => place / (sizes[axis] * RowMajor.count (sizes.drop (axis + 1)))
          * RowMajor.count (sizes.drop (axis + 1))
        + place % RowMajor.count (sizes.drop (axis + 1))) items number
  rw [targets_single known, ← length, grouped, whole, filter_range_eq_lane listed, found]
  obtain ⟨selected, done, -⟩ := Elements.exists_select? inside
  rw [done, filterMap_of_select? done]

/-- The number of lanes along an axis is that of the positions of a reduction of the axis. -/
theorem length_lanes_eq_count (sizes : List Nat) (axis : Nat)
    : (lanes sizes axis).length = RowMajor.count (keptSizes [axis] 0 sizes) := by
  rw [← count_resultSizes_single axis true sizes]
  rfl

/-- The items at the best places of all lanes are what a reduction makes of the items, if its steps
keep the better of two items.
-/
theorem select?_bestPlaces {step : α → α → α} {beats : α → α → Bool} {unit : α}
    (keeps : ∀ x y, step x y = if beats y x then y else x) (begins : ∀ x, step unit x = x)
    {items : List α} {sizes places positions : List Nat} {axis : Nat}
    (length : items.length = RowMajor.count sizes) (known : axis < sizes.length)
    (found : bestPlaces beats items (lanes sizes axis) = .ok places)
    (chosen
      : ((lanes sizes axis).zip places).mapM (fun (lane, place) => lane[place]?)
        = some positions)
    : Elements.select? positions items
      = some (combine step unit (targets sizes (keptSizes [axis] 0 sizes)) items
          (RowMajor.count (keptSizes [axis] 0 sizes))) := by
  rw [bestPlaces, Steps.mapM_eq_ok_iff] at found
  rw [Steps.mapM_eq_some_iff] at chosen
  rw [Elements.select?, Steps.mapM_eq_some_iff]
  apply List.ext_getElem?
  intro number
  have best := congrArg (·[number]?) found
  have position := congrArg (·[number]?) chosen
  simp only [List.getElem?_map] at best position
  rw [List.getElem?_map, List.getElem?_map, combine, List.getElem?_map]
  cases here : (lanes sizes axis)[number]? with
  | none =>
      have outside : RowMajor.count (keptSizes [axis] 0 sizes) ≤ number := by
        rw [← length_lanes_eq_count]
        exact List.getElem?_eq_none_iff.mp here
      have unzipped : ((lanes sizes axis).zip places)[number]? = none := by
        rw [List.getElem?_eq_none_iff] at here ⊢
        rw [List.length_zip]
        exact (Nat.min_le_left ..).trans here
      rw [unzipped] at position
      rw [Option.map_eq_none_iff.mp position.symm, List.getElem?_eq_none (by simpa using outside)]
      rfl
  | some lane =>
      have selected := select?_lane length known here
      have inside : number < RowMajor.count (keptSizes [axis] 0 sizes) := by
        rw [← length_lanes_eq_count]
        exact (List.getElem?_eq_some_iff.mp here).1
      rw [here, Option.map_some, selected] at best
      obtain ⟨place, placed, same⟩ := Option.map_eq_some_iff.mp best.symm
      obtain rfl := Except.ok.inj same
      rw [List.getElem?_range inside, Option.map_some]
      generalize group (targets sizes (keptSizes [axis] 0 sizes)) items number = grouped
        at selected placed ⊢
      have zipped
          : ((lanes sizes axis).zip places)[number]? = some (lane, bestPlace beats grouped) :=
        List.getElem?_zip_eq_some.mpr ⟨here, placed⟩
      rw [zipped, Option.map_some] at position
      obtain ⟨source, there, chosen⟩ := Option.map_eq_some_iff.mp position.symm
      have chosen : lane[bestPlace beats grouped]? = some source := chosen.symm
      have read := congrArg (·[bestPlace beats grouped]?) (Steps.mapM_eq_some_iff.mp selected)
      simp only [List.getElem?_map, chosen, Option.map_some] at read
      obtain ⟨item, listed, reads⟩ := Option.map_eq_some_iff.mp read.symm
      have some := List.ne_nil_of_mem (List.mem_of_getElem? listed)
      have kept := getElem?_bestPlace keeps begins some
      rw [there, Option.map_some, Option.map_some, ← reads, ← listed, kept]

end Reduce

namespace Elements

/-- The numbers at some positions. -/
theorem toFloats_gather? {elements gathered : Elements} {positions : List Nat}
    (done : elements.gather? positions = some gathered)
    : select? positions elements.toFloats = some gathered.toFloats := by
  cases elements <;>
    · obtain ⟨selected, found, rfl⟩ := Option.map_eq_some_iff.mp done
      exact (select?_map ..).trans (congrArg (Option.map _) found)

/-- The integers at some positions. -/
theorem toInts_gather? {elements gathered : Elements} {positions : List Nat}
    (done : elements.gather? positions = some gathered)
    : select? positions elements.toInts = some gathered.toInts := by
  cases elements <;>
    · obtain ⟨selected, found, rfl⟩ := Option.map_eq_some_iff.mp done
      first
        | exact (select?_map ..).trans (congrArg (Option.map _) found)
        | exact found

theorem dtype_gather? {elements gathered : Elements} {positions : List Nat}
    (done : elements.gather? positions = some gathered)
    : gathered.dtype = elements.dtype := by
  cases elements <;>
    · obtain ⟨selected, -, rfl⟩ := Option.map_eq_some_iff.mp done
      rfl

end Elements

namespace Reduce

/-- The largest elements along an axis are what a reduction of the axis makes, and their places are
found alone too.
-/
theorem maxAndArgMax_eq_ok {axis : Int} {input values places : Tensor}
    (numeric : input.dtype.isNumeric = true) (valid : input.Valid)
    (done : maxAndArgMax axis input = .ok (values, places))
    : ∃ found : Nat,
        resolveAxis axis input.rank = .ok found
        ∧ hasEmptyAxis [found] input.sizes = false
        ∧ values.canonical = (combined .max [found] false input).canonical
        ∧ argMax axis false input = .ok places := by
  obtain ⟨found, resolved, done⟩ := Steps.bind_eq_ok_iff.mp done
  obtain ⟨best, searched, done⟩ := Steps.bind_eq_ok_iff.mp done
  obtain ⟨positions, chosen, done⟩ := Steps.bind_eq_ok_iff.mp done
  obtain ⟨gathered, taken, done⟩ := Steps.bind_eq_ok_iff.mp done
  obtain ⟨rfl, rfl⟩ := Prod.mk.inj (Except.ok.inj done)
  have known : found < input.sizes.length := by
    rw [resolveAxis] at resolved
    split at resolved
    · rename_i position there
      obtain rfl := Except.ok.inj resolved
      exact Slice.lt_of_position? there
    · cases resolved
  have chosen := Outcome.require_eq_ok_iff.mp chosen
  obtain ⟨elements, required, same⟩ := Steps.bind_eq_ok_iff.mp taken
  obtain rfl := Except.ok.inj same
  have taken := Outcome.require_eq_ok_iff.mp required
  have filled : input.sizes[found]? ≠ some 0 := by
    intro empty
    rw [largest, if_pos empty] at searched
    cases searched
  have dtype : elements.dtype = input.dtype := Elements.dtype_gather? taken
  refine ⟨found, resolved, by simpa [hasEmptyAxis] using filled, ?_, ?_⟩
  · refine congrArg (Tensor.mk _) ?_
    rw [largest, if_neg filled] at searched
    dsimp only at searched
    obtain integer | float := Bool.or_eq_true_iff.mp numeric
    · have exact := DType.isFloat_of_isInteger integer
      rw [exact, if_neg Bool.false_ne_true] at searched
      have read := select?_bestPlaces intStep_max intStep_intUnit_max
        ((Elements.length_toInts _).trans valid) known searched chosen
      have same := (Elements.toInts_gather? taken).symm.trans read
      rw [elements_combined exact, ← Option.some.inj same, ← dtype,
        Elements.ofInts_toInts (dtype ▸ integer)]
    · rw [float, if_pos rfl] at searched
      have read := select?_bestPlaces floatStep_max floatStep_floatUnit_max
        ((Elements.length_toFloats _).trans valid) known searched chosen
      have same := (Elements.toFloats_gather? taken).symm.trans read
      rw [elements_combined_of_isFloat float, ← Option.some.inj same, ← dtype,
        ← Elements.canonical_eq_ofFloats (dtype ▸ float), Elements.canonical_canonical]
  · rw [argMax, resolved]
    change (largest input found >>= _) = _
    rw [searched]
    rfl

end Reduce

end Dataflow
