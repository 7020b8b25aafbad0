import Dataflow.Proofs.Tensor.Shuffling
import Dataflow.Proofs.Typing.Operands
import Dataflow.Rewrite.Rules.Shuffle

/-!
Reshaped tensors and shuffles. A reshape only looks at the elements of its operand, and a shuffle
that keeps axes in their order leaves them where they are. So it does not matter in front of a
reshape, and behind one it only changes the sizes.
-/

namespace Dataflow

-----------------------------------------------------------------------------------------
-- Other first operands
-----------------------------------------------------------------------------------------

namespace Inputs

theorem tensor_cons_zero (content : Tensor) (inputs : Inputs)
    : Inputs.tensor (.tensor content :: inputs) 0 = .ok content :=
  rfl

/-- Operands behind the first one do not change with it. -/
theorem index_cons {position : Nat} (behind : position ≠ 0) (first other : Value)
    (inputs : Inputs)
    : Inputs.index (first :: inputs) position = Inputs.index (other :: inputs) position := by
  cases position with
  | zero => exact absurd rfl behind
  | succ position => rfl

end Inputs

namespace Movement

-----------------------------------------------------------------------------------------
-- Sizes
-----------------------------------------------------------------------------------------

/-- The sizes of places, with a size for those that are to be inferred. -/
def filled (size : Nat) (places : List (Nat × Bool)) : List Nat :=
  places.map fun place => if place.2 then size else place.1

theorem filled_of_none {places : List (Nat × Bool)} (none : places.any (·.2) = false)
    (size : Nat)
    : filled size places = places.map (·.1) := by
  apply List.map_congr_left
  intro place member
  rw [if_neg (List.any_eq_false.mp none place member)]

/-- A size that is to be inferred counts as one. -/
theorem filled_one {extents : List ReshapeExtent} {places : List (Nat × Bool)}
    (sized : List.Forall₂ ReshapesTo extents places)
    : filled 1 places = places.map (·.1) := by
  induction sized with
  | nil => rfl
  | cons here _ ih =>
      rename_i extent place extents places _
      refine congrArg₂ List.cons ?_ ih
      cases extent with
      | infer =>
          obtain rfl : place = (1, true) := here
          rfl
      | explicit size =>
          obtain rfl : place = (size, false) := here
          rfl
      | operand position =>
          have here : place.2 = false := here
          exact if_neg (by simp [here])

/-- The size that is left is put in the only place that is to be inferred. By induction on the
places.
-/
theorem fillInferred_eq_filled {extents : List ReshapeExtent} {places : List (Nat × Bool)}
    (sized : List.Forall₂ ReshapesTo extents places) (single : extents.count .infer ≤ 1)
    (size : Nat)
    : fillInferred size places = filled size places := by
  induction sized with
  | nil => rfl
  | cons here later ih =>
      rename_i extent place extents places
      cases extent with
      | explicit known =>
          obtain rfl : place = (known, false) := here
          exact congrArg (known :: ·) (ih (by simpa using single))
      | infer =>
          obtain rfl : place = (1, true) := here
          rw [List.count_cons_self] at single
          have others : .infer ∉ extents := List.count_eq_zero.mp (by omega)
          have none : places.any (·.2) = false := by
            rw [List.any_eq_false]
            intro place member
            obtain ⟨index, bound, rfl⟩ := List.mem_iff_getElem.mp member
            have boundExtents := later.length_eq ▸ bound
            intro inferred
            have same := (later.get boundExtents bound).inferred_iff.mp inferred
            exact others (same ▸ List.getElem_mem boundExtents)
          rw [fillInferred, ← filled_of_none none size]
          rfl
      | operand position =>
          obtain ⟨known, inferred⟩ := place
          obtain rfl : inferred = false := here
          exact congrArg (known :: ·) (ih (by simpa using single))

/-- Places hold a number of elements, if the size that is to be inferred is `size`. -/
structure Holds (places : List (Nat × Bool)) (count size : Nat) : Prop where
  product : size * RowMajor.count (places.map (·.1)) = count
  determined : places.any (·.2) = true → RowMajor.count (places.map (·.1)) ≠ 0
  plain : places.any (·.2) = false → size = 1

/-- A tensor is reshaped iff the places of the new shape hold its elements. -/
theorem reshape_eq_ok_iff {extents : List ReshapeExtent} {inputs : Inputs} {input result : Tensor}
    (first : inputs.tensor 0 = .ok input) (single : extents.count .infer ≤ 1)
    : reshape extents inputs = .ok result
      ↔ ∃ places size,
          extents.mapM (reshapeSize inputs) = .ok places
          ∧ Holds places input.elements.size size
          ∧ result = ⟨filled size places, input.elements⟩ := by
  rw [reshape, first, Steps.ok_bind]
  rw [Steps.bind_eq_ok_iff]
  apply exists_congr
  intro places
  have sized (done : extents.mapM (reshapeSize inputs) = .ok places)
      : List.Forall₂ ReshapesTo extents.reverse places.reverse :=
    List.rel_reverse
      ((Outcome.Safe.mapM fun extent _ => safe_reshapeSize inputs extent).holds done)
  have back (done : extents.mapM (reshapeSize inputs) = .ok places) (size : Nat)
      : (fillInferred size places.reverse).reverse = filled size places := by
    rw [fillInferred_eq_filled (sized done) (by rwa [List.count_reverse]), filled, List.map_reverse,
      List.reverse_reverse, filled]
  dsimp only
  constructor
  · rintro ⟨done, outcome⟩
    split_ifs at outcome with some refused same
    · cases outcome
    · obtain ⟨positive, divides⟩ := not_or.mp refused
      have divides := Nat.dvd_of_mod_eq_zero (Decidable.not_not.mp divides)
      obtain rfl := Except.ok.inj outcome
      exact ⟨_, done, ⟨Nat.div_mul_cancel divides, fun _ => positive,
          fun none => absurd some (by simp [none])⟩,
        by rw [back done]⟩
    · obtain rfl := Except.ok.inj outcome
      have none : places.any (·.2) = false := by simpa using some
      exact ⟨1, done, ⟨by rw [Nat.one_mul, same], fun inferred => absurd inferred some,
          fun _ => rfl⟩, by rw [filled_of_none none]⟩
    · cases outcome
  · rintro ⟨size, done, holds, rfl⟩
    refine ⟨done, ?_⟩
    split_ifs with some refused same
    · obtain zero | left := refused
      · exact absurd zero (holds.determined some)
      · exact absurd (by rw [← holds.product, Nat.mul_mod_left]) left
    · rw [back done, ← holds.product,
        Nat.mul_div_cancel _ (Nat.pos_of_ne_zero (holds.determined some))]
    · rw [filled_of_none (by simpa using some)]
    · have none : places.any (·.2) = false := by simpa using some
      exact absurd (by rw [← holds.product, holds.plain none, Nat.one_mul]) same

-----------------------------------------------------------------------------------------
-- Shuffles around reshapes
-----------------------------------------------------------------------------------------

/-- The sizes of a new shape do not depend on the tensor that is reshaped. -/
theorem reshapeSize_cons {extent : ReshapeExtent} (behind : extent.operand? ≠ some 0)
    (first other : Value) (inputs : Inputs)
    : reshapeSize (first :: inputs) extent = reshapeSize (other :: inputs) extent := by
  cases extent with
  | operand position =>
      have behind : position ≠ 0 := by simpa [ReshapeExtent.operand?] using behind
      rw [reshapeSize, reshapeSize, operandSize, operandSize,
        Inputs.index_cons behind first other inputs]
  | _ => rfl

/-- A reshape does not see a shuffle that keeps axes in their order. -/
theorem reshape_of_shuffle {order : ShuffleOrder} {extents : List ReshapeExtent}
    {input middle : Tensor} {inputs : Inputs} (ordered : order.preservesOrder = true)
    (valid : input.Valid) (behind : ∀ extent ∈ extents, extent.operand? ≠ some 0)
    (shuffled : shuffle order input = .ok middle)
    : reshape extents (.tensor middle :: inputs) = reshape extents (.tensor input :: inputs) := by
  have shuffles := (shuffle_eq_ok_iff (ShuffleOrder.nodup_kept_of_preservesOrder ordered)).mp shuffled
  have sizes : extents.mapM (reshapeSize (.tensor middle :: inputs))
      = extents.mapM (reshapeSize (.tensor input :: inputs)) :=
    Steps.mapM_congr fun extent member => reshapeSize_cons (behind extent member) _ _ inputs
  rw [reshape, reshape, Inputs.tensor_cons_zero, Inputs.tensor_cons_zero, Steps.ok_bind,
    Steps.ok_bind, sizes, shuffles.elements ordered valid]

/-- The places that an order makes of others: new axes have one element. -/
def PicksPlaces (places : List (Nat × Bool)) : ShuffleOrder → List (Nat × Bool) → Prop :=
  List.Forall₂ fun axis place =>
    match axis with
    | .broadcast => place = (1, false)
    | .axis source => places[source]? = some place

/-- The places of a shuffled shape, by induction on the order. -/
theorem exists_places {order : ShuffleOrder} {extents shape : List ReshapeExtent}
    {inputs : Inputs} {places : List (Nat × Bool)}
    (composed : order.mapM (Rules.shuffledReshapeExtent extents) = some shape)
    (sized : extents.mapM (reshapeSize inputs) = .ok places)
    : ∃ picked, shape.mapM (reshapeSize inputs) = .ok picked ∧ PicksPlaces places order picked := by
  have each := Steps.mapM_eq_ok_iff.mp sized
  induction order generalizing shape with
  | nil =>
      obtain rfl := Option.some.inj composed
      exact ⟨[], rfl, .nil⟩
  | cons axis order ih =>
      rw [List.mapM_cons] at composed
      obtain ⟨extent, here, composed⟩ := Option.bind_eq_some_iff.mp composed
      obtain ⟨rest, later, composed⟩ := Option.bind_eq_some_iff.mp composed
      obtain rfl := Option.some.inj composed
      obtain ⟨picked, done, picks⟩ := ih later
      cases axis with
      | broadcast =>
          obtain rfl := Option.some.inj here
          refine ⟨(1, false) :: picked, ?_, .cons rfl picks⟩
          rw [List.mapM_cons, done]
          rfl
      | axis source =>
          have here : extents[source]? = some extent := here
          have read := congrArg (·[source]?) each
          simp only [List.getElem?_map, here, Option.map_some] at read
          obtain ⟨place, found, reshapes⟩ := Option.map_eq_some_iff.mp read.symm
          refine ⟨place :: picked, ?_, .cons found picks⟩
          rw [List.mapM_cons, ← reshapes, done]
          rfl

/-- Picked places are picked numbers, whatever number belongs to a place. -/
theorem PicksPlaces.map {order : ShuffleOrder} {places picked : List (Nat × Bool)}
    (picks : PicksPlaces places order picked) {change : Nat × Bool → Nat}
    (unit : change (1, false) = 1)
    : ShuffleOrder.Picks (places.map change) 1 order (picked.map change) := by
  induction picks with
  | nil => exact .nil
  | cons here _ ih =>
      rename_i axis place order picked _
      refine .cons ?_ ih
      cases axis with
      | broadcast =>
          obtain rfl : place = (1, false) := here
          exact unit
      | axis source =>
          have here : places[source]? = some place := here
          change (places.map change)[source]? = _
          rw [List.getElem?_map, here]
          rfl

/-- Dropped places that count as one do not change the product of the sizes. -/
theorem PicksPlaces.count_eq {order : ShuffleOrder} {places picked : List (Nat × Bool)}
    (picks : PicksPlaces places order picked) (ordered : order.preservesOrder = true)
    (ones : ∀ axis place, places[axis]? = some place → axis ∉ order.kept → place.1 = 1)
    : RowMajor.count (picked.map (·.1)) = RowMajor.count (places.map (·.1)) := by
  have sizes : ShuffleOrder.Picks (places.map (·.1)) 1 order (picked.map (·.1)) := picks.map rfl
  obtain ⟨steps, moves⟩ := exists_steps sizes
  have counts := (ShuffleOrder.position_of_preservesOrder sizes moves
    (ShuffleOrder.increasing_iff.mp ordered) (fun axis _ => Nat.zero_le axis)
    fun axis _ inside untaken => by
      rw [List.length_map] at inside
      have found := List.getElem?_eq_getElem inside
      rw [List.getElem?_map, found, Option.map_some, ones axis _ found untaken]).1
  rwa [List.drop_zero] at counts

/-- A picked place is one of the places, or that of a new axis. -/
theorem PicksPlaces.mem {order : ShuffleOrder} {places picked : List (Nat × Bool)}
    (picks : PicksPlaces places order picked) {place : Nat × Bool} (member : place ∈ picked)
    : place = (1, false) ∨ place ∈ places := by
  obtain ⟨index, bound, rfl⟩ := List.mem_iff_getElem.mp member
  have here := picks.get (picks.length_eq ▸ bound) bound
  simp only [List.get_eq_getElem] at here
  split at here
  · exact .inl here
  · exact .inr (List.mem_of_getElem? here)

/-- The place of a kept axis is picked. -/
theorem PicksPlaces.mem_of_kept {order : ShuffleOrder} {places picked : List (Nat × Bool)}
    (picks : PicksPlaces places order picked) {axis : Nat} {place : Nat × Bool}
    (found : places[axis]? = some place) (taken : axis ∈ order.kept)
    : place ∈ picked := by
  obtain ⟨index, bound, same⟩ := List.mem_iff_getElem.mp (ShuffleOrder.mem_kept.mp taken)
  have boundPicked := picks.length_eq ▸ bound
  have here := picks.get bound boundPicked
  rw [List.get_eq_getElem, same] at here
  have here : places[axis]? = some picked[index] := here
  rw [found, Option.some.injEq] at here
  exact here ▸ List.getElem_mem boundPicked

/-- What is picked for every axis is determined. -/
theorem picks_unique {items first second : List Nat} {unit : Nat} {order : ShuffleOrder}
    (left : ShuffleOrder.Picks items unit order first)
    (right : ShuffleOrder.Picks items unit order second)
    : first = second :=
  Except.ok.inj ((mapM_pick_eq_ok_iff.mpr left).symm.trans (mapM_pick_eq_ok_iff.mpr right))

/-- A shuffle behind a reshape that keeps axes in their order belongs to the new shape. -/
theorem shuffle_of_reshape {order : ShuffleOrder} {extents shape : List ReshapeExtent}
    {input middle result : Tensor} {inputs : Inputs} (ordered : order.preservesOrder = true)
    (composed : order.mapM (Rules.shuffledReshapeExtent extents) = some shape)
    (first : inputs.tensor 0 = .ok input) (single : extents.count .infer ≤ 1)
    (singleShape : shape.count .infer ≤ 1) (valid : middle.Valid)
    (reshaped : reshape extents inputs = .ok middle)
    (shuffled : shuffle order middle = .ok result)
    : reshape shape inputs = .ok result := by
  have shuffles := (shuffle_eq_ok_iff (ShuffleOrder.nodup_kept_of_preservesOrder ordered)).mp shuffled
  have elements := shuffles.elements ordered valid
  obtain ⟨places, size, sized, holds, rfl⟩ := (reshape_eq_ok_iff first single).mp reshaped
  obtain ⟨picked, done, picks⟩ := exists_places composed sized
  have reshapes := (Outcome.Safe.mapM fun extent _ => safe_reshapeSize inputs extent).holds sized
  -- Dropped axes have one element, so they count as one, also where the size is to be inferred.
  have one {axis : Nat} {place : Nat × Bool} (found : places[axis]? = some place)
      (untaken : axis ∉ order.kept)
      : (if place.2 then size else place.1) = 1 := by
    have inside : axis < (filled size places).length := by
      rw [filled, List.length_map]
      exact (List.getElem?_eq_some_iff.mp found).1
    have dropped := shuffles.dropped axis (ShuffleOrder.mem_dropped.mpr ⟨inside, untaken⟩)
    change (places.map _)[axis]? = some 1 at dropped
    rw [List.getElem?_map, found] at dropped
    exact Option.some.inj dropped
  have counts := picks.count_eq ordered fun axis place found untaken => by
    have known := one found untaken
    have same := congrArg (·[axis]?) (filled_one reshapes)
    simp only [filled, List.getElem?_map, found, Option.map_some, Option.some.injEq] at same
    rw [← same]
    split_ifs at known ⊢
    · rfl
    · exact known
  refine (reshape_eq_ok_iff first singleShape).mpr ⟨picked, size, done, ⟨?_, ?_, ?_⟩, ?_⟩
  · rw [counts]
    exact holds.product
  · intro inferred
    rw [counts]
    refine holds.determined ?_
    obtain ⟨place, member, open_⟩ := List.any_eq_true.mp inferred
    obtain rfl | listed := picks.mem member
    · exact absurd open_ Bool.false_ne_true
    · exact List.any_eq_true.mpr ⟨place, listed, open_⟩
  · intro none
    by_cases some : places.any (·.2) = true
    · obtain ⟨place, member, open_⟩ := List.any_eq_true.mp some
      obtain ⟨axis, found⟩ := List.mem_iff_getElem?.mp member
      by_cases taken : axis ∈ order.kept
      · exact absurd open_ (List.any_eq_false.mp none place (picks.mem_of_kept found taken))
      · have known := one found taken
        rwa [if_pos open_] at known
    · exact holds.plain (by simpa using some)
  · have sizes := picks_unique shuffles.picks (picks.map rfl)
    cases result
    exact congrArg₂ Tensor.mk sizes elements

end Movement

end Dataflow
