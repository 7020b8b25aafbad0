import Dataflow.Proofs.Tensor.Reshaping
import Dataflow.Rewrite.Rules.Shuffle

/-!
Filled tensors and shuffles. A value is aligned at the last axis of the tensor that it fills, so axes
that a shuffle puts in front of it, before or after, do not change what is read.
-/

namespace Dataflow.Movement

-----------------------------------------------------------------------------------------
-- Filling
-----------------------------------------------------------------------------------------

/-- A tensor that is filled with a value: it has the given sizes, which the value stretches to. -/
structure Fills (extents : List ExtentSource) (inputs : Inputs) (value result : Tensor) : Prop where
  sizes : extents.mapM (allocSize inputs) = .ok result.sizes
  stretch : Elementwise.StretchTo value.sizes result.sizes
  reads
    : result.Reads value fun coords =>
        Elementwise.collapse value.sizes
          (coords.drop (result.sizes.length - value.sizes.length))

theorem checkFill_eq_ok_iff {size target : Nat}
    : checkFill size target = .ok () ↔ Elementwise.Stretches size target := by
  rw [checkFill]
  split_ifs with stretches
  · exact iff_of_true rfl stretches
  · exact iff_of_false (by simp [Outcome.fail]) stretches

theorem allocSizes_eq_ok_iff {extents : List ExtentSource} {inputs : Inputs} {value : Tensor}
    {target : List Nat}
    : allocSizes extents value inputs = .ok target
      ↔ extents.mapM (allocSize inputs) = .ok target
        ∧ Elementwise.StretchTo value.sizes target := by
  rw [allocSizes, Steps.bind_eq_ok_iff]
  constructor
  · rintro ⟨found, sized, done⟩
    split_ifs at done with short
    · cases done
    · obtain ⟨_, checked, done⟩ := Steps.bind_eq_ok_iff.mp done
      obtain rfl := Except.ok.inj done
      have rank : value.sizes.length ≤ found.length := Nat.le_of_not_lt short
      refine ⟨sized, rank, forall₂_of_zip ?_ fun pair member => ?_⟩
      · rw [List.length_drop]
        omega
      · exact checkFill_eq_ok_iff.mp (Steps.forM_eq_ok_iff.mp checked pair member)
  · rintro ⟨sized, stretch⟩
    refine ⟨target, sized, ?_⟩
    rw [if_neg (Nat.not_lt.mpr stretch.rank : ¬target.length < value.rank)]
    refine Steps.bind_eq_ok_iff.mpr ⟨(), Steps.forM_eq_ok_iff.mpr ?_, rfl⟩
    intro pair member
    exact checkFill_eq_ok_iff.mpr ((List.forall₂_iff_zip.mp stretch.axes).2 member)

/-- A tensor is filled iff the value stretches to its sizes. -/
theorem alloc_eq_ok_iff {extents : List ExtentSource} {inputs : Inputs} {value result : Tensor}
    (first : inputs.tensor 0 = .ok value)
    : alloc extents inputs = .ok result ↔ Fills extents inputs value result := by
  rw [alloc, first, Steps.ok_bind, Steps.bind_eq_ok_iff]
  constructor
  · rintro ⟨target, sized, gathered⟩
    obtain ⟨sizes, stretch⟩ := allocSizes_eq_ok_iff.mp sized
    obtain ⟨rfl, gathers⟩ := Tensor.gather_eq_ok_iff.mp gathered
    rw [Elementwise.broadcastPositions_eq stretch.rank] at gathers
    refine ⟨sizes, stretch, fun coords point => ?_, gathers⟩
    exact Elementwise.inside_collapse stretch.axes (List.forall₂_drop _ point)
  · intro fills
    refine ⟨result.sizes, allocSizes_eq_ok_iff.mpr ⟨fills.sizes, fills.stretch⟩, ?_⟩
    rw [Elementwise.broadcastPositions_eq fills.stretch.rank]
    exact Tensor.gather_eq_ok_iff.mpr ⟨rfl, fills.reads.gathers⟩

/-- The sizes of a new tensor do not depend on its value. -/
theorem allocSize_cons {extent : ExtentSource} (behind : extent.operand? ≠ some 0)
    (first other : Value) (inputs : Inputs)
    : allocSize (first :: inputs) extent = allocSize (other :: inputs) extent := by
  cases extent with
  | operand position =>
      have behind : position ≠ 0 := by simpa [ExtentSource.operand?] using behind
      rw [allocSize, allocSize, operandSize, operandSize,
        Inputs.index_cons behind first other inputs]
  | static size => rfl

-----------------------------------------------------------------------------------------
-- Axes in front of the value
-----------------------------------------------------------------------------------------

/-- An order that only puts axes in front of `rank` axes has them at its end. -/
theorem eq_append_of_isLeftPadding {order : ShuffleOrder} {rank : Nat}
    (padding : Rules.isLeftPadding order rank = true)
    : ∃ count, order = List.replicate count .broadcast ++ ShuffleOrder.identity rank := by
  rw [Rules.isLeftPadding, Bool.and_eq_true, decide_eq_true_eq] at padding
  refine ⟨(order.takeWhile (· = .broadcast)).length, ?_⟩
  have front : order.takeWhile (· = .broadcast)
      = List.replicate (order.takeWhile (· = .broadcast)).length .broadcast := by
    refine List.eq_replicate_iff.mpr ⟨rfl, fun axis member => ?_⟩
    simpa using List.all_eq_true.mp List.all_takeWhile axis member
  rw [← front, ← padding.1, List.takeWhile_append_dropWhile]

/-- An order of axes that keeps all of them in their order, with no new axis behind the one with
number `lead`, ends with the axes from that one on.
-/
theorem eq_append_of_insertsInFront {order : ShuffleOrder} {rank lead : Nat}
    (all : order.kept = List.range rank) (inside : lead ≤ rank)
    (inFront : Rules.insertsInFront order lead = true)
    : ∃ front, order = front ++ (List.range' lead (rank - lead)).map .axis := by
  obtain ⟨front, isFront, none⟩
      : ∃ front : ShuffleAxis → Bool,
          (∀ source, front (.axis source) = decide (source < lead))
          ∧ .broadcast ∉ order.dropWhile front := by
    rw [Rules.insertsInFront, Bool.not_eq_true'] at inFront
    refine ⟨_, fun source => ?_, fun member =>
      ne_true_of_eq_false inFront (List.contains_iff_mem.mpr member)⟩
    rfl
  have split := List.takeWhile_append_dropWhile (p := front) (l := order)
  have before : ∀ axis ∈ ShuffleOrder.kept (order.takeWhile front), axis < lead := by
    intro axis member
    have passes := List.all_eq_true.mp List.all_takeWhile _ (ShuffleOrder.mem_kept.mp member)
    rw [isFront] at passes
    exact of_decide_eq_true passes
  have starts := List.head?_dropWhile_not front order
  generalize order.takeWhile front = first at split before
  generalize order.dropWhile front = behind at split starts none
  have axes : behind = (ShuffleOrder.kept behind).map .axis := by
    clear split starts
    induction behind with
    | nil => rfl
    | cons axis behind ih =>
        rw [List.mem_cons, not_or] at none
        cases axis with
        | broadcast => exact absurd rfl none.1
        | axis source => exact congrArg (ShuffleAxis.axis source :: ·) (ih none.2)
  have whole : ShuffleOrder.kept first ++ ShuffleOrder.kept behind = List.range rank := by
    rw [← all, ← split]
    exact (List.filterMap_append ..).symm
  have rest : ShuffleOrder.kept behind
      = (List.range rank).drop (ShuffleOrder.kept first).length := by
    rw [← whole, List.drop_left]
  have start : (ShuffleOrder.kept first).length ≤ lead := by
    by_contra beyond
    have bound := Nat.lt_of_not_le beyond
    have there : (ShuffleOrder.kept first ++ ShuffleOrder.kept behind)[lead]? = some lead := by
      rw [whole, List.getElem?_range]
      have lengths := congrArg List.length whole
      rw [List.length_append, List.length_range] at lengths
      omega
    rw [List.getElem?_append_left bound] at there
    exact Nat.lt_irrefl lead (before lead (List.mem_of_getElem? there))
  have length : (ShuffleOrder.kept first).length = lead := by
    by_contra differs
    have inside : (ShuffleOrder.kept first).length < rank := by omega
    have head : (ShuffleOrder.kept behind).head? = some (ShuffleOrder.kept first).length := by
      rw [rest, List.head?_drop, List.getElem?_range inside]
    rw [axes, List.head?_map, head, Option.map_some] at starts
    have starts : front (.axis (ShuffleOrder.kept first).length) = false := starts
    rw [isFront] at starts
    exact of_decide_eq_false starts (by omega)
  refine ⟨first, ?_⟩
  rw [← split, axes, rest, length, List.range_eq_range', List.drop_range']
  simp

/-- The source coordinates of the axes at the end of an order. -/
theorem drop_sourceCoords {order front : ShuffleOrder} {rank lead : Nat} {coords : List Nat}
    (ends : order = front ++ (List.range' lead (rank - lead)).map .axis)
    (distinct : order.kept.Nodup) (inside : lead ≤ rank) (length : coords.length = order.length)
    : (order.sourceCoords rank coords).drop lead = coords.drop front.length := by
  apply List.ext_getElem?
  intro place
  rw [List.getElem?_drop, List.getElem?_drop]
  have whole : order.length = front.length + (rank - lead) := by
    rw [ends, List.length_append, List.length_map, List.length_range']
  by_cases bound : lead + place < rank
  · have boundCoords : front.length + place < coords.length := by omega
    have taken : order[front.length + place]? = some (.axis (lead + place)) := by
      rw [ends, List.getElem?_append_right (Nat.le_add_right ..), Nat.add_sub_cancel_left,
        List.getElem?_map, List.getElem?_range' (by omega)]
      simp
    rw [List.getElem?_eq_getElem boundCoords]
    exact ShuffleOrder.sourceCoords_of_taken distinct taken (List.getElem?_eq_getElem boundCoords)
      bound
  · rw [List.getElem?_eq_none (by simpa using Nat.le_of_not_lt bound),
      List.getElem?_eq_none (by omega)]

/-- The sizes of the axes at the end of an order. -/
theorem drop_picks {order front : ShuffleOrder} {sizes picked : List Nat} {unit lead : Nat}
    (ends : order = front ++ (List.range' lead (sizes.length - lead)).map .axis)
    (inside : lead ≤ sizes.length) (picks : ShuffleOrder.Picks sizes unit order picked)
    : picked.drop front.length = sizes.drop lead := by
  have whole : order.length = front.length + (sizes.length - lead) := by
    rw [ends, List.length_append, List.length_map, List.length_range']
  have length := picks.length_eq
  apply List.ext_getElem?
  intro place
  rw [List.getElem?_drop, List.getElem?_drop]
  by_cases bound : lead + place < sizes.length
  · have boundOrder : front.length + place < order.length := by omega
    have boundPicked : front.length + place < picked.length := by omega
    have taken : order[front.length + place]? = some (.axis (lead + place)) := by
      rw [ends, List.getElem?_append_right (Nat.le_add_right ..), Nat.add_sub_cancel_left,
        List.getElem?_map, List.getElem?_range' (by omega)]
      simp
    have picked := picks.get boundOrder boundPicked
    rw [List.get_eq_getElem, (List.getElem?_eq_some_iff.mp taken).2] at picked
    rw [List.getElem?_eq_getElem boundPicked]
    exact Eq.symm picked
  · rw [List.getElem?_eq_none (by omega), List.getElem?_eq_none (by omega)]

-----------------------------------------------------------------------------------------
-- Shuffles around fillings
-----------------------------------------------------------------------------------------

/-- The sizes of a shuffled new tensor, by induction on the order. -/
theorem allocSizes_of_shuffle {order : ShuffleOrder} {extents shape : List ExtentSource}
    {inputs : Inputs} {sizes picked : List Nat}
    (composed : order.mapM (Rules.shuffledExtent extents) = some shape)
    (sized : extents.mapM (allocSize inputs) = .ok sizes)
    (picks : ShuffleOrder.Picks sizes 1 order picked)
    : shape.mapM (allocSize inputs) = .ok picked := by
  have each := Steps.mapM_eq_ok_iff.mp sized
  induction picks generalizing shape with
  | nil =>
      obtain rfl := Option.some.inj composed
      rfl
  | cons found _ ih =>
      rename_i axis size order picked _
      rw [List.mapM_cons] at composed
      obtain ⟨extent, here, composed⟩ := Option.bind_eq_some_iff.mp composed
      obtain ⟨rest, later, composed⟩ := Option.bind_eq_some_iff.mp composed
      obtain rfl := Option.some.inj composed
      have first : allocSize inputs extent = .ok size := by
        cases axis with
        | broadcast =>
            obtain rfl := Option.some.inj here
            exact congrArg Except.ok (Eq.symm found)
        | axis source =>
            have here : extents[source]? = some extent := here
            have found : sizes[source]? = some size := found
            have read := congrArg (·[source]?) each
            simp only [List.getElem?_map, here, found, Option.map_some] at read
            exact Option.some.inj read
      rw [List.mapM_cons, first, ih later]
      rfl

/-- A shuffle of a new tensor that only puts axes in front of those of the value is a new tensor of
the shuffled shape.
-/
theorem shuffle_of_alloc {order : ShuffleOrder} {extents shape : List ExtentSource}
    {inputs : Inputs} {value middle result : Tensor} (first : inputs.tensor 0 = .ok value)
    (all : order.kept = List.range extents.length)
    (inFront : Rules.insertsInFront order (extents.length - value.rank) = true)
    (composed : order.mapM (Rules.shuffledExtent extents) = some shape)
    (filled : alloc extents inputs = .ok middle) (shuffled : shuffle order middle = .ok result)
    : alloc shape inputs = .ok result := by
  have distinct : order.kept.Nodup := by
    rw [all]
    exact List.nodup_range
  have fills := (alloc_eq_ok_iff first).mp filled
  have shuffles := (shuffle_eq_ok_iff distinct).mp shuffled
  have length : extents.length = middle.sizes.length := by
    have each := congrArg List.length (Steps.mapM_eq_ok_iff.mp fills.sizes)
    simpa using each
  have inside : middle.sizes.length - value.sizes.length ≤ middle.sizes.length := Nat.sub_le ..
  rw [length] at all inFront
  obtain ⟨front, ends⟩ := eq_append_of_insertsInFront all inside inFront
  have rank := fills.stretch.rank
  have orderLength : order.length = front.length + value.sizes.length := by
    rw [ends, List.length_append, List.length_map, List.length_range']
    omega
  have resultLength : result.sizes.length = front.length + value.sizes.length :=
    shuffles.picks.length_eq.symm.trans orderLength
  have last := drop_picks ends inside shuffles.picks
  have gap : result.sizes.length - value.sizes.length = front.length := by omega
  refine (alloc_eq_ok_iff first).mpr ⟨allocSizes_of_shuffle composed fills.sizes shuffles.picks,
    ⟨by omega, ?_⟩, ?_⟩
  · rw [gap, last]
    exact fills.stretch.axes
  · refine (fills.reads.trans shuffles.reads).congr fun coords point => ?_
    have coordsLength : coords.length = order.length :=
      point.length_eq.trans shuffles.picks.length_eq.symm
    rw [Function.comp_apply, gap, drop_sourceCoords ends distinct inside coordsLength]

/-- A value that only got axes in front fills a tensor like the value itself. -/
theorem alloc_of_shuffle {order : ShuffleOrder} {extents : List ExtentSource} {inputs : Inputs}
    {value middle result : Tensor} (padding : Rules.isLeftPadding order value.rank = true)
    (behind : ∀ extent ∈ extents, extent.operand? ≠ some 0)
    (shuffled : shuffle order value = .ok middle)
    (filled : alloc extents (.tensor middle :: inputs) = .ok result)
    : alloc extents (.tensor value :: inputs) = .ok result := by
  obtain ⟨count, rfl⟩ := eq_append_of_isLeftPadding padding
  have ends : List.replicate count ShuffleAxis.broadcast ++ ShuffleOrder.identity value.rank
      = List.replicate count ShuffleAxis.broadcast
        ++ (List.range' 0 (value.sizes.length - 0)).map .axis := by
    rw [ShuffleOrder.identity, List.range_eq_range']
    rfl
  have distinct
      : (ShuffleOrder.kept (List.replicate count ShuffleAxis.broadcast
          ++ ShuffleOrder.identity value.rank)).Nodup := by
    have none : ShuffleOrder.kept (List.replicate count ShuffleAxis.broadcast) = [] := by
      rw [ShuffleOrder.kept, List.filterMap_replicate_of_none rfl]
    rw [ShuffleOrder.kept, List.filterMap_append]
    change (ShuffleOrder.kept _ ++ ShuffleOrder.kept _).Nodup
    rw [none, List.nil_append]
    exact nodup_kept_identity value.rank
  have shuffles := (shuffle_eq_ok_iff distinct).mp shuffled
  have fills := (alloc_eq_ok_iff (Inputs.tensor_cons_zero middle inputs)).mp filled
  have sizes := drop_picks ends (Nat.zero_le _) shuffles.picks
  rw [List.length_replicate, List.drop_zero] at sizes
  have length : middle.sizes.length = count + value.sizes.length := by
    have order := shuffles.picks.length_eq
    rw [List.length_append, List.length_replicate, ShuffleOrder.identity, List.length_map,
      List.length_range] at order
    exact order.symm
  have rank := fills.stretch.rank
  have gap : result.sizes.length - middle.sizes.length + count
      = result.sizes.length - value.sizes.length := by
    omega
  refine (alloc_eq_ok_iff (Inputs.tensor_cons_zero value inputs)).mpr ⟨?_, ⟨by omega, ?_⟩, ?_⟩
  · rw [← fills.sizes]
    exact Steps.mapM_congr fun extent member => allocSize_cons (behind extent member) _ _ inputs
  · have axes := List.forall₂_drop count fills.stretch.axes
    rwa [sizes, List.drop_drop, gap] at axes
  · refine (shuffles.reads.trans fills.reads).congr fun coords point => ?_
    have lengths := point.length_eq
    have source := @drop_sourceCoords _ _ _ _ (Elementwise.collapse middle.sizes
        (coords.drop (result.sizes.length - middle.sizes.length))) ends distinct (Nat.zero_le _) (by
        rw [shuffles.picks.length_eq, Elementwise.collapse, List.length_zipWith, List.length_drop]
        omega)
    rw [List.drop_zero, List.length_replicate] at source
    rw [Function.comp_apply, source, Elementwise.collapse, List.drop_zipWith, sizes, List.drop_drop,
      gap]
    rfl

end Dataflow.Movement
