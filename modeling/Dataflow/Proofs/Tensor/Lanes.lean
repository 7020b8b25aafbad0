import Dataflow.Proofs.Tensor.Elementwise
import Dataflow.Proofs.Tensor.Reduction
import Mathlib.Data.List.Zip

/-!
Lanes of reductions. A position of the result combines the elements whose coordinates agree with its
own on the axes that are not reduced. Where no reduced axis is empty, there are such elements.
-/

namespace Dataflow.Reduce

-----------------------------------------------------------------------------------------
-- Groups
-----------------------------------------------------------------------------------------

variable {α β : Type}

/-- Changed items belong to the same positions. -/
theorem group_map (change : α → β) (targets : List Nat) (items : List α) (position : Nat)
    : group targets (items.map change) position = (group targets items position).map change := by
  induction items generalizing targets with
  | nil => simp [group]
  | cons item items ih =>
      cases targets with
      | nil => simp [group]
      | cons target targets =>
          have later := ih targets
          simp only [group] at later
          simp only [group, List.map_cons, List.zip_cons_cons, List.filter_cons]
          split_ifs <;> simp [later]

/-- Items of a group are items. -/
theorem mem_of_mem_group {targets : List Nat} {items : List α} {position : Nat} {item : α}
    (member : item ∈ group targets items position)
    : item ∈ items := by
  obtain ⟨⟨other, target⟩, found, rfl⟩ := List.mem_map.mp member
  exact (List.of_mem_zip (List.mem_filter.mp found).1).1

/-- A target belongs to an item, if there are as many items as targets. -/
theorem group_ne_nil {targets : List Nat} {items : List α} {position : Nat}
    (length : items.length = targets.length) (member : position ∈ targets)
    : group targets items position ≠ [] := by
  obtain ⟨place, inside, rfl⟩ := List.mem_iff_getElem.mp member
  have zipped : (items[place], targets[place]) ∈ items.zip targets := by
    rw [← List.getElem_zip (h := by simpa [length] using inside)]
    exact List.getElem_mem _
  refine List.ne_nil_of_mem (a := items[place]) ?_
  exact List.mem_map.mpr ⟨_, List.mem_filter.mpr ⟨zipped, by simp⟩, rfl⟩

/-- Combining changed items, if the change goes along with the steps. -/
theorem combine_map {step other : α → α → α} {unit otherUnit : α} {change : α → α}
    {targets : List Nat} {items : List α} {count : Nat}
    (same
      : ∀ position < count,
          ((group targets items position).map change).foldl step unit
            = change ((group targets items position).foldl other otherUnit))
    : combine step unit targets (items.map change) count
      = (combine other otherUnit targets items count).map change := by
  rw [combine, combine, List.map_map]
  apply List.map_congr_left
  intro position member
  rw [group_map]
  exact same position (List.mem_range.mp member)

-----------------------------------------------------------------------------------------
-- Targets
-----------------------------------------------------------------------------------------

@[simp] theorem length_keptSizes (axes : List Nat) (axis : Nat) (sizes : List Nat)
    : (keptSizes axes axis sizes).length = sizes.length := by
  induction sizes generalizing axis with
  | nil => rfl
  | cons size sizes ih => simp [keptSizes, ih]

/-- The target of an element is the position of its coordinates without the reduced ones. -/
theorem targets_eq {sizes kept : List Nat} (aligned : kept.length = sizes.length)
    : targets sizes kept
      = (RowMajor.points sizes).map fun coords =>
          RowMajor.position (Elementwise.collapse kept coords) (RowMajor.steps kept) := by
  have steps : sizes.length
      = (Elementwise.stretchedSteps kept (RowMajor.steps kept)).length := by
    simp [Elementwise.stretchedSteps, aligned]
  rw [targets]
  change RowMajor.strided sizes (Elementwise.stretchedSteps kept (RowMajor.steps kept)) = _
  rw [RowMajor.strided_eq steps]
  exact List.map_congr_left fun coords _ =>
    Elementwise.position_stretchedSteps kept coords (RowMajor.steps kept)

/-- Coordinates below the kept sizes are those of an element, if no reduced axis is empty. By
induction on the axes.
-/
theorem inside_of_keptSizes {axes : List Nat} {axis : Nat} {sizes coords : List Nat}
    (occupied : ∀ place : Nat, axes.contains (axis + place) = true → sizes[place]? ≠ some 0)
    (inside : RowMajor.Inside coords (keptSizes axes axis sizes))
    : RowMajor.Inside coords sizes
      ∧ Elementwise.collapse (keptSizes axes axis sizes) coords = coords := by
  induction sizes generalizing axis coords with
  | nil =>
      cases inside
      exact ⟨.nil, rfl⟩
  | cons size sizes ih =>
      simp only [keptSizes] at inside ⊢
      cases inside with
      | cons here later =>
          rename_i coord coords
          obtain ⟨below, same⟩ := @ih (axis + 1) _
            (fun place reduced => by
              have shifted := occupied (place + 1)
              rw [Nat.add_right_comm, Nat.add_assoc] at reduced
              simpa using shifted (by simpa [Nat.add_assoc] using reduced)) later
          have first : coord < size := by
            have filled := occupied 0
            simp only [Nat.add_zero, List.getElem?_cons_zero, ne_eq, Option.some.injEq] at filled
            split_ifs at here with reduced
            · have := filled reduced
              omega
            · exact here
          refine ⟨.cons first below, ?_⟩
          rw [Elementwise.collapse, List.zipWith_cons_cons]
          change _ :: Elementwise.collapse _ _ = _
          rw [same]
          congr 1
          split_ifs at here ⊢ <;> omega

/-- Every position of the result is a target, if no reduced axis is empty. -/
theorem mem_targets {axes sizes : List Nat} {position : Nat}
    (occupied : hasEmptyAxis axes sizes = false)
    (inside : position < RowMajor.count (keptSizes axes 0 sizes))
    : position ∈ targets sizes (keptSizes axes 0 sizes) := by
  have filled : ∀ place : Nat, axes.contains (0 + place) = true → sizes[place]? ≠ some 0 := by
    intro place reduced empty
    have found : hasEmptyAxis axes sizes = true := by
      rw [hasEmptyAxis, List.any_eq_true]
      exact ⟨place, by simpa using reduced, by simpa using empty⟩
    simp [found] at occupied
  obtain ⟨coords, below, rfl⟩ := RowMajor.exists_point inside
  obtain ⟨listed, same⟩ := inside_of_keptSizes filled below
  rw [targets_eq (by simp)]
  exact List.mem_map.mpr ⟨coords, RowMajor.mem_points.mpr listed, by rw [same]⟩

/-- There are as many targets as elements. -/
@[simp] theorem length_targets (axes sizes : List Nat)
    : (targets sizes (keptSizes axes 0 sizes)).length = RowMajor.count sizes := by
  rw [targets_eq (by simp), List.length_map, RowMajor.length_points]

-----------------------------------------------------------------------------------------
-- Reductions
-----------------------------------------------------------------------------------------

/-- What a reduction makes of a tensor, once its axes are known. -/
def combined (kind : ReduceKind) (axes : List Nat) (keepAxes : Bool) (input : Tensor) : Tensor :=
  let kept := keptSizes axes 0 input.sizes
  let targets := targets input.sizes kept
  let count := RowMajor.count kept
  { sizes := resultSizes axes keepAxes input.sizes
    elements :=
      if input.dtype.isFloat then
        .ofFloats input.dtype
          (combine (floatStep kind) (floatUnit kind) targets input.elements.toFloats count)
      else
        .ofInts input.dtype
          (combine (intStep kind) (intUnit kind) targets input.elements.toInts count) }

@[simp] theorem sizes_combined (kind : ReduceKind) (axes : List Nat) (keepAxes : Bool)
    (input : Tensor)
    : (combined kind axes keepAxes input).sizes = resultSizes axes keepAxes input.sizes :=
  rfl

@[simp] theorem dtype_combined (kind : ReduceKind) (axes : List Nat) (keepAxes : Bool)
    (input : Tensor)
    : (combined kind axes keepAxes input).dtype = input.dtype := by
  rw [Tensor.dtype, combined]
  dsimp only
  split_ifs <;> simp

theorem valid_combined (kind : ReduceKind) (axes : List Nat) (keepAxes : Bool) (input : Tensor)
    : (combined kind axes keepAxes input).Valid := by
  rw [Tensor.Valid, sizes_combined, count_resultSizes, combined]
  dsimp only
  split_ifs <;> simp [combine]

theorem elements_combined_of_isFloat {input : Tensor} (float : input.dtype.isFloat = true)
    (kind : ReduceKind) (axes : List Nat) (keepAxes : Bool)
    : (combined kind axes keepAxes input).elements
      = .ofFloats input.dtype
          (combine (floatStep kind) (floatUnit kind)
            (targets input.sizes (keptSizes axes 0 input.sizes)) input.elements.toFloats
            (RowMajor.count (keptSizes axes 0 input.sizes))) := by
  rw [combined]
  exact if_pos float

theorem elements_combined {input : Tensor} (exact : input.dtype.isFloat = false)
    (kind : ReduceKind) (axes : List Nat) (keepAxes : Bool)
    : (combined kind axes keepAxes input).elements
      = .ofInts input.dtype
          (combine (intStep kind) (intUnit kind)
            (targets input.sizes (keptSizes axes 0 input.sizes)) input.elements.toInts
            (RowMajor.count (keptSizes axes 0 input.sizes))) := by
  rw [combined]
  exact if_neg (by simp [exact])

theorem reduce_eq (reduction : Reduction) (input : Tensor)
    : reduce reduction input
      = (combinedAxes reduction input.sizes).map fun axes =>
          combined reduction.kind axes reduction.keepAxes input := by
  rw [reduce]
  cases combinedAxes reduction input.sizes <;> rfl

/-- Axes along which an extreme is taken are not empty. -/
theorem occupied_of_combinedAxes {reduction : Reduction} {sizes axes : List Nat}
    (extreme : reduction.kind ≠ .sum) (done : combinedAxes reduction sizes = .ok axes)
    : hasEmptyAxis axes sizes = false := by
  rw [combinedAxes] at done
  split at done
  · cases done
  · split_ifs at done with empty
    · cases done
    · obtain rfl := Except.ok.inj done
      simpa [extreme] using empty

/-- The two extremes are taken along the same axes. -/
theorem combinedAxes_congr {first second : ReduceKind} (extreme : first ≠ .sum)
    (other : second ≠ .sum) (axes : List Int) (keepAxes : Bool) (sizes : List Nat)
    : combinedAxes ⟨first, axes, keepAxes⟩ sizes = combinedAxes ⟨second, axes, keepAxes⟩ sizes := by
  simp [combinedAxes, extreme, other]

/-- The integers that a reduction combines at a position of its result: those whose coordinates are the
ones of the position, with zeros on the reduced axes.
-/
def lane (axes : List Nat) (input : Tensor) (position : Nat) : List Int64 :=
  let kept := keptSizes axes 0 input.sizes
  (((RowMajor.points input.sizes).zip input.elements.toInts).filter fun (coords, _) =>
    RowMajor.position (Elementwise.collapse kept coords) (RowMajor.steps kept) = position).map (·.2)

/-- The elements of a lane are those whose targets are its position. -/
theorem group_targets (axes : List Nat) (input : Tensor) (position : Nat)
    : group (targets input.sizes (keptSizes axes 0 input.sizes)) input.elements.toInts position
      = lane axes input position := by
  rw [group, targets_eq (by simp), List.zip_map_right, ← List.zip_swap, List.map_map,
    List.filter_map, List.map_map]
  rfl

theorem mem_of_mem_lane {axes : List Nat} {input : Tensor} {position : Nat} {item : Int64}
    (member : item ∈ lane axes input position)
    : item ∈ input.elements.toInts := by
  rw [← group_targets] at member
  exact mem_of_mem_group member

/-- Every lane holds some integer, if no reduced axis is empty. -/
theorem lane_ne_nil {axes : List Nat} {input : Tensor} {position : Nat} (valid : input.Valid)
    (occupied : hasEmptyAxis axes input.sizes = false)
    (inside : position < RowMajor.count (keptSizes axes 0 input.sizes))
    : lane axes input position ≠ [] := by
  rw [← group_targets]
  refine group_ne_nil ?_ (mem_targets occupied inside)
  rw [length_targets, Elements.length_toInts]
  exact valid

end Dataflow.Reduce
