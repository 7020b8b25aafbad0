import Dataflow.Proofs.Tensor.Movement

/-!
Tensors that read others. A kernel that moves elements reads, for every point of its result, one
point of its operand; two such kernels after each other read the point of the point. So kernels that
read the same points have the same results.
-/

namespace Dataflow

-----------------------------------------------------------------------------------------
-- Selections of selections
-----------------------------------------------------------------------------------------

namespace Elements

/-- Items at positions of selected items are items at the selected positions. -/
theorem select?_select? {α : Type} {items selected : List α} {positions further chosen : List Nat}
    (done : select? positions items = some selected)
    (picked : select? further positions = some chosen)
    : select? chosen items = select? further selected := by
  have each := Steps.mapM_eq_some_iff.mp done
  induction further generalizing chosen with
  | nil =>
      obtain rfl := Option.some.inj picked
      rfl
  | cons first rest ih =>
      rw [select?, List.mapM_cons] at picked
      obtain ⟨position, here, picked⟩ := Option.bind_eq_some_iff.mp picked
      obtain ⟨positions', later, picked⟩ := Option.bind_eq_some_iff.mp picked
      obtain rfl := Option.some.inj picked
      have item := congrArg (·[first]?) each
      simp only [List.getElem?_map, here, Option.map_some] at item
      obtain ⟨value, found, reads⟩ := Option.map_eq_some_iff.mp item.symm
      have further := ih later
      rw [select?, select?] at further
      rw [select?, select?, List.mapM_cons, List.mapM_cons, further, found, ← reads]

/-- Elements at positions of gathered elements are elements at the gathered positions. -/
theorem gather?_gather? {elements gathered : Elements} {positions further chosen : List Nat}
    (done : elements.gather? positions = some gathered)
    (picked : select? further positions = some chosen)
    : elements.gather? chosen = gathered.gather? further := by
  cases elements <;>
    · obtain ⟨selected, found, rfl⟩ := Option.map_eq_some_iff.mp done
      rw [gather?, gather?, mapList?, mapList?, select?_select? found picked]

/-- All elements in their order. -/
theorem gather?_range (elements : Elements)
    : elements.gather? (List.range elements.size) = some elements := by
  have all {α : Type} (items : List α) : select? (List.range items.length) items = some items := by
    rw [select?, Steps.mapM_eq_some_iff]
    apply List.ext_getElem?
    intro place
    rw [List.getElem?_map, List.getElem?_map]
    by_cases inside : place < items.length
    · rw [List.getElem?_range inside, List.getElem?_eq_getElem inside, Option.map_some,
        Option.map_some, List.getElem?_eq_getElem inside]
    · rw [List.getElem?_eq_none (by simpa using inside),
        List.getElem?_eq_none (by simpa using inside)]
      rfl
  cases elements <;>
    · rw [gather?, mapList?, size, all]
      rfl

end Elements

-----------------------------------------------------------------------------------------
-- Reading points
-----------------------------------------------------------------------------------------

namespace Tensor

/-- A tensor reads, for each of its points, the point `source` of another one. -/
structure Reads (result input : Tensor) (source : List Nat → List Nat) : Prop where
  inside
    : ∀ coords, RowMajor.Inside coords result.sizes → RowMajor.Inside (source coords) input.sizes
  gathers
    : input.elements.gather?
          ((RowMajor.points result.sizes).map fun coords =>
            RowMajor.position (source coords) (RowMajor.steps input.sizes))
        = some result.elements

variable {input middle result other : Tensor} {source inner outer : List Nat → List Nat}

theorem gather_eq_ok_iff {sizes positions : List Nat}
    : input.gather sizes positions = .ok result
      ↔ result.sizes = sizes ∧ input.elements.gather? positions = some result.elements := by
  rw [gather, Steps.bind_eq_ok_iff]
  simp only [Outcome.require_eq_ok_iff, Except.ok.injEq]
  constructor
  · rintro ⟨elements, found, rfl⟩
    exact ⟨rfl, found⟩
  · rintro ⟨rfl, found⟩
    exact ⟨result.elements, found, rfl⟩

/-- A valid tensor can be read at points inside of it. -/
theorem Valid.exists_reads {sizes : List Nat} {source : List Nat → List Nat} (valid : input.Valid)
    (inside : ∀ coords, RowMajor.Inside coords sizes → RowMajor.Inside (source coords) input.sizes)
    : ∃ result : Tensor, result.sizes = sizes ∧ result.Reads input source := by
  obtain ⟨elements, gathered, -⟩ := @Elements.exists_gather? input.elements
    ((RowMajor.points sizes).map fun coords =>
      RowMajor.position (source coords) (RowMajor.steps input.sizes)) fun position member => by
    obtain ⟨coords, point, rfl⟩ := List.mem_map.mp member
    rw [show input.elements.size = RowMajor.count input.sizes from valid]
    exact RowMajor.position_lt_count (inside coords (RowMajor.mem_points.mp point))
  exact ⟨⟨sizes, elements⟩, rfl, inside, gathered⟩

/-- Positions of a valid tensor in their order. -/
theorem map_position_points (sizes : List Nat)
    : (RowMajor.points sizes).map (RowMajor.position · (RowMajor.steps sizes))
      = List.range (RowMajor.count sizes) := by
  apply List.ext_getElem?
  intro place
  rw [List.getElem?_map]
  by_cases inside : place < RowMajor.count sizes
  · obtain ⟨coords, below, rfl⟩ := RowMajor.exists_point inside
    rw [RowMajor.getElem?_points below, List.getElem?_range inside, Option.map_some]
  · rw [List.getElem?_eq_none (by simpa using inside), List.getElem?_eq_none (by simpa using inside)]
    rfl

/-- A valid tensor reads itself at every point. -/
theorem Reads.refl (valid : input.Valid) : Reads input input id where
  inside _ point := point
  gathers := by
    have all := map_position_points input.sizes
    simp only [id]
    rw [all, ← show input.elements.size = RowMajor.count input.sizes from valid]
    exact input.elements.gather?_range

/-- What reads a tensor that reads another one reads the other one. -/
theorem Reads.trans (first : Reads middle input inner) (second : Reads result middle outer)
    : Reads result input (inner ∘ outer) where
  inside coords point := first.inside _ (second.inside coords point)
  gathers := by
    rw [← second.gathers]
    refine Elements.gather?_gather? first.gathers ?_
    rw [Elements.select?, Steps.mapM_eq_some_iff, List.map_map, List.map_map]
    apply List.map_congr_left
    intro coords member
    have point := second.inside coords (RowMajor.mem_points.mp member)
    simp only [Function.comp_apply]
    rw [List.getElem?_map, RowMajor.getElem?_points point, Option.map_some]

/-- It only matters which points are read for the points of the result. -/
theorem Reads.congr (reads : Reads result input inner)
    (same : ∀ coords, RowMajor.Inside coords result.sizes → inner coords = outer coords)
    : Reads result input outer where
  inside coords point := same coords point ▸ reads.inside coords point
  gathers := by
    rw [← reads.gathers]
    congr 1
    apply List.map_congr_left
    intro coords member
    rw [same coords (RowMajor.mem_points.mp member)]

/-- Tensors of the same sizes that read the same points are the same. -/
theorem Reads.unique (first : Reads result input source) (second : Reads other input source)
    (sizes : result.sizes = other.sizes)
    : result = other := by
  have elements : result.elements = other.elements := by
    have both := first.gathers
    rw [sizes, second.gathers] at both
    exact (Option.some.inj both).symm
  cases result
  cases other
  exact congrArg₂ Tensor.mk sizes elements

/-- A tensor that reads every point of a valid one in its place is the other one. -/
theorem Reads.eq_of_id (reads : Reads result input id) (valid : input.Valid)
    (sizes : result.sizes = input.sizes)
    : result = input :=
  reads.unique (Reads.refl valid) sizes

end Tensor

end Dataflow
