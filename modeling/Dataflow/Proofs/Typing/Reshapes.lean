import Dataflow.Proofs.Typing.Shuffles
import Dataflow.Rewrite.Rules.Shuffle
import Mathlib.Data.List.NodupEquivFin

/-!
Types of reshaped tensors and shuffles. A shuffle that keeps axes in their order only adds and drops
axes of extent one, so the number of elements stays, and so does the product of the given extents.
-/

namespace Dataflow

-----------------------------------------------------------------------------------------
-- Products
-----------------------------------------------------------------------------------------

/-- The extents other than one. -/
def Dimension.factor? : Dimension → Option Dimension :=
  Option.guard fun dim => dim ≠ .static 1

/-- The explicit extents other than one. -/
def ReshapeExtent.factor? : ReshapeExtent → Option Nat
  | .explicit size => if size = 1 then none else some size
  | _ => none

/-- The product of sizes, from some number on. -/
def productFrom (total : Nat) (sizes : List Nat) : Option Nat :=
  sizes.foldlM
    (fun total extent => if total * extent < sizeLimit then some (total * extent) else none) total

theorem bind_productFrom_cons {total size : Nat} (sizes : Option (List Nat))
    : (sizes.map (size :: ·)).bind (productFrom total)
      = if total * size < sizeLimit then sizes.bind (productFrom (total * size)) else none := by
  cases sizes with
  | none => simp
  | some sizes =>
      rw [Option.map_some, Option.bind_some, productFrom, List.foldlM_cons]
      split_ifs <;> rfl

theorem mapM_size?_cons (size : Nat) (dims : List Dimension)
    : (Dimension.static size :: dims).mapM Dimension.size?
      = (dims.mapM Dimension.size?).map (size :: ·) := by
  rw [List.mapM_cons]
  cases dims.mapM Dimension.size? <;> rfl

/-- By induction on the extents. -/
theorem productFrom_eq (dims : List Dimension) {total : Nat} (small : total < sizeLimit)
    : (dims.mapM Dimension.size?).bind (productFrom total)
      = ((dims.filterMap Dimension.factor?).mapM Dimension.size?).bind (productFrom total) := by
  induction dims generalizing total with
  | nil => rfl
  | cons dim dims ih =>
      cases dim with
      | unknown => rfl
      | static size =>
          rw [mapM_size?_cons, bind_productFrom_cons, List.filterMap_cons]
          by_cases one : size = 1
          · rw [one, Nat.mul_one, if_pos small]
            exact ih small
          · have stays : Dimension.factor? (.static size) = some (.static size) := by
              simp [Dimension.factor?, Option.guard, one]
            rw [stays]
            dsimp only
            rw [mapM_size?_cons, bind_productFrom_cons]
            split_ifs with fits
            · exact ih fits
            · rfl

/-- Extents of one do not change the number of elements. -/
theorem Shape.elementCount?_eq (shape : Shape)
    : shape.elementCount? = (Shape.mk (shape.dims.filterMap Dimension.factor?)).elementCount? :=
  productFrom_eq shape.dims (by decide)

namespace Typing

variable {types rest : List ValueType} {type : ValueType} {extents shape : List ReshapeExtent}
  {order : ShuffleOrder} {value : TensorType}

/-- The product of the explicit extents is that of those other than one. -/
theorem explicitProduct_eq_foldl (extents : List ReshapeExtent)
    : explicitProduct extents
      = (extents.filterMap ReshapeExtent.factor?).foldl saturatingMul 1 := by
  have start : 1 < sizeLimit := by decide
  rw [explicitProduct]
  generalize 1 = product at start
  induction extents generalizing product with
  | nil => rfl
  | cons extent extents ih =>
      rw [List.foldl_cons, List.filterMap_cons]
      cases extent with
      | explicit size =>
          rw [ReshapeExtent.factor?]
          have small : saturatingMul product size < sizeLimit :=
            Nat.lt_of_le_of_lt (Nat.min_le_right _ _) (by decide)
          split_ifs with one
          · have same : saturatingMul product size = product := by
              rw [saturatingMul, one, Nat.mul_one, Nat.min_eq_left (Nat.le_sub_one_of_lt start)]
            dsimp only
            rw [same]
            exact ih product start
          · exact ih _ small
      | infer => exact ih product start
      | operand position => exact ih product start

/-- A reshape of some operands has a type. -/
theorem reshape_eq_ok_iff
    : reshape extents (.tensor value :: rest) = .ok type
      ↔ indicesAt (.tensor value :: rest) (extents.filterMap ReshapeExtent.operand?) = .ok ()
        ∧ rest.length = (extents.filterMap ReshapeExtent.operand?).length
        ∧ extents.count .infer ≤ 1
        ∧ ∃ dim,
            inferredDim value.elementCount? (extents.count .infer)
                (extents.filterMap ReshapeExtent.operand?).isEmpty (explicitProduct extents)
              = .ok dim
            ∧ type = .tensor ⟨value.dtype, ⟨extents.map (reshapeDim dim)⟩⟩ := by
  have first : tensorAt (.tensor value :: rest) 0 = .ok value := rfl
  have arities : rest.length + 1 = 1 + (extents.filterMap ReshapeExtent.operand?).length
      ↔ rest.length = (extents.filterMap ReshapeExtent.operand?).length := by omega
  rw [reshape, first, Steps.ok_bind]
  simp only [Steps.bind_eq_ok_iff, arity_eq_ok_iff, List.length_cons, arities]
  constructor
  · rintro ⟨_, indices, _, arity, done⟩
    split_ifs at done with several
    obtain ⟨dim, inferred, same⟩ := Steps.bind_eq_ok_iff.mp done
    exact ⟨indices, arity, Nat.le_of_not_lt several, dim, inferred, (Except.ok.inj same).symm⟩
  · rintro ⟨indices, arity, several, dim, inferred, rfl⟩
    refine ⟨(), indices, (), arity, ?_⟩
    rw [if_neg (Nat.not_lt.mpr several), inferred]
    rfl

-----------------------------------------------------------------------------------------
-- Shuffles around reshapes
-----------------------------------------------------------------------------------------

/-- A shuffle that keeps axes in their order does not change the number of elements. -/
theorem elementCount?_of_shapes {dims result : List Dimension} (ordered : order.preservesOrder = true)
    (shapes : order.Shapes dims result)
    : (Shape.mk result).elementCount? = (Shape.mk dims).elementCount? := by
  have factors
      : result.filterMap Dimension.factor? = dims.filterMap Dimension.factor? := by
    refine ShuffleOrder.filterMap_of_preservesOrder ordered (fun _ => rfl) ?_ shapes.taken
    intro axis dim found untaken
    rw [shapes.units axis dim found untaken]
    rfl
  rw [Shape.elementCount?_eq, factors, ← Shape.elementCount?_eq]

/-- A reshape does not see a shuffle that keeps axes in their order. -/
theorem reshape_of_shuffled {shuffled : TensorType} (ordered : order.preservesOrder = true)
    (inner : shuffle order [.tensor value] = .ok (.tensor shuffled))
    (outer : reshape extents (.tensor shuffled :: rest) = .ok type)
    : reshape extents (.tensor value :: rest) = .ok type := by
  obtain ⟨_, dims, same, shapes, same'⟩ := shuffle_eq_ok_iff.mp inner
  obtain rfl := ValueType.tensor.inj (List.head_eq_of_cons_eq same)
  obtain rfl := ValueType.tensor.inj same'
  obtain ⟨indices, arity, several, dim, inferred, rfl⟩ := reshape_eq_ok_iff.mp outer
  refine reshape_eq_ok_iff.mpr
    ⟨indicesAt_cons _ _ rest _ ▸ indices, arity, several, dim, ?_, rfl⟩
  rw [← inferred]
  exact congrArg (inferredDim · _ _ _) (elementCount?_of_shapes ordered shapes).symm

theorem shuffledReshapeExtent_eq (extents : List ReshapeExtent) (axis : ShuffleAxis)
    : Rules.shuffledReshapeExtent extents axis = axis.item? (.explicit 1) extents := by
  cases axis <;> rfl

/-- An order that shuffles a reshaped tensor names extents of the reshape. -/
theorem exists_shuffledReshapeExtents {dim : Dimension} {result : List Dimension}
    (shapes : order.Shapes (extents.map (reshapeDim dim)) result)
    : ∃ shape, order.mapM (Rules.shuffledReshapeExtent extents) = some shape := by
  obtain ⟨shape, taken, -⟩ :=
    @ShuffleOrder.exists_items?_of_forall₂ _ _ _ _ _ _ (fun _ _ => True) extents
      (ReshapeExtent.explicit 1) trivial
      (List.forall₂_iff_get.mpr ⟨List.length_map _, fun _ _ _ => trivial⟩) shapes.taken
  refine ⟨shape, ?_⟩
  rw [← taken, ShuffleOrder.items?]
  exact congrArg order.mapM (funext (shuffledReshapeExtent_eq extents))

theorem two_le_count {α : Type} [DecidableEq α] {list : List α} {item : α} {first second : Nat}
    (here : list[first]? = some item) (there : list[second]? = some item) (differ : first ≠ second)
    : 2 ≤ list.count item := by
  obtain ⟨boundFirst, here⟩ := List.getElem?_eq_some_iff.mp here
  obtain ⟨boundSecond, there⟩ := List.getElem?_eq_some_iff.mp there
  rw [← List.duplicate_iff_two_le_count, List.duplicate_iff_exists_distinct_get]
  rcases Nat.lt_or_gt_of_ne differ with before | behind
  · exact ⟨⟨first, boundFirst⟩, ⟨second, boundSecond⟩, before, here.symm, there.symm⟩
  · exact ⟨⟨second, boundSecond⟩, ⟨first, boundFirst⟩, behind, there.symm, here.symm⟩

theorem count_eq_length (extents : List ReshapeExtent)
    : extents.count .infer
      = (extents.filterMap (Option.guard fun extent => extent = .infer)).length := by
  rw [List.filterMap_eq_filter, List.count_eq_countP, List.countP_eq_length_filter]
  rfl

/-- The number of extents to infer, and whether one is left out, which has extent one then. -/
theorem count_infer_of_items? {dim : Dimension} {result : List Dimension}
    (ordered : order.preservesOrder = true)
    (shapes : order.Shapes (extents.map (reshapeDim dim)) result)
    (single : extents.count .infer ≤ 1) (taken : order.items? (.explicit 1) extents = some shape)
    : shape.count .infer = extents.count .infer
      ∨ .infer ∉ shape ∧ extents.count .infer = 1 ∧ dim = .static 1 := by
  by_cases dropped : ∃ axis : Nat, extents[axis]? = some .infer ∧ axis ∉ order.kept
  · obtain ⟨axis, found, untaken⟩ := dropped
    have some : 0 < extents.count .infer := List.count_pos_iff.mpr (List.mem_of_getElem? found)
    refine .inr ⟨fun member => ?_, by omega, shapes.units axis dim ?_ untaken⟩
    · obtain ⟨place, here⟩ := List.mem_iff_getElem?.mp member
      rw [ShuffleOrder.getElem?_of_items? taken] at here
      obtain ⟨first, there, here⟩ := Option.bind_eq_some_iff.mp here
      cases first with
      | broadcast => cases Option.some.inj here
      | axis source =>
          have differ : axis ≠ source := fun same =>
            untaken (same ▸ ShuffleOrder.mem_kept_iff_exists.mpr ⟨place, there⟩)
          exact absurd (two_le_count found here differ) (by omega)
    · rw [List.getElem?_map, found]
      rfl
  · refine .inl ?_
    rw [count_eq_length, count_eq_length]
    congr 1
    refine ShuffleOrder.filterMap_of_preservesOrder ordered (fun _ => rfl) ?_ taken
    intro axis extent found untaken
    have other : extent ≠ .infer := fun same => dropped ⟨axis, same ▸ found, untaken⟩
    simp [Option.guard, other]

/-- An extent that is inferred to be one need not be inferred. -/
theorem inferredDim_of_unit {count : Option Nat} {allKnown : Bool} {known : Nat}
    (inferred : inferredDim count 1 allKnown known = .ok (.static 1))
    : inferredDim count 0 allKnown known = .ok .unknown := by
  cases count with
  | none => cases Except.ok.inj inferred
  | some count =>
      rw [inferredDim] at inferred
      split_ifs at inferred with open_ one refused
      · cases Except.ok.inj inferred
      · have same : count / known = 1 := Dimension.static.inj (Except.ok.inj inferred)
        have divides := Nat.div_mul_cancel (Nat.dvd_of_mod_eq_zero (not_not.mp (not_or.mp refused).2))
        rw [same, Nat.one_mul] at divides
        rw [inferredDim, if_neg open_, if_neg Nat.zero_ne_one, if_pos divides.symm]
      · exact absurd rfl one

/-- A shuffle behind a reshape that keeps axes in their order belongs to the new shape. -/
theorem shuffle_of_reshape {reshaped : TensorType} (ordered : order.preservesOrder = true)
    (inner : reshape extents (.tensor value :: rest) = .ok (.tensor reshaped))
    (composed : order.mapM (Rules.shuffledReshapeExtent extents) = some shape)
    (outer : shuffle order [.tensor reshaped] = .ok type)
    : reshape shape (.tensor value :: rest) = .ok type := by
  obtain ⟨indices, arity, single, dim, inferred, same⟩ := reshape_eq_ok_iff.mp inner
  obtain rfl := ValueType.tensor.inj same
  obtain ⟨_, result, same, shapes, rfl⟩ := shuffle_eq_ok_iff.mp outer
  obtain rfl := ValueType.tensor.inj (List.head_eq_of_cons_eq same)
  have taken := ShuffleOrder.items?_of_mapM (shuffledReshapeExtent_eq extents) composed
  -- What is left out has extent one: it reads no operand, and changes no product.
  have left {axis : Nat} {extent : ReshapeExtent} (found : extents[axis]? = some extent)
      (untaken : axis ∉ order.kept)
      : reshapeDim dim extent = .static 1 := by
    refine shapes.units axis _ ?_ untaken
    rw [List.getElem?_map, found]
    rfl
  have positions
      : shape.filterMap ReshapeExtent.operand? = extents.filterMap ReshapeExtent.operand? := by
    refine ShuffleOrder.filterMap_of_preservesOrder ordered (fun _ => rfl) ?_ taken
    intro axis extent found untaken
    have unit := left found untaken
    cases extent with
    | operand position => cases unit
    | explicit size => rfl
    | infer => rfl
  have product : explicitProduct shape = explicitProduct extents := by
    rw [explicitProduct_eq_foldl, explicitProduct_eq_foldl]
    congr 1
    refine ShuffleOrder.filterMap_of_preservesOrder ordered (fun _ => rfl) ?_ taken
    intro axis extent found untaken
    have unit := left found untaken
    cases extent with
    | operand position => rfl
    | explicit size => exact if_pos (Dimension.static.inj unit)
    | infer => rfl
  have dims : result = shape.map (reshapeDim dim) := by
    have mapped := ShuffleOrder.items?_map (reshapeDim dim) taken
    exact Option.some.inj (shapes.taken.symm.trans mapped)
  rw [← positions] at indices arity inferred
  rw [← product] at inferred
  rcases count_infer_of_items? ordered shapes single taken with same | ⟨absent, one, unit⟩
  · rw [← same] at inferred single
    exact reshape_eq_ok_iff.mpr ⟨indices, arity, single, dim, inferred, by rw [dims]⟩
  · have none : shape.count .infer = 0 := List.count_eq_zero.mpr absent
    rw [one, unit] at inferred
    refine reshape_eq_ok_iff.mpr ⟨indices, arity, by omega, .unknown, ?_, ?_⟩
    · rw [none]
      exact inferredDim_of_unit inferred
    · have same : shape.map (reshapeDim dim) = shape.map (reshapeDim .unknown) := by
        refine List.map_congr_left fun extent member => ?_
        cases extent with
        | infer => exact absurd member absent
        | _ => rfl
      rw [dims, same]

end Typing

end Dataflow
