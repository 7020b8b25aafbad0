import Dataflow.Proofs.Tensor.Filling
import Dataflow.Proofs.Typing.Shuffles

/-!
Types of filled tensors and shuffles. Values are aligned at the last axis, so axes that a shuffle
puts in front of them, before or after the filling, do not change the type.
-/

namespace Dataflow.Typing

variable {types rest : List ValueType} {type : ValueType} {extents shape : List ExtentSource}
  {order : ShuffleOrder} {value : TensorType}

-----------------------------------------------------------------------------------------
-- Filling
-----------------------------------------------------------------------------------------

/-- The extent of one axis of a filled tensor, given that of the value there. -/
def FillsTo (entry : ExtentSource × Option Dimension) (dim : Dimension) : Prop :=
  allocDim 0 entry.1 entry.2 = .ok dim

/-- The number of an axis only matters to errors. -/
theorem allocDim_eq_ok_iff {axis : Nat} {extent : ExtentSource} {source : Option Dimension}
    {dim : Dimension}
    : allocDim axis extent source = .ok dim ↔ FillsTo (extent, source) dim := by
  rw [FillsTo]
  rcases extent with target | position <;> rcases source with _ | size | _ <;>
    simp only [allocDim]
  split_ifs <;> simp

/-- By induction on the axes. -/
theorem allocDims_eq_ok_iff {axis : Nat} {sources : List (Option Dimension)} {dims : List Dimension}
    : allocDims axis extents sources = .ok dims
      ↔ List.Forall₂ FillsTo (extents.zip sources) dims := by
  induction extents generalizing axis sources dims with
  | nil => simp [allocDims, eq_comm]
  | cons extent extents ih =>
      cases sources with
      | nil => simp [allocDims, eq_comm]
      | cons source sources =>
          rw [allocDims, List.zip_cons_cons, List.forall₂_cons_left_iff]
          simp only [Steps.bind_eq_ok_iff, allocDim_eq_ok_iff, ih]
          constructor
          · rintro ⟨dim, here, later, fills, same⟩
            exact ⟨dim, later, here, fills, (Except.ok.inj same).symm⟩
          · rintro ⟨dim, later, here, fills, rfl⟩
            exact ⟨dim, here, later, fills, rfl⟩

theorem alloc_eq_ok_iff
    : alloc extents (.tensor value :: rest) = .ok type
      ↔ indicesAt (.tensor value :: rest) (extents.filterMap ExtentSource.operand?) = .ok ()
        ∧ rest.length = (extents.filterMap ExtentSource.operand?).length
        ∧ value.rank ≤ extents.length
        ∧ ∃ dims,
            List.Forall₂ FillsTo (extents.zip (alignedDims extents.length value.shape.dims)) dims
            ∧ type = .tensor ⟨value.dtype, ⟨dims⟩⟩ := by
  have first : tensorAt (.tensor value :: rest) 0 = .ok value := rfl
  have arities : rest.length + 1 = 1 + (extents.filterMap ExtentSource.operand?).length
      ↔ rest.length = (extents.filterMap ExtentSource.operand?).length := by omega
  rw [alloc, first, Steps.ok_bind]
  simp only [Steps.bind_eq_ok_iff, arity_eq_ok_iff, List.length_cons, arities]
  constructor
  · rintro ⟨_, indices, _, arity, done⟩
    split_ifs at done with short
    obtain ⟨dims, fills, same⟩ := Steps.bind_eq_ok_iff.mp done
    exact ⟨indices, arity, Nat.le_of_not_lt short, dims, allocDims_eq_ok_iff.mp fills,
      (Except.ok.inj same).symm⟩
  · rintro ⟨indices, arity, rank, dims, fills, rfl⟩
    refine ⟨(), indices, (), arity, ?_⟩
    rw [if_neg (Nat.not_lt.mpr rank), allocDims_eq_ok_iff.mpr fills]
    rfl

-----------------------------------------------------------------------------------------
-- Shuffles around fillings
-----------------------------------------------------------------------------------------

theorem shuffledExtent_eq (extents : List ExtentSource) (axis : ShuffleAxis)
    : Rules.shuffledExtent extents axis = axis.item? (.static 1) extents := by
  cases axis <;> rfl

/-- The extents of a value stay aligned at the end of an order with the axes of the value there. -/
theorem items?_alignedDims {front : ShuffleOrder} {dims : List Dimension} {rank : Nat}
    (fits : dims.length ≤ rank) (all : order.kept = List.range rank)
    (ends
      : order
        = front ++ (List.range' (rank - dims.length) (rank - (rank - dims.length))).map .axis)
    : order.items? none (alignedDims rank dims) = some (alignedDims order.length dims) := by
  have length : order.length = front.length + dims.length := by
    rw [ends, List.length_append, List.length_map, List.length_range']
    omega
  have inFront : ∀ axis ∈ front, axis.item? none (alignedDims rank dims) = some none := by
    intro axis member
    cases axis with
    | broadcast => rfl
    | axis source =>
        have inside : source < rank := by
          rw [← List.mem_range, ← all, ShuffleOrder.mem_kept, ends]
          exact List.mem_append_left _ member
        have before : source < rank - dims.length := by
          by_contra behind
          have distinct : order.kept.Nodup := all ▸ List.nodup_range
          rw [ends, ShuffleOrder.kept, List.filterMap_append] at distinct
          refine List.disjoint_of_nodup_append distinct (ShuffleOrder.mem_kept.mpr member) ?_
          rw [← ShuffleOrder.kept, ShuffleOrder.mem_kept]
          exact List.mem_map_of_mem (List.mem_range'_1.mpr ⟨Nat.le_of_not_lt behind, by omega⟩)
        rw [ShuffleAxis.item?, alignedDims, List.getElem?_append_left (by simpa using before)]
        rw [List.getElem?_replicate_of_lt before]
  have target
      : alignedDims order.length dims = List.replicate front.length none ++ dims.map some := by
    rw [alignedDims, length, Nat.add_sub_cancel]
  refine Steps.mapM_eq_some_iff.mpr ?_
  rw [target, List.map_append, List.map_replicate]
  conv_lhs => rw [ends, List.map_append]
  congr 1
  · exact List.eq_replicate_iff.mpr ⟨List.length_map _, by simpa using inFront⟩
  · refine List.ext_getElem (by simp; omega) fun place left right => ?_
    have bound : place < dims.length := by simpa using right
    simp [ShuffleAxis.item?, alignedDims, bound]

/-- A shuffle of a filled tensor that only puts axes in front of those of the value has the type of
the tensor that is filled at once.
-/
theorem alloc_of_shuffle {filled : TensorType}
    (inner : alloc extents (.tensor value :: rest) = .ok (.tensor filled))
    (all : order.kept = List.range extents.length)
    (inFront : Rules.insertsInFront order (extents.length - value.rank) = true)
    (composed : order.mapM (Rules.shuffledExtent extents) = some shape)
    (outer : shuffle order [.tensor filled] = .ok type)
    : alloc shape (.tensor value :: rest) = .ok type := by
  obtain ⟨indices, arity, rank, dims, fills, same⟩ := alloc_eq_ok_iff.mp inner
  obtain rfl := ValueType.tensor.inj same
  obtain ⟨_, result, same, shapes, rfl⟩ := shuffle_eq_ok_iff.mp outer
  obtain rfl := ValueType.tensor.inj (List.head_eq_of_cons_eq same)
  obtain ⟨front, ends⟩ :=
    Movement.eq_append_of_insertsInFront all (Nat.sub_le _ _) inFront
  have taken := ShuffleOrder.items?_of_mapM (shuffledExtent_eq extents) composed
  have length := ShuffleOrder.length_of_items? taken
  have aligned := items?_alignedDims rank all ends
  obtain ⟨dims', found, fills'⟩ :=
    @ShuffleOrder.exists_items?_of_forall₂ _ _ _ _ _ _ FillsTo _ (.static 1)
      (show FillsTo (.static 1, none) (.static 1) from rfl) fills
      (ShuffleOrder.items?_zip taken aligned)
  obtain rfl := Option.some.inj (found.symm.trans shapes.taken)
  have ordered : order.preservesOrder = true := by
    rw [ShuffleOrder.preservesOrder, all]
    exact ShuffleOrder.increasing_iff.mpr List.pairwise_lt_range
  have positions : shape.filterMap ExtentSource.operand? = extents.filterMap ExtentSource.operand? := by
    refine ShuffleOrder.filterMap_of_preservesOrder ordered (fun _ => rfl) ?_ taken
    intro axis extent found untaken
    rw [all, List.mem_range] at untaken
    exact absurd (List.getElem?_eq_some_iff.mp found).1 untaken
  rw [← positions] at indices arity
  rw [← length] at fills'
  refine alloc_eq_ok_iff.mpr ⟨indices, arity, ?_, _, fills', rfl⟩
  have whole := congrArg List.length ends
  rw [List.length_append, List.length_map, List.length_range'] at whole
  omega

theorem items?_padding {α : Type} (unit : α) (items : List α) (count : Nat)
    : ShuffleOrder.items? (List.replicate count .broadcast ++ ShuffleOrder.identity items.length) unit
        items
      = some (List.replicate count unit ++ items) := by
  induction count with
  | zero => exact ShuffleOrder.items?_identity unit items
  | succ count ih =>
      rw [List.replicate_succ, List.cons_append, ShuffleOrder.items?_cons_eq_some_iff]
      exact ⟨unit, _, rfl, ih, rfl⟩

/-- An axis of extent one fills like an axis that the value does not have. -/
theorem FillsTo.of_unit {extent : ExtentSource} {dim : Dimension}
    (fills : FillsTo (extent, some (.static 1)) dim)
    : FillsTo (extent, none) dim := by
  cases extent with
  | static target =>
      rw [FillsTo, allocDim, if_pos (.inl rfl)] at fills
      exact fills
  | operand position => exact fills

/-- By induction on the axes. -/
theorem forall₂_fillsTo_of_units {sources others : List (Option Dimension)} {dims : List Dimension}
    (units
      : List.Forall₂ (fun source other => other = source ∨ source = some (.static 1) ∧ other = none)
          sources others)
    (fills : List.Forall₂ FillsTo (extents.zip sources) dims)
    : List.Forall₂ FillsTo (extents.zip others) dims := by
  induction units generalizing extents dims with
  | nil => exact fills
  | cons here _ ih =>
      cases extents with
      | nil => exact fills
      | cons extent extents =>
          obtain ⟨dim, dims, first, later, rfl⟩ := List.forall₂_cons_left_iff.mp fills
          refine .cons ?_ (ih later)
          rcases here with rfl | ⟨rfl, rfl⟩
          · exact first
          · exact first.of_unit

/-- A value that only got axes in front fills a tensor of the same type as the value itself. -/
theorem alloc_of_padded {padded : TensorType}
    (inner : shuffle order [.tensor value] = .ok (.tensor padded))
    (padding : Rules.isLeftPadding order value.rank = true)
    (outer : alloc extents (.tensor padded :: rest) = .ok type)
    : alloc extents (.tensor value :: rest) = .ok type := by
  obtain ⟨_, dims, same, shapes, same'⟩ := shuffle_eq_ok_iff.mp inner
  obtain rfl := ValueType.tensor.inj (List.head_eq_of_cons_eq same)
  obtain rfl := ValueType.tensor.inj same'
  obtain ⟨count, rfl⟩ := Movement.eq_append_of_isLeftPadding padding
  obtain rfl := Option.some.inj (shapes.taken.symm.trans (items?_padding _ _ count))
  obtain ⟨indices, arity, rank, result, fills, rfl⟩ := alloc_eq_ok_iff.mp outer
  have rank : count + value.rank ≤ extents.length := by simpa [TensorType.rank, Shape.rank] using rank
  refine alloc_eq_ok_iff.mpr
    ⟨indicesAt_cons _ _ rest _ ▸ indices, arity, by omega, result, ?_, rfl⟩
  refine forall₂_fillsTo_of_units ?_ fills
  have more : extents.length - value.shape.dims.length
      = extents.length - (count + value.shape.dims.length) + count := by
    have : value.shape.dims.length = value.rank := rfl
    omega
  have same (sources : List (Option Dimension))
      : List.Forall₂ (fun source other => other = source ∨ source = some (.static 1) ∧ other = none)
          sources sources :=
    List.forall₂_same.mpr fun _ _ => .inl rfl
  rw [alignedDims, alignedDims, List.length_append, List.length_replicate, more,
    List.replicate_add, List.map_append, List.map_replicate, List.append_assoc]
  refine List.rel_append (same _) (List.rel_append ?_ (same _))
  refine List.forall₂_iff_get.mpr ⟨by simp, fun place _ _ => .inr ?_⟩
  rw [List.get_eq_getElem, List.get_eq_getElem, List.getElem_replicate, List.getElem_replicate]
  exact ⟨rfl, rfl⟩

end Dataflow.Typing
