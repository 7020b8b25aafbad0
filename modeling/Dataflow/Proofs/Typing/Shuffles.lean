import Dataflow.Proofs.Shape.Orders
import Dataflow.Proofs.Tensor.Shuffling
import Dataflow.Proofs.Typing.Inference
import Mathlib.Data.List.Sort

/-!
Orders of axes as rearrangements of lists, and types of shuffled tensors. Whatever is listed for the
axes of a source, an order makes a list for the axes of its result, with a unit for new axes. Extents
of types are rearranged like this, and so are the extents and orders that operations are given. A
shuffle has a type iff its order names axes that exist, each one once, and leaves out axes of extent
one only. Two shuffles in a row have the type of the composed one.
-/

namespace Dataflow

/-- What an axis takes from a list for the axes of the source. -/
def ShuffleAxis.item? {α : Type} (unit : α) (items : List α) : ShuffleAxis → Option α
  | .broadcast => some unit
  | .axis source => items[source]?

namespace ShuffleOrder

variable {α β : Type} {unit : α} {items picked : List α} {order : ShuffleOrder}

/-- What an order takes from a list for the axes of the source. -/
def items? (order : ShuffleOrder) (unit : α) (items : List α) : Option (List α) :=
  order.mapM (ShuffleAxis.item? unit items)

-----------------------------------------------------------------------------------------
-- Rearranged lists
-----------------------------------------------------------------------------------------

theorem items?_eq_some_iff
    : order.items? unit items = some picked
      ↔ List.Forall₂ (fun axis item => axis.item? unit items = some item) order picked := by
  rw [items?, Steps.mapM_eq_some_iff, ← List.forall₂_eq_eq_eq, List.forall₂_map_left_iff,
    List.forall₂_map_right_iff]

theorem items?_cons_eq_some_iff {axis : ShuffleAxis}
    : items? (axis :: order) unit items = some picked
      ↔ ∃ first rest,
          axis.item? unit items = some first
          ∧ order.items? unit items = some rest
          ∧ picked = first :: rest := by
  simp only [items?_eq_some_iff, List.forall₂_cons_left_iff]

theorem length_of_items? (taken : order.items? unit items = some picked)
    : picked.length = order.length := by
  simpa using (congrArg List.length (Steps.mapM_eq_some_iff.mp taken)).symm

/-- What an order takes is determined at each place. -/
theorem getElem?_of_items? (taken : order.items? unit items = some picked) (place : Nat)
    : picked[place]? = order[place]?.bind (ShuffleAxis.item? unit items) := by
  have each := congrArg (·[place]?) (Steps.mapM_eq_some_iff.mp taken)
  simp only [List.getElem?_map] at each
  cases here : order[place]? with
  | none =>
      rw [here] at each
      exact Option.map_eq_none_iff.mp each.symm
  | some axis =>
      rw [here, Option.map_some] at each
      obtain ⟨item, found, same⟩ := Option.map_eq_some_iff.mp each.symm
      rw [found, Option.bind_some, same]

theorem lt_of_mem_kept (taken : order.items? unit items = some picked) {source : Nat}
    (member : source ∈ order.kept)
    : source < items.length := by
  obtain ⟨item, -, found⟩ := Steps.exists_of_mapM_eq_some taken (mem_kept.mp member)
  exact (List.getElem?_eq_some_iff.mp found).1

/-- Lists with related entries are rearranged into lists with related entries, by induction on the
order.
-/
theorem exists_items?_of_forall₂ {related : α → β → Prop} {others : List β} {unit' : β}
    (units : related unit unit') (each : List.Forall₂ related items others)
    (taken : order.items? unit items = some picked)
    : ∃ other, order.items? unit' others = some other ∧ List.Forall₂ related picked other := by
  induction order generalizing picked with
  | nil =>
      obtain rfl := Option.some.inj taken
      exact ⟨[], rfl, .nil⟩
  | cons axis order ih =>
      obtain ⟨first, rest, here, later, rfl⟩ := items?_cons_eq_some_iff.mp taken
      obtain ⟨others', found, relates⟩ := ih later
      cases axis with
      | broadcast =>
          obtain rfl := Option.some.inj here
          exact ⟨unit' :: others', items?_cons_eq_some_iff.mpr ⟨_, _, rfl, found, rfl⟩,
            .cons units relates⟩
      | axis source =>
          obtain ⟨inside, rfl⟩ := List.getElem?_eq_some_iff.mp here
          have inside' : source < others.length := each.length_eq ▸ inside
          exact ⟨others[source] :: others',
            items?_cons_eq_some_iff.mpr ⟨_, _, List.getElem?_eq_getElem inside', found, rfl⟩,
            .cons (each.get inside inside') relates⟩

theorem items?_map (change : α → β) (taken : order.items? unit items = some picked)
    : order.items? (change unit) (items.map change) = some (picked.map change) := by
  have each : List.Forall₂ (fun item other => other = change item) items (items.map change) := by
    rw [List.forall₂_map_right_iff, List.forall₂_same]
    exact fun _ _ => rfl
  obtain ⟨other, found, changed⟩ :=
    @exists_items?_of_forall₂ _ _ _ _ _ _ (fun item other => other = change item) _ _ rfl each taken
  rw [found]
  clear found taken
  induction changed with
  | nil => rfl
  | cons here _ ih => rw [here, Option.some.inj ih, List.map_cons]

theorem items?_zip {unit' : β} {others other : List β}
    (taken : order.items? unit items = some picked)
    (taken' : order.items? unit' others = some other)
    : order.items? (unit, unit') (items.zip others) = some (picked.zip other) := by
  induction order generalizing picked other with
  | nil =>
      obtain rfl := Option.some.inj taken
      rfl
  | cons axis order ih =>
      obtain ⟨first, rest, here, later, rfl⟩ := items?_cons_eq_some_iff.mp taken
      obtain ⟨first', rest', here', later', rfl⟩ := items?_cons_eq_some_iff.mp taken'
      refine items?_cons_eq_some_iff.mpr ⟨(first, first'), _, ?_, ih later later', rfl⟩
      cases axis with
      | broadcast =>
          obtain rfl := Option.some.inj here
          obtain rfl := Option.some.inj here'
          rfl
      | axis source => exact List.getElem?_zip_eq_some.mpr ⟨here, here'⟩

theorem items?_of_mapM {step : ShuffleAxis → Option α}
    (steps : ∀ axis, step axis = axis.item? unit items)
    (taken : order.mapM step = some picked)
    : order.items? unit items = some picked := by
  rwa [items?, ← funext steps]

theorem composeAxis_eq (inner : ShuffleOrder) (axis : ShuffleAxis)
    : Rules.composeAxis inner axis = axis.item? .broadcast inner := by
  cases axis <;> rfl

/-- An order composed of two takes what the two take one after the other. -/
theorem items?_compose {inner outer : ShuffleOrder} {middle : List α}
    (composed : Rules.compose inner outer = some order)
    (first : inner.items? unit items = some middle)
    (second : outer.items? unit middle = some picked)
    : order.items? unit items = some picked := by
  obtain ⟨other, found, takes⟩ :=
    @exists_items?_of_forall₂ _ _ .broadcast _ _ _
      (fun axis item => ShuffleAxis.item? unit items axis = some item) _ unit rfl
      (items?_eq_some_iff.mp first) (items?_of_mapM (composeAxis_eq inner) composed)
  obtain rfl := Option.some.inj (found.symm.trans second)
  exact items?_eq_some_iff.mpr takes

theorem items?_identity (unit : α) (items : List α)
    : (identity items.length).items? unit items = some items := by
  refine Steps.mapM_eq_some_iff.mpr (List.ext_getElem (by simp [identity]) fun place left right => ?_)
  simp [identity, ShuffleAxis.item?]

-----------------------------------------------------------------------------------------
-- Orders that keep the order
-----------------------------------------------------------------------------------------

/-- Axes that are kept in their order are those that are not left out. -/
theorem kept_eq_filter (ordered : order.preservesOrder = true) {rank : Nat}
    (inside : ∀ source ∈ order.kept, source < rank)
    : order.kept = (List.range rank).filter fun axis => order.kept.contains axis := by
  refine (increasing_iff.mp ordered).eq_of_mem_iff
    (List.pairwise_lt_range.sublist List.filter_sublist) fun axis => ?_
  rw [List.mem_filter, List.mem_range, List.contains_iff_mem]
  exact ⟨fun member => ⟨inside axis member, member⟩, fun both => both.2⟩

/-- What is found among rearranged items is found where they come from, by induction on the order. -/
theorem filterMap_of_items? {find : α → Option β} (new : .broadcast ∈ order → find unit = none)
    (taken : order.items? unit items = some picked)
    : picked.filterMap find = order.kept.filterMap fun axis => items[axis]?.bind find := by
  induction order generalizing picked with
  | nil =>
      obtain rfl := Option.some.inj taken
      rfl
  | cons axis order ih =>
      obtain ⟨first, rest, here, later, rfl⟩ := items?_cons_eq_some_iff.mp taken
      have found := ih (fun member => new (List.mem_cons_of_mem _ member)) later
      cases axis with
      | broadcast =>
          obtain rfl := Option.some.inj here
          rw [List.filterMap_cons, new List.mem_cons_self, kept_cons_broadcast, found]
      | axis source =>
          have here : items[source]? = some first := here
          rw [kept_cons_axis, List.filterMap_cons, List.filterMap_cons, here, found]
          rfl

theorem filterMap_range (find : α → Option β) (items : List α)
    : (List.range items.length).filterMap (fun axis => items[axis]?.bind find)
      = items.filterMap find := by
  induction items with
  | nil => rfl
  | cons item items ih =>
      rw [List.length_cons, List.range_succ_eq_map, List.filterMap_cons, List.filterMap_map,
        List.filterMap_cons, ← ih]
      rfl

/-- What is found among items is found among the rearranged ones if their order is kept and nothing
is found at the axes that are left out, or at new axes.
-/
theorem filterMap_of_preservesOrder {find : α → Option β} (ordered : order.preservesOrder = true)
    (new : .broadcast ∈ order → find unit = none)
    (left : ∀ axis item, items[axis]? = some item → axis ∉ order.kept → find item = none)
    (taken : order.items? unit items = some picked)
    : picked.filterMap find = items.filterMap find := by
  rw [filterMap_of_items? new taken,
    kept_eq_filter ordered fun source member => lt_of_mem_kept taken member, List.filterMap_filter,
    ← filterMap_range find items]
  refine List.filterMap_congr fun axis member => ?_
  split_ifs with kept
  · rfl
  · have there := List.getElem?_eq_getElem (List.mem_range.mp member)
    rw [there, Option.bind_some, left axis _ there fun member => kept (by simpa using member)]

end ShuffleOrder

-----------------------------------------------------------------------------------------
-- Shapes
-----------------------------------------------------------------------------------------

/-- An order makes a shape of another one: each axis is kept once, or it has extent one. -/
structure ShuffleOrder.Shapes (order : ShuffleOrder) (dims result : List Dimension) : Prop where
  taken : order.items? (.static 1) dims = some result
  distinct : order.kept.Nodup
  units : ∀ axis dim, dims[axis]? = some dim → axis ∉ order.kept → dim = .static 1

namespace ShuffleOrder.Shapes

variable {order inner outer : ShuffleOrder} {dims middle result : List Dimension}

theorem trans (composed : Rules.compose inner outer = some order)
    (first : inner.Shapes dims middle) (second : outer.Shapes middle result)
    : order.Shapes dims result where
  taken := items?_compose composed first.taken second.taken
  distinct := nodup_kept_compose composed first.distinct second.distinct
  units axis dim found untaken := by
    by_cases taken : axis ∈ inner.kept
    · obtain ⟨place, here⟩ := mem_kept_iff_exists.mp taken
      have there : middle[place]? = some dim := by
        rw [getElem?_of_items? first.taken, here]
        exact found
      refine second.units place dim there fun member => untaken ?_
      obtain ⟨last, known⟩ := mem_kept_iff_exists.mp member
      exact mem_kept_iff_exists.mpr
        ⟨last, (Rules.getElem?_compose_eq_axis_iff composed).mpr ⟨place, known, here⟩⟩
    · exact first.units axis dim found taken

theorem eq_of_identity (shapes : (identity dims.length).Shapes dims result) : result = dims :=
  Option.some.inj (shapes.taken.symm.trans (items?_identity _ dims))

end ShuffleOrder.Shapes

namespace Typing

variable {order : ShuffleOrder} {types : List ValueType} {type : ValueType}

/-- An order selects extents that exist, each one once and none of those seen before. By induction
on the order.
-/
theorem selectDims_eq_ok_iff {dims result : List Dimension} {seen : List Nat}
    : selectDims dims seen order = .ok result
      ↔ order.items? (.static 1) dims = some result
        ∧ order.kept.Nodup
        ∧ ∀ source ∈ order.kept, source ∉ seen := by
  induction order generalizing seen result with
  | nil => simp [selectDims, ShuffleOrder.items?]
  | cons axis order ih =>
      rw [ShuffleOrder.items?_cons_eq_some_iff]
      cases axis with
      | broadcast =>
          rw [selectDims, Steps.bind_eq_ok_iff]
          constructor
          · rintro ⟨rest, later, same⟩
            obtain rfl := Except.ok.inj same
            obtain ⟨taken, fine⟩ := ih.mp later
            exact ⟨⟨_, rest, rfl, taken, rfl⟩, fine⟩
          · rintro ⟨⟨_, rest, here, taken, rfl⟩, fine⟩
            obtain rfl := Option.some.inj here
            exact ⟨rest, ih.mpr ⟨taken, fine⟩, rfl⟩
      | axis source =>
          rw [selectDims, ShuffleOrder.kept_cons_axis, List.nodup_cons, List.forall_mem_cons]
          constructor
          · intro done
            split at done
            · cases done
            · rename_i dim found
              split_ifs at done with repeated
              obtain ⟨rest, later, same⟩ := Steps.bind_eq_ok_iff.mp done
              obtain rfl := Except.ok.inj same
              obtain ⟨taken, distinct, fresh⟩ := ih.mp later
              exact ⟨⟨dim, rest, found, taken, rfl⟩,
                ⟨fun again => fresh source again List.mem_cons_self, distinct⟩,
                fun before => repeated (by simpa using before),
                fun other member before => fresh other member (List.mem_cons_of_mem _ before)⟩
          · rintro ⟨⟨dim, rest, found, taken, rfl⟩, ⟨once, distinct⟩, unseen, fresh⟩
            have found : dims[source]? = some dim := found
            rw [found]
            dsimp only
            rw [if_neg (by simpa using unseen)]
            refine Steps.bind_eq_ok_iff.mpr ⟨rest, ih.mpr ⟨taken, distinct, ?_⟩, rfl⟩
            intro other member before
            rcases List.mem_cons.mp before with rfl | before
            · exact once member
            · exact fresh other member before

theorem shuffledShape_eq_ok_iff {shape result : Shape}
    : shuffledShape order shape = .ok result ↔ order.Shapes shape.dims result.dims := by
  have droppable_iff {axis : Nat}
      : droppable shape.dims axis = .ok () ↔ ∀ dim, shape.dims[axis]? = some dim → dim = .static 1 := by
    rw [droppable]
    split
    · rename_i none
      simp [none]
    · rename_i dim found
      simp [found, Dimension.isUnit]
  simp only [shuffledShape, Steps.bind_eq_ok_iff, selectDims_eq_ok_iff]
  constructor
  · rintro ⟨dims, ⟨taken, distinct, -⟩, _, checked, same⟩
    obtain rfl := Except.ok.inj same
    refine ⟨taken, distinct, fun axis dim found untaken => ?_⟩
    refine droppable_iff.mp (Steps.forM_eq_ok_iff.mp checked axis ?_) dim found
    exact ShuffleOrder.mem_dropped.mpr ⟨(List.getElem?_eq_some_iff.mp found).1, untaken⟩
  · intro shapes
    refine ⟨result.dims, ⟨shapes.taken, shapes.distinct, fun _ _ => List.not_mem_nil⟩, (), ?_, rfl⟩
    exact Steps.forM_eq_ok_iff.mpr fun axis member =>
      droppable_iff.mpr fun dim found =>
        shapes.units axis dim found (ShuffleOrder.mem_dropped.mp member).2

theorem shuffle_eq_ok_iff
    : shuffle order types = .ok type
      ↔ ∃ input dims,
          types = [.tensor input]
          ∧ order.Shapes input.shape.dims dims
          ∧ type = .tensor ⟨input.dtype, ⟨dims⟩⟩ := by
  rw [shuffle, onTensor_eq_ok_iff]
  simp only [Steps.bind_eq_ok_iff, shuffledShape_eq_ok_iff]
  constructor
  · rintro ⟨input, rfl, shape, shapes, same⟩
    exact ⟨input, shape.dims, rfl, shapes, (Except.ok.inj same).symm⟩
  · rintro ⟨input, dims, rfl, shapes, rfl⟩
    exact ⟨input, rfl, ⟨dims⟩, shapes, rfl⟩

end Typing

end Dataflow
