import Dataflow.Proofs.Tensor.Indexing
import Dataflow.Proofs.Tensor.Largest
import Dataflow.Proofs.Typing.Fillings
import Dataflow.Proofs.Typing.Parts
import Dataflow.Proofs.Typing.Reshapes

/-!
Where kernels refuse their operands. A tensor can be read at all places that exist, so it is sizes,
extents and indices that are refused, and those that a shuffle adds or drops are not: new axes have
one element, and dropped axes are known to.
-/

namespace Dataflow

theorem Tensor.not_refused_gather (tensor : Tensor) (sizes positions : List Nat)
    : ¬(tensor.gather sizes positions).Refused := by
  rw [gather, Outcome.refused_bind_iff, not_or]
  refine ⟨Outcome.not_refused_require _ _, ?_⟩
  rintro ⟨_, _, second⟩
  exact Outcome.not_refused_ok _ second

namespace Movement

-----------------------------------------------------------------------------------------
-- Filling
-----------------------------------------------------------------------------------------

/-- A tensor is filled if it has room for the value. -/
theorem refused_alloc_iff {extents : List ExtentSource} {inputs : Inputs} {value : Tensor}
    (first : inputs.tensor 0 = .ok value)
    : (alloc extents inputs).Refused ↔ (allocSizes extents value inputs).Refused := by
  rw [alloc, first, Steps.ok_bind, Outcome.refused_bind_iff, or_iff_left]
  rintro ⟨_, _, gathered⟩
  exact Tensor.not_refused_gather _ _ _ gathered

/-- The sizes of a shuffled new tensor are picked from those of the tensor, by induction on the order.
-/
theorem picks_of_allocSizes {order : ShuffleOrder} {extents shape : List ExtentSource}
    {inputs : Inputs} {sizes picked : List Nat}
    (composed : order.mapM (Rules.shuffledExtent extents) = some shape)
    (sized : extents.mapM (allocSize inputs) = .ok sizes)
    (done : shape.mapM (allocSize inputs) = .ok picked)
    : ShuffleOrder.Picks sizes 1 order picked := by
  have each := Steps.mapM_eq_ok_iff.mp sized
  induction order generalizing shape picked with
  | nil =>
      obtain rfl := Option.some.inj composed
      obtain rfl := Except.ok.inj done
      exact .nil
  | cons axis order ih =>
      rw [List.mapM_cons] at composed
      obtain ⟨extent, here, composed⟩ := Option.bind_eq_some_iff.mp composed
      obtain ⟨rest, later, composed⟩ := Option.bind_eq_some_iff.mp composed
      obtain rfl := Option.some.inj composed
      rw [List.mapM_cons] at done
      obtain ⟨size, found, done⟩ := Steps.bind_eq_ok_iff.mp done
      obtain ⟨others, behind, done⟩ := Steps.bind_eq_ok_iff.mp done
      obtain rfl := Except.ok.inj done
      refine .cons ?_ (ih later behind)
      cases axis with
      | broadcast =>
          obtain rfl := Option.some.inj here
          exact (Except.ok.inj found).symm
      | axis source =>
          have here : extents[source]? = some extent := here
          have read := congrArg (·[source]?) each
          simp only [List.getElem?_map, here, Option.map_some, found] at read
          obtain ⟨other, there, same⟩ := Option.map_eq_some_iff.mp read.symm
          exact there.trans (congrArg some (Except.ok.inj same))

/-- If there is room in a shuffled new tensor, then there is in the new tensor. -/
theorem exists_allocSizes_of_shuffled {order : ShuffleOrder} {extents shape : List ExtentSource}
    {inputs : Inputs} {value : Tensor} {picked : List Nat}
    (all : order.kept = List.range extents.length) (rank : value.rank ≤ extents.length)
    (inFront : Rules.insertsInFront order (extents.length - value.rank) = true)
    (composed : order.mapM (Rules.shuffledExtent extents) = some shape)
    (done : allocSizes shape value inputs = .ok picked)
    : ∃ target, allocSizes extents value inputs = .ok target := by
  obtain ⟨sized, stretch⟩ := allocSizes_eq_ok_iff.mp done
  -- All extents are extents of the shuffled tensor, too.
  have known : ∀ extent ∈ extents, ∃ size, allocSize inputs extent = .ok size := by
    intro extent member
    obtain ⟨source, found⟩ := List.mem_iff_getElem?.mp member
    have inside := (List.getElem?_eq_some_iff.mp found).1
    have taken : .axis source ∈ order := by
      rw [← ShuffleOrder.mem_kept, all]
      exact List.mem_range.mpr inside
    obtain ⟨other, listed, same⟩ := Steps.exists_of_mapM_eq_some composed taken
    obtain rfl : extent = other := Option.some.inj (found.symm.trans same)
    have there : allocSize inputs extent ∈ picked.map Except.ok :=
      Steps.mapM_eq_ok_iff.mp sized ▸ List.mem_map_of_mem listed
    obtain ⟨size, -, same⟩ := List.mem_map.mp there
    exact ⟨size, same.symm⟩
  cases gathered : extents.mapM (allocSize inputs) with
  | error error =>
      obtain ⟨extent, member, failed⟩ := Steps.exists_of_mapM_eq_error gathered
      obtain ⟨size, done⟩ := known extent member
      cases failed.symm.trans done
  | ok sizes =>
      have length : extents.length = sizes.length := by
        simpa using congrArg List.length (Steps.mapM_eq_ok_iff.mp gathered)
      have picks := picks_of_allocSizes composed gathered sized
      have inside : sizes.length - value.sizes.length ≤ sizes.length := Nat.sub_le ..
      rw [length] at all inFront rank
      obtain ⟨front, ends⟩ := eq_append_of_insertsInFront all inside inFront
      have last := drop_picks ends inside picks
      have orderLength := picks.length_eq
      have rank : value.sizes.length ≤ sizes.length := rank
      rw [ends, List.length_append, List.length_map, List.length_range'] at orderLength
      have gap : picked.length - value.sizes.length = front.length := by omega
      refine ⟨sizes, allocSizes_eq_ok_iff.mpr ⟨gathered, rank, ?_⟩⟩
      rw [← last, ← gap]
      exact stretch.axes

/-- The sizes of a tensor that only got axes in front. -/
theorem sizes_of_isLeftPadding {order : ShuffleOrder} {value middle : Tensor}
    (padding : Rules.isLeftPadding order value.rank = true) (shuffles : Shuffles order value middle)
    : ∃ count, middle.sizes = List.replicate count 1 ++ value.sizes := by
  obtain ⟨count, rfl⟩ := eq_append_of_isLeftPadding padding
  refine ⟨count, picks_unique shuffles.picks ?_⟩
  refine (ShuffleOrder.items?_eq_some_iff.mp (Typing.items?_padding 1 value.sizes count)).imp ?_
  intro axis size here
  cases axis with
  | broadcast => exact (Option.some.inj here).symm
  | axis source => exact here

/-- If there is room for a value, then there is with more axes in front of it, if there is room for
these axes.
-/
theorem allocSizes_of_padded {order : ShuffleOrder} {extents : List ExtentSource} {inputs : Inputs}
    {value middle : Tensor} {target : List Nat}
    (padding : Rules.isLeftPadding order value.rank = true) (shuffles : Shuffles order value middle)
    (behind : ∀ extent ∈ extents, extent.operand? ≠ some 0) (rank : middle.rank ≤ extents.length)
    (done : allocSizes extents value (.tensor value :: inputs) = .ok target)
    : allocSizes extents middle (.tensor middle :: inputs) = .ok target := by
  obtain ⟨sized, stretch⟩ := allocSizes_eq_ok_iff.mp done
  obtain ⟨count, sizes⟩ := sizes_of_isLeftPadding padding shuffles
  have length : extents.length = target.length := by
    simpa using congrArg List.length (Steps.mapM_eq_ok_iff.mp sized)
  have whole : middle.sizes.length = count + value.sizes.length := by
    rw [sizes, List.length_append, List.length_replicate]
  have rank : middle.sizes.length ≤ target.length := length ▸ rank
  refine allocSizes_eq_ok_iff.mpr ⟨?_, rank, ?_⟩
  · rw [← sized]
    exact Steps.mapM_congr fun extent member => allocSize_cons (behind extent member) _ _ inputs
  · have gap : target.length - middle.sizes.length + count = target.length - value.sizes.length := by
      omega
    have last := stretch.axes
    rw [← gap, ← List.drop_drop] at last
    rw [sizes, ← List.take_append_drop count (target.drop _)]
    refine List.rel_append ?_ (by rwa [← sizes])
    refine List.forall₂_iff_get.mpr ⟨?_, fun place bound _ => ?_⟩
    · simp only [List.length_replicate, List.length_take, List.length_drop, List.length_append]
      omega
    · exact .inl (by simp)

-----------------------------------------------------------------------------------------
-- Reshaping
-----------------------------------------------------------------------------------------

/-- An extent of one that is inferred is that of a tensor with a known number of elements, which is
not zero.
-/
theorem size_of_inferredDim {tensor : Tensor} {type : TensorType} {inferred known : Nat}
    {allKnown : Bool} (typed : tensor.HasType type)
    (done
      : Typing.inferredDim type.elementCount? inferred allKnown known = .ok (.static 1))
    : tensor.elements.size ≠ 0 := by
  cases counted : type.elementCount? with
  | none =>
      rw [counted] at done
      cases Except.ok.inj done
  | some count =>
      rw [(elementCount?_eq_some typed counted).1]
      rw [counted, Typing.inferredDim] at done
      split_ifs at done
      · cases Except.ok.inj done
      · have one : count / known = 1 := Dimension.static.inj (Except.ok.inj done)
        rintro rfl
        rw [Nat.zero_div] at one
        cases one
      · cases Except.ok.inj done

/-- Left out of a new shape are extents of one. They take no operand, so they are evaluated, and each
of them counts as one.
-/
theorem place_of_unit {extent : ReshapeExtent} {dim : Dimension} (inputs : Inputs)
    (unit : Typing.reshapeDim dim extent = .static 1)
    : ∃ inferred, reshapeSize inputs extent = .ok (1, inferred) := by
  cases extent with
  | explicit size =>
      obtain rfl := Dimension.static.inj unit
      exact ⟨false, rfl⟩
  | infer => exact ⟨true, rfl⟩
  | operand position => cases unit

/-- If a tensor can be given a shuffled shape, then it can be given the shape. -/
theorem exists_reshape_of_shuffled {order : ShuffleOrder} {extents shape : List ReshapeExtent}
    {dim : Dimension} {dims : List Dimension} {input result : Tensor} {inputs : Inputs}
    (ordered : order.preservesOrder = true)
    (shapes : order.Shapes (extents.map (Typing.reshapeDim dim)) dims)
    (composed : order.mapM (Rules.shuffledReshapeExtent extents) = some shape)
    (first : inputs.tensor 0 = .ok input) (single : extents.count .infer ≤ 1)
    (singleShape : shape.count .infer ≤ 1)
    (occupied : .infer ∈ extents → dim = .static 1 → input.elements.size ≠ 0)
    (reshaped : reshape shape inputs = .ok result)
    : ∃ middle, reshape extents inputs = .ok middle := by
  obtain ⟨picked, size, done, holds, -⟩ := (reshape_eq_ok_iff first singleShape).mp reshaped
  have left {axis : Nat} {extent : ReshapeExtent} (found : extents[axis]? = some extent)
      (untaken : axis ∉ order.kept)
      : Typing.reshapeDim dim extent = .static 1 := by
    refine shapes.units axis _ ?_ untaken
    rw [List.getElem?_map, found]
    rfl
  have known : ∀ extent ∈ extents, ∃ place, reshapeSize inputs extent = .ok place := by
    intro extent member
    obtain ⟨axis, found⟩ := List.mem_iff_getElem?.mp member
    by_cases taken : axis ∈ order.kept
    · obtain ⟨other, listed, same⟩ :=
        Steps.exists_of_mapM_eq_some composed (ShuffleOrder.mem_kept.mp taken)
      obtain rfl : extent = other := Option.some.inj (found.symm.trans same)
      have there : reshapeSize inputs extent ∈ picked.map Except.ok :=
        Steps.mapM_eq_ok_iff.mp done ▸ List.mem_map_of_mem listed
      obtain ⟨place, -, same⟩ := List.mem_map.mp there
      exact ⟨place, same.symm⟩
    · obtain ⟨inferred, done⟩ := place_of_unit inputs (left found taken)
      exact ⟨_, done⟩
  cases sized : extents.mapM (reshapeSize inputs) with
  | error error =>
      obtain ⟨extent, member, failed⟩ := Steps.exists_of_mapM_eq_error sized
      obtain ⟨place, done⟩ := known extent member
      cases failed.symm.trans done
  | ok places =>
      obtain ⟨_, again, picks⟩ := exists_places composed sized
      obtain rfl := Except.ok.inj (done.symm.trans again)
      have evaluated {axis : Nat} {place : Nat × Bool} (found : places[axis]? = some place)
          : ∃ extent, extents[axis]? = some extent ∧ reshapeSize inputs extent = .ok place := by
        have read := congrArg (·[axis]?) (Steps.mapM_eq_ok_iff.mp sized)
        simp only [List.getElem?_map, found, Option.map_some] at read
        exact Option.map_eq_some_iff.mp read
      have counts := picks.count_eq ordered fun axis place found untaken => by
        obtain ⟨extent, there, evaluated⟩ := evaluated found
        obtain ⟨inferred, same⟩ := place_of_unit inputs (left there untaken)
        exact congrArg Prod.fst (Except.ok.inj (evaluated.symm.trans same))
      -- A size that is still to be inferred is the same one; one that was left out is one.
      have product := holds.product
      rw [counts] at product
      by_cases open_ : picked.any (·.2) = true
      · refine ⟨_, (reshape_eq_ok_iff first single).mpr ⟨places, size, sized, ⟨product, ?_, ?_⟩, rfl⟩⟩
        · exact fun _ => counts ▸ holds.determined open_
        · intro none
          obtain ⟨place, member, inferred⟩ := List.any_eq_true.mp open_
          rcases picks.mem member with rfl | there
          · cases inferred
          · exact absurd inferred (List.any_eq_false.mp none place there)
      · rw [holds.plain (by simpa using open_)] at product
        refine ⟨_, (reshape_eq_ok_iff first single).mpr ⟨places, 1, sized, ⟨product, ?_, fun _ => rfl⟩,
          rfl⟩⟩
        intro inferred none
        rw [none, Nat.mul_zero] at product
        obtain ⟨place, member, inferred⟩ := List.any_eq_true.mp inferred
        obtain ⟨axis, found⟩ := List.mem_iff_getElem?.mp member
        obtain ⟨extent, there, evaluated⟩ := evaluated found
        have evaluates := (safe_reshapeSize inputs extent).holds evaluated
        obtain rfl := evaluates.inferred_iff.mp inferred
        refine occupied (List.mem_of_getElem? there) ?_ product.symm
        refine left there fun taken => open_ ?_
        exact List.any_eq_true.mpr ⟨place, picks.mem_of_kept found taken, inferred⟩

-----------------------------------------------------------------------------------------
-- Indexing
-----------------------------------------------------------------------------------------

/-- A part of a tensor is taken if no axis refuses its entry. -/
theorem exists_error_of_refused {entries : List IndexEntry} {inputs : Inputs} {input : Tensor}
    (first : inputs.tensor 0 = .ok input) (rank : entries.length ≤ input.sizes.length)
    (refused : (subtensor entries inputs).Refused)
    : ∃ error, .error error ∈ selections inputs 0 input.sizes entries := by
  rw [subtensor, first, Steps.ok_bind,
    if_neg (Nat.not_lt.mpr rank : ¬input.rank < entries.length), Outcome.refused_bind_iff] at refused
  rcases refused with ⟨error, failed, -⟩ | ⟨_, _, gathered⟩
  · obtain ⟨_, member, same⟩ := Steps.exists_of_mapM_eq_error failed
    exact ⟨error, same ▸ member⟩
  · exact absurd gathered (Tensor.not_refused_gather _ _ _)

/-- What two entries take from an axis: if the first one is refused, then so is the second one; if the
second one is not, then it takes one place or no more places than the first one.
-/
def SelectsLess : Outcome Selection → Outcome Selection → Prop
  | _, .error _ => True
  | .error _, .ok _ => False
  | .ok first, .ok second => second.walk.count ≤ first.walk.count ∨ second.walk.count = 1

theorem SelectsLess.refl (outcome : Outcome Selection) : SelectsLess outcome outcome := by
  cases outcome with
  | error error => trivial
  | ok selection => exact .inl le_rfl

/-- A single index takes one place, if it is not refused. -/
theorem selectsLess_scalar (selection : Selection) (inputs : Inputs) (axis size : Nat)
    (scalar : IndexScalar)
    : SelectsLess (.ok selection) (select inputs axis size (.scalar scalar)) := by
  cases done : select inputs axis size (.scalar scalar) with
  | error error => trivial
  | ok other => exact .inr ((inside_of_select done).single (isKept_of_select_scalar done))

/-- A slice that reads no operand is not refused. -/
theorem exists_select_slice {bounds : SliceBounds} (alone : bounds.operands = [])
    (moves : bounds.step ≠ some (.static 0)) (inputs : Inputs) (axis size : Nat)
    : ∃ selection, select inputs axis size (.slice bounds) = .ok selection := by
  have known {scalar : Option IndexScalar}
      (member : scalar ∈ [bounds.start, bounds.stop, bounds.step])
      : ∃ value, bound inputs scalar = .ok value ∧ (value = some 0 → scalar = some (.static 0)) := by
    have none := List.filterMap_eq_nil_iff.mp alone scalar member
    cases scalar with
    | none => exact ⟨_, rfl, nofun⟩
    | some scalar =>
        cases scalar with
        | static value => exact ⟨_, rfl, fun same => by rw [Option.some.inj same]⟩
        | operand position => cases none
  obtain ⟨start, started, -⟩ := known (List.mem_cons_self)
  obtain ⟨stop, stopped, -⟩ := known (List.mem_cons_of_mem _ List.mem_cons_self)
  obtain ⟨step, stepped, zero⟩ := known
    (List.mem_cons_of_mem _ (List.mem_cons_of_mem _ List.mem_cons_self))
  refine ⟨⟨Slice.walk size start stop step, true⟩, ?_⟩
  rw [select, sliceWalk, stepped, Steps.ok_bind, if_neg fun same => moves (zero same), started,
    Steps.ok_bind, stopped]
  rfl

/-- Entries with the dropped axes folded into them select less. By induction on the axes. -/
theorem selectsLess_of_folds {dropped : List Nat} {axis number place : Nat}
    {dims left : List Dimension} {sizes : List Nat} {entries folded : List IndexEntry}
    (folds : Typing.Folds dropped axis dims entries folded) (inputs : Inputs)
    (typed : Typing.indexedDims number dims entries = .ok left) (rank : dims.length = sizes.length)
    : List.Forall₂ SelectsLess (selections inputs place sizes entries)
        (selections inputs place sizes folded) := by
  induction folds generalizing number place left sizes with
  | done =>
      obtain rfl := List.length_eq_zero_iff.mp rank.symm
      rw [selections_nil]
      exact .nil
  | scalar _ ih | keep _ _ ih =>
      obtain ⟨size, sizes, rfl⟩ := List.exists_cons_of_length_eq_add_one rank.symm
      obtain ⟨_, _, -, later, -⟩ := Typing.Folds.indexedDims_cons_eq_ok_iff.mp typed
      exact .cons (.refl _) (ih later (Nat.succ.inj rank))
  | drop _ single _ ih =>
      obtain ⟨size, sizes, rfl⟩ := List.exists_cons_of_length_eq_add_one rank.symm
      obtain ⟨_, _, here, later, -⟩ := Typing.Folds.indexedDims_cons_eq_ok_iff.mp typed
      refine .cons ?_ (ih later (Nat.succ.inj rank))
      rw [Typing.indexedDim] at here
      split_ifs at here with zero
      obtain ⟨selection, done⟩ :=
        exists_select_slice (Typing.operands_of_singleIndex? single) zero inputs place size
      rw [done]
      exact selectsLess_scalar _ _ _ _ _
  | dropWhole _ _ _ ih =>
      obtain ⟨size, sizes, rfl⟩ := List.exists_cons_of_length_eq_add_one rank.symm
      exact .cons (selectsLess_scalar _ _ _ _ _)
        (ih (Typing.Folds.indexedDims_nil (number + 1) _) (Nat.succ.inj rank))
  | keepWhole _ _ ih =>
      obtain ⟨size, sizes, rfl⟩ := List.exists_cons_of_length_eq_add_one rank.symm
      refine .cons (.inl ?_) (ih (Typing.Folds.indexedDims_nil (number + 1) _) (Nat.succ.inj rank))
      have counted := Slice.count_full size
      have less := signedSize_le size
      rw [Slice.count_whole]
      change (Slice.walk size none none none).count ≤ size
      omega
  | stop _ _ ih =>
      obtain ⟨size, sizes, rfl⟩ := List.exists_cons_of_length_eq_add_one rank.symm
      exact .cons (.refl _) (ih (Typing.Folds.indexedDims_nil (number + 1) _) (Nat.succ.inj rank))

/-- If an entry is refused, then so is one of entries that select less, and in front of it they ask
for no more memory. By induction on the axes.
-/
theorem refused_of_selectsLess {first second : List (Outcome Selection)}
    (less : List.Forall₂ SelectsLess first second)
    (failed : ∃ error, Except.error error ∈ first)
    (enough : ∀ selection ∈ Memory.untilError first, Memory.holds selection.walk.count = true)
    : (∃ error, Except.error error ∈ second)
      ∧ ∀ selection ∈ Memory.untilError second, Memory.holds selection.walk.count = true := by
  induction less with
  | nil =>
      obtain ⟨_, member⟩ := failed
      cases member
  | @cons here other first second selects _ ih =>
      cases other with
      | error error => exact ⟨⟨error, List.mem_cons_self⟩, fun _ member => nomatch member⟩
      | ok selection =>
          cases here with
          | error error => exact absurd selects id
          | ok selected =>
              obtain ⟨holds, enough⟩ := List.forall_mem_cons.mp enough
              obtain ⟨error, member⟩ := failed
              have later := (List.mem_cons.mp member).resolve_left fun same => nomatch same
              obtain ⟨⟨error, member⟩, enough⟩ := ih ⟨error, later⟩ enough
              refine ⟨⟨error, List.mem_cons_of_mem _ member⟩, List.forall_mem_cons.mpr ⟨?_, enough⟩⟩
              have bounded := of_decide_eq_true holds
              refine decide_eq_true ?_
              rw [Memory.wordSize, Memory.limit] at bounded ⊢
              rcases selects with fewer | one <;> omega

/-- What is refused of a tensor is refused with the dropped axes folded into the entries, and this
asks for no more memory.
-/
theorem refused_subtensor_of_folded {dropped : List Nat} {dims left : List Dimension}
    {entries folded : List IndexEntry} {inputs : Inputs} {input : Tensor}
    (first : inputs.tensor 0 = .ok input) (fits : Fits dims input.sizes)
    (folds : Rules.foldDropped dropped 0 dims entries = some folded)
    (rank : entries.length ≤ dims.length)
    (typed : Typing.indexedDims 0 dims entries = .ok left)
    (enough : Memory.isEnough (.subtensor entries) inputs = true)
    (refused : (subtensor entries inputs).Refused)
    : (∀ result, subtensor folded inputs ≠ .ok result)
      ∧ Memory.isEnough (.subtensor folded) inputs = true := by
  have folds := Typing.folds_of_foldDropped folds
  have shorter := fits.length_eq ▸ folds.length_le rank
  have rank := fits.length_eq ▸ rank
  rw [isEnough_subtensor_eq first rank, List.all_eq_true] at enough
  obtain ⟨⟨error, member⟩, enough⟩ := refused_of_selectsLess
    (selectsLess_of_folds folds inputs typed fits.length_eq)
    (exists_error_of_refused first rank refused) enough
  refine ⟨fun result done => ?_, ?_⟩
  · obtain ⟨taken, takes⟩ := (subtensor_eq_ok_iff first).mp done
    have all := Steps.mapM_eq_ok_iff.mp takes.selects
    rw [List.map_id] at all
    obtain ⟨_, -, same⟩ := List.mem_map.mp (all ▸ member)
    cases same
  · rw [isEnough_subtensor_eq first shorter, List.all_eq_true]
    exact enough

end Movement

-----------------------------------------------------------------------------------------
-- Largest elements
-----------------------------------------------------------------------------------------

namespace Reduce

theorem not_refused_bestPlaces {α : Type} (beats : α → α → Bool) (items : List α)
    (lanes : List (List Nat))
    : ¬(bestPlaces beats items lanes).Refused := by
  intro ⟨error, failed, regular⟩
  obtain ⟨lane, -, same⟩ := Steps.exists_of_mapM_eq_error failed
  rcases Outcome.refused_bind_iff.mp ⟨error, same, regular⟩ with first | ⟨_, _, second⟩
  · exact Outcome.not_refused_require _ _ first
  · exact Outcome.not_refused_ok _ second

theorem not_refused_largest {input : Tensor} {axis : Nat} (filled : input.sizes[axis]? ≠ some 0)
    : ¬(largest input axis).Refused := by
  rw [largest, if_neg filled]
  dsimp only
  split_ifs <;> exact not_refused_bestPlaces _ _ _

variable {axis : Int} {input values places : Tensor} {found : Nat}
  (known : Typing.singleAxis axis input.rank = .ok found)

include known

theorem resolveAxis_eq : resolveAxis axis input.rank = .ok found := by
  rw [Typing.singleAxis] at known
  rw [resolveAxis]
  cases position : Slice.position? axis input.rank with
  | none => simp [position] at known
  | some other => simpa [position] using known

theorem combinedAxes_eq
    : combinedAxes ⟨.max, [axis], false⟩ input.sizes
      = if input.sizes[found]? = some 0 then .fail .emptyReduction else .ok [found] := by
  have axes : Typing.reducedAxes [axis] input.sizes.length = .ok [found] :=
    Typing.reducedAxes_single known
  rw [combinedAxes, axes]
  simp [hasEmptyAxis]

/-- The largest elements are only refused along an axis without elements. -/
theorem empty_of_refused (refused : (maxAndArgMax axis input).Refused)
    : input.sizes[found]? = some 0 := by
  by_contra filled
  rw [maxAndArgMax, resolveAxis_eq known, Steps.ok_bind, Outcome.refused_bind_iff] at refused
  rcases refused with searched | ⟨_, -, refused⟩
  · exact not_refused_largest filled searched
  · rcases Outcome.refused_bind_iff.mp refused with chosen | ⟨_, -, refused⟩
    · exact Outcome.not_refused_require _ _ chosen
    · rcases Outcome.refused_bind_iff.mp refused with gathered | ⟨_, -, done⟩
      · exact Tensor.not_refused_gather _ _ _ gathered
      · exact Outcome.not_refused_ok _ done

/-- There is neither a reduction nor a search for places then. -/
theorem ne_ok_of_refused (refused : (maxAndArgMax axis input).Refused) (result : Tensor)
    : reduce ⟨.max, [axis], false⟩ input ≠ .ok result ∧ argMax axis false input ≠ .ok result := by
  have empty := empty_of_refused known refused
  constructor <;> intro done
  · rw [reduce, combinedAxes_eq known, if_pos empty] at done
    cases done
  · rw [argMax, resolveAxis_eq known, Steps.ok_bind, largest, if_pos empty] at done
    cases done

/-- Integers are stored in one way, so the largest ones are those that a reduction makes. -/
theorem reduce_of_maxAndArgMax (integer : input.dtype.isInteger = true) (valid : input.Valid)
    (done : maxAndArgMax axis input = .ok (values, places))
    : reduce ⟨.max, [axis], false⟩ input = .ok values := by
  have numeric : input.dtype.isNumeric = true := by rw [DType.isNumeric, integer, Bool.true_or]
  obtain ⟨other, resolved, occupied, same, -⟩ := maxAndArgMax_eq_ok numeric valid done
  obtain rfl := Except.ok.inj ((resolveAxis_eq known).symm.trans resolved)
  have filled : input.sizes[found]? ≠ some 0 := by simpa [hasEmptyAxis] using occupied
  have stored {tensor : Tensor} (dtype : tensor.dtype = input.dtype) : tensor.canonical = tensor := by
    refine congrArg (Tensor.mk _) (Elements.canonical_of_not_isFloat ?_)
    exact DType.isFloat_of_isInteger (integer ▸ congrArg DType.isInteger dtype)
  have dtype : values.dtype = input.dtype := by
    rw [Tensor.dtype, ← Elements.dtype_canonical, ← Tensor.elements_canonical, same,
      Tensor.elements_canonical, Elements.dtype_canonical]
    exact dtype_combined ..
  rw [reduce_eq, combinedAxes_eq known, if_neg filled, ← stored dtype, same,
    stored (dtype_combined ..)]
  rfl

/-- A reduction asks for as much memory as a search for the largest elements. -/
theorem isEnough_reduce_eq
    : Memory.isEnough (.reduce ⟨.max, [axis], false⟩) [.tensor input]
      = Memory.isEnough (.maxAndArgMax axis) [.tensor input] := by
  rw [Memory.isEnough, Memory.isEnough, Memory.pieces, Memory.pieces, Inputs.tensor_cons_zero,
    Steps.ok_bind, Steps.ok_bind, combinedAxes_eq known, resolveAxis_eq known, Steps.ok_bind]
  split_ifs <;> rfl

end Reduce

end Dataflow
