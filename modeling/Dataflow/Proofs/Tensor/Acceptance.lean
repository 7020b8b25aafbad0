import Dataflow.Proofs.Tensor.Matrix
import Dataflow.Proofs.Tensor.Refusals
import Dataflow.Proofs.Tensor.Sequence
import Dataflow.Proofs.Typing.Shuffles

/-!
Operations that accept their operands. Where all sizes are known, inference has looked at everything
that most kernels look at, so these kernels have a result for all operands of the types that a type
was inferred from.
-/

namespace Dataflow

-----------------------------------------------------------------------------------------
-- Known sizes
-----------------------------------------------------------------------------------------

namespace ValueType

mutual

/-- Whether all tensor types that a type is made of pass a test. -/
def all (test : TensorType → Bool) : ValueType → Bool
  | .tensor type => test type
  | .list element => test element
  | .tuple parts => allParts test parts

/-- Whether all tensor types that some types are made of pass a test. -/
def allParts (test : TensorType → Bool) : List ValueType → Bool
  | [] => true
  | part :: parts => part.all test && allParts test parts

end

/-- Whether all extents are known, and the elements can be counted in a word. -/
def isSized (type : ValueType) : Bool := type.all fun type => type.elementCount?.isSome

end ValueType

/-- The sizes of a tensor are known from its type, and its elements can be counted in a word. -/
theorem Tensor.HasType.shape_eq {tensor : Tensor} {type : TensorType} (typed : tensor.HasType type)
    (sized : type.elementCount?.isSome = true)
    : type.shape = .ofSizes tensor.sizes ∧ RowMajor.count tensor.sizes < sizeLimit := by
  obtain ⟨count, known⟩ := Option.isSome_iff_exists.mp sized
  obtain ⟨sizes, shape, rfl, limited⟩ := Movement.shape_eq_of_elementCount? known
  have fits := typed.fits
  rw [shape] at fits
  obtain same : tensor.sizes = sizes := Movement.sizes_eq_of_fits fits
  rw [same]
  exact ⟨shape, limited⟩

namespace Outcome

variable {α β : Type}

theorem not_refused_bind {step : Outcome α} {next : α → Outcome β} (first : ¬step.Refused)
    (second : ∀ value, step = .ok value → ¬(next value).Refused)
    : ¬(step >>= next).Refused := by
  rw [refused_bind_iff]
  rintro (refused | ⟨value, done, refused⟩)
  · exact first refused
  · exact second value done refused

/-- What is safe and not refused has a result. -/
theorem Safe.exists_ok {good : α → Prop} {outcome : Outcome α} (safe : Safe good outcome)
    (accepted : ¬outcome.Refused)
    : ∃ value, outcome = .ok value := by
  by_contra none
  exact accepted (safe.refused fun value done => none ⟨value, done⟩)

end Outcome

-----------------------------------------------------------------------------------------
-- Numbers
-----------------------------------------------------------------------------------------

namespace Elementwise

theorem exists_unary {kind : UnaryKind} {input : Tensor}
    (supported : Typing.unarySupports kind input.dtype = true)
    : ∃ result, unary kind input = .ok result := by
  rw [unary]
  split_ifs with float
  · exact ⟨_, rfl⟩
  · cases kind with
    | neg | abs => exact ⟨_, rfl⟩
    | exp | log => exact absurd supported float

/-- Known extents that combine are sizes that do. -/
theorem not_refused_broadcastSizes {lhs rhs : List Nat} {dims : List Dimension}
    (combined : Broadcast.dims (lhs.map .static) (rhs.map .static) = some dims)
    : ¬(broadcastSizes lhs rhs).Refused := by
  rintro ⟨error, failed, -⟩
  rw [dims_map_static, failed] at combined
  cases combined

/-- Only a division refuses integers. -/
theorem not_refused_binaryInt {kind : BinaryKind} (total : kind ≠ .div) (x y : Int64)
    : ¬(binaryInt kind x y).Refused := by
  cases kind with
  | div => exact absurd rfl total
  | _ => exact Outcome.not_refused_ok _

theorem exists_binary {kind : BinaryKind} {lhs rhs : Tensor} {lhsType rhsType : TensorType}
    {dims : List Dimension} (typedLhs : lhs.HasType lhsType) (typedRhs : rhs.HasType rhsType)
    (combined : Broadcast.dims lhsType.shape.dims rhsType.shape.dims = some dims)
    (shapeLhs : lhsType.shape = .ofSizes lhs.sizes) (shapeRhs : rhsType.shape = .ofSizes rhs.sizes)
    (total : kind = .div → lhs.dtype.isFloat = true)
    : ∃ result, binary kind lhs rhs = .ok result := by
  refine (safe_binary kind typedLhs typedRhs combined).exists_ok ?_
  rw [shapeLhs, shapeRhs] at combined
  refine Outcome.not_refused_bind (not_refused_broadcastSizes combined) fun sizes _ => ?_
  dsimp only
  split_ifs with float
  · refine Outcome.not_refused_bind (Outcome.not_refused_require _ _) fun xs _ => ?_
    exact Outcome.not_refused_bind (Outcome.not_refused_require _ _)
      fun ys _ => Outcome.not_refused_ok _
  · refine Outcome.not_refused_bind (Outcome.not_refused_require _ _) fun xs _ => ?_
    refine Outcome.not_refused_bind (Outcome.not_refused_require _ _) fun ys _ => ?_
    refine Outcome.not_refused_bind ?_ fun results _ => Outcome.not_refused_ok _
    rintro ⟨error, failed, regular⟩
    obtain ⟨⟨x, y⟩, -, failed⟩ := Steps.exists_of_mapM_eq_error failed
    exact not_refused_binaryInt (fun same => float (total same)) x y ⟨error, failed, regular⟩

end Elementwise

-----------------------------------------------------------------------------------------
-- Reductions
-----------------------------------------------------------------------------------------

namespace Reduce

theorem exists_reduce {reduction : Reduction} {input : Tensor} {axes : List Nat}
    (resolved : Typing.reducedAxes reduction.axes input.sizes.length = .ok axes)
    (occupied : reduction.kind = .sum ∨ hasEmptyAxis axes input.sizes = false)
    : ∃ result, reduce reduction input = .ok result := by
  have combined : combinedAxes reduction input.sizes = .ok axes := by
    rw [combinedAxes, resolved]
    dsimp only
    refine if_neg ?_
    rintro ⟨extreme, empty⟩
    exact occupied.elim extreme fun filled => absurd empty (by simp [filled])
  rw [reduce, combined]
  exact ⟨_, rfl⟩

variable {axis : Int} {input : Tensor} {type : TensorType} {found : Nat}
  (typed : input.HasType type) (known : Typing.singleAxis axis type.rank = .ok found)
  (filled : input.sizes[found]? ≠ some 0)

include typed known filled

theorem exists_argMax (keepAxes : Bool) : ∃ result, argMax axis keepAxes input = .ok result := by
  refine (safe_argMax typed known).exists_ok ?_
  rw [← typed.rank] at known
  rw [argMax, resolveAxis_eq known, Steps.ok_bind]
  exact Outcome.not_refused_bind (not_refused_largest filled) fun _ _ => Outcome.not_refused_ok _

theorem exists_maxAndArgMax : ∃ result, maxAndArgMax axis input = .ok result := by
  refine (safe_maxAndArgMax typed known).exists_ok fun refused => filled ?_
  rw [← typed.rank] at known
  exact empty_of_refused known refused

end Reduce

-----------------------------------------------------------------------------------------
-- New shapes and parts
-----------------------------------------------------------------------------------------

namespace Movement

variable {inputs : Inputs} {input : Tensor} {type : TensorType} {dims : List Dimension}
  (first : inputs.tensor 0 = .ok input) (typed : input.HasType type)

/-- A tensor is shuffled if its type can be. -/
theorem exists_shuffles {order : ShuffleOrder} (typed : input.HasType type)
    (shapes : order.Shapes type.shape.dims dims)
    : ∃ result, Shuffles order input result := by
  have dropped : ∀ axis ∈ order.dropped input.sizes.length, input.sizes[axis]? = some 1 := by
    intro axis member
    obtain ⟨inside, untaken⟩ := ShuffleOrder.mem_dropped.mp member
    have inside' : axis < type.shape.dims.length := typed.fits.length_eq ▸ inside
    have unit := shapes.units axis _ (List.getElem?_eq_getElem inside') untaken
    have allowed := typed.fits.get inside' inside
    rw [List.get_eq_getElem, unit, Dimension.allows_static, List.get_eq_getElem] at allowed
    rw [List.getElem?_eq_getElem inside, ← allowed]
  obtain ⟨sizes, taken, -⟩ :=
    ShuffleOrder.exists_items?_of_forall₂ (Dimension.allows_static.mpr rfl) typed.fits shapes.taken
  have picks : ShuffleOrder.Picks input.sizes 1 order sizes := by
    refine (ShuffleOrder.items?_eq_some_iff.mp taken).imp fun axis size here => ?_
    cases axis with
    | broadcast => exact (Option.some.inj here).symm
    | axis source => exact here
  obtain ⟨result, rfl, reads⟩ := typed.valid.exists_reads fun coords =>
    ShuffleOrder.inside_sourceCoords picks shapes.distinct dropped
  exact ⟨result, dropped, picks, reads⟩

theorem exists_shuffle {order : ShuffleOrder} {shape : Shape} (typed : input.HasType type)
    (shaped : Typing.shuffledShape order type.shape = .ok shape)
    : ∃ result, shuffle order input = .ok result := by
  have shapes := Typing.shuffledShape_eq_ok_iff.mp shaped
  obtain ⟨result, shuffles⟩ := exists_shuffles typed shapes
  exact ⟨result, (shuffle_eq_ok_iff shapes.distinct).mpr shuffles⟩

/-- Extents that read no operand are known. -/
theorem exists_static {extents : List ExtentSource}
    (alone : extents.filterMap ExtentSource.operand? = [])
    : ∃ target : List Nat, extents = target.map .static := by
  induction extents with
  | nil => exact ⟨[], rfl⟩
  | cons extent extents ih =>
      cases extent with
      | operand position => cases alone
      | static size =>
          obtain ⟨target, rfl⟩ := ih alone
          exact ⟨size :: target, rfl⟩

/-- Known extents that are filled are sizes that stretch, by induction on the axes. -/
theorem stretches_of_fillsTo {sizes target : List Nat} (length : sizes.length = target.length)
    (fills
      : List.Forall₂ Typing.FillsTo
          ((target.map .static).zip (sizes.map fun size => some (.static size))) dims)
    : List.Forall₂ Elementwise.Stretches sizes target := by
  induction sizes generalizing target dims with
  | nil =>
      obtain rfl := List.length_eq_zero_iff.mp length.symm
      exact .nil
  | cons size sizes ih =>
      obtain ⟨other, target, rfl⟩ := List.exists_cons_of_length_eq_add_one length.symm
      obtain ⟨_, _, here, later, -⟩ := List.forall₂_cons_left_iff.mp fills
      refine .cons ?_ (ih (Nat.succ.inj length) later)
      rw [Typing.FillsTo, Typing.allocDim] at here
      split_ifs at here with stretches
      exact stretches

/-- Entries that read no operand are not refused by axes of known sizes. By induction on the axes. -/
theorem exists_selection {entries : List IndexEntry} {number axis : Nat} {sizes : List Nat}
    (alone : ∀ entry ∈ entries, entry.operands = [])
    (indexed : Typing.indexedDims number (sizes.map .static) entries = .ok dims)
    : ∀ outcome ∈ selections inputs axis sizes entries, ∃ selection, outcome = .ok selection := by
  induction sizes generalizing number axis entries dims with
  | nil =>
      rw [selections_nil]
      exact fun _ member => absurd member List.not_mem_nil
  | cons size sizes ih =>
      rw [selections_cons, List.forall_mem_cons]
      cases entries with
      | nil => exact ⟨⟨_, rfl⟩, ih alone (Typing.Folds.indexedDims_nil (number + 1) _)⟩
      | cons entry entries =>
          obtain ⟨aloneHere, alone⟩ := List.forall_mem_cons.mp alone
          obtain ⟨_, _, here, later, -⟩ := Typing.Folds.indexedDims_cons_eq_ok_iff.mp indexed
          refine ⟨?_, ih alone later⟩
          cases entry with
          | slice bounds =>
              rw [Typing.indexedDim] at here
              split_ifs at here with zero
              exact exists_select_slice aloneHere zero inputs axis size
          | scalar scalar =>
              cases scalar with
              | operand position => cases aloneHere
              | static index =>
                  rw [Typing.indexedDim] at here
                  split_ifs at here with found
                  obtain ⟨position, known⟩ := Option.isSome_iff_exists.mp found
                  refine ⟨⟨.single position, false⟩, ?_⟩
                  rw [selectFirst, select, Inputs.scalar, Steps.ok_bind, known]

/-- A size that is left divides by a product that stops at the largest size, if the new sizes fit a
word.
-/
theorem mod_of_mod_min {count product : Nat} (limited : count < sizeLimit)
    (divides : count % min product (sizeLimit - 1) = 0)
    (fits : count / min product (sizeLimit - 1) * product < sizeLimit)
    : count % product = 0 := by
  have positive : 0 < sizeLimit - 1 := by decide
  rcases Nat.le_total product (sizeLimit - 1) with small | large
  · rwa [Nat.min_eq_left small] at divides
  · rw [Nat.min_eq_right large] at divides fits
    rcases Nat.lt_or_ge count (sizeLimit - 1) with below | above
    · rw [Nat.mod_eq_of_lt below] at divides
      rw [divides, Nat.zero_mod]
    · obtain rfl : count = sizeLimit - 1 := by omega
      rw [Nat.div_self positive, Nat.one_mul] at fits
      obtain rfl : product = sizeLimit - 1 := by omega
      exact Nat.mod_self _

/-- Extents that read no operand are evaluated. -/
theorem exists_reshapesTo {extents : List ReshapeExtent}
    (alone : extents.filterMap ReshapeExtent.operand? = [])
    : ∃ places,
        extents.mapM (reshapeSize inputs) = .ok places ∧ List.Forall₂ ReshapesTo extents places := by
  have safe := Outcome.Safe.mapM fun extent (_ : extent ∈ extents) => safe_reshapeSize inputs extent
  obtain ⟨places, evaluated⟩ := safe.exists_ok fun ⟨error, failed, _⟩ => by
    obtain ⟨extent, member, failed⟩ := Steps.exists_of_mapM_eq_error failed
    have none := List.filterMap_eq_nil_iff.mp alone extent member
    cases extent with
    | operand position => cases none
    | explicit size => cases failed
    | infer => cases failed
  exact ⟨places, evaluated, safe.holds evaluated⟩

/-- New sizes that inference accepts and that fit a word hold the elements. -/
theorem exists_holds {extents : List ReshapeExtent} {places : List (Nat × Bool)} {count : Nat}
    {dim : Dimension} {result : TensorType} (reshapes : List.Forall₂ ReshapesTo extents places)
    (alone : extents.filterMap ReshapeExtent.operand? = []) (single : extents.count .infer ≤ 1)
    (limited : count < sizeLimit)
    (done
      : Typing.inferredDim (some count) (extents.count .infer) true (Typing.explicitProduct extents)
        = .ok dim)
    (shape : result.shape.dims = extents.map (Typing.reshapeDim dim))
    (sized : result.elementCount?.isSome = true)
    : ∃ size, Holds places count size := by
  obtain ⟨_, sized⟩ := Option.isSome_iff_exists.mp sized
  obtain ⟨sizes, known, rfl, fits⟩ := shape_eq_of_elementCount? sized
  rw [known] at shape
  have shape : sizes.map .static = extents.map (Typing.reshapeDim dim) := shape
  rw [explicitProduct_eq reshapes alone, Typing.inferredDim] at done
  simp only [Bool.not_true, Bool.false_eq_true, if_false] at done
  split_ifs at done with one refused same
  · obtain rfl := Except.ok.inj done
    obtain ⟨positive, divides⟩ := not_or.mp refused
    have inferred : .infer ∈ extents := List.count_pos_iff.mp (by omega)
    have filled
        : Fits (sizes.map .static)
            (fillInferred (count / min (RowMajor.count (places.map (·.1))) (sizeLimit - 1))
              places) := by
      rw [shape]
      exact fits_fillInferred reshapes single (Dimension.allows_static.mpr rfl)
    rw [← sizes_eq_of_fits filled, count_fillInferred reshapes inferred] at fits
    have divides := mod_of_mod_min limited (Decidable.not_not.mp divides) fits
    refine ⟨_, Nat.div_mul_cancel (Nat.dvd_of_mod_eq_zero divides), fun _ zero => ?_, fun none => ?_⟩
    · rw [zero, Nat.zero_min] at positive
      exact positive rfl
    · rw [(any_inferred_iff reshapes).mpr inferred] at none
      cases none
  · have none : .infer ∉ extents := List.count_eq_zero.mp (by omega)
    obtain rfl := sizes_eq_of_fits (shape ▸ fits_places reshapes none)
    rw [Nat.min_eq_left (Nat.le_sub_one_of_lt fits)] at same
    refine ⟨1, by rw [Nat.one_mul, same], fun some => ?_, fun _ => rfl⟩
    exact absurd ((any_inferred_iff reshapes).mp some) none

include first typed

theorem exists_alloc {extents : List ExtentSource}
    (shape : type.shape = .ofSizes input.sizes)
    (alone : extents.filterMap ExtentSource.operand? = []) (rank : type.rank ≤ extents.length)
    (sized
      : Typing.allocDims 0 extents (Typing.alignedDims extents.length type.shape.dims) = .ok dims)
    : ∃ result, alloc extents inputs = .ok result := by
  obtain ⟨target, rfl⟩ := exists_static alone
  have fills := Typing.allocDims_eq_ok_iff.mp sized
  rw [TensorType.rank, shape, Shape.rank, Shape.ofSizes, List.length_map, List.length_map] at rank
  rw [shape, Shape.ofSizes, Typing.alignedDims, List.length_map, List.length_map, List.map_map,
    ← List.take_append_drop (target.length - input.sizes.length) (target.map ExtentSource.static),
    List.zip_append (by simp)] at fills
  -- Aligned with the value are the last axes.
  have last := List.forall₂_drop (target.length - input.sizes.length) fills
  rw [List.drop_left' (by simp), ← List.map_drop] at last
  have evaluated : (target.map ExtentSource.static).mapM (allocSize inputs) = .ok target := by
    rw [Steps.mapM_eq_ok_iff, List.map_map]
    rfl
  have stretch : Elementwise.StretchTo input.sizes target :=
    ⟨rank, stretches_of_fillsTo (by rw [List.length_drop]; omega) last⟩
  refine (safe_alloc first typed sized).exists_ok ?_
  rw [refused_alloc_iff first, allocSizes_eq_ok_iff.mpr ⟨evaluated, stretch⟩]
  exact Outcome.not_refused_ok _

theorem exists_subtensor {entries : List IndexEntry} {result : Shape}
    (shape : type.shape = .ofSizes input.sizes) (alone : entries.flatMap IndexEntry.operands = [])
    (indexed : Typing.indexedShape entries type.shape = .ok result)
    : ∃ result, subtensor entries inputs = .ok result := by
  refine (safe_subtensor first typed indexed).exists_ok fun refused => ?_
  rw [Typing.indexedShape] at indexed
  split_ifs at indexed with long
  obtain ⟨dims, indexed, -⟩ := Steps.bind_eq_ok_iff.mp indexed
  rw [shape] at long indexed
  have rank : entries.length ≤ input.sizes.length := by
    simpa [Shape.rank, Shape.ofSizes] using long
  obtain ⟨error, member⟩ := exists_error_of_refused first rank refused
  obtain ⟨selection, same⟩ :=
    exists_selection (List.flatMap_eq_nil_iff.mp alone) indexed _ member
  cases same

theorem exists_reshape {extents : List ReshapeExtent} {dim : Dimension}
    (known : type.elementCount?.isSome = true)
    (alone : extents.filterMap ReshapeExtent.operand? = []) (single : extents.count .infer ≤ 1)
    (done
      : Typing.inferredDim type.elementCount? (extents.count .infer)
            (extents.filterMap ReshapeExtent.operand?).isEmpty (Typing.explicitProduct extents)
          = .ok dim)
    (sized
      : (TensorType.mk type.dtype ⟨extents.map (Typing.reshapeDim dim)⟩).elementCount?.isSome = true)
    : ∃ result, reshape extents inputs = .ok result := by
  obtain ⟨places, evaluated, reshapes⟩ := @exists_reshapesTo inputs extents alone
  obtain ⟨count, counted⟩ := Option.isSome_iff_exists.mp known
  obtain ⟨exact, limited⟩ := elementCount?_eq_some typed counted
  rw [counted, alone] at done
  obtain ⟨size, holds⟩ := exists_holds reshapes alone single limited done rfl sized
  exact ⟨_, (reshape_eq_ok_iff first single).mpr ⟨places, size, evaluated, exact ▸ holds, rfl⟩⟩

omit first typed

theorem exists_extent {axis : Nat} (inside : axis < input.sizes.length)
    : ∃ result, extent axis input = .ok result := by
  rw [extent, List.getElem?_eq_getElem inside]
  exact ⟨_, rfl⟩

end Movement

-----------------------------------------------------------------------------------------
-- Matrices
-----------------------------------------------------------------------------------------

namespace Matrix

/-- Operands of a product are vectors or matrices, and what is contracted are their extents. -/
theorem exists_sides {lhs rhs : List Nat} {inner other : Dimension} {dims : List Dimension}
    (sized : Typing.productDims (lhs.map .static) (rhs.map .static) = .ok (inner, other, dims))
    : ∃ m k l n,
        leftSizes lhs = .ok (m, k)
        ∧ rightSizes rhs = .ok (l, n)
        ∧ inner = .static k
        ∧ other = .static l := by
  rcases lhs with _ | ⟨_, _ | ⟨_, _ | _⟩⟩ <;> rcases rhs with _ | ⟨_, _ | ⟨_, _ | _⟩⟩ <;>
    cases sized <;> exact ⟨_, _, _, _, rfl, rfl, rfl, rfl⟩

theorem exists_product {lhs rhs : Tensor} {inner other : Dimension} {dims : List Dimension}
    (sized
      : Typing.productDims (lhs.sizes.map .static) (rhs.sizes.map .static)
        = .ok (inner, other, dims))
    (agree : ¬(inner.meet other).isNone = true)
    : ∃ result, product lhs rhs = .ok result := by
  obtain ⟨m, k, l, n, left, right, rfl, rfl⟩ := exists_sides sized
  have same : k = l := by
    by_contra differ
    exact agree (by simp [Dimension.meet, differ])
  have contracted : contraction lhs.sizes rhs.sizes = .ok (m, k, n) := by
    rw [contraction, left, right]
    exact if_neg (not_not.mpr same)
  rw [product, contracted]
  exact ⟨_, rfl⟩

theorem exists_blockDiagonal {blocks : List Tensor} {sizes : List (Nat × Nat)}
    (some : blocks ≠ [])
    (each
      : List.Forall₂ (fun (block : Tensor) size => block.sizes = [size.1, size.2]) blocks sizes)
    : ∃ result, blockDiagonal blocks = .ok result := by
  cases blocks with
  | nil => exact absurd rfl some
  | cons first rest =>
      rw [blockDiagonal, mapM_blockSizes each]
      exact ⟨_, rfl⟩

end Matrix

-----------------------------------------------------------------------------------------
-- Lists
-----------------------------------------------------------------------------------------

/-- An operand that was checked to be a single integer is one. -/
theorem Inputs.HaveTypes.exists_index {inputs : Inputs} {types : List ValueType}
    (typed : inputs.HaveTypes types) {position : Nat}
    (checked : Typing.integerAt types position = .ok ())
    : ∃ index, inputs.index position = .ok index := by
  rw [Typing.integerAt] at checked
  split at checked
  · rename_i type found
    split_ifs at checked with integer
    rw [Typing.isIntegerScalar, Bool.and_eq_true, decide_eq_true_eq] at integer
    have known : Typing.tensorAt types position = .ok type := by
      rw [Typing.tensorAt, found]
    obtain ⟨content, read, fine⟩ := typed.exists_tensor known
    have single : content.elements.toInts.length = 1 := by
      rw [Elements.length_toInts, fine.valid, List.length_eq_zero_iff.mp (fine.rank.trans integer.2)]
      rfl
    obtain ⟨value, same⟩ := List.length_eq_one_iff.mp single
    refine ⟨value.toInt, ?_⟩
    rw [Inputs.index, read, Steps.ok_bind, Tensor.index, ← fine.dtype, integer.1, same]
  · cases checked

namespace Sequence

variable {inputs : Inputs} {types : List ValueType} {type : ValueType}
  (typed : inputs.HaveTypes types)

include typed

theorem exists_mutate {mutation : ListMutation}
    (done : Typing.listMutation mutation types = .ok type)
    : ∃ items, mutate mutation inputs = .ok items := by
  cases mutation with
  | append | remove =>
      obtain ⟨_, -, done⟩ := Steps.bind_eq_ok_iff.mp done
      obtain ⟨element, checked, done⟩ := Steps.bind_eq_ok_iff.mp done
      obtain ⟨_, fits, -⟩ := Steps.bind_eq_ok_iff.mp done
      obtain ⟨items, first, -⟩ := typed.exists_list checked
      obtain ⟨item, second, -⟩ := typed.exists_element fits
      simp only [mutate, first, second, Steps.ok_bind]
      exact ⟨_, rfl⟩
  | extend =>
      obtain ⟨_, -, done⟩ := Steps.bind_eq_ok_iff.mp done
      obtain ⟨element, checked, done⟩ := Steps.bind_eq_ok_iff.mp done
      obtain ⟨other, checkedOther, -⟩ := Steps.bind_eq_ok_iff.mp done
      obtain ⟨items, first, -⟩ := typed.exists_list checked
      obtain ⟨others, second, -⟩ := typed.exists_list checkedOther
      simp only [mutate, first, second, Steps.ok_bind]
      exact ⟨_, rfl⟩
  | insert =>
      obtain ⟨_, -, done⟩ := Steps.bind_eq_ok_iff.mp done
      obtain ⟨element, checked, done⟩ := Steps.bind_eq_ok_iff.mp done
      obtain ⟨_, integer, done⟩ := Steps.bind_eq_ok_iff.mp done
      obtain ⟨_, fits, -⟩ := Steps.bind_eq_ok_iff.mp done
      obtain ⟨items, first, -⟩ := typed.exists_list checked
      obtain ⟨index, second⟩ := typed.exists_index integer
      obtain ⟨item, third, -⟩ := typed.exists_element fits
      simp only [mutate, first, second, third, Steps.ok_bind]
      exact ⟨_, rfl⟩
  | reverse =>
      obtain ⟨_, -, done⟩ := Steps.bind_eq_ok_iff.mp done
      obtain ⟨element, checked, -⟩ := Steps.bind_eq_ok_iff.mp done
      obtain ⟨items, first, -⟩ := typed.exists_list checked
      simp only [mutate, first, Steps.ok_bind]
      exact ⟨_, rfl⟩

theorem exists_count (done : Typing.listSearch types = .ok type)
    : ∃ result, count inputs = .ok result := by
  obtain ⟨_, -, done⟩ := Steps.bind_eq_ok_iff.mp done
  obtain ⟨element, checked, done⟩ := Steps.bind_eq_ok_iff.mp done
  obtain ⟨_, fits, -⟩ := Steps.bind_eq_ok_iff.mp done
  obtain ⟨items, first, -⟩ := typed.exists_list checked
  obtain ⟨needle, second, -⟩ := typed.exists_element fits
  simp only [count, first, second, Steps.ok_bind]
  exact ⟨_, rfl⟩

end Sequence

end Dataflow
