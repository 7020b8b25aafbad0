import Dataflow.Proofs.Execution.Room
import Dataflow.Proofs.Rewrite.Fusion

/-!
What the shape rules and the rules for largest elements make of two operations in a row. The new
operation has their results, and it is refused where one of them is.
-/

namespace Dataflow

open Backend (reference)

variable {operation inner outer fused : Operation} {inputs : Inputs} {value : Value}
  {types rest : List ValueType} {type : ValueType}

theorem Inputs.HaveTypes.exists_head {source : TensorType}
    (typed : inputs.HaveTypes (.tensor source :: rest))
    : ∃ content others,
        inputs = .tensor content :: others
        ∧ content.HasType source
        ∧ Inputs.HaveTypes others rest := by
  obtain ⟨first, others, here, later, rfl⟩ := List.forall₂_cons_right_iff.mp typed
  obtain ⟨content, rfl, fits⟩ := here.exists_tensor
  exact ⟨content, others, rfl, fits, later⟩

theorem Inputs.HaveTypes.exists_single {source : TensorType}
    (typed : inputs.HaveTypes [.tensor source])
    : ∃ content, inputs = [.tensor content] ∧ content.HasType source := by
  obtain ⟨content, _, rfl, fits, none⟩ := typed.exists_head
  exact ⟨content, congrArg _ (List.forall₂_nil_right_iff.mp none), fits⟩

-----------------------------------------------------------------------------------------
-- Shuffles of typed tensors
-----------------------------------------------------------------------------------------

theorem Movement.exists_hasType_shuffle {order : ShuffleOrder} {content : Tensor}
    {source shuffled : TensorType} (typed : content.HasType source)
    (inferred : Typing.shuffle order [.tensor source] = .ok (.tensor shuffled))
    : ∃ result, shuffle order content = .ok result ∧ result.HasType shuffled := by
  obtain ⟨_, dims, same, shapes, result⟩ := Typing.shuffle_eq_ok_iff.mp inferred
  obtain rfl := ValueType.tensor.inj (List.head_eq_of_cons_eq same)
  obtain rfl := ValueType.tensor.inj result
  have shaped := Typing.shuffledShape_eq_ok_iff.mpr shapes
  obtain ⟨result, done⟩ := exists_shuffle typed shaped
  exact ⟨result, done, (safe_shuffle typed shaped).holds done⟩

namespace Backend

theorem bounded_shuffle_eq_ok_iff {order : ShuffleOrder} {content : Tensor}
    : reference.bounded.execute (.shuffle order) [.tensor content] = .ok value
      ↔ ∃ result, Movement.shuffle order content = .ok result ∧ value = .tensor result := by
  rw [bounded_eq_ok_iff]
  exact (and_iff_right rfl).trans Kernel.tensor_eq_ok_iff

theorem not_refused_shuffle {order : ShuffleOrder} {source : TensorType}
    (inferred : Typing.shuffle order [.tensor source] = .ok type) (middle : Value)
    (typed : middle.HasType (.tensor source))
    : ¬(reference.bounded.execute (.shuffle order) [middle]).Refused := by
  obtain ⟨content, rfl, fits⟩ := typed.exists_tensor
  obtain ⟨_, dims, -, -, rfl⟩ := Typing.shuffle_eq_ok_iff.mp inferred
  obtain ⟨result, done, -⟩ := Movement.exists_hasType_shuffle fits inferred
  rw [bounded_shuffle_eq_ok_iff.mpr ⟨result, done, rfl⟩]
  exact Outcome.not_refused_ok _

end Backend

-----------------------------------------------------------------------------------------
-- One operation in the place of two
-----------------------------------------------------------------------------------------

namespace Backend

/-- An operation takes the place of two, of which the second one is total, if it has their results and
none where the first one is refused. Its kernel is safe, so it is refused there.
-/
theorem fuses_of_total_outer {made : ValueType} (inferred : Typing.infer inner types = .ok made)
    (inferred' : Typing.infer fused types = .ok type)
    (total
      : ∀ middle : Value, middle.HasType made → ¬(reference.bounded.execute outer [middle]).Refused)
    (results
      : ∀ {inputs : Inputs} {middle value : Value},
          inputs.HaveTypes types
          → middle.HasType made
          → Memory.isEnough inner inputs = true
          → Kernel.execute inner inputs = .ok middle
          → reference.bounded.execute outer [middle] = .ok value
          → Memory.isEnough fused inputs = true ∧ Kernel.execute fused inputs = .ok value)
    (refused
      : ∀ {inputs : Inputs},
          inputs.HaveTypes types
          → Memory.isEnough inner inputs = true
          → (Kernel.execute inner inputs).Refused
          → Memory.isEnough fused inputs = true
            ∧ ∀ value, Kernel.execute fused inputs ≠ .ok value)
    : reference.bounded.Fuses inner outer fused types [] := by
  intro inputs others typed typed'
  obtain rfl := List.forall₂_nil_right_iff.mp typed'
  rw [List.append_nil]
  constructor
  · intro value done
    obtain ⟨middle, first, second⟩ := Steps.bind_eq_ok_iff.mp done
    obtain ⟨enough, executed⟩ := bounded_eq_ok_iff.mp first
    have fits := (Kernel.safe_execute typed inferred).holds executed
    exact bounded_eq_ok_iff.mpr (results typed fits enough executed second)
  · intro either
    rcases Outcome.refused_bind_iff.mp either with first | ⟨middle, first, second⟩
    · obtain ⟨enough, none⟩ := bounded_refused_iff.mp first
      obtain ⟨enough, nothing⟩ := refused typed enough none
      exact bounded_refused_iff.mpr ⟨enough, (Kernel.safe_execute typed inferred').refused nothing⟩
    · have executed := (bounded_eq_ok_iff.mp first).2
      exact absurd second (total middle ((Kernel.safe_execute typed inferred).holds executed))

/-- An operation takes the place of a shuffle and another one behind it, if it has the results of this
one and none where this one is refused.
-/
theorem fuses_of_shuffle {order : ShuffleOrder} {source shuffled : TensorType}
    (inferred : Typing.shuffle order [.tensor source] = .ok (.tensor shuffled))
    (inferred' : Typing.infer fused (.tensor source :: rest) = .ok type)
    (results
      : ∀ {content middle : Tensor} {others : Inputs} {value : Value},
          content.HasType source
          → middle.HasType shuffled
          → Movement.shuffle order content = .ok middle
          → others.HaveTypes rest
          → Memory.isEnough outer (.tensor middle :: others) = true
          → Kernel.execute outer (.tensor middle :: others) = .ok value
          → Memory.isEnough fused (.tensor content :: others) = true
            ∧ Kernel.execute fused (.tensor content :: others) = .ok value)
    (refused
      : ∀ {content middle : Tensor} {others : Inputs},
          content.HasType source
          → middle.HasType shuffled
          → Movement.shuffle order content = .ok middle
          → others.HaveTypes rest
          → Memory.isEnough outer (.tensor middle :: others) = true
          → (Kernel.execute outer (.tensor middle :: others)).Refused
          → Memory.isEnough fused (.tensor content :: others) = true
            ∧ ∀ value, Kernel.execute fused (.tensor content :: others) ≠ .ok value)
    : reference.bounded.Fuses (.shuffle order) outer fused [.tensor source] rest := by
  intro inputs others typed typed'
  obtain ⟨content, rfl, fits⟩ := typed.exists_single
  obtain ⟨middle, done, fits'⟩ := Movement.exists_hasType_shuffle fits inferred
  have executed
      : reference.bounded.execute (.shuffle order) [.tensor content] = .ok (.tensor middle) :=
    bounded_shuffle_eq_ok_iff.mpr ⟨middle, done, rfl⟩
  rw [executed, Steps.ok_bind]
  constructor
  · intro value second
    obtain ⟨enough, executed⟩ := bounded_eq_ok_iff.mp second
    exact bounded_eq_ok_iff.mpr (results fits fits' done typed' enough executed)
  · intro second
    obtain ⟨enough, none⟩ := bounded_refused_iff.mp second
    obtain ⟨enough, nothing⟩ := refused fits fits' done typed' enough none
    have typed : Inputs.HaveTypes (.tensor content :: others) (.tensor source :: rest) :=
      List.rel_append typed typed'
    exact bounded_refused_iff.mpr ⟨enough, (Kernel.safe_execute typed inferred').refused nothing⟩

end Backend

namespace Rules

-----------------------------------------------------------------------------------------
-- Shuffles and new tensors
-----------------------------------------------------------------------------------------

/-- There is no new tensor if there are no sizes for it, and then it asks for no memory. -/
theorem nothing_of_allocSizes {extents : List ExtentSource} {content : Tensor}
    (first : inputs.tensor 0 = .ok content)
    (none : ∀ target, Movement.allocSizes extents content inputs ≠ .ok target)
    : Memory.isEnough (.alloc extents) inputs = true
      ∧ ∀ value, Kernel.execute (.alloc extents) inputs ≠ .ok value := by
  cases sized : Movement.allocSizes extents content inputs with
  | ok target => exact absurd sized (none target)
  | error error =>
      constructor
      · rw [Memory.isEnough, Memory.pieces, first, Steps.ok_bind, sized]
        rfl
      · intro value done
        obtain ⟨result, filled, -⟩ := Kernel.tensor_eq_ok_iff.mp done
        rw [Movement.alloc, first, Steps.ok_bind, sized] at filled
        cases filled

theorem fuses_shuffleOfAlloc {order : ShuffleOrder} {extents shape : List ExtentSource}
    {source filled : TensorType}
    (inferred : Typing.alloc extents (.tensor source :: rest) = .ok (.tensor filled))
    (all : order.kept = List.range extents.length)
    (inFront : insertsInFront order (extents.length - source.rank) = true)
    (composed : order.mapM (shuffledExtent extents) = some shape)
    (shuffled : Typing.shuffle order [.tensor filled] = .ok type)
    : reference.bounded.Fuses (.alloc extents) (.shuffle order) (.alloc shape)
        (.tensor source :: rest) [] := by
  have ordered : order.preservesOrder = true := by
    rw [ShuffleOrder.preservesOrder, all]
    exact ShuffleOrder.increasing_iff.mpr List.pairwise_lt_range
  have inferred' : Typing.infer (.alloc shape) (.tensor source :: rest) = .ok type :=
    Typing.alloc_of_shuffle inferred all inFront composed shuffled
  refine Backend.fuses_of_total_outer inferred inferred' (Backend.not_refused_shuffle shuffled) ?_ ?_
  · intro inputs middle value typed fits enough first second
    obtain ⟨content, others, rfl, fits', -⟩ := typed.exists_head
    have rank : content.rank = source.rank := fits'.rank
    obtain ⟨middle, rfl, valid⟩ := fits.exists_tensor
    obtain ⟨result, done, rfl⟩ := Backend.bounded_shuffle_eq_ok_iff.mp second
    have filling := Kernel.tensor_eq_ok_tensor_iff.mp first
    have filling' := Movement.shuffle_of_alloc rfl all (rank ▸ inFront) composed filling done
    have executed
        : Kernel.execute (.alloc shape) (.tensor content :: others) = .ok (.tensor result) :=
      Kernel.tensor_eq_ok_tensor_iff.mpr filling'
    refine ⟨?_, executed⟩
    have shuffles :=
      (Movement.shuffle_eq_ok_iff (ShuffleOrder.nodup_kept_of_preservesOrder ordered)).mp done
    have same : RowMajor.count result.sizes = RowMajor.count middle.sizes := by
      rw [← ((Kernel.safe_execute typed inferred').holds executed).valid,
        shuffles.elements ordered valid.valid, valid.valid]
    rwa [Memory.isEnough_alloc rfl filling', same, ← Memory.isEnough_alloc rfl filling]
  · intro inputs typed enough refused
    obtain ⟨content, others, rfl, fits, -⟩ := typed.exists_head
    have rank : content.rank = source.rank := fits.rank
    have fitting := (Typing.alloc_eq_ok_iff.mp inferred).2.2.1
    have refused := (Movement.refused_alloc_iff rfl).mp (Outcome.refused_map_iff.mp refused)
    refine nothing_of_allocSizes rfl fun target sized => ?_
    obtain ⟨_, sized⟩ := Movement.exists_allocSizes_of_shuffled all (rank ▸ fitting)
      (rank ▸ inFront) composed sized
    rw [sized] at refused
    exact Outcome.not_refused_ok _ refused

/-- Indices are read behind the first operand. -/
theorem ne_zero_of_indicesAt {positions : List Nat}
    (indices : Typing.indicesAt types positions = .ok ()) {position : Nat} (member : position ∈ positions)
    : position ≠ 0 := by
  rintro rfl
  have here := Steps.forM_eq_ok_iff.mp indices 0 member
  cases here

theorem fuses_allocOfShuffle {order : ShuffleOrder} {extents : List ExtentSource}
    {source padded : TensorType}
    (inferred : Typing.shuffle order [.tensor source] = .ok (.tensor padded))
    (padding : isLeftPadding order source.rank = true)
    (filled : Typing.alloc extents (.tensor padded :: rest) = .ok type)
    : reference.bounded.Fuses (.shuffle order) (.alloc extents) (.alloc extents)
        [.tensor source] rest := by
  have inferred' : Typing.infer (.alloc extents) (.tensor source :: rest) = .ok type :=
    Typing.alloc_of_padded inferred padding filled
  obtain ⟨indices, -, fitting, -⟩ := Typing.alloc_eq_ok_iff.mp filled
  obtain ⟨_, _, -, ⟨_, distinct, _⟩, -⟩ := Typing.shuffle_eq_ok_iff.mp inferred
  have behind : ∀ extent ∈ extents, extent.operand? ≠ some 0 := fun extent member same =>
    ne_zero_of_indicesAt indices (List.mem_filterMap.mpr ⟨extent, member, same⟩) rfl
  refine Backend.fuses_of_shuffle inferred inferred' ?_ ?_
  · intro content middle others value fits fits' done typed enough executed
    have rank : content.rank = source.rank := fits.rank
    obtain ⟨result, filling, rfl⟩ := Kernel.tensor_eq_ok_iff.mp executed
    have filling' := Movement.alloc_of_shuffle (rank ▸ padding) behind done filling
    refine ⟨?_, Kernel.tensor_eq_ok_tensor_iff.mpr filling'⟩
    rwa [Memory.isEnough_alloc rfl filling', ← Memory.isEnough_alloc rfl filling]
  · intro content middle others fits fits' done typed enough refused
    have rank : content.rank = source.rank := fits.rank
    have rank' : middle.rank = padded.rank := fits'.rank
    have refused := (Movement.refused_alloc_iff rfl).mp (Outcome.refused_map_iff.mp refused)
    refine nothing_of_allocSizes rfl fun target sized => ?_
    have shuffles := (Movement.shuffle_eq_ok_iff distinct).mp done
    rw [Movement.allocSizes_of_padded (rank ▸ padding) shuffles behind (rank' ▸ fitting) sized]
      at refused
    exact Outcome.not_refused_ok _ refused

-----------------------------------------------------------------------------------------
-- Shuffles and reshapes
-----------------------------------------------------------------------------------------

theorem fuses_reshapeOfShuffle {order : ShuffleOrder} {extents : List ReshapeExtent}
    {source shuffled : TensorType} (ordered : order.preservesOrder = true)
    (inferred : Typing.shuffle order [.tensor source] = .ok (.tensor shuffled))
    (reshaped : Typing.reshape extents (.tensor shuffled :: rest) = .ok type)
    : reference.bounded.Fuses (.shuffle order) (.reshape extents) (.reshape extents)
        [.tensor source] rest := by
  have inferred' : Typing.infer (.reshape extents) (.tensor source :: rest) = .ok type :=
    Typing.reshape_of_shuffled ordered inferred reshaped
  obtain ⟨indices, -⟩ := Typing.reshape_eq_ok_iff.mp reshaped
  have behind : ∀ extent ∈ extents, extent.operand? ≠ some 0 := fun extent member same =>
    ne_zero_of_indicesAt indices (List.mem_filterMap.mpr ⟨extent, member, same⟩) rfl
  have same {content middle : Tensor} {others : Inputs} (fits : content.HasType source)
      (done : Movement.shuffle order content = .ok middle)
      : Kernel.execute (.reshape extents) (.tensor middle :: others)
        = Kernel.execute (.reshape extents) (.tensor content :: others) :=
    congrArg Kernel.tensor (Movement.reshape_of_shuffle ordered fits.valid behind done)
  refine Backend.fuses_of_shuffle inferred inferred' ?_ ?_
  · intro content middle others value fits fits' done typed enough executed
    exact ⟨rfl, (same fits done).symm.trans executed⟩
  · intro content middle others fits fits' done typed enough refused
    refine ⟨rfl, fun value executed => ?_⟩
    rw [same fits done, executed] at refused
    exact Outcome.not_refused_ok _ refused

theorem fuses_shuffleOfReshape {order : ShuffleOrder} {extents shape : List ReshapeExtent}
    {source reshaped : TensorType} (ordered : order.preservesOrder = true)
    (inferred : Typing.reshape extents (.tensor source :: rest) = .ok (.tensor reshaped))
    (composed : order.mapM (shuffledReshapeExtent extents) = some shape)
    (shuffled : Typing.shuffle order [.tensor reshaped] = .ok type)
    : reference.bounded.Fuses (.reshape extents) (.shuffle order) (.reshape shape)
        (.tensor source :: rest) [] := by
  have inferred' : Typing.infer (.reshape shape) (.tensor source :: rest) = .ok type :=
    Typing.shuffle_of_reshape ordered inferred composed shuffled
  obtain ⟨-, -, single, dim, inferredDim, same⟩ := Typing.reshape_eq_ok_iff.mp inferred
  obtain ⟨-, -, singleShape, -⟩ := Typing.reshape_eq_ok_iff.mp inferred'
  obtain rfl := ValueType.tensor.inj same
  obtain ⟨_, dims, same, shapes, -⟩ := Typing.shuffle_eq_ok_iff.mp shuffled
  obtain rfl := ValueType.tensor.inj (List.head_eq_of_cons_eq same)
  refine Backend.fuses_of_total_outer inferred inferred' (Backend.not_refused_shuffle shuffled) ?_ ?_
  · intro inputs middle value typed fits enough first second
    obtain ⟨content, others, rfl, -, -⟩ := typed.exists_head
    obtain ⟨middle, rfl, valid⟩ := fits.exists_tensor
    obtain ⟨result, done, rfl⟩ := Backend.bounded_shuffle_eq_ok_iff.mp second
    have reshaping := Kernel.tensor_eq_ok_tensor_iff.mp first
    have executed :=
      Movement.shuffle_of_reshape ordered composed rfl single singleShape valid.valid reshaping done
    exact ⟨rfl, Kernel.tensor_eq_ok_tensor_iff.mpr executed⟩
  · intro inputs typed enough refused
    obtain ⟨content, others, rfl, fits, -⟩ := typed.exists_head
    refine ⟨rfl, fun value executed => ?_⟩
    obtain ⟨result, done, rfl⟩ := Kernel.tensor_eq_ok_iff.mp executed
    have occupied (_ : .infer ∈ extents) (unit : dim = .static 1) : content.elements.size ≠ 0 :=
      Movement.size_of_inferredDim fits (unit ▸ inferredDim)
    obtain ⟨middle, reshaping⟩ := Movement.exists_reshape_of_shuffled ordered shapes composed rfl
      single singleShape occupied done
    have refused := Outcome.refused_map_iff.mp refused
    rw [reshaping] at refused
    exact Outcome.not_refused_ok _ refused

-----------------------------------------------------------------------------------------
-- Shuffles of parts
-----------------------------------------------------------------------------------------

theorem fuses_shuffleOfSubtensor {order : ShuffleOrder} {entries folded : List IndexEntry}
    {source sliced : TensorType} (plain : order.insertsAxes = false)
    (ordered : order.preservesOrder = true)
    (inferred : Typing.subtensor entries (.tensor source :: rest) = .ok (.tensor sliced))
    (shuffled : Typing.shuffle order [.tensor sliced] = .ok type)
    (folds : foldDropped (order.dropped sliced.rank) 0 source.shape.dims entries = some folded)
    {other : ValueType}
    (inferred' : Typing.subtensor folded (.tensor source :: rest) = .ok other)
    : reference.bounded.Fuses (.subtensor entries) (.shuffle order) (.subtensor folded)
        (.tensor source :: rest) [] := by
  obtain ⟨-, -, rank, dims, indexed, -⟩ := Typing.subtensor_eq_ok_iff.mp inferred
  obtain ⟨-, -, fitting, dims', indexed', -⟩ := Typing.subtensor_eq_ok_iff.mp inferred'
  refine Backend.fuses_of_total_outer inferred inferred' (Backend.not_refused_shuffle shuffled) ?_ ?_
  · intro inputs middle value typed fits enough first second
    obtain ⟨content, others, rfl, fits', -⟩ := typed.exists_head
    obtain ⟨middle, rfl, valid⟩ := fits.exists_tensor
    obtain ⟨result, done, rfl⟩ := Backend.bounded_shuffle_eq_ok_iff.mp second
    have slicing := Kernel.tensor_eq_ok_tensor_iff.mp first
    have rank : middle.rank = sliced.rank := valid.rank
    obtain ⟨done, enough⟩ := Movement.shuffle_of_subtensor plain ordered rfl fits'.fits
      (rank ▸ folds) fitting indexed' enough slicing done
    exact ⟨enough, Kernel.tensor_eq_ok_tensor_iff.mpr done⟩
  · intro inputs typed enough refused
    obtain ⟨content, others, rfl, fits, -⟩ := typed.exists_head
    obtain ⟨nothing, enough⟩ := Movement.refused_subtensor_of_folded rfl fits.fits folds rank indexed
      enough (Outcome.refused_map_iff.mp refused)
    refine ⟨enough, fun value executed => ?_⟩
    obtain ⟨result, done, -⟩ := Kernel.tensor_eq_ok_iff.mp executed
    exact nothing result done

-----------------------------------------------------------------------------------------
-- Parts of pairs
-----------------------------------------------------------------------------------------

theorem bounded_tupleElement_eq_ok_iff {index : Nat} {parts : List Value}
    : reference.bounded.execute (.tupleElement index) [.tuple parts] = .ok value
      ↔ parts[index]? = some value := by
  rw [Backend.bounded_eq_ok_iff, Kernel.execute, Inputs.tupleElement]
  refine (and_iff_right rfl).trans ?_
  cases parts[index]? <;> simp [Outcome.fail]

/-- A part of a tuple that has one is there. -/
theorem exists_part {index : Nat} {parts : List ValueType} {part : ValueType}
    (there : parts[index]? = some part) {middle : Value} (typed : middle.HasType (.tuple parts))
    : ∃ value, reference.bounded.execute (.tupleElement index) [middle] = .ok value := by
  obtain ⟨values, rfl, fits⟩ := typed.exists_tuple
  obtain ⟨inside, -⟩ := List.getElem?_eq_some_iff.mp there
  have found := List.getElem?_eq_getElem (fits.length_eq ▸ inside : index < values.length)
  exact ⟨_, bounded_tupleElement_eq_ok_iff.mpr found⟩

theorem not_refused_tupleElement {index : Nat} {parts : List ValueType} {part : ValueType}
    (there : parts[index]? = some part) (middle : Value) (typed : middle.HasType (.tuple parts))
    : ¬(reference.bounded.execute (.tupleElement index) [middle]).Refused := by
  obtain ⟨value, done⟩ := exists_part there typed
  rw [done]
  exact Outcome.not_refused_ok _

/-- The pair that the kernel makes. -/
theorem execute_maxAndArgMax_eq_ok_iff {axis : Int} {content : Tensor}
    : Kernel.execute (.maxAndArgMax axis) [.tensor content] = .ok value
      ↔ ∃ values places,
          Reduce.maxAndArgMax axis content = .ok (values, places)
          ∧ value = .tuple [.tensor values, .tensor places] := by
  rw [Kernel.execute, Kernel.maxAndArgMax, Inputs.tensor_cons_zero, Steps.ok_bind,
    Steps.bind_eq_ok_iff]
  simp [eq_comm]

theorem execute_maxAndArgMax_refused_iff {axis : Int} {content : Tensor}
    : (Kernel.execute (.maxAndArgMax axis) [.tensor content]).Refused
      ↔ (Reduce.maxAndArgMax axis content).Refused := by
  rw [Kernel.execute, Kernel.maxAndArgMax, Inputs.tensor_cons_zero, Steps.ok_bind,
    Outcome.refused_bind_iff, or_iff_left]
  rintro ⟨_, _, second⟩
  exact Outcome.not_refused_ok _ second

section

variable {axis : Int} {source : TensorType}
  (inferred : Typing.maxAndArgMax axis [.tensor source] = .ok type)

include inferred

/-- Largest elements are looked for among numbers, along an axis. -/
theorem exists_searched
    : source.dtype.isNumeric = true
      ∧ ∃ found places shape,
          Typing.singleAxis axis source.rank = .ok found
          ∧ type = .tuple [.tensor ⟨source.dtype, shape⟩, places] := by
  obtain ⟨input, numbers, inferred⟩ := Steps.bind_eq_ok_iff.mp inferred
  obtain ⟨found, known, done⟩ := Steps.bind_eq_ok_iff.mp inferred
  obtain ⟨same, numeric⟩ := Typing.reduced_eq_ok_iff.mp numbers
  obtain rfl := ValueType.tensor.inj (List.head_eq_of_cons_eq same)
  exact ⟨numeric, found, _, _, known, (Except.ok.inj done).symm⟩

/-- An operation takes the place of a pair and of one of its parts, if it has this part wherever there
is a pair, and otherwise no result.
-/
theorem fuses_of_searched {index : Nat} {made part : ValueType} {parts : List ValueType}
    (pair : type = .tuple parts) (there : parts[index]? = some part)
    (inferred' : Typing.infer fused [.tensor source] = .ok made)
    (enough
      : ∀ content : Tensor, content.HasType source
          → Memory.isEnough fused [.tensor content]
            = Memory.isEnough (.maxAndArgMax axis) [.tensor content])
    (results
      : ∀ {content values places : Tensor} {value : Value},
          content.HasType source
          → Reduce.maxAndArgMax axis content = .ok (values, places)
          → [.tensor values, .tensor places][index]? = some value
          → Kernel.execute fused [.tensor content] = .ok value)
    (nothing
      : ∀ {content : Tensor},
          content.HasType source
          → (Reduce.maxAndArgMax axis content).Refused
          → ∀ value, Kernel.execute fused [.tensor content] ≠ .ok value)
    : reference.bounded.Fuses (.maxAndArgMax axis) (.tupleElement index) fused
        [.tensor source] [] := by
  subst pair
  refine Backend.fuses_of_total_outer inferred inferred' (not_refused_tupleElement there) ?_ ?_
  · intro inputs middle value typed fits enough' first second
    obtain ⟨content, rfl, fits'⟩ := typed.exists_single
    obtain ⟨values, places, done, rfl⟩ := execute_maxAndArgMax_eq_ok_iff.mp first
    exact ⟨(enough content fits').trans enough',
      results fits' done (bounded_tupleElement_eq_ok_iff.mp second)⟩
  · intro inputs typed enough' refused
    obtain ⟨content, rfl, fits⟩ := typed.exists_single
    exact ⟨(enough content fits).trans enough',
      nothing fits (execute_maxAndArgMax_refused_iff.mp refused)⟩

theorem fuses_maxAndArgMaxToReduce (integer : source.dtype.isInteger = true)
    : reference.bounded.Fuses (.maxAndArgMax axis) (.tupleElement 0)
        (.reduce ⟨.max, [axis], false⟩) [.tensor source] [] := by
  obtain ⟨_, largest, places, -, rfl, inferred', -⟩ := Typing.maxAndArgMax_eq_ok inferred
  obtain ⟨-, found, _, _, known, -⟩ := exists_searched inferred
  have located {content : Tensor} (fits : content.HasType source)
      : Typing.singleAxis axis content.rank = .ok found := by
    have rank : content.rank = source.rank := fits.rank
    exact rank ▸ known
  refine fuses_of_searched inferred rfl rfl inferred' (fun content fits => ?_) ?_ ?_
  · exact Reduce.isEnough_reduce_eq (located fits)
  · intro content values places value fits done taken
    obtain rfl := Option.some.inj taken
    exact Kernel.tensor_eq_ok_tensor_iff.mpr
      (Reduce.reduce_of_maxAndArgMax (located fits) (fits.dtype ▸ integer) fits.valid done)
  · intro content fits refused value executed
    obtain ⟨result, done, -⟩ := Kernel.tensor_eq_ok_iff.mp executed
    exact (Reduce.ne_ok_of_refused (located fits) refused result).1 done

theorem fuses_maxAndArgMaxToArgMax
    : reference.bounded.Fuses (.maxAndArgMax axis) (.tupleElement 1) (.argMax axis false)
        [.tensor source] [] := by
  obtain ⟨_, largest, places, -, rfl, -, inferred'⟩ := Typing.maxAndArgMax_eq_ok inferred
  obtain ⟨numeric, found, _, _, known, -⟩ := exists_searched inferred
  refine fuses_of_searched inferred rfl rfl inferred' (fun _ _ => rfl) ?_ ?_
  · intro content values places value fits done taken
    obtain rfl := Option.some.inj taken
    obtain ⟨_, -, -, -, searched⟩ :=
      Reduce.maxAndArgMax_eq_ok (fits.dtype ▸ numeric) fits.valid done
    exact Kernel.tensor_eq_ok_tensor_iff.mpr searched
  · intro content fits refused value executed
    have rank : content.rank = source.rank := fits.rank
    obtain ⟨result, done, -⟩ := Kernel.tensor_eq_ok_iff.mp executed
    exact (Reduce.ne_ok_of_refused (rank ▸ known) refused result).2 done

end

end Rules

end Dataflow
