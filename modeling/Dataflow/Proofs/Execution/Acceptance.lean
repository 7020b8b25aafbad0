import Dataflow.Proofs.Tensor.Acceptance
import Dataflow.Proofs.Typing.Soundness

/-!
Total operations. What an operation does not refuse can be told from its entries and the types of its
operands, if all sizes are known; its kernel has a result then.
-/

namespace Dataflow

-----------------------------------------------------------------------------------------
-- Total operations
-----------------------------------------------------------------------------------------

/-- A literal has the number of bytes that its type asks for. -/
def Literal.isWhole (literal : Literal) : Bool :=
  literal.type.byteCount? = some literal.bytes.length

/-- Whether there may be elements on each of some axes. -/
def TensorType.isOccupied (type : TensorType) (axes : List Int) : Bool :=
  match Typing.reducedAxes axes type.rank with
  | .ok axes => axes.all fun axis => type.shape.dims[axis]? ≠ some (.static 0)
  | .error _ => false

namespace Operation

/-- Whether the first operand is a tensor whose type passes a test. -/
def testsFirst (types : List ValueType) (test : TensorType → Bool) : Bool :=
  (types[0]?.bind ValueType.tensor?).any test

/-- Whether an operation accepts all operands of some types that it can be typed with, if all sizes
are known: a literal is whole, integers are not divided, there are elements where some are searched,
no extent and no index is read from an operand, and nothing depends on numbers or on the length of a
list.
-/
def isTotalOn (operation : Operation) (types : List ValueType) : Bool :=
  match operation with
  | .constant literal => literal.isWhole
  | .binary kind => kind ≠ .div || testsFirst types fun type => type.dtype.isFloat
  | .reduce reduction =>
    reduction.kind = .sum || testsFirst types fun type => type.isOccupied reduction.axes
  | .argMax axis _ | .maxAndArgMax axis => testsFirst types fun type => type.isOccupied [axis]
  | .alloc extents => (extents.filterMap ExtentSource.operand?).isEmpty
  | .subtensor entries => (entries.flatMap IndexEntry.operands).isEmpty
  | .reshape extents => (extents.filterMap ReshapeExtent.operand?).isEmpty
  | .listMutation _ inplace => !inplace
  | .unary _ | .tupleElement _ | .shuffle _ | .extent _ | .dot | .blockDiagonal | .makeList
  | .listLength | .listCount => true
  | .solveTriangular _ | .listGet _ | .listIndex => false

end Operation

/-- A whole literal has a tensor. -/
theorem Tensor.exists_ofLiteral {literal : Literal} (whole : literal.isWhole = true)
    : ∃ tensor, ofLiteral literal = .ok tensor := by
  have counted := of_decide_eq_true whole
  obtain ⟨count, known, product⟩ := Option.bind_eq_some_iff.mp counted
  obtain ⟨sizes, listed, elements⟩ := Option.bind_eq_some_iff.mp known
  obtain ⟨rfl, -⟩ := Movement.checkedProduct_eq_some elements
  have bytes := (Movement.checkedProduct_eq_some product).1
  rw [ofLiteral, listed]
  dsimp only
  rw [if_pos (by rw [← bytes]; simp)]
  exact ⟨_, rfl⟩

/-- A tensor of known sizes has elements on axes that are occupied. -/
theorem TensorType.hasEmptyAxis_of_isOccupied {type : TensorType} {sizes found : List Nat}
    {axes : List Int} (shape : type.shape = .ofSizes sizes)
    (resolved : Typing.reducedAxes axes type.rank = .ok found)
    (occupied : type.isOccupied axes = true)
    : Reduce.hasEmptyAxis found sizes = false := by
  rw [isOccupied, resolved, List.all_eq_true] at occupied
  rw [Reduce.hasEmptyAxis, List.any_eq_false]
  intro axis member empty
  have here := occupied axis member
  rw [shape, Shape.ofSizes, List.getElem?_map, of_decide_eq_true empty] at here
  exact absurd rfl (of_decide_eq_true here)

namespace Kernel

variable {inputs : Inputs} {types : List ValueType} {type : ValueType}

/-- Sizes of a checked operand are known, if all are. -/
theorem isSome_of_tensorAt (sized : ∀ type ∈ types, type.isSized = true) {position : Nat}
    {input : TensorType} (checked : Typing.tensorAt types position = .ok input)
    : input.elementCount?.isSome = true := by
  rw [Typing.tensorAt] at checked
  split at checked
  · rename_i found
    obtain rfl := Except.ok.inj checked
    obtain ⟨type, listed, tensor⟩ := Option.bind_eq_some_iff.mp found
    have known := sized type (List.mem_of_getElem? listed)
    cases type with
    | tensor type =>
        obtain rfl := Option.some.inj tensor
        exact known
    | list element => cases tensor
    | tuple parts => cases tensor
  · cases checked

/-- The type of a checked operand passes a test of the first one. -/
theorem test_of_testsFirst {input : TensorType} {test : TensorType → Bool}
    (checked : Typing.tensorAt types 0 = .ok input) (tests : Operation.testsFirst types test = true)
    : test input = true := by
  rw [Typing.tensorAt] at checked
  split at checked
  · rename_i found
    obtain rfl := Except.ok.inj checked
    rwa [Operation.testsFirst, found] at tests
  · cases checked

theorem exists_tensor {result : Outcome Tensor} (done : ∃ content, result = .ok content)
    : ∃ value, tensor result = .ok value := by
  obtain ⟨content, rfl⟩ := done
  exact ⟨_, rfl⟩

section

variable (typed : inputs.HaveTypes types)

include typed

theorem exists_unary {kind : UnaryKind} (done : Typing.unary kind types = .ok type)
    : ∃ value, execute (.unary kind) inputs = .ok value := by
  obtain ⟨_, -, done⟩ := Steps.bind_eq_ok_iff.mp done
  obtain ⟨inputType, checked, done⟩ := Steps.bind_eq_ok_iff.mp done
  split_ifs at done with supported
  obtain ⟨input, first, fine⟩ := typed.exists_tensor checked
  simp only [execute, onFirst, first, Steps.ok_bind]
  exact exists_tensor (Elementwise.exists_unary (fine.dtype ▸ supported))

theorem exists_tupleElement {index : Nat} (done : Typing.tupleElement index types = .ok type)
    : ∃ value, execute (.tupleElement index) inputs = .ok value := by
  obtain ⟨partTypes, rfl, listed⟩ := Typing.tupleElement_eq_ok_iff.mp done
  cases typed with
  | cons fine _ =>
      obtain ⟨parts, rfl, each⟩ := fine.exists_tuple
      have inside : index < parts.length :=
        each.length_eq ▸ (List.getElem?_eq_some_iff.mp listed).1
      rw [execute, Inputs.tupleElement, List.getElem?_eq_getElem inside]
      exact ⟨_, rfl⟩

theorem exists_shuffle {order : ShuffleOrder} (done : Typing.shuffle order types = .ok type)
    : ∃ value, execute (.shuffle order) inputs = .ok value := by
  obtain ⟨_, -, done⟩ := Steps.bind_eq_ok_iff.mp done
  obtain ⟨inputType, checked, done⟩ := Steps.bind_eq_ok_iff.mp done
  obtain ⟨shape, shaped, -⟩ := Steps.bind_eq_ok_iff.mp done
  obtain ⟨input, first, fine⟩ := typed.exists_tensor checked
  simp only [execute, onFirst, first, Steps.ok_bind]
  exact exists_tensor (Movement.exists_shuffle fine shaped)

theorem exists_extent {axis : Nat} (done : Typing.extent axis types = .ok type)
    : ∃ value, execute (.extent axis) inputs = .ok value := by
  obtain ⟨_, -, done⟩ := Steps.bind_eq_ok_iff.mp done
  obtain ⟨inputType, checked, done⟩ := Steps.bind_eq_ok_iff.mp done
  split_ifs at done with inside
  obtain ⟨input, first, fine⟩ := typed.exists_tensor checked
  simp only [execute, onFirst, first, Steps.ok_bind]
  exact exists_tensor (Movement.exists_extent (fine.rank ▸ inside))

theorem exists_blockDiagonal (done : Typing.blockDiagonal types = .ok type)
    : ∃ value, execute .blockDiagonal inputs = .ok value := by
  rw [Typing.blockDiagonal] at done
  split_ifs at done with some
  obtain ⟨firstType, checked, done⟩ := Steps.bind_eq_ok_iff.mp done
  obtain ⟨dims, sized, -⟩ := Steps.bind_eq_ok_iff.mp done
  obtain ⟨blocks, sizes, all, each, -⟩ := Matrix.exists_blocks typed rfl sized rfl rfl
  have tensors : inputs.tensors = .ok blocks := all
  simp only [execute, tensors, Steps.ok_bind]
  refine exists_tensor (Matrix.exists_blockDiagonal ?_ (each.imp fun _ _ here => here.2.2))
  rintro rfl
  have length := congrArg List.length (Steps.mapM_eq_ok_iff.mp tensors)
  rw [List.length_map, List.length_map, typed.length_eq] at length
  exact some (by simp [List.length_eq_zero_iff.mp length])

theorem exists_makeList (done : Typing.makeList types = .ok type)
    : ∃ value, execute .makeList inputs = .ok value := by
  obtain ⟨element, items, -, tensors, -⟩ := Sequence.exists_tensors_of_makeList typed done
  rw [execute, tensors]
  exact ⟨_, rfl⟩

theorem exists_listLength (done : Typing.listLength types = .ok type)
    : ∃ value, execute .listLength inputs = .ok value := by
  obtain ⟨_, -, done⟩ := Steps.bind_eq_ok_iff.mp done
  obtain ⟨element, checked, -⟩ := Steps.bind_eq_ok_iff.mp done
  obtain ⟨items, first, -⟩ := typed.exists_list checked
  rw [execute, first]
  exact ⟨_, rfl⟩

section

variable (known : ∀ type ∈ types, type.isSized = true)

include known

theorem exists_binary {kind : BinaryKind} (done : Typing.binary types = .ok type)
    (total : (Operation.binary kind).isTotalOn types = true)
    : ∃ value, execute (.binary kind) inputs = .ok value := by
  obtain ⟨_, -, done⟩ := Steps.bind_eq_ok_iff.mp done
  obtain ⟨lhsType, checkedLhs, done⟩ := Steps.bind_eq_ok_iff.mp done
  obtain ⟨rhsType, checkedRhs, done⟩ := Steps.bind_eq_ok_iff.mp done
  split_ifs at done
  split at done
  · rename_i dims combined
    obtain ⟨lhs, first, fineLhs⟩ := typed.exists_tensor checkedLhs
    obtain ⟨rhs, second, fineRhs⟩ := typed.exists_tensor checkedRhs
    simp only [execute, onTwo, first, second, Steps.ok_bind]
    refine exists_tensor (Elementwise.exists_binary fineLhs fineRhs combined
      (fineLhs.shape_eq (isSome_of_tensorAt known checkedLhs)).1
      (fineRhs.shape_eq (isSome_of_tensorAt known checkedRhs)).1 ?_)
    rintro rfl
    have float := test_of_testsFirst checkedLhs (by simpa [Operation.isTotalOn] using total)
    exact fineLhs.dtype ▸ float
  · cases done

/-- The operand of a reduction is a tensor of known sizes. -/
theorem exists_occupied {inputType : TensorType} (checked : Typing.reduced types = .ok inputType)
    : ∃ input,
        inputs.tensor 0 = .ok input
        ∧ input.HasType inputType
        ∧ inputType.shape = .ofSizes input.sizes
        ∧ ∀ test, Operation.testsFirst types test = true → test inputType = true := by
  obtain ⟨input, first, fine⟩ := exists_reduced typed checked
  obtain ⟨rfl, -⟩ := Typing.reduced_eq_ok_iff.mp checked
  have single : Typing.tensorAt [.tensor inputType] 0 = .ok inputType := rfl
  exact ⟨input, first, fine, (fine.shape_eq (isSome_of_tensorAt known single)).1,
    fun _ => test_of_testsFirst single⟩

theorem exists_reduce {reduction : Reduction} (done : Typing.reduce reduction types = .ok type)
    (total : (Operation.reduce reduction).isTotalOn types = true)
    : ∃ value, execute (.reduce reduction) inputs = .ok value := by
  obtain ⟨inputType, checked, done⟩ := Steps.bind_eq_ok_iff.mp done
  obtain ⟨axes, resolved, -⟩ := Steps.bind_eq_ok_iff.mp done
  obtain ⟨input, first, fine, shape, tests⟩ := exists_occupied typed known checked
  simp only [execute, onFirst, first, Steps.ok_bind]
  refine exists_tensor (Reduce.exists_reduce (fine.rank ▸ resolved) ?_)
  rw [Operation.isTotalOn, Bool.or_eq_true, decide_eq_true_eq] at total
  exact total.imp_right fun occupied =>
    TensorType.hasEmptyAxis_of_isOccupied shape resolved (tests _ occupied)

/-- There are elements on the axis of a search. -/
theorem exists_filled {axis : Int} {found : Nat} {inputType : TensorType}
    (checked : Typing.reduced types = .ok inputType)
    (resolved : Typing.singleAxis axis inputType.rank = .ok found)
    (occupied : (Operation.testsFirst types fun type => type.isOccupied [axis]) = true)
    : ∃ input,
        inputs.tensor 0 = .ok input ∧ input.HasType inputType ∧ input.sizes[found]? ≠ some 0 := by
  obtain ⟨input, first, fine, shape, tests⟩ := exists_occupied typed known checked
  refine ⟨input, first, fine, ?_⟩
  have filled := TensorType.hasEmptyAxis_of_isOccupied shape (Typing.reducedAxes_single resolved)
    (tests _ occupied)
  simpa [Reduce.hasEmptyAxis] using filled

theorem exists_argMax {axis : Int} {keepAxes : Bool}
    (done : Typing.argMax axis keepAxes types = .ok type)
    (total : (Operation.argMax axis keepAxes).isTotalOn types = true)
    : ∃ value, execute (.argMax axis keepAxes) inputs = .ok value := by
  obtain ⟨inputType, checked, done⟩ := Steps.bind_eq_ok_iff.mp done
  obtain ⟨found, resolved, -⟩ := Steps.bind_eq_ok_iff.mp done
  obtain ⟨input, first, fine, filled⟩ := exists_filled typed known checked resolved total
  simp only [execute, onFirst, first, Steps.ok_bind]
  exact exists_tensor (Reduce.exists_argMax fine resolved filled keepAxes)

theorem exists_maxAndArgMax {axis : Int} (done : Typing.maxAndArgMax axis types = .ok type)
    (total : (Operation.maxAndArgMax axis).isTotalOn types = true)
    : ∃ value, execute (.maxAndArgMax axis) inputs = .ok value := by
  obtain ⟨inputType, checked, done⟩ := Steps.bind_eq_ok_iff.mp done
  obtain ⟨found, resolved, -⟩ := Steps.bind_eq_ok_iff.mp done
  obtain ⟨input, first, fine, filled⟩ := exists_filled typed known checked resolved total
  obtain ⟨⟨values, places⟩, searched⟩ := Reduce.exists_maxAndArgMax fine resolved filled
  rw [execute, maxAndArgMax, first, Steps.ok_bind, searched]
  exact ⟨_, rfl⟩

theorem exists_alloc {extents : List ExtentSource} (done : Typing.alloc extents types = .ok type)
    (total : (Operation.alloc extents).isTotalOn types = true)
    : ∃ value, execute (.alloc extents) inputs = .ok value := by
  obtain ⟨valueType, checked, done⟩ := Steps.bind_eq_ok_iff.mp done
  obtain ⟨_, -, done⟩ := Steps.bind_eq_ok_iff.mp done
  obtain ⟨_, -, done⟩ := Steps.bind_eq_ok_iff.mp done
  split_ifs at done with rank
  obtain ⟨dims, sized, -⟩ := Steps.bind_eq_ok_iff.mp done
  obtain ⟨value, first, fine⟩ := typed.exists_tensor checked
  exact exists_tensor (Movement.exists_alloc first fine
    (fine.shape_eq (isSome_of_tensorAt known checked)).1 (List.isEmpty_iff.mp total)
    (Nat.le_of_not_lt rank) sized)

theorem exists_subtensor {entries : List IndexEntry}
    (done : Typing.subtensor entries types = .ok type)
    (total : (Operation.subtensor entries).isTotalOn types = true)
    : ∃ value, execute (.subtensor entries) inputs = .ok value := by
  obtain ⟨inputType, checked, done⟩ := Steps.bind_eq_ok_iff.mp done
  obtain ⟨_, -, done⟩ := Steps.bind_eq_ok_iff.mp done
  obtain ⟨_, -, done⟩ := Steps.bind_eq_ok_iff.mp done
  obtain ⟨shape, indexed, -⟩ := Steps.bind_eq_ok_iff.mp done
  obtain ⟨input, first, fine⟩ := typed.exists_tensor checked
  exact exists_tensor (Movement.exists_subtensor first fine
    (fine.shape_eq (isSome_of_tensorAt known checked)).1 (List.isEmpty_iff.mp total) indexed)

theorem exists_reshape {extents : List ReshapeExtent}
    (done : Typing.reshape extents types = .ok type) (sized : type.isSized = true)
    (total : (Operation.reshape extents).isTotalOn types = true)
    : ∃ value, execute (.reshape extents) inputs = .ok value := by
  obtain ⟨inputType, checked, done⟩ := Steps.bind_eq_ok_iff.mp done
  obtain ⟨_, -, done⟩ := Steps.bind_eq_ok_iff.mp done
  obtain ⟨_, -, done⟩ := Steps.bind_eq_ok_iff.mp done
  dsimp only at done
  split_ifs at done with several
  obtain ⟨dim, inferred, done⟩ := Steps.bind_eq_ok_iff.mp done
  obtain rfl := Except.ok.inj done
  obtain ⟨input, first, fine⟩ := typed.exists_tensor checked
  exact exists_tensor (Movement.exists_reshape first fine (isSome_of_tensorAt known checked)
    (List.isEmpty_iff.mp total) (Nat.le_of_not_lt several) inferred sized)

theorem exists_dot (done : Typing.product types = .ok type)
    : ∃ value, execute .dot inputs = .ok value := by
  obtain ⟨_, -, done⟩ := Steps.bind_eq_ok_iff.mp done
  obtain ⟨lhsType, checkedLhs, done⟩ := Steps.bind_eq_ok_iff.mp done
  obtain ⟨rhsType, checkedRhs, done⟩ := Steps.bind_eq_ok_iff.mp done
  obtain ⟨_, -, done⟩ := Steps.bind_eq_ok_iff.mp done
  obtain ⟨⟨inner, other, dims⟩, sized, done⟩ := Steps.bind_eq_ok_iff.mp done
  dsimp only at done
  split_ifs at done with agree
  obtain ⟨lhs, first, fineLhs⟩ := typed.exists_tensor checkedLhs
  obtain ⟨rhs, second, fineRhs⟩ := typed.exists_tensor checkedRhs
  rw [(fineLhs.shape_eq (isSome_of_tensorAt known checkedLhs)).1,
    (fineRhs.shape_eq (isSome_of_tensorAt known checkedRhs)).1] at sized
  simp only [execute, onTwo, first, second, Steps.ok_bind]
  exact exists_tensor (Matrix.exists_product sized agree)

end

end

/-- Operations accept operands of known sizes, one operation after the other: where an operation is
total on the types that a type is inferred from, its kernel has a result.
-/
theorem exists_execute {operation : Operation} (typed : inputs.HaveTypes types)
    (inferred : Typing.infer operation types = .ok type) (sized : type.isSized = true)
    (known : ∀ type ∈ types, type.isSized = true) (total : operation.isTotalOn types = true)
    : ∃ value, execute operation inputs = .ok value := by
  cases operation with
  | constant literal => exact exists_tensor (Tensor.exists_ofLiteral total)
  | unary kind => exact exists_unary typed inferred
  | binary kind => exact exists_binary typed known inferred total
  | reduce reduction => exact exists_reduce typed known inferred total
  | argMax axis keepAxes => exact exists_argMax typed known inferred total
  | maxAndArgMax axis => exact exists_maxAndArgMax typed known inferred total
  | tupleElement index => exact exists_tupleElement typed inferred
  | shuffle order => exact exists_shuffle typed inferred
  | alloc extents => exact exists_alloc typed known inferred total
  | subtensor entries => exact exists_subtensor typed known inferred total
  | reshape extents => exact exists_reshape typed known inferred sized total
  | extent axis => exact exists_extent typed inferred
  | dot => exact exists_dot typed known inferred
  | blockDiagonal => exact exists_blockDiagonal typed inferred
  | makeList => exact exists_makeList typed inferred
  | listLength => exact exists_listLength typed inferred
  | listMutation mutation inplace =>
      obtain ⟨items, changed⟩ := Sequence.exists_mutate typed inferred
      rw [execute, changed]
      exact ⟨_, rfl⟩
  | listCount => exact exists_tensor (Sequence.exists_count typed inferred)
  | solveTriangular system => cases total
  | listGet entry => cases total
  | listIndex => cases total

end Kernel

end Dataflow
