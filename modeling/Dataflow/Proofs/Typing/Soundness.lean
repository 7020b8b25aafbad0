import Dataflow.Execution.Kernel
import Dataflow.Proofs.Tensor.Matrix
import Dataflow.Proofs.Tensor.Movement
import Dataflow.Proofs.Tensor.Reduction
import Dataflow.Proofs.Tensor.Sequence

/-!
Soundness of inferred types: on operands of types for which a type is inferred, a kernel breaks no
promise, and its result has the inferred type.
-/

namespace Dataflow.Kernel

variable {inputs : Inputs} {types : List ValueType} {type : ValueType}

/-- A result that is a tensor of some type. -/
theorem safe_tensor {result : Outcome Tensor} {tensorType : TensorType}
    (safe : Outcome.Safe (fun result => result.HasType tensorType) result)
    : Outcome.Safe (fun result => result.HasType (.tensor tensorType)) (tensor result) :=
  safe.map fun _ typed => Value.hasType_tensor.mpr typed

/-- The kernel of a literal. -/
theorem safe_constant (literal : Literal) (done : Typing.constant literal types = .ok type)
    : Outcome.Safe (fun result => result.HasType type)
        (execute (.constant literal) inputs) := by
  obtain ⟨_, _, done⟩ := Steps.bind_eq_ok_iff.mp done
  obtain rfl := Except.ok.inj done
  exact safe_tensor (Tensor.safe_ofLiteral literal)

/-- The kernels of functions of one number. -/
theorem safe_unary (kind : UnaryKind) (typed : inputs.HaveTypes types)
    (done : Typing.unary kind types = .ok type)
    : Outcome.Safe (fun result => result.HasType type) (execute (.unary kind) inputs) := by
  obtain ⟨_, _, done⟩ := Steps.bind_eq_ok_iff.mp done
  obtain ⟨inputType, checked, done⟩ := Steps.bind_eq_ok_iff.mp done
  split_ifs at done
  obtain rfl := Except.ok.inj done
  obtain ⟨input, first, fine⟩ := typed.exists_tensor checked
  simp only [execute, onFirst, first, Steps.ok_bind]
  exact safe_tensor (Elementwise.safe_unary kind fine)

/-- The kernels of functions of two numbers. -/
theorem safe_binary (kind : BinaryKind) (typed : inputs.HaveTypes types)
    (done : Typing.binary types = .ok type)
    : Outcome.Safe (fun result => result.HasType type) (execute (.binary kind) inputs) := by
  obtain ⟨_, _, done⟩ := Steps.bind_eq_ok_iff.mp done
  obtain ⟨lhsType, checkedLhs, done⟩ := Steps.bind_eq_ok_iff.mp done
  obtain ⟨rhsType, checkedRhs, done⟩ := Steps.bind_eq_ok_iff.mp done
  split_ifs at done
  split at done
  · rename_i dims combined
    obtain rfl := Except.ok.inj done
    obtain ⟨lhs, first, fineLhs⟩ := typed.exists_tensor checkedLhs
    obtain ⟨rhs, second, fineRhs⟩ := typed.exists_tensor checkedRhs
    simp only [execute, onTwo, first, second, Steps.ok_bind]
    exact safe_tensor (Elementwise.safe_binary kind fineLhs fineRhs combined)
  · cases done

/-- The operand of a reduction is a tensor. -/
theorem exists_reduced {inputType : TensorType} (typed : inputs.HaveTypes types)
    (checked : Typing.reduced types = .ok inputType)
    : ∃ input, inputs.tensor 0 = .ok input ∧ input.HasType inputType := by
  obtain ⟨_, _, checked⟩ := Steps.bind_eq_ok_iff.mp checked
  obtain ⟨found, known, checked⟩ := Steps.bind_eq_ok_iff.mp checked
  obtain ⟨_, _, checked⟩ := Steps.bind_eq_ok_iff.mp checked
  obtain rfl := Except.ok.inj checked
  exact typed.exists_tensor known

/-- The kernels of reductions. -/
theorem safe_reduce (reduction : Reduction) (typed : inputs.HaveTypes types)
    (done : Typing.reduce reduction types = .ok type)
    : Outcome.Safe (fun result => result.HasType type) (execute (.reduce reduction) inputs) := by
  obtain ⟨inputType, checked, done⟩ := Steps.bind_eq_ok_iff.mp done
  obtain ⟨axes, resolved, done⟩ := Steps.bind_eq_ok_iff.mp done
  obtain rfl := Except.ok.inj done
  obtain ⟨input, first, fine⟩ := exists_reduced typed checked
  simp only [execute, onFirst, first, Steps.ok_bind]
  exact safe_tensor (Reduce.safe_reduce fine resolved)

/-- The kernel of the places of largest elements. -/
theorem safe_argMax (axis : Int) (keepAxes : Bool) (typed : inputs.HaveTypes types)
    (done : Typing.argMax axis keepAxes types = .ok type)
    : Outcome.Safe (fun result => result.HasType type)
        (execute (.argMax axis keepAxes) inputs) := by
  obtain ⟨inputType, checked, done⟩ := Steps.bind_eq_ok_iff.mp done
  obtain ⟨resolved, known, done⟩ := Steps.bind_eq_ok_iff.mp done
  obtain rfl := Except.ok.inj done
  obtain ⟨input, first, fine⟩ := exists_reduced typed checked
  simp only [execute, onFirst, first, Steps.ok_bind]
  exact safe_tensor (Reduce.safe_argMax fine known)

/-- The kernel of largest elements and their places. -/
theorem safe_maxAndArgMax (axis : Int) (typed : inputs.HaveTypes types)
    (done : Typing.maxAndArgMax axis types = .ok type)
    : Outcome.Safe (fun result => result.HasType type) (execute (.maxAndArgMax axis) inputs) := by
  obtain ⟨inputType, checked, done⟩ := Steps.bind_eq_ok_iff.mp done
  obtain ⟨resolved, known, done⟩ := Steps.bind_eq_ok_iff.mp done
  obtain rfl := Except.ok.inj done
  obtain ⟨input, first, fine⟩ := exists_reduced typed checked
  simp only [execute, maxAndArgMax, first, Steps.ok_bind]
  refine (Reduce.safe_maxAndArgMax fine known).bind ?_
  rintro ⟨values, places⟩ ⟨fineValues, finePlaces⟩
  exact Outcome.safe_ok (Value.hasType_tuple.mpr
    (.cons (Value.hasType_tensor.mpr fineValues)
      (.cons (Value.hasType_tensor.mpr finePlaces) .nil)))

/-- The kernel of parts of tuples. -/
theorem safe_tupleElement (index : Nat) (typed : inputs.HaveTypes types)
    (done : Typing.tupleElement index types = .ok type)
    : Outcome.Safe (fun result => result.HasType type) (execute (.tupleElement index) inputs) := by
  obtain ⟨_, _, done⟩ := Steps.bind_eq_ok_iff.mp done
  split at done
  · rename_i partTypes rest
    split at done
    · rename_i part listed
      obtain rfl := Except.ok.inj done
      cases typed with
      | cons fine _ =>
          obtain ⟨parts, rfl, each⟩ := fine.exists_tuple
          obtain ⟨inside, rfl⟩ := List.getElem?_eq_some_iff.mp listed
          have bound : index < parts.length := each.length_eq ▸ inside
          rw [execute, Inputs.tupleElement, List.getElem?_eq_getElem bound]
          exact Outcome.safe_ok (each.get bound inside)
    · cases done
  · cases done

/-- The kernel of shuffles. -/
theorem safe_shuffle (order : ShuffleOrder) (typed : inputs.HaveTypes types)
    (done : Typing.shuffle order types = .ok type)
    : Outcome.Safe (fun result => result.HasType type) (execute (.shuffle order) inputs) := by
  obtain ⟨_, _, done⟩ := Steps.bind_eq_ok_iff.mp done
  obtain ⟨inputType, checked, done⟩ := Steps.bind_eq_ok_iff.mp done
  obtain ⟨shape, shaped, done⟩ := Steps.bind_eq_ok_iff.mp done
  obtain rfl := Except.ok.inj done
  obtain ⟨input, first, fine⟩ := typed.exists_tensor checked
  simp only [execute, onFirst, first, Steps.ok_bind]
  exact safe_tensor (Movement.safe_shuffle fine shaped)

/-- The kernel of fillings. -/
theorem safe_alloc (extents : List ExtentSource) (typed : inputs.HaveTypes types)
    (done : Typing.alloc extents types = .ok type)
    : Outcome.Safe (fun result => result.HasType type) (execute (.alloc extents) inputs) := by
  obtain ⟨valueType, checked, done⟩ := Steps.bind_eq_ok_iff.mp done
  obtain ⟨_, _, done⟩ := Steps.bind_eq_ok_iff.mp done
  obtain ⟨_, _, done⟩ := Steps.bind_eq_ok_iff.mp done
  split_ifs at done
  obtain ⟨dims, sized, done⟩ := Steps.bind_eq_ok_iff.mp done
  obtain rfl := Except.ok.inj done
  obtain ⟨value, first, fine⟩ := typed.exists_tensor checked
  exact safe_tensor (Movement.safe_alloc first fine sized)

/-- The kernel of indexing. -/
theorem safe_subtensor (entries : List IndexEntry) (typed : inputs.HaveTypes types)
    (done : Typing.subtensor entries types = .ok type)
    : Outcome.Safe (fun result => result.HasType type) (execute (.subtensor entries) inputs) := by
  obtain ⟨inputType, checked, done⟩ := Steps.bind_eq_ok_iff.mp done
  obtain ⟨_, _, done⟩ := Steps.bind_eq_ok_iff.mp done
  obtain ⟨_, _, done⟩ := Steps.bind_eq_ok_iff.mp done
  obtain ⟨shape, shaped, done⟩ := Steps.bind_eq_ok_iff.mp done
  obtain rfl := Except.ok.inj done
  obtain ⟨input, first, fine⟩ := typed.exists_tensor checked
  exact safe_tensor (Movement.safe_subtensor first fine shaped)

/-- The kernel of reshaping. -/
theorem safe_reshape (extents : List ReshapeExtent) (typed : inputs.HaveTypes types)
    (done : Typing.reshape extents types = .ok type)
    : Outcome.Safe (fun result => result.HasType type) (execute (.reshape extents) inputs) := by
  obtain ⟨inputType, checked, done⟩ := Steps.bind_eq_ok_iff.mp done
  obtain ⟨_, _, done⟩ := Steps.bind_eq_ok_iff.mp done
  obtain ⟨_, _, done⟩ := Steps.bind_eq_ok_iff.mp done
  dsimp only at done
  split_ifs at done with several
  obtain ⟨dim, known, done⟩ := Steps.bind_eq_ok_iff.mp done
  obtain rfl := Except.ok.inj done
  obtain ⟨input, first, fine⟩ := typed.exists_tensor checked
  exact safe_tensor (Movement.safe_reshape first fine (Nat.le_of_not_lt several) known)

/-- The kernel of sizes of axes. -/
theorem safe_extent (axis : Nat) (typed : inputs.HaveTypes types)
    (done : Typing.extent axis types = .ok type)
    : Outcome.Safe (fun result => result.HasType type) (execute (.extent axis) inputs) := by
  obtain ⟨_, _, done⟩ := Steps.bind_eq_ok_iff.mp done
  obtain ⟨inputType, checked, done⟩ := Steps.bind_eq_ok_iff.mp done
  split_ifs at done
  obtain rfl := Except.ok.inj done
  obtain ⟨input, first, fine⟩ := typed.exists_tensor checked
  simp only [execute, onFirst, first, Steps.ok_bind]
  exact safe_tensor (Movement.safe_extent axis input)

/-- The kernel of products. -/
theorem safe_dot (typed : inputs.HaveTypes types) (done : Typing.product types = .ok type)
    : Outcome.Safe (fun result => result.HasType type) (execute .dot inputs) := by
  obtain ⟨_, _, done⟩ := Steps.bind_eq_ok_iff.mp done
  obtain ⟨lhsType, checkedLhs, done⟩ := Steps.bind_eq_ok_iff.mp done
  obtain ⟨rhsType, checkedRhs, done⟩ := Steps.bind_eq_ok_iff.mp done
  obtain ⟨_, _, done⟩ := Steps.bind_eq_ok_iff.mp done
  obtain ⟨⟨inner, other, dims⟩, sized, done⟩ := Steps.bind_eq_ok_iff.mp done
  dsimp only at done
  split_ifs at done
  obtain rfl := Except.ok.inj done
  obtain ⟨lhs, first, fineLhs⟩ := typed.exists_tensor checkedLhs
  obtain ⟨rhs, second, fineRhs⟩ := typed.exists_tensor checkedRhs
  simp only [execute, onTwo, first, second, Steps.ok_bind]
  exact safe_tensor (Matrix.safe_product fineLhs fineRhs sized)

/-- The kernel of block diagonals. -/
theorem safe_blockDiagonal (typed : inputs.HaveTypes types)
    (done : Typing.blockDiagonal types = .ok type)
    : Outcome.Safe (fun result => result.HasType type) (execute .blockDiagonal inputs) := by
  rw [Typing.blockDiagonal] at done
  split_ifs at done
  obtain ⟨firstType, checked, done⟩ := Steps.bind_eq_ok_iff.mp done
  obtain ⟨dims, sized, done⟩ := Steps.bind_eq_ok_iff.mp done
  obtain rfl := Except.ok.inj done
  obtain ⟨blocks, sizes, all, each, fits⟩ := Matrix.exists_blocks typed rfl sized rfl rfl
  rw [Nat.zero_add, Nat.zero_add] at fits
  have tensors : inputs.tensors = .ok blocks := all
  simp only [execute, tensors, Steps.ok_bind]
  exact safe_tensor (Matrix.safe_blockDiagonal each fits)

/-- The kernel of triangular systems. -/
theorem safe_solveTriangular (system : TriangularSystem) (typed : inputs.HaveTypes types)
    (done : Typing.solution types = .ok type)
    : Outcome.Safe (fun result => result.HasType type)
        (execute (.solveTriangular system) inputs) := by
  obtain ⟨_, _, done⟩ := Steps.bind_eq_ok_iff.mp done
  obtain ⟨leftType, checkedLeft, done⟩ := Steps.bind_eq_ok_iff.mp done
  obtain ⟨rightType, checkedRight, done⟩ := Steps.bind_eq_ok_iff.mp done
  obtain ⟨_, _, done⟩ := Steps.bind_eq_ok_iff.mp done
  obtain ⟨size, sized, done⟩ := Steps.bind_eq_ok_iff.mp done
  obtain ⟨dims, shaped, done⟩ := Steps.bind_eq_ok_iff.mp done
  obtain rfl := Except.ok.inj done
  obtain ⟨coefficients, first, fineLeft⟩ := typed.exists_tensor checkedLeft
  obtain ⟨rightSide, second, fineRight⟩ := typed.exists_tensor checkedRight
  simp only [execute, onTwo, first, second, Steps.ok_bind]
  exact safe_tensor (Matrix.safe_solve fineLeft fineRight sized shaped)

/-- The kernel of items and parts of lists. -/
theorem safe_listGet (entry : IndexEntry) (typed : inputs.HaveTypes types)
    (done : Typing.listGet entry types = .ok type)
    : Outcome.Safe (fun result => result.HasType type) (execute (.listGet entry) inputs) := by
  obtain ⟨element, checked, done⟩ := Steps.bind_eq_ok_iff.mp done
  obtain ⟨_, _, done⟩ := Steps.bind_eq_ok_iff.mp done
  obtain ⟨_, _, done⟩ := Steps.bind_eq_ok_iff.mp done
  obtain ⟨items, first, each⟩ := typed.exists_list checked
  cases entry with
  | scalar scalar =>
      obtain rfl := Except.ok.inj done
      exact Sequence.safe_get_scalar scalar first each
  | slice bounds =>
      obtain rfl := Except.ok.inj done
      exact Sequence.safe_get_slice bounds first each

/-- The kernel of lengths of lists. -/
theorem safe_listLength (typed : inputs.HaveTypes types)
    (done : Typing.listLength types = .ok type)
    : Outcome.Safe (fun result => result.HasType type) (execute .listLength inputs) := by
  obtain ⟨_, _, done⟩ := Steps.bind_eq_ok_iff.mp done
  obtain ⟨element, checked, done⟩ := Steps.bind_eq_ok_iff.mp done
  obtain rfl := Except.ok.inj done
  obtain ⟨items, first, -⟩ := typed.exists_list checked
  simp only [execute, first, Steps.ok_bind]
  exact Outcome.safe_ok (Value.hasType_tensor.mpr (Sequence.hasType_ofSize items.length))

/-- The kernels of searches in lists. -/
theorem safe_listSearch (done : Typing.listSearch types = .ok type)
    : Outcome.Safe (fun result => result.HasType type) (execute .listIndex inputs)
      ∧ Outcome.Safe (fun result => result.HasType type) (execute .listCount inputs) := by
  obtain ⟨_, _, done⟩ := Steps.bind_eq_ok_iff.mp done
  obtain ⟨element, _, done⟩ := Steps.bind_eq_ok_iff.mp done
  obtain ⟨_, _, done⟩ := Steps.bind_eq_ok_iff.mp done
  obtain rfl := Except.ok.inj done
  exact ⟨safe_tensor (Sequence.safe_position inputs), safe_tensor (Sequence.safe_count inputs)⟩

/-- Inferred types are sound, one operation after the other: on operands of the types that a type
was inferred from, a kernel breaks no promise, and its result has the inferred type.
-/
theorem safe_execute {operation : Operation} (typed : inputs.HaveTypes types)
    (inferred : Typing.infer operation types = .ok type)
    : Outcome.Safe (fun result => result.HasType type) (execute operation inputs) := by
  cases operation with
  | constant literal => exact safe_constant literal inferred
  | unary kind => exact safe_unary kind typed inferred
  | binary kind => exact safe_binary kind typed inferred
  | reduce reduction => exact safe_reduce reduction typed inferred
  | argMax axis keepAxes => exact safe_argMax axis keepAxes typed inferred
  | maxAndArgMax axis => exact safe_maxAndArgMax axis typed inferred
  | tupleElement index => exact safe_tupleElement index typed inferred
  | shuffle order => exact safe_shuffle order typed inferred
  | alloc extents => exact safe_alloc extents typed inferred
  | subtensor entries => exact safe_subtensor entries typed inferred
  | reshape extents => exact safe_reshape extents typed inferred
  | extent axis => exact safe_extent axis typed inferred
  | dot => exact safe_dot typed inferred
  | blockDiagonal => exact safe_blockDiagonal typed inferred
  | solveTriangular system => exact safe_solveTriangular system typed inferred
  | makeList => exact Sequence.safe_makeList typed inferred
  | listGet entry => exact safe_listGet entry typed inferred
  | listLength => exact safe_listLength typed inferred
  | listMutation mutation inplace =>
      exact (Sequence.safe_mutate typed inferred).map fun _ fine => fine
  | listIndex => exact (safe_listSearch inferred).1
  | listCount => exact (safe_listSearch inferred).2

/-- Inferred types are sound, whatever the name that errors show. -/
theorem safe_execute_of_resultType {operation : Operation} (typed : inputs.HaveTypes types)
    (inferred : operation.resultType types = .ok type)
    : Outcome.Safe (fun result => result.HasType type) (execute operation inputs) := by
  rw [Operation.resultType] at inferred
  exact safe_execute typed (Steps.mapError_eq_ok_iff.mp inferred)

end Dataflow.Kernel
