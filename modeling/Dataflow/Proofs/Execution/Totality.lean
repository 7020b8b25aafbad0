import Dataflow.Proofs.Execution.Interpretations
import Dataflow.Proofs.Tensor.Acceptance
import Dataflow.Proofs.Tensor.Negation

/-!
Nodes that cannot fail. Numbers can always be negated, and the axes that a typed shuffle leaves out
have one element, so negations and shuffles of a value make something of every value that has its
type.
-/

namespace Dataflow

/-- There is one way to shuffle a tensor. -/
theorem Movement.Shuffles.unique {order : ShuffleOrder} {input result other : Tensor}
    (distinct : order.kept.Nodup)
    (shuffles : Shuffles order input result) (again : Shuffles order input other)
    : other = result := by
  have done := (shuffle_eq_ok_iff distinct).mpr shuffles
  exact Except.ok.inj (((shuffle_eq_ok_iff distinct).mpr again).symm.trans done)

-----------------------------------------------------------------------------------------
-- Operands of typed nodes
-----------------------------------------------------------------------------------------

namespace Operation.Follows

variable {narrow : Prop} {known : Types} {operands : List Operand} {type : ValueType}
  {base : ValueId}

/-- If there is one operand, and it is a value, then it is the operand that is read. -/
theorem operands_of_single {single : ValueType}
    (declared : List.Forall₂ (Operand.DeclaredBy known) operands [single])
    (reads : operands[0]?.bind Operand.value? = some base)
    : operands = [.value base] ∧ (base, single) ∈ known := by
  obtain ⟨operand, _, here, none, rfl⟩ := List.forall₂_cons_right_iff.mp declared
  obtain rfl := List.forall₂_nil_right_iff.mp none
  cases operand with
  | literal literal => cases reads
  | value id =>
      obtain rfl : id = base := Option.some.inj reads
      exact ⟨rfl, here⟩

/-- A negation of a value reads numbers and nothing else. -/
theorem operands_of_neg (follows : (Operation.unary .neg).Follows narrow known operands type)
    (reads : operands[0]?.bind Operand.value? = some base)
    : operands = [.value base]
      ∧ ∃ tensor, (base, .tensor tensor) ∈ known ∧ tensor.dtype.isNumeric = true := by
  obtain ⟨types, declared, inferred, -⟩ := follows
  obtain ⟨tensor, rfl, numeric, -⟩ :=
    Typing.unary_neg_eq_ok_iff.mp (resultType_eq_ok_iff.mp inferred)
  obtain ⟨rfl, here⟩ := operands_of_single declared reads
  exact ⟨rfl, tensor, here, numeric⟩

/-- A reduction of a value reads a tensor and nothing else. -/
theorem operands_of_reduce {reduction : Reduction}
    (follows : (Operation.reduce reduction).Follows narrow known operands type)
    (reads : operands[0]?.bind Operand.value? = some base)
    : operands = [.value base] ∧ ∃ tensor, (base, .tensor tensor) ∈ known := by
  obtain ⟨types, declared, inferred, -⟩ := follows
  obtain ⟨tensor, _, rfl, -⟩ := Typing.reduce_eq_ok_iff.mp (resultType_eq_ok_iff.mp inferred)
  obtain ⟨rfl, here⟩ := operands_of_single declared reads
  exact ⟨rfl, tensor, here⟩

/-- A shuffle of a value reads a tensor that can be shuffled and nothing else. -/
theorem operands_of_shuffle {order : ShuffleOrder}
    (follows : (Operation.shuffle order).Follows narrow known operands type)
    (reads : operands[0]?.bind Operand.value? = some base)
    : operands = [.value base]
      ∧ ∃ tensor dims, (base, .tensor tensor) ∈ known ∧ order.Shapes tensor.shape.dims dims := by
  obtain ⟨types, declared, inferred, -⟩ := follows
  obtain ⟨tensor, dims, rfl, shapes, -⟩ :=
    Typing.shuffle_eq_ok_iff.mp (resultType_eq_ok_iff.mp inferred)
  obtain ⟨rfl, here⟩ := operands_of_single declared reads
  exact ⟨rfl, tensor, dims, here, shapes⟩

end Operation.Follows

-----------------------------------------------------------------------------------------
-- What is made of a tensor
-----------------------------------------------------------------------------------------

namespace Interpretation

variable {backend : Backend} {i : Interpretation} {operation : Operation} {base : ValueId}
  {content : Tensor} {value : Value}

/-- A kernel of one tensor makes what it has as its result. -/
theorem makes_onFirst_iff {kernel : Tensor → Outcome Tensor}
    (executes
      : backend.execute operation [.tensor content] = Kernel.onFirst kernel [.tensor content])
    (unchecked : Finiteness.isAskedBy operation = false) (reads : i base = .tensor content)
    : i.Makes backend operation [.value base] value
      ↔ ∃ result, kernel content = .ok result ∧ value = .tensor result := by
  have gathered : [Operand.value base].mapM i.operand = .ok [.tensor content] := by
    rw [← reads]
    rfl
  have executed : backend.execute operation [.tensor content]
      = (kernel content).map .tensor := by
    rw [executes]
    rfl
  rw [Makes]
  simp only [gathered, Except.ok.injEq, exists_eq_left', executed, unchecked,
    Bool.false_eq_true, false_implies, and_true]
  cases kernel content with
  | error error => simp [Except.map]
  | ok result => simp [Except.map, eq_comm]

theorem makes_neg_iff (faithful : backend.Faithful) (reads : i base = .tensor content)
    : i.Makes backend (.unary .neg) [.value base] value
      ↔ value = .tensor (Elementwise.negated content) := by
  rw [makes_onFirst_iff (faithful.unasked rfl) rfl reads, Elementwise.unary_neg]
  simp

/-- The reference backend reduces with its kernel. -/
theorem makes_reduce_iff {reduction : Reduction} (reads : i base = .tensor content)
    : i.Makes Backend.reference (.reduce reduction) [.value base] value
      ↔ ∃ result, Reduce.reduce reduction content = .ok result ∧ value = .tensor result :=
  makes_onFirst_iff rfl rfl reads

theorem makes_shuffle_iff {order : ShuffleOrder} (faithful : backend.Faithful)
    (distinct : order.kept.Nodup) (reads : i base = .tensor content)
    : i.Makes backend (.shuffle order) [.value base] value
      ↔ ∃ result, Movement.Shuffles order content result ∧ value = .tensor result := by
  rw [makes_onFirst_iff (faithful.unasked rfl) rfl reads]
  simp only [Movement.shuffle_eq_ok_iff distinct]

end Interpretation

-----------------------------------------------------------------------------------------
-- Total nodes
-----------------------------------------------------------------------------------------

/-- A node that negates or shuffles a value. -/
structure Node.IsTotal (node : Node) : Prop where
  operation : node.operation = .unary .neg ∨ ∃ order, node.operation = .shuffle order
  reads : ∃ base, node.input? 0 = some base

namespace Node.IsTotal

variable {narrow : Prop} {backend : Backend} {i : Interpretation} {node : Node} {known : Types}
  {type : ValueType} (total : node.IsTotal)
  (follows : node.operation.Follows narrow known node.operands type)

include total

/-- It works on a copy. -/
theorem copies : node.operation.isInplace = false := by
  rcases total.operation with negation | ⟨order, shuffles⟩
  · rw [negation]
    rfl
  · rw [shuffles]
    rfl

include follows

theorem exists_operands : ∃ base, node.operands = [.value base] := by
  obtain ⟨base, reads⟩ := total.reads
  rcases total.operation with negation | ⟨order, shuffles⟩
  · rw [negation] at follows
    exact ⟨base, (follows.operands_of_neg reads).1⟩
  · rw [shuffles] at follows
    exact ⟨base, (follows.operands_of_shuffle reads).1⟩

/-- It brings no numbers. -/
theorem isExact : node.IsExact where
  operation literal same := by
    rcases total.operation with negation | ⟨order, shuffles⟩
    · cases negation.symm.trans same
    · cases shuffles.symm.trans same
  operands literal member := by
    obtain ⟨base, operands⟩ := total.exists_operands follows
    rw [operands] at member
    cases List.mem_singleton.mp member

/-- It makes something of every value of its type. -/
theorem exists_makes (faithful : backend.Faithful)
    (typed : ∀ id ∈ node.reads, ∀ type, (id, type) ∈ known → (i id).HasType type)
    : ∃ value, i.Makes backend node.operation node.operands value := by
  obtain ⟨base, reads⟩ := total.reads
  have read : base ∈ node.reads := by
    obtain ⟨operand, there, same⟩ := Option.bind_eq_some_iff.mp reads
    exact List.mem_filterMap.mpr ⟨operand, List.mem_of_getElem? there, same⟩
  rcases total.operation with negation | ⟨order, shuffles⟩
  · rw [negation] at follows ⊢
    obtain ⟨operands, tensor, declared, -⟩ := follows.operands_of_neg reads
    obtain ⟨content, here, -⟩ := (typed base read _ declared).exists_tensor
    rw [operands]
    exact ⟨_, (Interpretation.makes_neg_iff faithful here).mpr rfl⟩
  · rw [shuffles] at follows ⊢
    obtain ⟨operands, tensor, dims, declared, shapes⟩ := follows.operands_of_shuffle reads
    obtain ⟨content, here, fits⟩ := (typed base read _ declared).exists_tensor
    obtain ⟨result, shuffled⟩ := Movement.exists_shuffles fits shapes
    rw [operands]
    exact ⟨_, (Interpretation.makes_shuffle_iff faithful shapes.distinct here).mpr
      ⟨result, shuffled, rfl⟩⟩

end Node.IsTotal

end Dataflow
