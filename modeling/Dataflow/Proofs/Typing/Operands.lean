import Dataflow.Proofs.Tensor.Validity
import Dataflow.Typing.Operand
import Mathlib.Data.List.Basic
import Mathlib.Data.List.Forall2

/-!
What the checks of single operands say about values. Operands have the types that were checked, so
a checked operand is a tensor or a list of its type; reading a number never breaks a promise.
-/

namespace Dataflow

/-- Values have types, one by one. -/
abbrev Inputs.HaveTypes (inputs : Inputs) (types : List ValueType) : Prop :=
  List.Forall₂ Value.HasType inputs types

namespace Inputs

variable {inputs : Inputs} {types : List ValueType}

/-- The operand of a type that is listed at a position. -/
theorem HaveTypes.exists_value (typed : inputs.HaveTypes types) {position : Nat}
    {type : ValueType} (listed : types[position]? = some type)
    : ∃ value, inputs[position]? = some value ∧ value.HasType type := by
  obtain ⟨inside, rfl⟩ := List.getElem?_eq_some_iff.mp listed
  have bound : position < inputs.length := typed.length_eq ▸ inside
  exact ⟨inputs[position], List.getElem?_eq_getElem bound, typed.get bound inside⟩

/-- An operand that was checked to be a tensor is one. -/
theorem HaveTypes.exists_tensor (typed : inputs.HaveTypes types) {position : Nat}
    {type : TensorType} (checked : Typing.tensorAt types position = .ok type)
    : ∃ content, inputs.tensor position = .ok content ∧ content.HasType type := by
  rw [Typing.tensorAt] at checked
  split at checked
  · rename_i found
    obtain rfl := Except.ok.inj checked
    obtain ⟨valueType, listed, tensor⟩ := Option.bind_eq_some_iff.mp found
    obtain ⟨value, here, fine⟩ := typed.exists_value listed
    cases valueType with
    | tensor type =>
        obtain rfl := Option.some.inj tensor
        obtain ⟨content, rfl, known⟩ := fine.exists_tensor
        refine ⟨content, ?_, known⟩
        rw [Inputs.tensor, Inputs.value, here]
        rfl
    | list element => simp [ValueType.tensor?] at tensor
    | tuple parts => simp [ValueType.tensor?] at tensor
  · simp at checked

/-- An operand that was checked to be a list is one. -/
theorem HaveTypes.exists_list (typed : inputs.HaveTypes types) {position : Nat}
    {element : TensorType} (checked : Typing.listAt types position = .ok element)
    : ∃ items, inputs.list position = .ok items ∧ ∀ item ∈ items, item.HasType element := by
  rw [Typing.listAt] at checked
  split at checked
  · rename_i found
    obtain rfl := Except.ok.inj checked
    obtain ⟨valueType, listed, list⟩ := Option.bind_eq_some_iff.mp found
    obtain ⟨value, here, fine⟩ := typed.exists_value listed
    cases valueType with
    | list element =>
        obtain rfl := Option.some.inj list
        obtain ⟨items, rfl, known⟩ := fine.exists_list
        refine ⟨items, ?_, known⟩
        rw [Inputs.list, Inputs.value, here]
        rfl
    | tensor type => simp [ValueType.element?] at list
    | tuple parts => simp [ValueType.element?] at list
  · simp at checked

/-- An operand that was checked to be an element of a list has the type of the elements. -/
theorem HaveTypes.exists_element (typed : inputs.HaveTypes types) {position : Nat}
    {element : TensorType} (checked : Typing.elementAt element types position = .ok ())
    : ∃ content, inputs.tensor position = .ok content ∧ content.HasType element := by
  obtain ⟨type, known, accepted⟩ := Steps.bind_eq_ok_iff.mp checked
  obtain ⟨content, here, fine⟩ := typed.exists_tensor known
  split_ifs at accepted with accepts
  exact ⟨content, here, fine.of_accepts accepts⟩

/-- A tensor that is read is an operand. -/
theorem tensor_eq_ok {position : Nat} {content : Tensor}
    (read : inputs.tensor position = .ok content)
    : ∃ value, inputs[position]? = some value ∧ value.asTensor = .ok content := by
  obtain ⟨value, here, read⟩ := Steps.bind_eq_ok_iff.mp read
  rw [Inputs.value] at here
  cases known : inputs[position]? with
  | none => simp [known, Outcome.fail] at here
  | some other =>
      rw [known] at here
      obtain rfl := Except.ok.inj here
      exact ⟨other, rfl, read⟩

/-- Reading an operand breaks no promise. -/
theorem safe_value (inputs : Inputs) (position : Nat)
    : Outcome.Safe (fun _ => True) (inputs.value position) := by
  rw [Inputs.value]
  cases inputs[position]? with
  | none => exact Outcome.safe_fail _ _
  | some value => exact Outcome.safe_ok trivial

/-- Reading a tensor breaks no promise. -/
theorem safe_tensor (inputs : Inputs) (position : Nat)
    : Outcome.Safe (fun _ => True) (inputs.tensor position) := by
  refine (safe_value inputs position).bind ?_
  intro value _
  cases value with
  | tensor content => exact Outcome.safe_ok trivial
  | list items => exact Outcome.safe_fail _ _
  | tuple parts => exact Outcome.safe_fail _ _

/-- Reading a list breaks no promise. -/
theorem safe_list (inputs : Inputs) (position : Nat)
    : Outcome.Safe (fun _ => True) (inputs.list position) := by
  refine (safe_value inputs position).bind ?_
  intro value _
  cases value with
  | list items => exact Outcome.safe_ok trivial
  | tensor content => exact Outcome.safe_fail _ _
  | tuple parts => exact Outcome.safe_fail _ _

/-- Reading an integer breaks no promise. -/
theorem safe_index (inputs : Inputs) (position : Nat)
    : Outcome.Safe (fun _ => True) (inputs.index position) := by
  refine (safe_tensor inputs position).bind ?_
  intro content _
  rw [Tensor.index]
  split
  · exact Outcome.safe_ok trivial
  · exact Outcome.safe_fail _ _

/-- Reading the number of an index breaks no promise. -/
theorem safe_scalar (inputs : Inputs) (scalar : IndexScalar)
    : Outcome.Safe (fun _ => True) (inputs.scalar scalar) := by
  cases scalar with
  | static value => exact Outcome.safe_ok trivial
  | operand position => exact safe_index inputs position

end Inputs

end Dataflow
