import Dataflow.Proofs.Steps
import Dataflow.Typing.Infer
import Mathlib.Tactic.SplitIfs

/-!
Inferred types. A type that an operation has is the one that is inferred from the types of its
operands.
-/

namespace Dataflow

theorem Operation.resultType_eq_ok_iff {operation : Operation} {types : List ValueType}
    {type : ValueType}
    : operation.resultType types = .ok type ↔ Typing.infer operation types = .ok type := by
  rw [Operation.resultType]
  cases Typing.infer operation types with
  | error fault => exact ⟨nofun, nofun⟩
  | ok other => exact ⟨fun same => congrArg Except.ok (Except.ok.inj same), fun same =>
      congrArg Except.ok (Except.ok.inj same)⟩

namespace Typing

variable {types : List ValueType} {type : ValueType}

-----------------------------------------------------------------------------------------
-- Operands
-----------------------------------------------------------------------------------------

theorem arity_eq_ok_iff {expected : Nat} {done : Unit}
    : arity expected types = .ok done ↔ types.length = expected := by
  rw [arity]
  split_ifs with same
  · exact iff_of_true rfl same
  · exact iff_of_false nofun same

theorem tensorAt_zero_eq_ok_iff {input : TensorType}
    : tensorAt types 0 = .ok input ↔ ∃ rest, types = .tensor input :: rest := by
  rw [tensorAt]
  cases types with
  | nil => simp
  | cons first rest => cases first <;> simp [ValueType.tensor?]

/-- An operation on one tensor has a type iff it is applied to one. -/
theorem onTensor_eq_ok_iff {α : Type} {next : TensorType → Check α} {result : α}
    : (do
        arity 1 types
        let input ← tensorAt types 0
        next input) = .ok result
      ↔ ∃ input, types = [.tensor input] ∧ next input = .ok result := by
  simp only [Steps.bind_eq_ok_iff, arity_eq_ok_iff, tensorAt_zero_eq_ok_iff]
  constructor
  · rintro ⟨_, length, input, ⟨rest, rfl⟩, done⟩
    obtain rfl : rest = [] := List.length_eq_zero_iff.mp (Nat.succ.inj length)
    exact ⟨input, rfl, done⟩
  · rintro ⟨input, rfl, done⟩
    exact ⟨(), rfl, input, ⟨[], rfl⟩, done⟩

/-- No index is the data, so indices are checked without it. -/
theorem indicesAt_cons (first other : ValueType) (rest : List ValueType) (positions : List Nat)
    : indicesAt (first :: rest) positions = indicesAt (other :: rest) positions := by
  have same : indexAt (first :: rest) = indexAt (other :: rest) := by
    funext position
    cases position <;> rfl
  rw [indicesAt, same, indicesAt]

-----------------------------------------------------------------------------------------
-- Numbers
-----------------------------------------------------------------------------------------

theorem numeric_eq_ok_iff {input : TensorType} {done : Unit}
    : numeric input = .ok done ↔ input.dtype.isNumeric = true := by
  rw [numeric]
  split_ifs with number
  · exact iff_of_true rfl number
  · exact iff_of_false nofun number

theorem unary_neg_eq_ok_iff
    : unary .neg types = .ok type
      ↔ ∃ input, types = [.tensor input] ∧ input.dtype.isNumeric = true ∧ type = .tensor input := by
  rw [unary, onTensor_eq_ok_iff]
  refine exists_congr fun input => and_congr_right fun _ => ?_
  rw [unarySupports]
  split_ifs with number
  · simp [number, eq_comm]
  · simp [number]

theorem reduced_eq_ok_iff {input : TensorType}
    : reduced types = .ok input ↔ types = [.tensor input] ∧ input.dtype.isNumeric = true := by
  rw [reduced, onTensor_eq_ok_iff]
  simp only [Steps.bind_eq_ok_iff, numeric_eq_ok_iff]
  constructor
  · rintro ⟨_, rfl, _, number, same⟩
    obtain rfl := Except.ok.inj same
    exact ⟨rfl, number⟩
  · rintro ⟨rfl, number⟩
    exact ⟨input, rfl, (), number, rfl⟩

theorem reducedAxes_single {axis : Int} {rank found : Nat}
    (known : singleAxis axis rank = .ok found)
    : reducedAxes [axis] rank = .ok [found] := by
  rw [reducedAxes, if_neg (by simp), List.mapM_cons, known]
  rfl

theorem reduce_eq_ok_iff {reduction : Reduction}
    : reduce reduction types = .ok type
      ↔ ∃ input axes,
          types = [.tensor input]
          ∧ input.dtype.isNumeric = true
          ∧ reducedAxes reduction.axes input.rank = .ok axes
          ∧ type = .tensor ⟨input.dtype, reducedShape input.shape axes reduction.keepAxes⟩ := by
  simp only [reduce, Steps.bind_eq_ok_iff, reduced_eq_ok_iff]
  constructor
  · rintro ⟨input, ⟨rfl, number⟩, axes, found, same⟩
    exact ⟨input, axes, rfl, number, found, (Except.ok.inj same).symm⟩
  · rintro ⟨input, axes, rfl, number, found, rfl⟩
    exact ⟨input, ⟨rfl, number⟩, axes, found, rfl⟩

-----------------------------------------------------------------------------------------
-- Tuples
-----------------------------------------------------------------------------------------

theorem tupleElement_eq_ok_iff {index : Nat}
    : tupleElement index types = .ok type
      ↔ ∃ parts, types = [.tuple parts] ∧ parts[index]? = some type := by
  simp only [tupleElement, Steps.bind_eq_ok_iff, arity_eq_ok_iff]
  constructor
  · rintro ⟨_, length, done⟩
    split at done
    · rename_i parts rest
      obtain rfl : rest = [] := List.length_eq_zero_iff.mp (Nat.succ.inj length)
      split at done
      · rename_i part found
        exact ⟨parts, rfl, found.trans (congrArg some (Except.ok.inj done))⟩
      · cases done
    · cases done
  · rintro ⟨parts, rfl, found⟩
    refine ⟨(), rfl, ?_⟩
    dsimp only
    rw [found]

/-- Each part of the pair of largest elements and their indices has an operation of its own. -/
theorem maxAndArgMax_eq_ok {axis : Int} (inferred : maxAndArgMax axis types = .ok type)
    : ∃ input largest places,
        types = [.tensor input]
        ∧ type = .tuple [largest, places]
        ∧ reduce ⟨.max, [axis], false⟩ types = .ok largest
        ∧ argMax axis false types = .ok places := by
  obtain ⟨input, one, inferred⟩ := Steps.bind_eq_ok_iff.mp inferred
  obtain ⟨resolved, known, inferred⟩ := Steps.bind_eq_ok_iff.mp inferred
  have axes := reducedAxes_single known
  refine ⟨input, _, _, (reduced_eq_ok_iff.mp one).1, (Except.ok.inj inferred).symm, ?_, ?_⟩
  · rw [reduce, one, Steps.ok_bind, axes]
    rfl
  · rw [argMax, one, Steps.ok_bind, known]
    rfl

-----------------------------------------------------------------------------------------
-- Lists
-----------------------------------------------------------------------------------------

/-- A list mutation makes a list. -/
theorem exists_list_of_listMutation {mutation : ListMutation} {types : List ValueType}
    {type : ValueType} (inferred : listMutation mutation types = .ok type)
    : ∃ element, type = .list element := by
  cases mutation with
  | append | remove =>
      obtain ⟨_, -, inferred⟩ := Steps.bind_eq_ok_iff.mp inferred
      obtain ⟨element, -, inferred⟩ := Steps.bind_eq_ok_iff.mp inferred
      obtain ⟨_, -, inferred⟩ := Steps.bind_eq_ok_iff.mp inferred
      exact ⟨element, (Except.ok.inj inferred).symm⟩
  | extend =>
      obtain ⟨_, -, inferred⟩ := Steps.bind_eq_ok_iff.mp inferred
      obtain ⟨element, -, inferred⟩ := Steps.bind_eq_ok_iff.mp inferred
      obtain ⟨other, -, inferred⟩ := Steps.bind_eq_ok_iff.mp inferred
      split_ifs at inferred
      exact ⟨element, (Except.ok.inj inferred).symm⟩
  | insert =>
      obtain ⟨_, -, inferred⟩ := Steps.bind_eq_ok_iff.mp inferred
      obtain ⟨element, -, inferred⟩ := Steps.bind_eq_ok_iff.mp inferred
      obtain ⟨_, -, inferred⟩ := Steps.bind_eq_ok_iff.mp inferred
      obtain ⟨_, -, inferred⟩ := Steps.bind_eq_ok_iff.mp inferred
      exact ⟨element, (Except.ok.inj inferred).symm⟩
  | reverse =>
      obtain ⟨_, -, inferred⟩ := Steps.bind_eq_ok_iff.mp inferred
      obtain ⟨element, -, inferred⟩ := Steps.bind_eq_ok_iff.mp inferred
      exact ⟨element, (Except.ok.inj inferred).symm⟩

end Typing

end Dataflow
