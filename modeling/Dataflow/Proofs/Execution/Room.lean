import Dataflow.Proofs.Execution.Finiteness
import Dataflow.Proofs.Tensor.Matrix
import Dataflow.Proofs.Tensor.Refusals

/-!
Room for results. A bounded backend has the results of the kernels, unless there is no room for them.
What a kernel asks for is never more than what its result shows: the places on one axis, or the
elements.
-/

namespace Dataflow

open Backend (reference)

variable {operation : Operation} {inputs : Inputs} {value : Value}

-----------------------------------------------------------------------------------------
-- The bounded reference
-----------------------------------------------------------------------------------------

namespace Backend

theorem bounded_execute (operation : Operation) (inputs : Inputs)
    : reference.bounded.execute operation inputs
      = if Memory.isEnough operation inputs then Kernel.execute operation inputs
        else .error (.breach .memory) :=
  rfl

theorem bounded_eq_ok_iff
    : reference.bounded.execute operation inputs = .ok value
      ↔ Memory.isEnough operation inputs = true ∧ Kernel.execute operation inputs = .ok value := by
  change (if _ then _ else _) = _ ↔ _
  split_ifs with enough
  · exact (and_iff_right enough).symm
  · exact ⟨nofun, fun both => absurd both.1 enough⟩

theorem bounded_refused_iff
    : (reference.bounded.execute operation inputs).Refused
      ↔ Memory.isEnough operation inputs = true ∧ (Kernel.execute operation inputs).Refused := by
  change Outcome.Refused (if _ then _ else _) ↔ _
  split_ifs with enough
  · exact (and_iff_right enough).symm
  · exact iff_of_false (Outcome.not_refused_breach _) fun both => enough both.1

end Backend

namespace Kernel

theorem tensor_eq_ok_iff {outcome : Outcome Tensor}
    : tensor outcome = .ok value ↔ ∃ result, outcome = .ok result ∧ value = .tensor result := by
  cases outcome with
  | error error => simp [tensor, Except.map]
  | ok result => simp [tensor, Except.map, eq_comm]

theorem tensor_eq_ok_tensor_iff {outcome : Outcome Tensor} {content : Tensor}
    : tensor outcome = .ok (.tensor content) ↔ outcome = .ok content := by
  simp [tensor_eq_ok_iff]

theorem onFirst_eq_ok_iff {kernel : Tensor → Outcome Tensor}
    : onFirst kernel inputs = .ok value
      ↔ ∃ input result,
          inputs.tensor 0 = .ok input ∧ kernel input = .ok result ∧ value = .tensor result := by
  simp only [onFirst, Steps.bind_eq_ok_iff, tensor_eq_ok_iff, exists_and_left]

theorem onTwo_eq_ok_iff {kernel : Tensor → Tensor → Outcome Tensor}
    : onTwo kernel inputs = .ok value
      ↔ ∃ lhs rhs result,
          inputs.tensor 0 = .ok lhs
          ∧ inputs.tensor 1 = .ok rhs
          ∧ kernel lhs rhs = .ok result
          ∧ value = .tensor result := by
  simp only [onTwo, Steps.bind_eq_ok_iff, tensor_eq_ok_iff, exists_and_left]

end Kernel

-----------------------------------------------------------------------------------------
-- What kernels ask for
-----------------------------------------------------------------------------------------

namespace Memory

/-- Whether there can be pieces for the places on each axis, and for the elements. -/
def holdsSizes (sizes : List Nat) : Bool := sizes.all holds && holds (RowMajor.count sizes)

theorem holds_count {sizes : List Nat} (held : holdsSizes sizes = true)
    : holds (RowMajor.count sizes) = true := (Bool.and_eq_true_iff.mp held).2

theorem holds_of_mem {sizes : List Nat} (held : holdsSizes sizes = true) {size : Nat}
    (member : size ∈ sizes)
    : holds size = true := List.all_eq_true.mp (Bool.and_eq_true_iff.mp held).1 size member

theorem isEnough_of_pieces {words : List Nat} (asked : pieces operation inputs = .ok words)
    (held : ∀ count ∈ words, holds count = true)
    : isEnough operation inputs = true := by
  rw [isEnough, asked]
  exact List.all_eq_true.mpr held

/-- A new tensor asks for as much memory as it has elements. -/
theorem isEnough_alloc {extents : List ExtentSource} {content result : Tensor}
    (first : inputs.tensor 0 = .ok content)
    (filled : Movement.alloc extents inputs = .ok result)
    : isEnough (.alloc extents) inputs = holds (RowMajor.count result.sizes) := by
  obtain ⟨sizes, stretch, -⟩ := (Movement.alloc_eq_ok_iff first).mp filled
  rw [isEnough, pieces, first, Steps.ok_bind, Movement.allocSizes_eq_ok_iff.mpr ⟨sizes, stretch⟩]
  simp [Steps.ok_bind]

/-- The places of all axes that stay are sizes of the result, and one place is always held. -/
theorem isEnough_of_takes {entries : List IndexEntry} {input result : Tensor}
    {taken : List Movement.Selection} (first : inputs.tensor 0 = .ok input)
    (takes : Movement.Takes entries inputs input result taken)
    (held : holdsSizes result.sizes = true)
    : isEnough (.subtensor entries) inputs = true := by
  rw [Movement.isEnough_subtensor first takes.rank takes.selects, List.all_eq_true]
  intro selection member
  cases kept : selection.isKept with
  | true =>
      refine holds_of_mem held (takes.sizes ▸ List.mem_map_of_mem ?_)
      exact List.mem_filter.mpr ⟨member, kept⟩
  | false =>
      have inside := Movement.selections_inside takes.selects
      obtain ⟨size, -, here⟩ := Steps.exists_of_mem_left inside member
      rw [here.single kept]
      rfl

/-- A kernel has a result whatever memory holds, and the reference backend has it as well iff memory
holds pieces of some words.
-/
structure Delivers (operation : Operation) (inputs : Inputs) (words : List Nat) (value : Value)
    : Prop where
  evaluates : Kernel.execute operation inputs = .ok value
  bounded
    : reference.bounded.execute operation inputs
      = if words.all holds then .ok value else .error (.breach .memory)

theorem delivers_of_isEnough {words : List Nat}
    (evaluates : Kernel.execute operation inputs = .ok value)
    (enough : isEnough operation inputs = words.all holds)
    : Delivers operation inputs words value where
  evaluates := evaluates
  bounded := by
    rw [Backend.bounded_execute, enough, evaluates]

variable (held : ∀ content ∈ value.tensors, holdsSizes content.sizes = true)

include held

theorem isEnough_of_reduce {reduction : Reduction}
    (executed : Kernel.execute (.reduce reduction) inputs = .ok value)
    : isEnough (.reduce reduction) inputs = true := by
  obtain ⟨input, result, first, done, rfl⟩ := Kernel.onFirst_eq_ok_iff.mp executed
  obtain ⟨axes, combined, done⟩ := Steps.bind_eq_ok_iff.mp done
  obtain rfl := Except.ok.inj done
  have asked : pieces (.reduce reduction) inputs
      = .ok [RowMajor.count (Reduce.keptSizes axes 0 input.sizes)] := by
    rw [pieces, first, Steps.ok_bind, combined]
    rfl
  refine isEnough_of_pieces asked (List.forall_mem_singleton.mpr ?_)
  rw [← Reduce.count_resultSizes axes reduction.keepAxes]
  exact holds_count (held _ (List.mem_singleton.mpr rfl))

omit held in
/-- A search along an axis asks for its places. There are as many as a result without the axis has
elements.
-/
theorem isEnough_of_search {input : Tensor} {axis : Int} {found : Nat} (keepAxes : Bool)
    (first : inputs.tensor 0 = .ok input)
    (resolved : Reduce.resolveAxis axis input.rank = .ok found)
    (enough : holds (RowMajor.count (Reduce.resultSizes [found] keepAxes input.sizes)) = true)
    : isEnough (.argMax axis keepAxes) inputs = true
      ∧ isEnough (.maxAndArgMax axis) inputs = true := by
  rw [Reduce.count_resultSizes] at enough
  constructor <;>
    rw [isEnough, pieces, first, Steps.ok_bind, resolved, Steps.ok_bind] <;>
    split_ifs <;>
    simp [Outcome.fail, enough]

theorem isEnough_of_argMax {axis : Int} {keepAxes : Bool}
    (executed : Kernel.execute (.argMax axis keepAxes) inputs = .ok value)
    : isEnough (.argMax axis keepAxes) inputs = true := by
  obtain ⟨input, result, first, done, rfl⟩ := Kernel.onFirst_eq_ok_iff.mp executed
  obtain ⟨found, resolved, done⟩ := Steps.bind_eq_ok_iff.mp done
  obtain ⟨places, -, done⟩ := Steps.bind_eq_ok_iff.mp done
  obtain rfl := Except.ok.inj done
  have enough := holds_count (held _ (List.mem_singleton.mpr rfl))
  exact (isEnough_of_search keepAxes first resolved enough).1

theorem isEnough_of_maxAndArgMax {axis : Int}
    (executed : Kernel.execute (.maxAndArgMax axis) inputs = .ok value)
    : isEnough (.maxAndArgMax axis) inputs = true := by
  obtain ⟨input, first, done⟩ := Steps.bind_eq_ok_iff.mp executed
  obtain ⟨⟨values, indices⟩, searched, done⟩ := Steps.bind_eq_ok_iff.mp done
  obtain rfl := Except.ok.inj done
  obtain ⟨found, resolved, searched⟩ := Steps.bind_eq_ok_iff.mp searched
  obtain ⟨places, -, searched⟩ := Steps.bind_eq_ok_iff.mp searched
  obtain ⟨_, -, searched⟩ := Steps.bind_eq_ok_iff.mp searched
  obtain ⟨_, -, searched⟩ := Steps.bind_eq_ok_iff.mp searched
  obtain ⟨-, rfl⟩ := Prod.mk.inj (Except.ok.inj searched)
  have second : Reduce.indexTensor (Reduce.resultSizes [found] false input.sizes) places
      ∈ [values, Reduce.indexTensor (Reduce.resultSizes [found] false input.sizes) places] := by
    simp
  exact (isEnough_of_search false first resolved (holds_count (held _ second))).2

theorem isEnough_of_alloc {extents : List ExtentSource}
    (executed : Kernel.execute (.alloc extents) inputs = .ok value)
    : isEnough (.alloc extents) inputs = true := by
  obtain ⟨result, done, rfl⟩ := Kernel.tensor_eq_ok_iff.mp executed
  obtain ⟨content, first, -⟩ := Steps.bind_eq_ok_iff.mp done
  rw [isEnough_alloc first done]
  exact holds_count (held result (List.mem_singleton.mpr rfl))

theorem isEnough_of_subtensor {entries : List IndexEntry}
    (executed : Kernel.execute (.subtensor entries) inputs = .ok value)
    : isEnough (.subtensor entries) inputs = true := by
  obtain ⟨result, done, rfl⟩ := Kernel.tensor_eq_ok_iff.mp executed
  obtain ⟨input, first, -⟩ := Steps.bind_eq_ok_iff.mp done
  obtain ⟨taken, takes⟩ := (Movement.subtensor_eq_ok_iff first).mp done
  exact isEnough_of_takes first takes (held result (List.mem_singleton.mpr rfl))

theorem isEnough_of_dot (executed : Kernel.execute .dot inputs = .ok value)
    : isEnough .dot inputs = true := by
  obtain ⟨lhs, rhs, result, first, second, done, rfl⟩ := Kernel.onTwo_eq_ok_iff.mp executed
  obtain ⟨⟨m, k, n⟩, contracted, done⟩ := Steps.bind_eq_ok_iff.mp done
  obtain rfl := Except.ok.inj done
  have asked : pieces .dot inputs = .ok [m * n] := by
    rw [pieces, first, Steps.ok_bind, second, Steps.ok_bind, contracted]
    rfl
  refine isEnough_of_pieces asked (List.forall_mem_singleton.mpr ?_)
  obtain ⟨left, right⟩ := Matrix.contraction_eq_ok contracted
  rw [← (Matrix.count_productSizes left right).1]
  exact holds_count (held _ (List.mem_singleton.mpr rfl))

theorem isEnough_of_blockDiagonal (executed : Kernel.execute .blockDiagonal inputs = .ok value)
    : isEnough .blockDiagonal inputs = true := by
  obtain ⟨blocks, all, made⟩ := Steps.bind_eq_ok_iff.mp executed
  obtain ⟨result, done, rfl⟩ := Kernel.tensor_eq_ok_iff.mp made
  cases blocks with
  | nil => cases done
  | cons first rest =>
      obtain ⟨sizes, sized, done⟩ := Steps.bind_eq_ok_iff.mp done
      obtain rfl := Except.ok.inj done
      have asked : pieces .blockDiagonal inputs
          = .ok [RowMajor.count (Matrix.diagonalSizes sizes)] := by
        rw [pieces, all, Steps.ok_bind, sized]
        rfl
      refine isEnough_of_pieces asked (List.forall_mem_singleton.mpr ?_)
      exact holds_count (held _ (List.mem_singleton.mpr rfl))

/-- There is room for a kernel if there is room for what it makes, one operation after the other.
Operations that make nothing larger than their operands do not ask for any.
-/
theorem isEnough_of_execute (executed : Kernel.execute operation inputs = .ok value)
    : isEnough operation inputs = true := by
  cases operation with
  | reduce reduction => exact isEnough_of_reduce held executed
  | argMax axis keepAxes => exact isEnough_of_argMax held executed
  | maxAndArgMax axis => exact isEnough_of_maxAndArgMax held executed
  | alloc extents => exact isEnough_of_alloc held executed
  | subtensor entries => exact isEnough_of_subtensor held executed
  | dot => exact isEnough_of_dot held executed
  | blockDiagonal => exact isEnough_of_blockDiagonal held executed
  | _ => rfl

end Memory

end Dataflow
