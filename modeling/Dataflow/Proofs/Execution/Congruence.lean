import Dataflow.Execution.Kernel
import Dataflow.Proofs.Tensor.Canonical
import Mathlib.Data.List.InsertIdx

/-!
Kernels do not tell a value from its canonical form: on operands in their canonical form they have
the results in their canonical form. Kernels that compute look at the numbers of a tensor only and
store numbers; kernels that move elements take every bit with them.
-/

namespace Dataflow

-----------------------------------------------------------------------------------------
-- Operands
-----------------------------------------------------------------------------------------

namespace Inputs

/-- The operands in their canonical form. -/
def canonical (inputs : Inputs) : Inputs := inputs.map Value.canonical

theorem value_canonical (inputs : Inputs) (position : Nat)
    : inputs.canonical.value position = (inputs.value position).map Value.canonical := by
  rw [canonical, value, value, List.getElem?_map]
  cases inputs[position]? <;> rfl

theorem tensor_canonical (inputs : Inputs) (position : Nat)
    : inputs.canonical.tensor position = (inputs.tensor position).map Tensor.canonical := by
  rw [tensor, tensor, value_canonical, Steps.bind_map, Steps.map_bind]
  exact Steps.bind_congr fun value => Value.asTensor_canonical value

theorem list_canonical (inputs : Inputs) (position : Nat)
    : inputs.canonical.list position = (inputs.list position).map (List.map Tensor.canonical) := by
  rw [list, list, value_canonical, Steps.bind_map, Steps.map_bind]
  exact Steps.bind_congr fun value => Value.asList_canonical value

@[simp] theorem index_canonical (inputs : Inputs) (position : Nat)
    : inputs.canonical.index position = inputs.index position := by
  rw [index, index, tensor_canonical, Steps.bind_map]
  exact Steps.bind_congr fun content => Tensor.index_canonical content

@[simp] theorem scalar_canonical (inputs : Inputs) : inputs.canonical.scalar = inputs.scalar := by
  funext index
  cases index with
  | static value => rfl
  | operand position => exact index_canonical inputs position

theorem tensors_canonical (inputs : Inputs)
    : inputs.canonical.tensors = inputs.tensors.map (List.map Tensor.canonical) := by
  rw [tensors, tensors, canonical]
  induction inputs with
  | nil => rfl
  | cons first rest ih =>
      rw [List.map_cons, List.mapM_cons, List.mapM_cons, ih, Value.asTensor_canonical]
      cases first.asTensor with
      | error error => rfl
      | ok content => cases List.mapM Value.asTensor rest <;> rfl

end Inputs

-----------------------------------------------------------------------------------------
-- Kernels that compute
-----------------------------------------------------------------------------------------

section Computing

theorem Tensor.canonical_ofFloats (sizes : List Nat) (dtype : DType) (values : List Float)
    : (Tensor.mk sizes (.ofFloats dtype values)).canonical = ⟨sizes, .ofFloats dtype values⟩ := by
  simp [canonical]

theorem Tensor.canonical_ofInts (sizes : List Nat) (dtype : DType) (values : List Int64)
    : (Tensor.mk sizes (.ofInts dtype values)).canonical = ⟨sizes, .ofInts dtype values⟩ := by
  simp [canonical]

theorem Elementwise.unary_canonical (kind : UnaryKind) (input : Tensor)
    : unary kind input.canonical = (unary kind input).map Tensor.canonical := by
  simp only [unary, Tensor.dtype_canonical, Tensor.sizes_canonical, Tensor.elements_canonical,
    Elements.toFloats_canonical, Elements.toInts_canonical]
  split_ifs
  · rw [Steps.map_ok, Tensor.canonical_ofFloats]
  · cases unaryInt kind with
    | none => rfl
    | some f => rw [Steps.map_ok, Tensor.canonical_ofInts]

theorem Elementwise.binary_canonical (kind : BinaryKind) (lhs rhs : Tensor)
    : binary kind lhs.canonical rhs.canonical = (binary kind lhs rhs).map Tensor.canonical := by
  simp only [binary, Tensor.dtype_canonical, Tensor.sizes_canonical, Tensor.elements_canonical,
    Elements.toFloats_canonical, Elements.toInts_canonical, Steps.map_bind]
  apply Steps.bind_congr
  intro sizes
  split_ifs <;>
    simp only [Steps.map_bind, Steps.map_ok, Tensor.canonical_ofFloats, Tensor.canonical_ofInts]

theorem Reduce.reduce_canonical (reduction : Reduction) (input : Tensor)
    : reduce reduction input.canonical = (reduce reduction input).map Tensor.canonical := by
  simp only [reduce, Tensor.dtype_canonical, Tensor.sizes_canonical, Tensor.elements_canonical,
    Elements.toFloats_canonical, Elements.toInts_canonical, Steps.map_bind, Steps.map_ok]
  apply Steps.bind_congr
  intro axes
  split_ifs
  · rw [Tensor.canonical_ofFloats]
  · rw [Tensor.canonical_ofInts]

@[simp] theorem Reduce.largest_canonical (input : Tensor) (axis : Nat)
    : largest input.canonical axis = largest input axis := by
  simp [largest]

theorem Reduce.argMax_canonical (axis : Int) (keepAxes : Bool) (input : Tensor)
    : argMax axis keepAxes input.canonical = (argMax axis keepAxes input).map Tensor.canonical := by
  simp only [argMax, Tensor.rank_canonical, Tensor.sizes_canonical, largest_canonical,
    Steps.map_bind, Steps.map_ok]
  rfl

theorem Matrix.product_canonical (lhs rhs : Tensor)
    : product lhs.canonical rhs.canonical = (product lhs rhs).map Tensor.canonical := by
  simp only [product, Tensor.dtype_canonical, Tensor.sizes_canonical, Tensor.elements_canonical,
    Elements.toFloats_canonical, Steps.map_bind, Steps.map_ok, Tensor.canonical_ofFloats]

theorem Matrix.solve_canonical (system : TriangularSystem) (coefficients rightSide : Tensor)
    : solve system coefficients.canonical rightSide.canonical
      = (solve system coefficients rightSide).map Tensor.canonical := by
  simp only [solve, Tensor.dtype_canonical, Tensor.sizes_canonical, Tensor.elements_canonical,
    Elements.toFloats_canonical, Steps.map_bind]
  refine Steps.bind_congr fun size => Steps.bind_congr fun count => ?_
  split
  · rfl
  · rw [Steps.map_ok, Tensor.canonical_ofFloats]

theorem Matrix.blockSizes_canonical (blocks : List Tensor)
    : (blocks.map Tensor.canonical).mapM blockSizes = blocks.mapM blockSizes := by
  rw [List.mapM_map]
  rfl

theorem Matrix.blockDiagonal_canonical (blocks : List Tensor)
    : blockDiagonal (blocks.map Tensor.canonical)
      = (blockDiagonal blocks).map Tensor.canonical := by
  cases blocks with
  | nil => rfl
  | cons first rest =>
      have sizes := blockSizes_canonical (first :: rest)
      rw [List.map_cons] at sizes
      simp only [List.map_cons, blockDiagonal, sizes, Steps.map_bind, Steps.map_ok,
        Tensor.dtype_canonical, Tensor.elements_canonical, Elements.toFloats_canonical,
        Elements.toInts_canonical, List.map_map, Function.comp_def]
      apply Steps.bind_congr
      intro sizes
      split_ifs
      · rw [Tensor.canonical_ofFloats]
      · rw [Tensor.canonical_ofInts]

theorem Movement.extent_canonical (axis : Nat) (input : Tensor)
    : extent axis input.canonical = (extent axis input).map Tensor.canonical := by
  rw [extent, extent, Tensor.sizes_canonical]
  cases input.sizes[axis]? <;> rfl

end Computing

-----------------------------------------------------------------------------------------
-- Kernels that move elements
-----------------------------------------------------------------------------------------

namespace Movement

theorem shuffle_canonical (order : ShuffleOrder) (input : Tensor)
    : shuffle order input.canonical = (shuffle order input).map Tensor.canonical := by
  simp [shuffle, Tensor.gather_canonical, Steps.map_bind]

@[simp] theorem operandSize_canonical (operation : String) (inputs : Inputs)
    : operandSize operation inputs.canonical = operandSize operation inputs := by
  funext position
  simp [operandSize]

@[simp] theorem allocSizes_canonical (extents : List ExtentSource) (value : Tensor)
    (inputs : Inputs)
    : allocSizes extents value.canonical inputs.canonical = allocSizes extents value inputs := by
  have same : allocSize inputs.canonical = allocSize inputs := by
    funext extent
    cases extent <;> simp [allocSize]
  rw [allocSizes, allocSizes, same]
  rfl

theorem alloc_canonical (extents : List ExtentSource) (inputs : Inputs)
    : alloc extents inputs.canonical = (alloc extents inputs).map Tensor.canonical := by
  simp [alloc, Inputs.tensor_canonical, Tensor.gather_canonical, Steps.map_bind, Steps.bind_map]

@[simp] theorem sliceWalk_canonical (bounds : SliceBounds) (inputs : Inputs)
    : sliceWalk bounds inputs.canonical = sliceWalk bounds inputs := by
  have same : bound inputs.canonical = bound inputs := by
    funext scalar
    cases scalar <;> simp [bound]
  funext length
  simp [sliceWalk, same]

@[simp] theorem select_canonical (inputs : Inputs)
    : select inputs.canonical = select inputs := by
  funext axis size entry
  cases entry <;> simp [select]

@[simp] theorem selections_canonical (inputs : Inputs)
    : selections inputs.canonical = selections inputs := by
  funext axis sizes entries
  induction sizes generalizing axis entries with
  | nil => cases entries <;> rfl
  | cons size sizes ih => cases entries <;> simp [selections, ih]

theorem subtensor_canonical (entries : List IndexEntry) (inputs : Inputs)
    : subtensor entries inputs.canonical = (subtensor entries inputs).map Tensor.canonical := by
  simp only [subtensor, Inputs.tensor_canonical, Steps.map_bind, Steps.bind_map]
  apply Steps.bind_congr
  intro input
  simp only [Tensor.rank_canonical, Tensor.sizes_canonical, selections_canonical]
  split_ifs
  · rfl
  · simp [Tensor.gather_canonical, Steps.map_bind]

theorem reshape_canonical (extents : List ReshapeExtent) (inputs : Inputs)
    : reshape extents inputs.canonical = (reshape extents inputs).map Tensor.canonical := by
  have same : reshapeSize inputs.canonical = reshapeSize inputs := by
    funext extent
    cases extent <;> simp [reshapeSize]
  simp only [reshape, Inputs.tensor_canonical, Steps.map_bind, Steps.bind_map, same]
  apply Steps.bind_congr
  intro input
  simp only [Tensor.elements_canonical, Elements.size_canonical]
  apply Steps.bind_congr
  intro places
  split_ifs <;> rfl

end Movement

/-- Places are integers. -/
theorem Reduce.canonical_places {axis : Int} {input : Tensor} {result : Tensor × Tensor}
    (done : maxAndArgMax axis input = .ok result)
    : result.2.canonical = result.2 := by
  obtain ⟨axis, -, done⟩ := Steps.bind_eq_ok_iff.mp done
  obtain ⟨places, -, done⟩ := Steps.bind_eq_ok_iff.mp done
  obtain ⟨positions, -, done⟩ := Steps.bind_eq_ok_iff.mp done
  obtain ⟨values, -, done⟩ := Steps.bind_eq_ok_iff.mp done
  obtain rfl := Except.ok.inj done
  rfl

theorem Reduce.maxAndArgMax_canonical (axis : Int) (input : Tensor)
    : maxAndArgMax axis input.canonical
      = (maxAndArgMax axis input).map fun result => (result.1.canonical, result.2) := by
  simp [maxAndArgMax, Tensor.gather_canonical, Steps.map_bind, Steps.bind_map]
  rfl

-----------------------------------------------------------------------------------------
-- Kernels on lists
-----------------------------------------------------------------------------------------

namespace Sequence

theorem removeFirst_canonical (needle : Tensor) (items : List Tensor)
    : removeFirst needle.canonical (items.map Tensor.canonical)
      = (removeFirst needle items).map Tensor.canonical := by
  induction items with
  | nil => rfl
  | cons item items ih =>
      simp only [List.map_cons, removeFirst, Tensor.equal_canonical]
      split_ifs
      · rfl
      · rw [ih, List.map_cons]

theorem get_canonical (entry : IndexEntry) (inputs : Inputs)
    : get entry inputs.canonical = (get entry inputs).map Value.canonical := by
  simp only [get, Inputs.list_canonical, Steps.map_bind, Steps.bind_map]
  apply Steps.bind_congr
  intro items
  cases entry with
  | scalar scalar =>
      simp only [Inputs.scalar_canonical, Steps.map_bind, List.length_map]
      apply Steps.bind_congr
      intro index
      cases Slice.position? index items.length with
      | none => rfl
      | some position =>
          simp only [Option.bind_some, List.getElem?_map]
          cases items[position]? <;> rfl
  | slice bounds =>
      simp only [Movement.slicePositions, Movement.sliceWalk_canonical, List.length_map,
        Elements.select?_map, Steps.map_bind]
      apply Steps.bind_congr
      intro positions
      cases Elements.select? positions items <;> rfl

theorem mutate_canonical (mutation : ListMutation) (inputs : Inputs)
    : mutate mutation inputs.canonical
      = (mutate mutation inputs).map (List.map Tensor.canonical) := by
  simp only [mutate, Inputs.list_canonical, Steps.map_bind, Steps.bind_map]
  apply Steps.bind_congr
  intro items
  cases mutation with
  | append =>
      simp only [Inputs.tensor_canonical, Steps.map_bind, Steps.bind_map]
      exact Steps.bind_congr fun item => by simp [Except.map]
  | extend =>
      simp only [Steps.map_bind]
      exact Steps.bind_congr fun others => by simp [Except.map]
  | insert =>
      simp only [Inputs.index_canonical, Inputs.tensor_canonical, Steps.map_bind, Steps.bind_map]
      refine Steps.bind_congr fun index => Steps.bind_congr fun item => ?_
      simp [Except.map, List.map_insertIdx]
  | remove =>
      simp only [Inputs.tensor_canonical, Steps.map_bind, Steps.bind_map]
      exact Steps.bind_congr fun needle => by simp [Except.map, removeFirst_canonical]
  | reverse => simp [Except.map]

theorem position_canonical (inputs : Inputs)
    : position inputs.canonical = (position inputs).map Tensor.canonical := by
  simp only [position, Inputs.list_canonical, Inputs.tensor_canonical, Steps.bind_map,
    Steps.map_bind]
  refine Steps.bind_congr fun needle => Steps.bind_congr fun items => ?_
  rw [List.findIdx?_map]
  simp only [Function.comp_def, Tensor.equal_canonical]
  cases items.findIdx? (·.equal needle) <;> rfl

theorem count_canonical (inputs : Inputs)
    : count inputs.canonical = (count inputs).map Tensor.canonical := by
  simp only [count, Inputs.list_canonical, Inputs.tensor_canonical, Steps.bind_map, Steps.map_bind,
    Steps.map_ok]
  refine Steps.bind_congr fun needle => Steps.bind_congr fun items => ?_
  rw [List.countP_map]
  simp only [Function.comp_def, Tensor.equal_canonical]
  rfl

end Sequence

-----------------------------------------------------------------------------------------
-- All operations
-----------------------------------------------------------------------------------------

theorem Inputs.tupleElement_canonical (inputs : Inputs) (index : Nat)
    : inputs.canonical.tupleElement index
      = (inputs.tupleElement index).map Value.canonical := by
  cases inputs with
  | nil => rfl
  | cons first rest =>
      cases first with
      | tensor content => rfl
      | list items => rfl
      | tuple parts =>
          simp only [canonical, List.map_cons, Value.canonical, tupleElement,
            Value.canonicalParts_eq_map, List.getElem?_map]
          cases parts[index]? <;> rfl

/-- The numbers of a literal are stored in the way in which they are stored again. -/
def Literal.IsExact (literal : Literal) : Prop := literal.elements.canonical = literal.elements

/-- An operation brings no numbers that would be stored in another way again. -/
def Operation.IsExact (operation : Operation) : Prop :=
  ∀ literal, operation = .constant literal → literal.IsExact

/-- The tensor of an exact literal is canonical. -/
theorem Tensor.canonical_of_ofLiteral {literal : Literal} {content : Tensor}
    (stored : literal.IsExact) (made : ofLiteral literal = .ok content)
    : content.canonical = content := by
  rw [ofLiteral] at made
  split at made
  · cases made
  · dsimp only at made
    split_ifs at made
    · obtain rfl := Except.ok.inj made
      rw [canonical, stored]
    · cases made

namespace Kernel

theorem onFirst_canonical {kernel : Tensor → Outcome Tensor}
    (congruent : ∀ input : Tensor, kernel input.canonical = (kernel input).map Tensor.canonical)
    (inputs : Inputs)
    : onFirst kernel inputs.canonical = (onFirst kernel inputs).map Value.canonical := by
  simp only [onFirst, Inputs.tensor_canonical, Steps.map_bind, Steps.bind_map, congruent, tensor,
    Steps.map_map, Value.canonical]

theorem onTwo_canonical {kernel : Tensor → Tensor → Outcome Tensor}
    (congruent
      : ∀ lhs rhs : Tensor,
          kernel lhs.canonical rhs.canonical = (kernel lhs rhs).map Tensor.canonical)
    (inputs : Inputs)
    : onTwo kernel inputs.canonical = (onTwo kernel inputs).map Value.canonical := by
  simp only [onTwo, Inputs.tensor_canonical, Steps.map_bind, Steps.bind_map, congruent, tensor,
    Steps.map_map, Value.canonical]

/-- On operands in their canonical form, a kernel has the results in their canonical form. -/
theorem execute_canonical {operation : Operation} (stored : operation.IsExact) (inputs : Inputs)
    : execute operation inputs.canonical = (execute operation inputs).map Value.canonical := by
  cases operation with
  | constant literal =>
      rw [execute, execute, tensor]
      cases made : Tensor.ofLiteral literal with
      | error error => rfl
      | ok content =>
          have same := Tensor.canonical_of_ofLiteral (stored literal rfl) made
          simp [Except.map, Value.canonical, same]
  | unary kind => exact onFirst_canonical (Elementwise.unary_canonical kind) inputs
  | binary kind => exact onTwo_canonical (Elementwise.binary_canonical kind) inputs
  | reduce reduction => exact onFirst_canonical (Reduce.reduce_canonical reduction) inputs
  | argMax axis keepAxes => exact onFirst_canonical (Reduce.argMax_canonical axis keepAxes) inputs
  | maxAndArgMax axis =>
      simp only [execute, maxAndArgMax, Inputs.tensor_canonical, Reduce.maxAndArgMax_canonical,
        Steps.map_bind, Steps.bind_map, Steps.map_ok]
      refine Steps.bind_congr fun input => ?_
      cases done : Reduce.maxAndArgMax axis input with
      | error error => rfl
      | ok result =>
          have places := Reduce.canonical_places done
          simp [Steps.ok_bind, Value.canonical, Value.canonicalParts, places]
  | tupleElement index => exact inputs.tupleElement_canonical index
  | shuffle order => exact onFirst_canonical (Movement.shuffle_canonical order) inputs
  | alloc extents =>
      simp only [execute, Movement.alloc_canonical, tensor, Steps.map_map, Value.canonical]
  | subtensor entries =>
      simp only [execute, Movement.subtensor_canonical, tensor, Steps.map_map, Value.canonical]
  | reshape extents =>
      simp only [execute, Movement.reshape_canonical, tensor, Steps.map_map, Value.canonical]
  | extent axis => exact onFirst_canonical (Movement.extent_canonical axis) inputs
  | dot => exact onTwo_canonical Matrix.product_canonical inputs
  | blockDiagonal =>
      simp only [execute, Inputs.tensors_canonical, Steps.map_bind, Steps.bind_map,
        Matrix.blockDiagonal_canonical, tensor, Steps.map_map, Value.canonical]
  | solveTriangular system => exact onTwo_canonical (Matrix.solve_canonical system) inputs
  | makeList =>
      simp only [execute, Inputs.tensors_canonical, Steps.map_map, Value.canonical]
  | listGet entry => exact Sequence.get_canonical entry inputs
  | listLength =>
      simp only [execute, Inputs.list_canonical, Steps.map_bind, Steps.bind_map, List.length_map]
      rfl
  | listMutation mutation inplace =>
      simp only [execute, Sequence.mutate_canonical, Steps.map_map, Value.canonical]
  | listIndex =>
      simp only [execute, Sequence.position_canonical, tensor, Steps.map_map, Value.canonical]
  | listCount =>
      simp only [execute, Sequence.count_canonical, tensor, Steps.map_map, Value.canonical]

/-- Results of operands in their canonical form are in theirs. -/
theorem canonical_of_execute {operation : Operation} (stored : operation.IsExact)
    {inputs : Inputs} {result : Value} (same : inputs.canonical = inputs)
    (done : execute operation inputs = .ok result)
    : result.canonical = result := by
  have again := execute_canonical stored inputs
  rw [same, done] at again
  exact (Except.ok.inj again).symm

end Kernel

end Dataflow
