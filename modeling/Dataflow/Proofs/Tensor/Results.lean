import Dataflow.Execution.Memory
import Dataflow.Proofs.Tensor.Filling
import Dataflow.Proofs.Tensor.Indexing
import Dataflow.Proofs.Tensor.Matrix
import Dataflow.Proofs.Tensor.Reduction
import Dataflow.Proofs.Tensor.Sequence

/-!
Results of kernels, whatever types their operands have. Valid operands have valid results, and no
kernel complains about numbers that are not finite: that is left to the checks of a run.
-/

namespace Dataflow

-----------------------------------------------------------------------------------------
-- Plain outcomes
-----------------------------------------------------------------------------------------

namespace Outcome

variable {α β : Type}

/-- A result is good, and an error is no complaint about numbers. -/
structure Plain (good : α → Prop) (outcome : Outcome α) : Prop where
  holds : ∀ {value : α}, outcome = .ok value → good value
  silent : ∀ operation id positions, outcome ≠ .error (.notFinite operation id positions)

variable {good weaker : α → Prop} {better : β → Prop}

/-- A good result is plain. -/
theorem plain_ok {value : α} (fine : good value) : Plain good (.ok value : Outcome α) :=
  ⟨fun same => Except.ok.inj same ▸ fine, fun _ _ _ same => nomatch same⟩

/-- An error that is no complaint about numbers is plain. -/
theorem plain_error {error : BackendError}
    (other : ∀ operation id positions, error ≠ .notFinite operation id positions)
    : Plain good (.error error : Outcome α) :=
  ⟨fun same => (nomatch same), fun operation id positions same =>
    other operation id positions (Except.error.inj same)⟩

/-- Refusing is plain. -/
theorem plain_fail (good : α → Prop) (fault : KernelFault) : Plain good (fail fault) :=
  plain_error fun _ _ _ same => nomatch same

/-- Requiring an item is plain. -/
theorem plain_require (breach : Breach) (item : Option α)
    : Plain (fun value => item = some value) (require breach item) := by
  cases item with
  | some value => exact plain_ok rfl
  | none => exact plain_error fun _ _ _ same => nomatch same

/-- Steps after each other are plain, if the second one is plain behind good results. -/
theorem Plain.bind {step : Outcome α} {next : α → Outcome β} (plain : Plain good step)
    (follows : ∀ value, good value → Plain better (next value))
    : Plain better (step >>= next) := by
  cases step with
  | ok value => exact follows value (plain.holds rfl)
  | error error =>
      exact plain_error fun operation id positions same =>
        plain.silent operation id positions (same ▸ rfl)

/-- Changing a result is plain, if good results become good. -/
theorem Plain.map {step : Outcome α} {change : α → β} (plain : Plain good step)
    (becomes : ∀ value, good value → better (change value))
    : Plain better (step.map change) := by
  cases step with
  | ok value => exact plain_ok (becomes value (plain.holds rfl))
  | error error =>
      exact plain_error fun operation id positions same =>
        plain.silent operation id positions (same ▸ rfl)

/-- A plain outcome is plain for whatever holds of its results. -/
theorem Plain.of_holds {outcome : Outcome α} (plain : Plain good outcome)
    (holds : ∀ value, outcome = .ok value → weaker value)
    : Plain weaker outcome :=
  ⟨fun done => holds _ done, plain.silent⟩

/-- A weaker property is plain too. -/
theorem Plain.mono {outcome : Outcome α} (plain : Plain good outcome)
    (implies : ∀ value, good value → weaker value)
    : Plain weaker outcome :=
  plain.of_holds fun _ done => implies _ (plain.holds done)

/-- A step at every entry of a list is plain, if it is plain at each of them, by induction on the
list.
-/
theorem Plain.mapM {good : α → β → Prop} {step : α → Outcome β} {list : List α}
    (plain : ∀ entry ∈ list, Plain (good entry) (step entry))
    : Plain (List.Forall₂ good list) (list.mapM step) := by
  induction list with
  | nil => exact plain_ok .nil
  | cons first rest ih =>
      rw [List.mapM_cons]
      refine (plain first List.mem_cons_self).bind ?_
      intro result fine
      refine (ih fun entry member => plain entry (List.mem_cons_of_mem _ member)).bind ?_
      intro results allFine
      exact plain_ok (.cons fine allFine)

/-- A check of every entry of a list is plain, if it is plain at each of them. -/
theorem Plain.forM {check : α → Outcome Unit} {list : List α}
    (plain : ∀ entry, Plain (fun _ => True) (check entry))
    : Plain (fun _ => True) (list.forM check) := by
  induction list with
  | nil => exact plain_ok trivial
  | cons first rest ih => exact (plain first).bind fun _ _ => ih

end Outcome

-----------------------------------------------------------------------------------------
-- Operands
-----------------------------------------------------------------------------------------

namespace Inputs

/-- An operand that is read is one of the values. -/
theorem plain_value (inputs : Inputs) (position : Nat)
    : Outcome.Plain (· ∈ inputs) (inputs.value position) := by
  rw [value]
  cases found : inputs[position]? with
  | none => exact Outcome.plain_fail _ _
  | some value => exact Outcome.plain_ok (List.mem_of_getElem? found)

/-- A tensor that is read is one of the values. -/
theorem plain_tensor (inputs : Inputs) (position : Nat)
    : Outcome.Plain (fun content => .tensor content ∈ inputs) (inputs.tensor position) := by
  refine (plain_value inputs position).bind ?_
  intro value member
  cases value with
  | tensor content => exact Outcome.plain_ok member
  | list items => exact Outcome.plain_fail _ _
  | tuple parts => exact Outcome.plain_fail _ _

/-- A list that is read is one of the values. -/
theorem plain_list (inputs : Inputs) (position : Nat)
    : Outcome.Plain (fun items => .list items ∈ inputs) (inputs.list position) := by
  refine (plain_value inputs position).bind ?_
  intro value member
  cases value with
  | list items => exact Outcome.plain_ok member
  | tensor content => exact Outcome.plain_fail _ _
  | tuple parts => exact Outcome.plain_fail _ _

/-- Reading an integer is plain. -/
theorem plain_index (inputs : Inputs) (position : Nat)
    : Outcome.Plain (fun _ => True) (inputs.index position) := by
  refine (plain_tensor inputs position).bind ?_
  intro content _
  rw [Tensor.index]
  split
  · exact Outcome.plain_ok trivial
  · exact Outcome.plain_fail _ _

/-- Reading the number of an index is plain. -/
theorem plain_scalar (inputs : Inputs) (scalar : IndexScalar)
    : Outcome.Plain (fun _ => True) (inputs.scalar scalar) := by
  cases scalar with
  | static value => exact Outcome.plain_ok trivial
  | operand position => exact plain_index inputs position

/-- Tensors that are read are values. -/
theorem plain_tensors (inputs : Inputs)
    : Outcome.Plain (fun contents => ∀ content ∈ contents, .tensor content ∈ inputs)
        inputs.tensors := by
  have each : ∀ value ∈ inputs, Outcome.Plain (value = .tensor ·) value.asTensor := by
    intro value _
    cases value with
    | tensor content => exact Outcome.plain_ok rfl
    | list items => exact Outcome.plain_fail _ _
    | tuple parts => exact Outcome.plain_fail _ _
  refine (Outcome.Plain.mapM each).mono ?_
  intro contents same content member
  obtain ⟨value, listed, rfl⟩ := Steps.exists_of_mem_right same member
  exact listed

end Inputs

-----------------------------------------------------------------------------------------
-- Gathering
-----------------------------------------------------------------------------------------

/-- There is a selected item for each position. -/
theorem Elements.length_of_select? {α : Type} {positions : List Nat} {items selected : List α}
    (done : select? positions items = some selected)
    : selected.length = positions.length := by
  have each := congrArg List.length (Steps.mapM_eq_some_iff.mp done)
  simpa using each.symm

/-- There is a gathered element for each position. -/
theorem Elements.size_of_gather? {elements gathered : Elements} {positions : List Nat}
    (done : elements.gather? positions = some gathered)
    : gathered.size = positions.length := by
  cases elements <;>
    · obtain ⟨selected, found, rfl⟩ := Option.map_eq_some_iff.mp done
      exact length_of_select? found

/-- Gathered elements make a valid tensor, if there are as many positions as its sizes say. -/
theorem Tensor.plain_gather (tensor : Tensor) {sizes positions : List Nat}
    (length : positions.length = RowMajor.count sizes)
    : Outcome.Plain Valid (tensor.gather sizes positions) := by
  refine (Outcome.plain_require _ _).bind ?_
  intro elements found
  exact Outcome.plain_ok ((Elements.size_of_gather? found).trans length)

/-- A tensor of a single size is valid. -/
theorem Tensor.valid_ofSize (size : Nat) : (ofSize size).Valid := rfl

-----------------------------------------------------------------------------------------
-- Functions of numbers
-----------------------------------------------------------------------------------------

namespace Elementwise

theorem plain_unary (kind : UnaryKind) {input : Tensor} (valid : input.Valid)
    : Outcome.Plain Tensor.Valid (unary kind input) := by
  have valid : input.elements.size = RowMajor.count input.sizes := valid
  rw [unary]
  split_ifs
  · exact Outcome.plain_ok (by simp [Tensor.Valid, valid])
  · cases unaryInt kind with
    | none => exact Outcome.plain_error fun _ _ _ same => by cases same
    | some f => exact Outcome.plain_ok (by simp [Tensor.Valid, valid])

theorem plain_fetch {α : Type} (positions : List Nat) (items : List α)
    : Outcome.Plain (fun fetched => fetched.length = positions.length) (fetch positions items) :=
  (Outcome.plain_require _ _).mono fun _ found => Elements.length_of_select? found

theorem plain_broadcastSize (a b : Nat) : Outcome.Plain (fun _ => True) (broadcastSize a b) := by
  rw [broadcastSize]
  split_ifs
  · exact Outcome.plain_ok trivial
  · exact Outcome.plain_ok trivial
  · exact Outcome.plain_ok trivial
  · exact Outcome.plain_fail _ _

theorem plain_broadcastSizes (lhs rhs : List Nat)
    : Outcome.Plain (fun sizes => broadcastSizes lhs rhs = .ok sizes) (broadcastSizes lhs rhs) :=
  (Outcome.Plain.mapM fun pair _ => plain_broadcastSize pair.1 pair.2).of_holds fun _ => id

theorem plain_binaryInt (kind : BinaryKind) (x y : Int64)
    : Outcome.Plain (fun _ => True) (binaryInt kind x y) := by
  cases kind with
  | div =>
      rw [binaryInt, divide]
      split_ifs
      · exact Outcome.plain_fail _ _
      · exact Outcome.plain_ok trivial
  | add => exact Outcome.plain_ok trivial
  | sub => exact Outcome.plain_ok trivial
  | mul => exact Outcome.plain_ok trivial
  | maximum => exact Outcome.plain_ok trivial
  | minimum => exact Outcome.plain_ok trivial

theorem plain_binary (kind : BinaryKind) (lhs rhs : Tensor)
    : Outcome.Plain Tensor.Valid (binary kind lhs rhs) := by
  refine (plain_broadcastSizes lhs.sizes rhs.sizes).bind ?_
  intro sizes done
  obtain ⟨stretchLhs, stretchRhs⟩ := stretchTo_broadcastSizes done
  have left := (broadcastPositions_inside stretchLhs).2
  have right := (broadcastPositions_inside stretchRhs).2
  dsimp only
  split_ifs
  · refine (plain_fetch _ _).bind fun xs lengthXs => ?_
    refine (plain_fetch _ _).bind fun ys lengthYs => ?_
    exact Outcome.plain_ok (by simp [Tensor.Valid, lengthXs, lengthYs, left, right])
  · refine (plain_fetch _ _).bind fun xs lengthXs => ?_
    refine (plain_fetch _ _).bind fun ys lengthYs => ?_
    refine (Outcome.Plain.mapM fun pair _ => plain_binaryInt kind pair.1 pair.2).bind ?_
    intro results each
    have length := each.length_eq
    exact Outcome.plain_ok (by simp [Tensor.Valid, ← length, lengthXs, lengthYs, left, right])

end Elementwise

-----------------------------------------------------------------------------------------
-- Reductions
-----------------------------------------------------------------------------------------

namespace Reduce

theorem plain_combinedAxes (reduction : Reduction) (sizes : List Nat)
    : Outcome.Plain (fun _ => True) (combinedAxes reduction sizes) := by
  rw [combinedAxes]
  split
  · exact Outcome.plain_error fun _ _ _ same => by cases same
  · split_ifs
    · exact Outcome.plain_fail _ _
    · exact Outcome.plain_ok trivial

theorem plain_reduce (reduction : Reduction) (input : Tensor)
    : Outcome.Plain Tensor.Valid (reduce reduction input) := by
  refine (plain_combinedAxes reduction input.sizes).bind fun axes _ => Outcome.plain_ok ?_
  rw [Tensor.Valid, count_resultSizes]
  split_ifs <;> simp [combine]

theorem plain_resolveAxis (axis : Int) (rank : Nat)
    : Outcome.Plain (fun _ => True) (resolveAxis axis rank) := by
  rw [resolveAxis]
  split
  · exact Outcome.plain_ok trivial
  · exact Outcome.plain_fail _ _

/-- There is a place for each lane. -/
theorem plain_bestPlaces {α : Type} (beats : α → α → Bool) (items : List α)
    (lanes : List (List Nat))
    : Outcome.Plain (fun places => places.length = lanes.length)
        (bestPlaces beats items lanes) := by
  have each
      : ∀ lane ∈ lanes,
          Outcome.Plain (fun _ => True)
            (do
              let items ← Outcome.require .missingElement (Elements.select? lane items)
              .ok (bestPlace beats items)) :=
    fun lane _ => (Outcome.plain_require _ _).bind fun _ _ => Outcome.plain_ok trivial
  exact (Outcome.Plain.mapM each).mono fun places found => found.length_eq.symm

theorem plain_largest (input : Tensor) (axis : Nat)
    : Outcome.Plain (fun places => places.length = (lanes input.sizes axis).length)
        (largest input axis) := by
  rw [largest]
  split_ifs
  · exact Outcome.plain_fail _ _
  · exact plain_bestPlaces _ _ _
  · exact plain_bestPlaces _ _ _

/-- A tensor of places, one for each lane, is valid. -/
theorem valid_indexTensor {sizes places : List Nat} {axis : Nat} (keepAxes : Bool)
    (length : places.length = (lanes sizes axis).length)
    : (indexTensor (resultSizes [axis] keepAxes sizes) places).Valid := by
  rw [Tensor.Valid, indexTensor, count_resultSizes_single]
  simpa [Elements.size] using length

theorem plain_argMax (axis : Int) (keepAxes : Bool) (input : Tensor)
    : Outcome.Plain Tensor.Valid (argMax axis keepAxes input) := by
  refine (plain_resolveAxis axis input.rank).bind fun found _ => ?_
  refine (plain_largest input found).bind fun places length => ?_
  exact Outcome.plain_ok (valid_indexTensor keepAxes length)

theorem plain_maxAndArgMax (axis : Int) (input : Tensor)
    : Outcome.Plain (fun both => both.1.Valid ∧ both.2.Valid) (maxAndArgMax axis input) := by
  refine (plain_resolveAxis axis input.rank).bind fun found _ => ?_
  refine (plain_largest input found).bind fun places length => ?_
  refine (Outcome.plain_require _ _).bind fun positions picked => ?_
  have each := congrArg List.length (Steps.mapM_eq_some_iff.mp picked)
  rw [List.length_map, List.length_map, List.length_zip, length, Nat.min_self] at each
  refine (input.plain_gather ?_).bind fun values valid => ?_
  · rw [count_resultSizes_single, each]
  · exact Outcome.plain_ok ⟨valid, valid_indexTensor false length⟩

end Reduce

-----------------------------------------------------------------------------------------
-- Movement
-----------------------------------------------------------------------------------------

namespace Movement

theorem plain_picks (items : List Nat) (unit : Nat) (order : ShuffleOrder)
    : Outcome.Plain (fun picked => picked.length = order.length)
        (order.mapM (pick items unit)) := by
  have each : ∀ axis ∈ order, Outcome.Plain (fun _ => True) (pick items unit axis) := by
    intro axis _
    cases axis with
    | broadcast => exact Outcome.plain_ok trivial
    | axis source => exact (Outcome.plain_require _ _).mono fun _ _ => trivial
  exact (Outcome.Plain.mapM each).mono fun picked found => found.length_eq.symm

theorem plain_shuffle (order : ShuffleOrder) (input : Tensor)
    : Outcome.Plain Tensor.Valid (shuffle order input) := by
  refine (Outcome.Plain.forM fun axis => ?_).bind fun _ _ => ?_
  · rw [checkDropped]
    split
    · exact Outcome.plain_ok trivial
    · exact Outcome.plain_fail _ _
    · exact Outcome.plain_ok trivial
  · refine (plain_picks _ _ order).bind fun sizes lengthSizes => ?_
    refine (plain_picks _ _ order).bind fun steps lengthSteps => ?_
    refine input.plain_gather ?_
    rw [RowMajor.strided_eq (lengthSizes.trans lengthSteps.symm), List.length_map,
      RowMajor.length_points]

theorem plain_operandSize (operation : String) (inputs : Inputs) (position : Nat)
    : Outcome.Plain (fun _ => True) (operandSize operation inputs position) := by
  refine (Inputs.plain_index inputs position).bind fun value _ => ?_
  split_ifs
  · exact Outcome.plain_fail _ _
  · exact Outcome.plain_ok trivial

theorem plain_checkFill (size target : Nat)
    : Outcome.Plain (fun _ => True) (checkFill size target) := by
  rw [checkFill]
  split_ifs
  · exact Outcome.plain_ok trivial
  · exact Outcome.plain_fail _ _

/-- The sizes of a new tensor are those that the value stretches to. -/
theorem plain_allocSizes (extents : List ExtentSource) (value : Tensor) (inputs : Inputs)
    : Outcome.Plain (Elementwise.StretchTo value.sizes) (allocSizes extents value inputs) := by
  have each : ∀ extent ∈ extents, Outcome.Plain (fun _ => True) (allocSize inputs extent) := by
    intro extent _
    cases extent with
    | static size => exact Outcome.plain_ok trivial
    | operand position => exact plain_operandSize "alloc" inputs position
  have plain : Outcome.Plain (fun _ => True) (allocSizes extents value inputs) := by
    refine (Outcome.Plain.mapM each).bind fun target _ => ?_
    split_ifs
    · exact Outcome.plain_fail _ _
    · refine (Outcome.Plain.forM fun pair => ?_).bind fun _ _ => Outcome.plain_ok trivial
      exact plain_checkFill pair.1 pair.2
  exact plain.of_holds fun _ done => (allocSizes_eq_ok_iff.mp done).2

theorem plain_alloc (extents : List ExtentSource) (inputs : Inputs)
    : Outcome.Plain Tensor.Valid (alloc extents inputs) := by
  refine (Inputs.plain_tensor inputs 0).bind fun value _ => ?_
  refine (plain_allocSizes extents value inputs).bind fun target stretch => ?_
  exact value.plain_gather (Elementwise.broadcastPositions_inside stretch).2

theorem plain_bound (inputs : Inputs) (scalar : Option IndexScalar)
    : Outcome.Plain (fun _ => True) (bound inputs scalar) := by
  cases scalar with
  | none => exact Outcome.plain_ok trivial
  | some scalar =>
      exact (Inputs.plain_scalar inputs scalar).bind fun _ _ => Outcome.plain_ok trivial

theorem plain_sliceWalk (bounds : SliceBounds) (inputs : Inputs) (length : Nat)
    : Outcome.Plain (fun _ => True) (sliceWalk bounds inputs length) := by
  refine (plain_bound inputs bounds.step).bind fun step _ => ?_
  split_ifs
  · exact Outcome.plain_fail _ _
  · refine (plain_bound inputs bounds.start).bind fun start _ => ?_
    exact (plain_bound inputs bounds.stop).bind fun stop _ => Outcome.plain_ok trivial

theorem plain_select (inputs : Inputs) (axis size : Nat) (entry : IndexEntry)
    : Outcome.Plain (fun _ => True) (select inputs axis size entry) := by
  cases entry with
  | scalar scalar =>
      refine (Inputs.plain_scalar inputs scalar).bind fun index _ => ?_
      split
      · exact Outcome.plain_ok trivial
      · exact Outcome.plain_fail _ _
  | slice bounds =>
      exact (plain_sliceWalk bounds inputs size).bind fun _ _ => Outcome.plain_ok trivial

/-- What is taken from every axis lies inside it. By induction on the axes. -/
theorem plain_selections (inputs : Inputs) (axis : Nat) (sizes : List Nat)
    (entries : List IndexEntry)
    : Outcome.Plain (fun taken => List.Forall₂ Selection.Inside taken sizes)
        ((selections inputs axis sizes entries).mapM id) := by
  have each
      : ∀ selection ∈ selections inputs axis sizes entries,
          Outcome.Plain (fun _ => True) (id selection) := by
    induction sizes generalizing axis entries with
    | nil => simp [selections]
    | cons size sizes ih =>
        cases entries with
        | nil =>
            rintro selection (_ | ⟨_, later⟩)
            · exact Outcome.plain_ok trivial
            · exact ih _ _ selection later
        | cons entry entries =>
            rintro selection (_ | ⟨_, later⟩)
            · exact plain_select inputs axis size entry
            · exact ih _ _ selection later
  exact (Outcome.Plain.mapM each).of_holds fun _ done => selections_inside done

theorem plain_subtensor (entries : List IndexEntry) (inputs : Inputs)
    : Outcome.Plain Tensor.Valid (subtensor entries inputs) := by
  refine (Inputs.plain_tensor inputs 0).bind fun input _ => ?_
  dsimp only
  split_ifs
  · exact Outcome.plain_fail _ _
  · refine (plain_selections inputs 0 input.sizes entries).bind fun taken inside => ?_
    have aligned : (taken.map (·.walk)).length = (RowMajor.steps input.sizes).length := by
      rw [List.length_map, RowMajor.length_steps, inside.length_eq]
    refine input.plain_gather ?_
    rw [crossings_eq aligned, List.length_map, RowMajor.length_choices]
    simpa [Function.comp_def, keptCounts] using count_keptCounts inside

/-- A place of a new shape, which has one element if it is to be inferred. -/
theorem plain_reshapeSize (inputs : Inputs) (extent : ReshapeExtent)
    : Outcome.Plain (ReshapesTo extent) (reshapeSize inputs extent) := by
  have plain : Outcome.Plain (fun _ => True) (reshapeSize inputs extent) := by
    cases extent with
    | explicit size => exact Outcome.plain_ok trivial
    | infer => exact Outcome.plain_ok trivial
    | operand position =>
        exact (plain_operandSize "reshape" inputs position).bind fun _ _ => Outcome.plain_ok trivial
  exact plain.of_holds fun _ done => (safe_reshapeSize inputs extent).holds done

theorem plain_reshape (extents : List ReshapeExtent) (inputs : Inputs)
    : Outcome.Plain Tensor.Valid (reshape extents inputs) := by
  refine (Inputs.plain_tensor inputs 0).bind fun input _ => ?_
  refine (Outcome.Plain.mapM fun extent _ => plain_reshapeSize inputs extent).bind ?_
  intro places sized
  dsimp only
  split_ifs with some refused same
  · exact Outcome.plain_fail _ _
  · have divides := Decidable.not_not.mp (not_or.mp refused).2
    have infer : .infer ∈ extents := by
      obtain ⟨place, member, inferred⟩ := List.any_eq_true.mp some
      obtain ⟨extent, listed, here⟩ := Steps.exists_of_mem_right sized member
      exact here.inferred_iff.mp inferred ▸ listed
    have reversed : List.Forall₂ ReshapesTo extents.reverse places.reverse :=
      List.rel_reverse sized
    refine Outcome.plain_ok ?_
    rw [Tensor.Valid, count_reverse, count_fillInferred reversed (List.mem_reverse.mpr infer),
      List.map_reverse, count_reverse]
    exact (Nat.div_mul_cancel (Nat.dvd_of_mod_eq_zero divides)).symm
  · exact Outcome.plain_ok same.symm
  · exact Outcome.plain_fail _ _

theorem plain_extent (axis : Nat) (input : Tensor)
    : Outcome.Plain Tensor.Valid (extent axis input) := by
  rw [extent]
  split
  · exact Outcome.plain_ok (Tensor.valid_ofSize _)
  · exact Outcome.plain_fail _ _

end Movement

-----------------------------------------------------------------------------------------
-- Matrices
-----------------------------------------------------------------------------------------

namespace Matrix

theorem plain_contraction (lhs rhs : List Nat)
    : Outcome.Plain (fun sizes => contraction lhs rhs = .ok sizes) (contraction lhs rhs) := by
  have left : Outcome.Plain (fun _ => True) (leftSizes lhs) := by
    unfold leftSizes
    split
    · exact Outcome.plain_ok trivial
    · exact Outcome.plain_ok trivial
    · exact Outcome.plain_fail _ _
  have right : Outcome.Plain (fun _ => True) (rightSizes rhs) := by
    unfold rightSizes
    split
    · exact Outcome.plain_ok trivial
    · exact Outcome.plain_ok trivial
    · exact Outcome.plain_fail _ _
  have plain : Outcome.Plain (fun _ => True) (contraction lhs rhs) := by
    refine left.bind fun _ _ => right.bind fun _ _ => ?_
    dsimp only
    split_ifs
    · exact Outcome.plain_fail _ _
    · exact Outcome.plain_ok trivial
  exact plain.of_holds fun _ => id

theorem plain_product (lhs : Tensor) {rhs : Tensor} (valid : rhs.Valid)
    : Outcome.Plain Tensor.Valid (product lhs rhs) := by
  refine (plain_contraction lhs.sizes rhs.sizes).bind ?_
  rintro ⟨m, k, n⟩ done
  obtain ⟨left, right⟩ := contraction_eq_ok done
  obtain ⟨count, countRhs⟩ := count_productSizes left right
  have valid : rhs.elements.size = k * n := valid.trans countRhs
  have length : k * n ≤ rhs.elements.toFloats.length :=
    Nat.le_of_eq (valid.symm.trans (Elements.length_toFloats _).symm)
  refine Outcome.plain_ok ?_
  rw [Tensor.Valid, Elements.size_ofFloats, length_productElements _ _ length, count]

theorem plain_blockDiagonal {blocks : List Tensor} (valid : ∀ block ∈ blocks, block.Valid)
    : Outcome.Plain Tensor.Valid (blockDiagonal blocks) := by
  cases blocks with
  | nil => exact Outcome.plain_fail _ _
  | cons first rest =>
      have each
          : ∀ block ∈ first :: rest,
              Outcome.Plain (fun size => block.elements.size = size.1 * size.2)
                (blockSizes block) := by
        intro block member
        have valid : block.elements.size = RowMajor.count block.sizes := valid block member
        rw [blockSizes]
        split
        · rename_i same
          exact Outcome.plain_ok (by simp [valid, same])
        · exact Outcome.plain_fail _ _
      refine (Outcome.Plain.mapM each).bind fun sizes sized => Outcome.plain_ok ?_
      have lengths {α : Type} (read : Elements → List α)
          (reads : ∀ elements, (read elements).length = elements.size)
          : List.Forall₂ (fun size (items : List α) => items.length = size.1 * size.2) sizes
              ((first :: rest).map fun block => read block.elements) := by
        rw [List.forall₂_map_right_iff]
        exact sized.flip.imp fun size block same => (reads _).trans same
      have count
          : RowMajor.count (diagonalSizes sizes)
            = (sizes.map (·.1)).sum * (sizes.map (·.2)).sum := by
        simp [diagonalSizes, total_eq_sum]
      rw [Tensor.Valid, count]
      split_ifs
      · rw [Elements.size_ofFloats]
        exact length_blockElements _ (lengths Elements.toFloats Elements.length_toFloats)
      · rw [Elements.size_ofInts]
        exact length_blockElements _ (lengths Elements.toInts Elements.length_toInts)

theorem plain_systemSize (sizes : List Nat)
    : Outcome.Plain (fun _ => True) (systemSize sizes) := by
  unfold systemSize
  split
  · split_ifs
    · exact Outcome.plain_ok trivial
    · exact Outcome.plain_fail _ _
  · exact Outcome.plain_fail _ _

/-- There is a row of right sides for each equation. -/
theorem plain_rightSideCount (coefficients : List Nat) (size : Nat) (sizes : List Nat)
    : Outcome.Plain (fun count => RowMajor.count sizes = size * count)
        (rightSideCount coefficients size sizes) := by
  unfold rightSideCount
  split
  · split_ifs with same
    · exact Outcome.plain_ok (by simp [same])
    · exact Outcome.plain_fail _ _
  · split_ifs with same
    · exact Outcome.plain_ok (by simp [same])
    · exact Outcome.plain_fail _ _
  · exact Outcome.plain_fail _ _

theorem plain_solve (system : TriangularSystem) (coefficients : Tensor) {rightSide : Tensor}
    (valid : rightSide.Valid)
    : Outcome.Plain Tensor.Valid (solve system coefficients rightSide) := by
  refine (plain_systemSize coefficients.sizes).bind fun size _ => ?_
  refine (plain_rightSideCount coefficients.sizes size rightSide.sizes).bind fun width count => ?_
  have valid : rightSide.elements.size = size * width := valid.trans count
  have wide : Wide width (rows size width rightSide.elements.toFloats) :=
    wide_rows (Nat.le_of_eq (valid.symm.trans (Elements.length_toFloats _).symm))
  dsimp only
  split
  · exact Outcome.plain_fail _ _
  · rename_i result solved
    have same
        : (rows size size coefficients.elements.toFloats).length
          = (rows size width rightSide.elements.toFloats).length := by
      rw [length_rows, length_rows]
    obtain ⟨all, length⟩ := substitute_eq_ok wide same solved
    refine Outcome.plain_ok ?_
    rw [Tensor.Valid, Elements.size_ofFloats, length_flatten_of_wide all, length, length_rows]
    exact count.symm

end Matrix

-----------------------------------------------------------------------------------------
-- Lists
-----------------------------------------------------------------------------------------

namespace Sequence

variable {inputs : Inputs} (valid : ∀ value ∈ inputs, value.Valid)
include valid

theorem plain_get (entry : IndexEntry) : Outcome.Plain Value.Valid (get entry inputs) := by
  refine (Inputs.plain_list inputs 0).bind fun items member => ?_
  have each : ∀ item ∈ items, item.Valid := valid _ member
  cases entry with
  | scalar scalar =>
      refine (Inputs.plain_scalar inputs scalar).bind fun index _ => ?_
      split
      · rename_i item found
        obtain ⟨place, -, found⟩ := Option.bind_eq_some_iff.mp found
        exact Outcome.plain_ok (each item (List.mem_of_getElem? found))
      · exact Outcome.plain_fail _ _
  | slice bounds =>
      have positions : Outcome.Plain (fun _ => True)
          (Movement.slicePositions bounds inputs items.length) :=
        (Movement.plain_sliceWalk bounds inputs items.length).bind fun _ _ =>
          Outcome.plain_ok trivial
      refine positions.bind fun places _ => ?_
      refine (Outcome.plain_require _ _).bind fun taken found => Outcome.plain_ok ?_
      intro item listed
      have selected : some item ∈ places.map (items[·]?) := by
        rw [Steps.mapM_eq_some_iff.mp found]
        exact List.mem_map_of_mem listed
      obtain ⟨place, -, here⟩ := List.mem_map.mp selected
      exact each item (List.mem_of_getElem? here)

theorem plain_mutate (mutation : ListMutation)
    : Outcome.Plain (fun items => ∀ item ∈ items, item.Valid) (mutate mutation inputs) := by
  refine (Inputs.plain_list inputs 0).bind fun items member => ?_
  have each : ∀ item ∈ items, item.Valid := valid _ member
  cases mutation with
  | append =>
      refine (Inputs.plain_tensor inputs 1).bind fun added listed => Outcome.plain_ok ?_
      intro item member
      rcases List.mem_append.mp member with earlier | last
      · exact each item earlier
      · exact List.mem_singleton.mp last ▸ valid _ listed
  | extend =>
      refine (Inputs.plain_list inputs 1).bind fun others listed => Outcome.plain_ok ?_
      intro item member
      rcases List.mem_append.mp member with earlier | later
      · exact each item earlier
      · exact valid _ listed item later
  | insert =>
      refine (Inputs.plain_index inputs 1).bind fun index _ => ?_
      refine (Inputs.plain_tensor inputs 2).bind fun added listed => Outcome.plain_ok ?_
      intro item member
      rcases List.eq_or_mem_of_mem_insertIdx member with rfl | other
      · exact valid _ listed
      · exact each item other
  | remove =>
      refine (Inputs.plain_tensor inputs 1).bind fun needle _ => Outcome.plain_ok ?_
      exact fun item member => each item (mem_of_mem_removeFirst member)
  | reverse => exact Outcome.plain_ok fun item member => each item (List.mem_reverse.mp member)

omit valid

theorem plain_position (inputs : Inputs) : Outcome.Plain Tensor.Valid (position inputs) := by
  refine (Inputs.plain_tensor inputs 1).bind fun needle _ => ?_
  refine (Inputs.plain_list inputs 0).bind fun items _ => ?_
  split
  · exact Outcome.plain_ok (Tensor.valid_ofSize _)
  · exact Outcome.plain_fail _ _

theorem plain_count (inputs : Inputs) : Outcome.Plain Tensor.Valid (count inputs) := by
  refine (Inputs.plain_tensor inputs 1).bind fun needle _ => ?_
  refine (Inputs.plain_list inputs 0).bind fun items _ => ?_
  exact Outcome.plain_ok (Tensor.valid_ofSize _)

end Sequence

-----------------------------------------------------------------------------------------
-- All kernels
-----------------------------------------------------------------------------------------

/-- A part of a valid tuple is valid. -/
theorem Value.AllValid.of_mem {parts : List Value} (valid : AllValid parts) {part : Value}
    (member : part ∈ parts)
    : part.Valid := by
  induction parts with
  | nil => exact absurd member List.not_mem_nil
  | cons first rest ih =>
      rcases List.mem_cons.mp member with rfl | later
      · exact valid.1
      · exact ih valid.2 later

/-- Making a value of a host value is plain. -/
theorem Tensor.plain_ofLiteral (literal : Literal)
    : Outcome.Plain Valid (ofLiteral literal) := by
  have plain : Outcome.Plain (fun _ => True) (ofLiteral literal) := by
    rw [ofLiteral]
    split
    · exact Outcome.plain_fail _ _
    · dsimp only
      split_ifs
      · exact Outcome.plain_ok trivial
      · exact Outcome.plain_fail _ _
  exact plain.of_holds fun _ done => ((safe_ofLiteral literal).holds done).valid

namespace Kernel

variable {inputs : Inputs}

/-- A tensor of a plain outcome is plain as a value. -/
theorem plain_toValue {result : Outcome Tensor} (plain : Outcome.Plain Tensor.Valid result)
    : Outcome.Plain Value.Valid (tensor result) :=
  plain.map fun _ => id

/-- Whatever the types of its operands, a kernel makes valid values of valid ones, and does not
complain about numbers. One case for each operation.
-/
theorem plain_execute (operation : Operation) (valid : ∀ value ∈ inputs, value.Valid)
    : Outcome.Plain Value.Valid (execute operation inputs) := by
  have first {kernel : Tensor → Outcome Tensor}
      (plain : ∀ input : Tensor, input.Valid → Outcome.Plain Tensor.Valid (kernel input))
      : Outcome.Plain Value.Valid (onFirst kernel inputs) :=
    (Inputs.plain_tensor inputs 0).bind fun input member =>
      plain_toValue (plain input (valid _ member))
  have two {kernel : Tensor → Tensor → Outcome Tensor}
      (plain
        : ∀ lhs rhs : Tensor, rhs.Valid → Outcome.Plain Tensor.Valid (kernel lhs rhs))
      : Outcome.Plain Value.Valid (onTwo kernel inputs) :=
    (Inputs.plain_tensor inputs 0).bind fun lhs _ =>
      (Inputs.plain_tensor inputs 1).bind fun rhs member =>
        plain_toValue (plain lhs rhs (valid _ member))
  cases operation with
  | constant literal => exact plain_toValue (Tensor.plain_ofLiteral literal)
  | unary kind => exact first fun _ => Elementwise.plain_unary kind
  | binary kind => exact two fun lhs rhs _ => Elementwise.plain_binary kind lhs rhs
  | reduce reduction => exact first fun input _ => Reduce.plain_reduce reduction input
  | argMax axis keepAxes => exact first fun input _ => Reduce.plain_argMax axis keepAxes input
  | maxAndArgMax axis =>
      refine (Inputs.plain_tensor inputs 0).bind fun input _ => ?_
      refine (Reduce.plain_maxAndArgMax axis input).bind ?_
      rintro ⟨values, places⟩ ⟨first, second⟩
      exact Outcome.plain_ok ⟨first, second, trivial⟩
  | tupleElement index =>
      rw [execute, Inputs.tupleElement.eq_def]
      split
      · rename_i parts rest
        have all : Value.AllValid parts := valid _ List.mem_cons_self
        split
        · rename_i part found
          exact Outcome.plain_ok (all.of_mem (List.mem_of_getElem? found))
        · exact Outcome.plain_fail _ _
      · exact Outcome.plain_fail _ _
  | shuffle order => exact first fun input _ => Movement.plain_shuffle order input
  | alloc extents => exact plain_toValue (Movement.plain_alloc extents inputs)
  | subtensor entries => exact plain_toValue (Movement.plain_subtensor entries inputs)
  | reshape extents => exact plain_toValue (Movement.plain_reshape extents inputs)
  | extent axis => exact first fun input _ => Movement.plain_extent axis input
  | dot => exact two fun lhs _ => Matrix.plain_product lhs
  | blockDiagonal =>
      refine (Inputs.plain_tensors inputs).bind fun blocks members => ?_
      exact plain_toValue (Matrix.plain_blockDiagonal fun block listed =>
        valid _ (members block listed))
  | solveTriangular system => exact two fun lhs _ => Matrix.plain_solve system lhs
  | makeList =>
      exact (Inputs.plain_tensors inputs).map fun items members item listed =>
        valid _ (members item listed)
  | listGet entry => exact Sequence.plain_get valid entry
  | listLength =>
      refine (Inputs.plain_list inputs 0).bind fun items _ => ?_
      exact Outcome.plain_ok (Tensor.valid_ofSize _)
  | listMutation mutation _ => exact (Sequence.plain_mutate valid mutation).map fun _ => id
  | listIndex => exact plain_toValue (Sequence.plain_position inputs)
  | listCount => exact plain_toValue (Sequence.plain_count inputs)

end Kernel

/-- A backend that asks for memory first does not complain about numbers either. -/
theorem Backend.plain_bounded (operation : Operation) {inputs : Inputs}
    (valid : ∀ value ∈ inputs, value.Valid)
    : Outcome.Plain Value.Valid (reference.bounded.execute operation inputs) := by
  change Outcome.Plain _ (if _ then _ else _)
  split_ifs
  · exact Kernel.plain_execute operation valid
  · exact Outcome.plain_error fun _ _ _ same => by cases same

end Dataflow
