import Dataflow.Proofs.Shape.Slices
import Dataflow.Proofs.Tensor.Movement
import Dataflow.Proofs.Typing.Operands
import Dataflow.Tensor.Sequence
import Dataflow.Typing.Infer
import Mathlib.Data.List.Basic
import Mathlib.Data.List.InsertIdx

/-!
Kernels on lists of tensors. The items of a result have the element type that is inferred.
-/

namespace Dataflow

-----------------------------------------------------------------------------------------
-- Making lists
-----------------------------------------------------------------------------------------

/-- A size that one of two extents allows is allowed by what they agree on. -/
theorem Dimension.allows_join {a b : Dimension} {size : Nat}
    (allows : a.Allows size ∨ b.Allows size)
    : (a.join b).Allows size := by
  rw [join]
  split_ifs with same
  · subst same
    exact allows.elim id id
  · trivial

/-- A tensor of one of two types has the type that they agree on. -/
theorem Tensor.HasType.join {tensor : Tensor} {a b both : TensorType}
    (typed : tensor.HasType a ∨ tensor.HasType b) (joined : a.join b = some both)
    : tensor.HasType both := by
  rw [TensorType.join] at joined
  split_ifs at joined with agree
  obtain rfl := Option.some.inj joined
  obtain ⟨dtype, rank⟩ := agree
  have rank : a.shape.dims.length = b.shape.dims.length := rank
  have each
      : ∀ {as bs : List Dimension} {sizes : List Nat},
          as.length = bs.length
          → Fits as sizes ∨ Fits bs sizes
          → Fits (List.zipWith Dimension.join as bs) sizes := by
    intro as
    induction as with
    | nil =>
        intro bs sizes length fits
        obtain rfl : bs = [] := List.length_eq_zero_iff.mp length.symm
        exact fits.elim id id
    | cons first as ih =>
        intro bs sizes length fits
        cases bs with
        | nil => cases length
        | cons second bs =>
            have shorter : as.length = bs.length := Nat.succ.inj length
            rcases fits with fits | fits
            · cases fits with
              | cons allows later =>
                  exact .cons (Dimension.allows_join (.inl allows)) (ih shorter (.inl later))
            · cases fits with
              | cons allows later =>
                  exact .cons (Dimension.allows_join (.inr allows)) (ih shorter (.inr later))
  rcases typed with typed | typed
  · exact ⟨typed.valid, typed.dtype, each rank (.inl typed.fits)⟩
  · exact ⟨typed.valid, dtype.trans typed.dtype, each rank (.inr typed.fits)⟩

namespace Sequence

/-- Operands that were joined are tensors of the type that they agree on, which describes whatever
the type before described. By induction on the operands from `index` on.
-/
theorem exists_joined {inputs : Inputs} {types rest : List ValueType} {index : Nat}
    {element joined : TensorType} (typed : inputs.HaveTypes types)
    (suffix : types.drop index = rest)
    (done : Typing.joinElements types index rest element = .ok joined)
    : (∀ tensor : Tensor, tensor.HasType element → tensor.HasType joined)
      ∧ ∃ items : List Tensor,
          (inputs.drop index).mapM Value.asTensor = .ok items
          ∧ ∀ item ∈ items, item.HasType joined := by
  induction rest generalizing index element with
  | nil =>
      obtain rfl := Except.ok.inj done
      have short : inputs.length ≤ index := by
        rw [typed.length_eq]
        exact List.drop_eq_nil_iff.mp suffix
      refine ⟨fun _ => id, [], ?_, fun item member => absurd member List.not_mem_nil⟩
      rw [List.drop_eq_nil_iff.mpr short]
      rfl
  | cons type rest ih =>
      obtain ⟨next, checked, done⟩ := Steps.bind_eq_ok_iff.mp done
      split at done
      · rename_i both agreed
        obtain ⟨content, known, fine⟩ := typed.exists_tensor checked
        obtain ⟨value, here, read⟩ := Inputs.tensor_eq_ok known
        have later : types.drop (index + 1) = rest := by
          rw [← List.drop_drop, suffix]
          rfl
        obtain ⟨widens, items, all, each⟩ := ih later done
        refine ⟨fun tensor fits => widens _ (.join (.inl fits) agreed), content :: items, ?_, ?_⟩
        · obtain ⟨inside, rfl⟩ := List.getElem?_eq_some_iff.mp here
          rw [List.drop_eq_getElem_cons inside, List.mapM_cons, read, all]
          rfl
        · intro item member
          rcases List.mem_cons.mp member with rfl | other
          · exact widens _ (.join (.inr fine) agreed)
          · exact each item other
      · cases done

/-- The operands of a list are tensors, which have the inferred type. -/
theorem exists_tensors_of_makeList {inputs : Inputs} {types : List ValueType} {type : ValueType}
    (typed : inputs.HaveTypes types) (done : Typing.makeList types = .ok type)
    : ∃ element items,
        type = .list element
        ∧ inputs.tensors = .ok items
        ∧ ∀ item ∈ items, item.HasType element := by
  cases types with
  | nil => cases done
  | cons firstType rest =>
      obtain ⟨first, checked, done⟩ := Steps.bind_eq_ok_iff.mp done
      obtain ⟨element, joined, done⟩ := Steps.bind_eq_ok_iff.mp done
      obtain rfl := Except.ok.inj done
      obtain ⟨content, known, fine⟩ := typed.exists_tensor checked
      obtain ⟨value, here, read⟩ := Inputs.tensor_eq_ok known
      obtain ⟨widens, items, all, each⟩ := exists_joined typed rfl joined
      refine ⟨element, content :: items, rfl, ?_, ?_⟩
      · obtain ⟨inside, rfl⟩ := List.getElem?_eq_some_iff.mp here
        have split : inputs = inputs[0] :: inputs.drop 1 := by
          rw [← List.drop_eq_getElem_cons inside, List.drop_zero]
        rw [Inputs.tensors, split, List.mapM_cons, read, all]
        rfl
      · intro item member
        rcases List.mem_cons.mp member with rfl | other
        · exact widens _ fine
        · exact each item other

/-- Making a list is safe, and its items have the inferred type. -/
theorem safe_makeList {inputs : Inputs} {types : List ValueType} {type : ValueType}
    (typed : inputs.HaveTypes types) (done : Typing.makeList types = .ok type)
    : Outcome.Safe (fun result : Value => result.HasType type)
        (inputs.tensors.map Value.list) := by
  obtain ⟨element, items, rfl, tensors, each⟩ := exists_tensors_of_makeList typed done
  rw [tensors]
  exact Outcome.safe_ok (Value.hasType_list.mpr each)

-----------------------------------------------------------------------------------------
-- Items and parts
-----------------------------------------------------------------------------------------

/-- Taking an item is safe, and it has the element type. -/
theorem safe_get_scalar {inputs : Inputs} {items : List Tensor} {element : TensorType}
    (scalar : IndexScalar) (first : inputs.list 0 = .ok items)
    (each : ∀ item ∈ items, item.HasType element)
    : Outcome.Safe (fun result => result.HasType (.tensor element))
        (get (.scalar scalar) inputs) := by
  rw [get, first]
  refine (Inputs.safe_scalar inputs scalar).bind ?_
  intro index _
  cases found : (Slice.position? index items.length).bind (items[·]?) with
  | none => exact Outcome.safe_fail _ _
  | some item =>
      obtain ⟨position, -, here⟩ := Option.bind_eq_some_iff.mp found
      exact Outcome.safe_ok (Value.hasType_tensor.mpr (each item (List.mem_of_getElem? here)))

/-- Taking a part is safe, and its items have the element type. -/
theorem safe_get_slice {inputs : Inputs} {items : List Tensor} {element : TensorType}
    (bounds : SliceBounds) (first : inputs.list 0 = .ok items)
    (each : ∀ item ∈ items, item.HasType element)
    : Outcome.Safe (fun result => result.HasType (.list element))
        (get (.slice bounds) inputs) := by
  rw [get, first]
  have walked
      : Outcome.Safe (fun positions => ∀ position ∈ positions, position < items.length)
          (Movement.slicePositions bounds inputs items.length) := by
    refine (Movement.safe_sliceWalk bounds inputs
      (Dimension.allows_unknown items.length)).bind ?_
    rintro walk ⟨places, -⟩
    exact Outcome.safe_ok places
  refine walked.bind ?_
  intro positions inside
  obtain ⟨selected, done, -⟩ := Elements.exists_select? inside
  rw [done]
  refine Outcome.safe_ok (Value.hasType_list.mpr ?_)
  intro item member
  have listed : some item ∈ positions.map (items[·]?) := by
    rw [Steps.mapM_eq_some_iff.mp done]
    exact List.mem_map_of_mem member
  obtain ⟨position, -, here⟩ := List.mem_map.mp listed
  exact each item (List.mem_of_getElem? here)

-----------------------------------------------------------------------------------------
-- Changes
-----------------------------------------------------------------------------------------

/-- Removing an item leaves items of the list. -/
theorem mem_of_mem_removeFirst {needle item : Tensor} {items : List Tensor}
    (member : item ∈ removeFirst needle items)
    : item ∈ items := by
  induction items with
  | nil => exact member
  | cons first rest ih =>
      rw [removeFirst] at member
      split_ifs at member
      · exact List.mem_cons_of_mem _ member
      · rcases List.mem_cons.mp member with rfl | later
        · exact List.mem_cons_self
        · exact List.mem_cons_of_mem _ (ih later)

/-- A change is safe, and the items of the changed list have the inferred type. -/
theorem safe_mutate {mutation : ListMutation} {inputs : Inputs} {types : List ValueType}
    {type : ValueType} (typed : inputs.HaveTypes types)
    (done : Typing.listMutation mutation types = .ok type)
    : Outcome.Safe (fun result => (Value.list result).HasType type) (mutate mutation inputs) := by
  cases mutation with
  | append =>
      obtain ⟨_, _, done⟩ := Steps.bind_eq_ok_iff.mp done
      obtain ⟨element, checked, done⟩ := Steps.bind_eq_ok_iff.mp done
      obtain ⟨_, fits, done⟩ := Steps.bind_eq_ok_iff.mp done
      obtain rfl := Except.ok.inj done
      obtain ⟨items, first, each⟩ := typed.exists_list checked
      obtain ⟨content, second, fine⟩ := typed.exists_element fits
      simp only [mutate, first, second, Steps.ok_bind]
      refine Outcome.safe_ok (Value.hasType_list.mpr ?_)
      intro item member
      rcases List.mem_append.mp member with earlier | last
      · exact each item earlier
      · exact List.mem_singleton.mp last ▸ fine
  | extend =>
      obtain ⟨_, _, done⟩ := Steps.bind_eq_ok_iff.mp done
      obtain ⟨element, checked, done⟩ := Steps.bind_eq_ok_iff.mp done
      obtain ⟨other, checkedOther, done⟩ := Steps.bind_eq_ok_iff.mp done
      split_ifs at done with accepts
      obtain rfl := Except.ok.inj done
      obtain ⟨items, first, each⟩ := typed.exists_list checked
      obtain ⟨others, second, eachOther⟩ := typed.exists_list checkedOther
      simp only [mutate, first, second, Steps.ok_bind]
      refine Outcome.safe_ok (Value.hasType_list.mpr ?_)
      intro item member
      rcases List.mem_append.mp member with earlier | later
      · exact each item earlier
      · exact (eachOther item later).of_accepts accepts
  | insert =>
      obtain ⟨_, _, done⟩ := Steps.bind_eq_ok_iff.mp done
      obtain ⟨element, checked, done⟩ := Steps.bind_eq_ok_iff.mp done
      obtain ⟨_, _, done⟩ := Steps.bind_eq_ok_iff.mp done
      obtain ⟨_, fits, done⟩ := Steps.bind_eq_ok_iff.mp done
      obtain rfl := Except.ok.inj done
      obtain ⟨items, first, each⟩ := typed.exists_list checked
      obtain ⟨content, third, fine⟩ := typed.exists_element fits
      simp only [mutate, first, third, Steps.ok_bind]
      refine (Inputs.safe_index inputs 1).bind ?_
      intro index _
      refine Outcome.safe_ok (Value.hasType_list.mpr ?_)
      intro item member
      rcases List.eq_or_mem_of_mem_insertIdx member with rfl | other
      · exact fine
      · exact each item other
  | remove =>
      obtain ⟨_, _, done⟩ := Steps.bind_eq_ok_iff.mp done
      obtain ⟨element, checked, done⟩ := Steps.bind_eq_ok_iff.mp done
      obtain ⟨_, fits, done⟩ := Steps.bind_eq_ok_iff.mp done
      obtain rfl := Except.ok.inj done
      obtain ⟨items, first, each⟩ := typed.exists_list checked
      obtain ⟨needle, second, -⟩ := typed.exists_element fits
      simp only [mutate, first, second, Steps.ok_bind]
      refine Outcome.safe_ok (Value.hasType_list.mpr ?_)
      exact fun item member => each item (mem_of_mem_removeFirst member)
  | reverse =>
      obtain ⟨_, _, done⟩ := Steps.bind_eq_ok_iff.mp done
      obtain ⟨element, checked, done⟩ := Steps.bind_eq_ok_iff.mp done
      obtain rfl := Except.ok.inj done
      obtain ⟨items, first, each⟩ := typed.exists_list checked
      simp only [mutate, first, Steps.ok_bind]
      refine Outcome.safe_ok (Value.hasType_list.mpr ?_)
      exact fun item member => each item (List.mem_reverse.mp member)

-----------------------------------------------------------------------------------------
-- Searches
-----------------------------------------------------------------------------------------

/-- A single size is a single integer. -/
theorem hasType_ofSize (size : Nat) : (Tensor.ofSize size).HasType (.scalar .si64) :=
  ⟨rfl, rfl, .nil⟩

/-- Searching an item is safe, and its position is a single integer. -/
theorem safe_position (inputs : Inputs)
    : Outcome.Safe (fun result => result.HasType (.scalar .si64)) (position inputs) := by
  refine (Inputs.safe_tensor inputs 1).bind ?_
  intro needle _
  refine (Inputs.safe_list inputs 0).bind ?_
  intro items _
  cases items.findIdx? (·.equal needle) with
  | none => exact Outcome.safe_fail _ _
  | some found => exact Outcome.safe_ok (hasType_ofSize found)

/-- Counting items is safe, and their number is a single integer. -/
theorem safe_count (inputs : Inputs)
    : Outcome.Safe (fun result => result.HasType (.scalar .si64)) (count inputs) := by
  refine (Inputs.safe_tensor inputs 1).bind ?_
  intro needle _
  refine (Inputs.safe_list inputs 0).bind ?_
  intro items _
  exact Outcome.safe_ok (hasType_ofSize _)

end Sequence

end Dataflow
