import Dataflow.Proofs.Execution.Safety
import Dataflow.Proofs.Shape.Points
import Dataflow.Proofs.Steps
import Dataflow.Tensor.Basic
import Mathlib.Data.List.Basic
import Mathlib.Data.List.Forall2

/-!
Valid tensors and values. A valid tensor has as many elements as its sizes say. A value has a type
if it is valid and the type describes it.
-/

namespace Dataflow

-----------------------------------------------------------------------------------------
-- Extents and sizes
-----------------------------------------------------------------------------------------

/-- An extent allows a size. -/
def Dimension.Allows : Dimension → Nat → Prop
  | .static known, size => known = size
  | .unknown, _ => True

/-- An unknown extent allows every size. -/
@[simp] theorem Dimension.allows_unknown (size : Nat) : Dimension.unknown.Allows size := trivial

/-- A known extent allows its own size only. -/
@[simp] theorem Dimension.allows_static {known size : Nat}
    : (Dimension.static known).Allows size ↔ known = size :=
  Iff.rfl

/-- Extents allow sizes, axis by axis. -/
abbrev Fits (dims : List Dimension) (sizes : List Nat) : Prop :=
  List.Forall₂ Dimension.Allows dims sizes

/-- An extent allows a size iff it accepts that size as a known extent. -/
theorem Dimension.accepts_static_iff {dim : Dimension} {size : Nat}
    : dim.accepts (.static size) = true ↔ dim.Allows size := by
  cases dim <;> simp [Dimension.accepts]

/-- A relation holds between the entries of two zipped lists of one length iff it holds entry by
entry.
-/
theorem forall₂_iff_zip_all {α β : Type} {relation : α → β → Bool} {as : List α} {bs : List β}
    : (as.length = bs.length ∧ (as.zip bs).all (fun (a, b) => relation a b) = true)
      ↔ List.Forall₂ (fun a b => relation a b = true) as bs := by
  induction as generalizing bs with
  | nil => cases bs <;> simp
  | cons a as ih =>
      cases bs with
      | nil => simp
      | cons b bs =>
          rw [List.forall₂_cons, ← ih]
          simp [and_left_comm]

/-- Sizes that extents allow are allowed by those that accept the extents, axis by axis. -/
theorem Fits.of_accepts {dims wider : List Dimension} {sizes : List Nat}
    (accepts : List.Forall₂ (fun a b => Dimension.accepts a b = true) wider dims)
    (fits : Fits dims sizes)
    : Fits wider sizes := by
  induction accepts generalizing sizes with
  | nil => exact fits
  | cons here later ih =>
      cases fits with
      | cons allows rest =>
          refine .cons ?_ (ih rest)
          rename_i wide narrow _ _ _ _
          cases wide with
          | unknown => trivial
          | static known =>
              cases narrow with
              | unknown => simp [Dimension.accepts] at here
              | static size => exact (decide_eq_true_eq.mp here).trans allows

/-- A type accepts the type of a tensor iff it has its element type and allows its sizes. -/
theorem TensorType.accepts_type_iff {type : TensorType} {tensor : Tensor}
    : type.accepts tensor.type = true
      ↔ type.dtype = tensor.dtype ∧ Fits type.shape.dims tensor.sizes := by
  have dims
      : List.Forall₂ (fun x y => Dimension.accepts x y = true) type.shape.dims
          (tensor.sizes.map Dimension.static)
        ↔ Fits type.shape.dims tensor.sizes := by
    rw [List.forall₂_map_right_iff]
    simp only [Dimension.accepts_static_iff]
  rw [← dims, ← forall₂_iff_zip_all, accepts, agreeOn, Bool.and_eq_true, Bool.and_eq_true,
    and_assoc]
  exact and_congr decide_eq_true_iff (and_congr decide_eq_true_iff Iff.rfl)

-----------------------------------------------------------------------------------------
-- Elements
-----------------------------------------------------------------------------------------

namespace Elements

/-- Stored numbers have the element type that they are stored as. -/
@[simp] theorem dtype_ofFloats (dtype : DType) (values : List Float)
    : (ofFloats dtype values).dtype = dtype := by
  cases dtype <;> rfl

/-- Stored integers have the element type that they are stored as. -/
@[simp] theorem dtype_ofInts (dtype : DType) (values : List Int64)
    : (ofInts dtype values).dtype = dtype := by
  cases dtype <;> rfl

/-- As many elements are stored as there are numbers. -/
@[simp] theorem size_ofFloats (dtype : DType) (values : List Float)
    : (ofFloats dtype values).size = values.length := by
  cases dtype <;> simp [ofFloats, size]

/-- As many elements are stored as there are integers. -/
@[simp] theorem size_ofInts (dtype : DType) (values : List Int64)
    : (ofInts dtype values).size = values.length := by
  cases dtype <;> simp [ofInts, size]

/-- Every element is a number. -/
@[simp] theorem length_toFloats (elements : Elements)
    : elements.toFloats.length = elements.size := by
  cases elements <;> simp [toFloats, size]

/-- Every element is an integer. -/
@[simp] theorem length_toInts (elements : Elements) : elements.toInts.length = elements.size := by
  cases elements <;> simp [toInts, size]

/-- Read elements have the element type that they are read as. -/
@[simp] theorem dtype_decode (dtype : DType) (bytes : List UInt8)
    : (decode dtype bytes).dtype = dtype := by
  cases dtype <;> rfl

/-- The number of groups that are taken. -/
theorem length_groupsOf {α : Type} (size count : Nat) (items : List α)
    : (groupsOf size count items).length = count := by
  induction count generalizing items with
  | zero => rfl
  | succ count ih => simp [groupsOf, ih]

/-- The number of whole words. -/
theorem length_wordsOf (size : Nat) (bytes : List UInt8)
    : (wordsOf size bytes).length = bytes.length / size := by
  rw [wordsOf, List.length_map, length_groupsOf]

/-- As many elements are read as whole ones fit the bytes. -/
theorem size_decode (dtype : DType) (bytes : List UInt8)
    : (decode dtype bytes).size = bytes.length / dtype.byteSize := by
  cases dtype <;> simp [decode, size, length_wordsOf, DType.byteSize]

/-- Items at existing positions can be selected, one for each position. -/
theorem exists_select? {α : Type} {positions : List Nat} {items : List α}
    (inside : ∀ position ∈ positions, position < items.length)
    : ∃ selected,
        select? positions items = some selected ∧ selected.length = positions.length := by
  induction positions with
  | nil => exact ⟨[], rfl, rfl⟩
  | cons first rest ih =>
      obtain ⟨selected, done, length⟩ :=
        ih fun position member => inside position (List.mem_cons_of_mem _ member)
      have here : first < items.length := inside first List.mem_cons_self
      have known : items[first]? = some items[first] := List.getElem?_eq_getElem here
      refine ⟨items[first] :: selected, ?_, by simp [length]⟩
      rw [select?] at done
      rw [select?, List.mapM_cons, known, done]
      rfl

/-- Elements at existing positions can be gathered, one for each position. -/
theorem exists_gather? {elements : Elements} {positions : List Nat}
    (inside : ∀ position ∈ positions, position < elements.size)
    : ∃ gathered,
        elements.gather? positions = some gathered
        ∧ gathered.size = positions.length
        ∧ gathered.dtype = elements.dtype := by
  cases elements with
  | i1 bytes =>
      obtain ⟨selected, done, length⟩ := exists_select? inside
      exact ⟨.i1 selected, by rw [gather?, mapList?, done]; rfl, length, rfl⟩
  | si32 values =>
      obtain ⟨selected, done, length⟩ := exists_select? inside
      exact ⟨.si32 selected, by rw [gather?, mapList?, done]; rfl, length, rfl⟩
  | si64 values =>
      obtain ⟨selected, done, length⟩ := exists_select? inside
      exact ⟨.si64 selected, by rw [gather?, mapList?, done]; rfl, length, rfl⟩
  | f32 words =>
      obtain ⟨selected, done, length⟩ := exists_select? inside
      exact ⟨.f32 selected, by rw [gather?, mapList?, done]; rfl, length, rfl⟩
  | f64 words =>
      obtain ⟨selected, done, length⟩ := exists_select? inside
      exact ⟨.f64 selected, by rw [gather?, mapList?, done]; rfl, length, rfl⟩

end Elements

-----------------------------------------------------------------------------------------
-- Tensors
-----------------------------------------------------------------------------------------

namespace Tensor

/-- The tensor has as many elements as its sizes say. -/
def Valid (tensor : Tensor) : Prop := tensor.elements.size = RowMajor.count tensor.sizes

/-- The tensor is valid, and the type describes it. -/
structure HasType (tensor : Tensor) (type : TensorType) : Prop where
  valid : tensor.Valid
  dtype : type.dtype = tensor.dtype
  fits : Fits type.shape.dims tensor.sizes

/-- A valid tensor has the types that accept its own. -/
theorem hasType_iff {tensor : Tensor} {type : TensorType}
    : tensor.HasType type ↔ tensor.Valid ∧ type.accepts tensor.type = true := by
  rw [TensorType.accepts_type_iff]
  exact ⟨fun typed => ⟨typed.valid, typed.dtype, typed.fits⟩,
    fun ⟨valid, dtype, fits⟩ => ⟨valid, dtype, fits⟩⟩

/-- A tensor of a type has the types that accept it. -/
theorem HasType.of_accepts {tensor : Tensor} {type wider : TensorType}
    (typed : tensor.HasType type) (accepts : wider.accepts type = true)
    : tensor.HasType wider := by
  rw [TensorType.accepts, TensorType.agreeOn, Bool.and_eq_true, Bool.and_eq_true,
    decide_eq_true_eq, decide_eq_true_eq] at accepts
  obtain ⟨⟨dtype, rank⟩, dims⟩ := accepts
  refine ⟨typed.valid, dtype.trans typed.dtype, ?_⟩
  exact Fits.of_accepts (forall₂_iff_zip_all.mp ⟨rank, dims⟩) typed.fits

/-- The number of axes is that of the type. -/
theorem HasType.rank {tensor : Tensor} {type : TensorType} (typed : tensor.HasType type)
    : tensor.sizes.length = type.rank :=
  typed.fits.length_eq.symm

/-- Gathering existing elements is safe, and the result has as many of them as positions. -/
theorem safe_gather {tensor : Tensor} {sizes positions : List Nat}
    (inside : ∀ position ∈ positions, position < tensor.elements.size)
    (length : positions.length = RowMajor.count sizes)
    : Outcome.Safe
        (fun result => result.Valid ∧ result.sizes = sizes ∧ result.dtype = tensor.dtype)
        (tensor.gather sizes positions) := by
  obtain ⟨gathered, done, size, dtype⟩ := Elements.exists_gather? inside
  rw [gather, done]
  exact Outcome.safe_ok ⟨size.trans length, rfl, dtype⟩

/-- Known sizes are those that the extents allow. -/
theorem fits_of_sizes? {shape : Shape} {sizes : List Nat} (known : shape.sizes? = some sizes)
    : Fits shape.dims sizes := by
  have all := Steps.mapM_eq_some_iff.mp known
  clear known
  generalize shape.dims = dims at all
  induction dims generalizing sizes with
  | nil =>
      obtain rfl : sizes = [] := by simpa using all.symm
      exact .nil
  | cons dim dims ih =>
      cases sizes with
      | nil => simp at all
      | cons size sizes =>
          rw [List.map_cons, List.map_cons, List.cons.injEq] at all
          refine .cons ?_ (ih all.2)
          cases dim with
          | unknown => trivial
          | static known => exact Option.some.inj all.1

/-- Making a tensor of a literal is safe, and the tensor has the type of the literal. -/
theorem safe_ofLiteral (literal : Literal)
    : Outcome.Safe (fun tensor => tensor.HasType literal.type) (ofLiteral literal) := by
  rw [ofLiteral]
  cases known : literal.type.shape.sizes? with
  | none => exact Outcome.safe_fail _ _
  | some sizes =>
      dsimp only
      split_ifs with fits
      · refine Outcome.safe_ok ⟨?_, ?_, fits_of_sizes? known⟩
        · rw [Valid, Literal.elements, Elements.size_decode, fits]
          exact Nat.mul_div_cancel _ (by cases literal.type.dtype <;> decide)
        · rw [Tensor.dtype, Literal.elements, Elements.dtype_decode]
      · exact Outcome.safe_fail _ _

end Tensor

-----------------------------------------------------------------------------------------
-- Values
-----------------------------------------------------------------------------------------

namespace Value

mutual

/-- All tensors of a value are valid. -/
def Valid : Value → Prop
  | .tensor content => content.Valid
  | .list items => ∀ item ∈ items, item.Valid
  | .tuple parts => AllValid parts

/-- All tensors of the parts of a tuple are valid. -/
def AllValid : List Value → Prop
  | [] => True
  | part :: parts => part.Valid ∧ AllValid parts

end

/-- The value is valid, and the type describes it. -/
structure HasType (value : Value) (type : ValueType) : Prop where
  valid : value.Valid
  conforms : value.toHost.conformsTo type = true

/-- A tensor has a tensor type. -/
theorem hasType_tensor {content : Tensor} {type : TensorType}
    : (Value.tensor content).HasType (.tensor type) ↔ content.HasType type := by
  rw [Tensor.hasType_iff]
  exact ⟨fun typed => ⟨typed.valid, typed.conforms⟩, fun both => ⟨both.1, both.2⟩⟩

/-- The items of a list have the element type. -/
theorem hasType_list {items : List Tensor} {element : TensorType}
    : (Value.list items).HasType (.list element) ↔ ∀ item ∈ items, item.HasType element := by
  have conforms
      : (Value.list items).toHost.conformsTo (.list element) = true
        ↔ ∀ item ∈ items, element.accepts item.type = true := by
    rw [toHost, HostValue.conformsTo, List.all_eq_true, List.forall_mem_map]
    rfl
  constructor
  · intro typed item member
    exact Tensor.hasType_iff.mpr ⟨typed.valid item member, conforms.mp typed.conforms item member⟩
  · intro typed
    exact ⟨fun item member => (typed item member).valid,
      conforms.mpr fun item member => (Tensor.hasType_iff.mp (typed item member)).2⟩

/-- The parts of a tuple have the types of the parts. -/
theorem hasType_tuple {parts : List Value} {types : List ValueType}
    : (Value.tuple parts).HasType (.tuple types) ↔ List.Forall₂ HasType parts types := by
  have split
      : ∀ {parts : List Value} {types : List ValueType},
          (AllValid parts ∧ HostValue.partsConformTo (toHostParts parts) types = true)
          ↔ List.Forall₂ HasType parts types := by
    intro parts
    induction parts with
    | nil =>
        intro types
        cases types <;> simp [AllValid, toHostParts, HostValue.partsConformTo]
    | cons part parts ih =>
        intro types
        cases types with
        | nil => simp [toHostParts, HostValue.partsConformTo]
        | cons type types =>
            rw [List.forall₂_cons, ← ih, AllValid, toHostParts, HostValue.partsConformTo,
              Bool.and_eq_true]
            constructor
            · rintro ⟨⟨valid, allValid⟩, conforms, allConform⟩
              exact ⟨⟨valid, conforms⟩, allValid, allConform⟩
            · rintro ⟨⟨valid, conforms⟩, allValid, allConform⟩
              exact ⟨⟨valid, allValid⟩, conforms, allConform⟩
  rw [← split]
  exact ⟨fun typed => ⟨typed.valid, typed.conforms⟩, fun both => ⟨both.1, both.2⟩⟩

/-- A value of a tensor type is a tensor. -/
theorem HasType.exists_tensor {value : Value} {type : TensorType}
    (typed : value.HasType (.tensor type))
    : ∃ content, value = .tensor content ∧ content.HasType type := by
  cases value with
  | tensor content => exact ⟨content, rfl, hasType_tensor.mp typed⟩
  | list items => exact absurd typed.conforms (by simp [toHost, HostValue.conformsTo])
  | tuple parts => exact absurd typed.conforms (by simp [toHost, HostValue.conformsTo])

/-- A value of a list type is a list. -/
theorem HasType.exists_list {value : Value} {element : TensorType}
    (typed : value.HasType (.list element))
    : ∃ items, value = .list items ∧ ∀ item ∈ items, item.HasType element := by
  cases value with
  | list items => exact ⟨items, rfl, hasType_list.mp typed⟩
  | tensor content => exact absurd typed.conforms (by simp [toHost, HostValue.conformsTo])
  | tuple parts => exact absurd typed.conforms (by simp [toHost, HostValue.conformsTo])

/-- A value of a tuple type is a tuple. -/
theorem HasType.exists_tuple {value : Value} {types : List ValueType}
    (typed : value.HasType (.tuple types))
    : ∃ parts, value = .tuple parts ∧ List.Forall₂ HasType parts types := by
  cases value with
  | tuple parts => exact ⟨parts, rfl, hasType_tuple.mp typed⟩
  | tensor content => exact absurd typed.conforms (by simp [toHost, HostValue.conformsTo])
  | list items => exact absurd typed.conforms (by simp [toHost, HostValue.conformsTo])

mutual

/-- Values that are made of host values are valid. -/
theorem safe_ofHost : ∀ host : HostValue, Outcome.Safe Valid (ofHost host)
  | .tensor literal =>
    (Tensor.safe_ofLiteral literal).bind fun _ typed => Outcome.safe_ok typed.valid
  | .list items => by
    rw [ofHost]
    have all : ∀ item ∈ items, Outcome.Safe Tensor.Valid (Tensor.ofLiteral item) :=
      fun item _ => (Tensor.safe_ofLiteral item).mono fun _ typed => typed.valid
    refine (Outcome.Safe.mapM all).bind ?_
    intro tensors valid
    refine Outcome.safe_ok ?_
    intro tensor member
    obtain ⟨_, -, here⟩ := Steps.exists_of_mem_right valid member
    exact here
  | .tuple parts => by
    rw [ofHost]
    exact (safe_ofHostParts parts).bind fun _ valid => Outcome.safe_ok valid

/-- The parts of tuples that are made of host values are valid. -/
theorem safe_ofHostParts : ∀ parts : List HostValue, Outcome.Safe AllValid (ofHostParts parts)
  | [] => by
    rw [ofHostParts]
    exact Outcome.safe_ok trivial
  | part :: parts => by
    rw [ofHostParts]
    refine (safe_ofHost part).bind ?_
    intro value valid
    refine (safe_ofHostParts parts).bind ?_
    intro values allValid
    exact Outcome.safe_ok ⟨valid, allValid⟩

end

/-- Values that are made of host values are valid. -/
theorem valid_of_mapM_ofHost {hosts : List HostValue} {values : List Value}
    (made : hosts.mapM ofHost = .ok values)
    : ∀ value ∈ values, value.Valid := by
  have each := (Outcome.Safe.mapM fun host (_ : host ∈ hosts) => safe_ofHost host).holds made
  intro value member
  obtain ⟨_, -, here⟩ := Steps.exists_of_mem_right each member
  exact here

end Value

end Dataflow
