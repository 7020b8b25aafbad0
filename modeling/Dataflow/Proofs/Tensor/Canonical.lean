import Dataflow.Execution.Memory
import Dataflow.Proofs.Number.Floats
import Dataflow.Proofs.Steps
import Dataflow.Proofs.Tensor.Validity

/-!
Canonical values. A value is canonical if what is no number is stored in one way only, as numbers are
when they are stored again. Whatever reads a value reads the same in its canonical form.
-/

namespace Dataflow

-----------------------------------------------------------------------------------------
-- Elements
-----------------------------------------------------------------------------------------

namespace Elements

/-- The elements with everything that is no number stored in the same way. -/
def canonical : Elements → Elements
  | .f32 words => .f32 (words.map fun word => Binary.narrow (Binary.widen word))
  | .f64 words => .f64 (words.map fun word => (Float.ofBits word).toBits)
  | elements => elements

@[simp] theorem dtype_canonical (elements : Elements)
    : elements.canonical.dtype = elements.dtype := by
  cases elements <;> rfl

@[simp] theorem size_canonical (elements : Elements)
    : elements.canonical.size = elements.size := by
  cases elements <;> simp [canonical, size]

@[simp] theorem toFloats_canonical (elements : Elements)
    : elements.canonical.toFloats = elements.toFloats := by
  have single (word : UInt32) := Binary.IsSingle.widen_narrow ⟨word, rfl⟩
  cases elements <;> simp [canonical, toFloats, single]

@[simp] theorem toInts_canonical (elements : Elements)
    : elements.canonical.toInts = elements.toInts := by
  have single (word : UInt32) := Binary.IsSingle.widen_narrow ⟨word, rfl⟩
  cases elements <;> simp [canonical, toInts, single]

@[simp] theorem canonical_canonical (elements : Elements)
    : elements.canonical.canonical = elements.canonical := by
  have single (word : UInt32) := Binary.IsSingle.widen_narrow ⟨word, rfl⟩
  cases elements <;> simp [canonical, single]

/-- Numbers that are stored are canonical. -/
@[simp] theorem canonical_ofFloats (dtype : DType) (values : List Float)
    : (ofFloats dtype values).canonical = ofFloats dtype values := by
  cases dtype <;> simp [canonical, ofFloats]

/-- Integers that are stored are canonical. -/
@[simp] theorem canonical_ofInts (dtype : DType) (values : List Int64)
    : (ofInts dtype values).canonical = ofInts dtype values := by
  cases dtype <;> simp [canonical, ofInts]

/-- Elements that are no floating-point numbers are canonical. -/
theorem canonical_of_not_isFloat {elements : Elements} (exact : elements.dtype.isFloat = false)
    : elements.canonical = elements := by
  cases elements with
  | f32 words => simp [dtype, DType.isFloat] at exact
  | f64 words => simp [dtype, DType.isFloat] at exact
  | _ => rfl

theorem select?_map {α β : Type} (change : α → β) (positions : List Nat) (items : List α)
    : select? positions (items.map change)
      = (select? positions items).map (List.map change) := by
  induction positions with
  | nil => rfl
  | cons first rest ih =>
      rw [select?] at ih
      rw [select?, select?, List.mapM_cons, List.mapM_cons, ih, List.getElem?_map, select?]
      cases items[first]? with
      | none => rfl
      | some item => cases rest.mapM (items[·]?) <;> rfl

theorem gather?_canonical (elements : Elements) (positions : List Nat)
    : elements.canonical.gather? positions = (elements.gather? positions).map canonical := by
  cases elements with
  | f32 words =>
      simp only [canonical, gather?, mapList?, select?_map]
      cases select? positions words <;> rfl
  | f64 words =>
      simp only [canonical, gather?, mapList?, select?_map]
      cases select? positions words <;> rfl
  | _ => 
      simp only [canonical, gather?, mapList?, Option.map_map]
      rfl

theorem equalBy_map {α : Type} {relation : α → α → Bool} {change : α → α}
    (same : ∀ x y, relation (change x) (change y) = relation x y) (as bs : List α)
    : equalBy relation (as.map change) (bs.map change) = equalBy relation as bs := by
  induction as generalizing bs with
  | nil => cases bs <;> rfl
  | cons a as ih =>
      cases bs with
      | nil => rfl
      | cons b bs => simp [equalBy, same, ih]

theorem equal_canonical (a b : Elements) : a.canonical.equal b.canonical = a.equal b := by
  have same (word : UInt32)
      : Float32.ofBits (Binary.narrow (Binary.widen word)) = Float32.ofBits word := by
    change Float32.ofModel (.pack _) = Float32.ofModel (.pack _)
    rw [Binary.unpack_narrow_widen]
  cases a <;> cases b <;> simp only [canonical, equal]
  · exact equalBy_map (fun x y => by rw [same, same]) _ _
  · exact equalBy_map (fun x y => by rw [Binary.ofBits_toBits, Binary.ofBits_toBits]) _ _

end Elements

-----------------------------------------------------------------------------------------
-- Tensors
-----------------------------------------------------------------------------------------

namespace Tensor

/-- The tensor with canonical elements. -/
def canonical (tensor : Tensor) : Tensor := { tensor with elements := tensor.elements.canonical }

@[simp] theorem sizes_canonical (tensor : Tensor) : tensor.canonical.sizes = tensor.sizes := rfl

@[simp] theorem elements_canonical (tensor : Tensor)
    : tensor.canonical.elements = tensor.elements.canonical := rfl

@[simp] theorem rank_canonical (tensor : Tensor) : tensor.canonical.rank = tensor.rank := rfl

@[simp] theorem dtype_canonical (tensor : Tensor) : tensor.canonical.dtype = tensor.dtype :=
  Elements.dtype_canonical tensor.elements

@[simp] theorem canonical_canonical (tensor : Tensor)
    : tensor.canonical.canonical = tensor.canonical := by
  simp [canonical]

/-- A tensor of something other than floating-point numbers is canonical. -/
theorem canonical_of_not_isFloat {tensor : Tensor} (exact : tensor.dtype.isFloat = false)
    : tensor.canonical = tensor := by
  rw [canonical, Elements.canonical_of_not_isFloat exact]

@[simp] theorem index_canonical (tensor : Tensor) : tensor.canonical.index = tensor.index := by
  simp [index]

theorem gather_canonical (tensor : Tensor) (sizes positions : List Nat)
    : tensor.canonical.gather sizes positions
      = (tensor.gather sizes positions).map canonical := by
  rw [gather, gather, elements_canonical, Elements.gather?_canonical]
  cases tensor.elements.gather? positions <;> rfl

theorem equal_canonical (a b : Tensor) : a.canonical.equal b.canonical = a.equal b := by
  rw [equal, equal, elements_canonical, elements_canonical, Elements.equal_canonical]
  rfl

end Tensor

-----------------------------------------------------------------------------------------
-- Values
-----------------------------------------------------------------------------------------

namespace Value

mutual

/-- The value with canonical tensors. -/
def canonical : Value → Value
  | .tensor content => .tensor content.canonical
  | .list items => .list (items.map Tensor.canonical)
  | .tuple parts => .tuple (canonicalParts parts)

/-- The parts of a tuple with canonical tensors. -/
def canonicalParts : List Value → List Value
  | [] => []
  | part :: parts => part.canonical :: canonicalParts parts

end

theorem canonicalParts_eq_map (parts : List Value) : canonicalParts parts = parts.map canonical := by
  induction parts with
  | nil => rfl
  | cons part parts ih => rw [canonicalParts, ih, List.map_cons]

@[simp] theorem asTensor_canonical (value : Value)
    : value.canonical.asTensor = value.asTensor.map Tensor.canonical := by
  cases value <;> rfl

@[simp] theorem asList_canonical (value : Value)
    : value.canonical.asList = value.asList.map (List.map Tensor.canonical) := by
  cases value <;> rfl

end Value

end Dataflow
