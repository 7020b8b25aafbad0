import Dataflow.Execution.Kernel
import Dataflow.Proofs.Number.ExactValues
import Dataflow.Proofs.Tensor.Relocation
import Mathlib.Data.List.InsertIdx
import Mathlib.Order.Bounds.Basic

/-!
Searches in lists of tensors, and places that indices name. Items are compared by their numbers, so
a tensor does not always equal itself; what counts, finds and removes items agrees all the same. An
index out of range is moved to the nearest end by an insertion and refused by a read.
-/

namespace Dataflow

-----------------------------------------------------------------------------------------
-- Equal numbers
-----------------------------------------------------------------------------------------

namespace Binary

open Float.Model (Format UnpackedFloat)
open Float.Model.UnpackedFloat (unpack)

/-- Equal numbers: the two zeros are equal, and what is no number equals nothing. -/
def SameNumber (x y : Float) : Prop :=
  x.isNaN = false ∧ (x = y ∨ value? x = some 0 ∧ value? y = some 0)

theorem rational?_eq_zero_iff {x : UnpackedFloat}
    : rational? x = some 0 ↔ ∃ sign, x = .zero sign := by
  cases x with
  | finite sign mantissa exponent positive =>
      have some : mantissa ≠ 0 := Nat.ne_of_gt positive
      cases sign <;> simp [rational?, UnpackedFloat.Sign.apply, some, zpow_ne_zero]
  | notANumber => simp [rational?]
  | infinity sign => simp [rational?]
  | zero sign => simp [rational?]

theorem unpacked_beq_iff {x y : UnpackedFloat}
    : x.beq y = true
      ↔ x.isNaN = false ∧ (x = y ∨ rational? x = some 0 ∧ rational? y = some 0) := by
  have signs (a b : UnpackedFloat.Sign) : compare a b = .eq ↔ a = b := by
    cases a <;> cases b <;> first | exact iff_of_true rfl rfl | exact iff_of_false nofun nofun
  rw [rational?_eq_zero_iff, rational?_eq_zero_iff, UnpackedFloat.beq, beq_iff_eq]
  unfold UnpackedFloat.compare
  split <;> simp_all [UnpackedFloat.isNaN, Ordering.then_eq_eq, and_comm]
  all_goals
    rintro rfl
    simp_all

theorem beq_iff {x y : Float} : (x == y) = true ↔ SameNumber x y := by
  have same : x.toModel.unpack = y.toModel.unpack ↔ x = y := ⟨ext_unpack, fun same => same ▸ rfl⟩
  rw [SameNumber, ← same]
  exact unpacked_beq_iff

/-- Widening a word makes nothing a number that was none, and nothing else. -/
theorem isNaN_widen_iff {word : UInt32}
    : (widen word).isNaN = true ↔ unpack Format.binary32 word.toBitVec = .notANumber := by
  have back := (roundTo_of_holds (@holds_unpack .binary32 (by decide) word.toBitVec)).2
  rw [isNaN_iff, unpack_widen]
  constructor
  · intro none
    rw [← back, none]
    rfl
  · intro none
    rw [none]
    rfl

/-- Words of 32 bits are compared like the numbers that they are widened to. -/
theorem beq_single_iff {a b : UInt32}
    : (Float32.ofBits a == Float32.ofBits b) = true ↔ SameNumber (widen a) (widen b) := by
  have read (word : UInt32)
      : (Float32.ofBits word).toModel.unpack = unpack Format.binary32 word.toBitVec :=
    unpack_pack (holds_unpack (by decide) _)
  have compared
      : (Float32.ofBits a == Float32.ofBits b)
        = (unpack Format.binary32 a.toBitVec).beq (unpack Format.binary32 b.toBitVec) := by
    rw [← read, ← read]
    rfl
  have same
      : widen a = widen b
        ↔ unpack Format.binary32 a.toBitVec = unpack Format.binary32 b.toBitVec := by
    refine ⟨fun same => ?_, fun same => ext_unpack ?_⟩
    · rw [← unpack_narrow_widen, same, unpack_narrow_widen]
    · rw [unpack_widen, unpack_widen, same]
  rw [compared, unpacked_beq_iff, SameNumber, value?_widen, value?_widen, same,
    ← Bool.not_eq_true, ← Bool.not_eq_true, isNaN_widen_iff, UnpackedFloat.isNaN_iff]

end Binary

namespace Elements

theorem equalBy_eq_true_iff {α : Type} {relation : α → α → Bool} {as bs : List α}
    : equalBy relation as bs = true ↔ List.Forall₂ (relation · ·) as bs := by
  induction as generalizing bs with
  | nil => cases bs <;> simp [equalBy]
  | cons a as ih => cases bs <;> simp [equalBy, ih]

/-- Elements are equal if they have one type and equal numbers, or the same integers. -/
theorem equal_iff {a b : Elements}
    : a.equal b = true
      ↔ a.dtype = b.dtype
        ∧ if a.dtype.isFloat then List.Forall₂ Binary.SameNumber a.toFloats b.toFloats
          else a = b := by
  cases a <;> cases b
    <;> simp [equal, dtype, DType.isFloat, toFloats, equalBy_eq_true_iff,
      Binary.beq_iff, Binary.beq_single_iff]

end Elements

namespace Tensor

/-- Tensors are equal if they have the same sizes, one element type, and equal numbers. -/
theorem equal_iff {a b : Tensor}
    : a.equal b = true
      ↔ a.sizes = b.sizes
        ∧ a.dtype = b.dtype
        ∧ if a.dtype.isFloat then
            List.Forall₂ Binary.SameNumber a.elements.toFloats b.elements.toFloats
          else a.elements = b.elements := by
  rw [equal, Bool.and_eq_true, decide_eq_true_iff, Elements.equal_iff, dtype, dtype]

/-- A tensor equals itself unless it holds what is no number. -/
theorem equal_self_iff {tensor : Tensor}
    : tensor.equal tensor = true
      ↔ (tensor.dtype.isFloat = true → ∀ x ∈ tensor.elements.toFloats, x.isNaN = false) := by
  rw [equal_iff]
  split_ifs with float
  · simp [float, Binary.SameNumber, List.forall₂_same]
  · simp [float]

end Tensor

-----------------------------------------------------------------------------------------
-- The first equal item
-----------------------------------------------------------------------------------------

namespace Sequence

/-- A list without an equal item, or one that is split at the first such item. -/
inductive Search (needle : Tensor) (items : List Tensor) : Prop where
  | missing (none : ∀ item ∈ items, item.equal needle = false)
  | found (before : List Tensor) (item : Tensor) (after : List Tensor)
    (split : items = before ++ item :: after)
    (first : ∀ item ∈ before, item.equal needle = false)
    (equal : item.equal needle = true)

theorem search (needle : Tensor) (items : List Tensor) : Search needle items := by
  induction items with
  | nil => exact .missing nofun
  | cons item rest ih =>
      cases here : item.equal needle with
      | true => exact .found [] item rest rfl nofun here
      | false =>
          cases ih with
          | missing none => exact .missing (List.forall_mem_cons.mpr ⟨here, none⟩)
          | found before found after split first equal =>
              refine .found (item :: before) found after ?_ ?_ equal
              · rw [split, List.cons_append]
              · exact List.forall_mem_cons.mpr ⟨here, first⟩

section Missing

variable {needle : Tensor} {items : List Tensor} (none : ∀ item ∈ items, item.equal needle = false)

include none

theorem findIdx?_of_missing : items.findIdx? (·.equal needle) = .none :=
  List.findIdx?_eq_none_iff.mpr none

theorem countP_of_missing : items.countP (·.equal needle) = 0 :=
  List.countP_eq_zero.mpr fun item member => by simp [none item member]

theorem removeFirst_append_of_missing (rest : List Tensor)
    : removeFirst needle (items ++ rest) = items ++ removeFirst needle rest := by
  induction items with
  | nil => rfl
  | cons item items ih =>
      obtain ⟨here, later⟩ := List.forall_mem_cons.mp none
      simp [removeFirst, here, ih later]

theorem removeFirst_of_missing : removeFirst needle items = items := by
  simpa [removeFirst] using removeFirst_append_of_missing none []

end Missing

section Found

variable {needle item : Tensor} {before : List Tensor}
  (first : ∀ item ∈ before, item.equal needle = false) (equal : item.equal needle = true)
  (after : List Tensor)

include first equal

theorem findIdx?_of_found
    : (before ++ item :: after).findIdx? (·.equal needle) = some before.length := by
  simp [List.findIdx?_append, findIdx?_of_missing first, equal, List.findIdx?_cons]

theorem countP_of_found
    : (before ++ item :: after).countP (·.equal needle) = after.countP (·.equal needle) + 1 := by
  simp [countP_of_missing first, equal]

theorem removeFirst_of_found : removeFirst needle (before ++ item :: after) = before ++ after := by
  rw [removeFirst_append_of_missing first, removeFirst, if_pos equal]

theorem isLeast_of_found
    : IsLeast
        {place |
          ∃ other, (before ++ item :: after)[place]? = some other ∧ other.equal needle = true}
        before.length := by
  constructor
  · exact ⟨item, by simp, equal⟩
  · rintro place ⟨other, here, same⟩
    by_contra early
    rw [List.getElem?_append_left (Nat.not_le.mp early)] at here
    rw [first other (List.mem_of_getElem? here)] at same
    cases same

end Found

-----------------------------------------------------------------------------------------
-- Places that indices name
-----------------------------------------------------------------------------------------

theorem insertPosition_eq (index : Int) (length : Nat)
    : (insertPosition index length : Int)
      = max 0 (min (if index < 0 then index + length else index) length) :=
  Int.toNat_of_nonneg (le_max_left _ _)

theorem insertPosition_le (index : Int) (length : Nat) : insertPosition index length ≤ length := by
  have placed := insertPosition_eq index length
  omega

theorem insertIdx_eq {α : Type} {items : List α} {place : Nat} (inside : place ≤ items.length)
    (item : α)
    : items.insertIdx place item = items.take place ++ item :: items.drop place := by
  induction place generalizing items with
  | zero => rfl
  | succ place ih =>
      cases items with
      | nil => simp at inside
      | cons first rest => simp [ih (Nat.le_of_succ_le_succ inside)]

/-- An index in range names the item that an insertion there moves behind the new one. -/
theorem position?_eq {length : Nat} (small : length < 2 ^ 63) (index : Int)
    : Slice.position? index length
      = if -(length : Int) ≤ index ∧ index < length then some (insertPosition index length)
        else none := by
  have placed := insertPosition_eq index length
  have range
      : (0 ≤ (if index < 0 then index + length else index)
          ∧ (if index < 0 then index + length else index) < (length : Int))
        ↔ -(length : Int) ≤ index ∧ index < length := by
    omega
  simp only [Slice.position?, Slice.signedSize_of_lt small, range]
  split_ifs <;> grind

end Sequence

/-- A size is read back as itself. -/
theorem Tensor.index_ofSize {size : Nat} (small : size < 2 ^ 63)
    : (ofSize size).index = .ok size := by
  rw [← Int64.toInt_ofNat_of_lt small]
  rfl

-----------------------------------------------------------------------------------------
-- Kernels on lists
-----------------------------------------------------------------------------------------

namespace Kernel

theorem execute_listIndex (items : List Tensor) (needle : Tensor)
    : execute .listIndex [.list items, .tensor needle]
      = match items.findIdx? (·.equal needle) with
        | some place => .ok (.tensor (.ofSize place))
        | none => .fail .notInList := by
  change tensor (match items.findIdx? (·.equal needle) with
    | some place => .ok (.ofSize place)
    | none => .fail .notInList) = _
  cases items.findIdx? (·.equal needle) <;> rfl

/-- An operation has a size as its result. -/
def Returns (operation : Operation) (inputs : Inputs) (size : Nat) : Prop :=
  ∃ result, execute operation inputs = .ok (.tensor result) ∧ result.index = .ok size

/-- The items that equal a tensor are counted, found and removed alike. Removing takes away the
first one of them, which is the one that is found, and none if there is none.
-/
structure SearchesAgree (items : List Tensor) (needle : Tensor) (inplace : Bool) (count : Nat)
    (removed : List Tensor)
    : Prop where
  counts : Returns .listCount [.list items, .tensor needle] count
  removes
    : execute (.listMutation .remove inplace) [.list items, .tensor needle] = .ok (.list removed)
  finds
    : 0 < count
      → ∃ place,
          Returns .listIndex [.list items, .tensor needle] place
          ∧ IsLeast {place | ∃ item, items[place]? = some item ∧ item.equal needle = true} place
          ∧ removed = items.eraseIdx place
  misses
    : count = 0
      → execute .listIndex [.list items, .tensor needle] = .fail .notInList ∧ removed = items
  leaves : Returns .listCount [.list removed, .tensor needle] (count - 1)

/-- An item is inserted at the place that an index names, or at the nearest end. The index names the
item that follows the new one then, and it is refused if it names none.
-/
structure PlacesAgree (items : List Tensor) (item holder : Tensor) (inplace : Bool) (index : Int)
    (place : Nat)
    : Prop where
  clamped
    : (place : Int) = max 0 (min (if index < 0 then index + items.length else index) items.length)
  inserts
    : execute (.listMutation .insert inplace) [.list items, .tensor holder, .tensor item]
      = .ok (.list (items.take place ++ item :: items.drop place))
  reads
    : ∀ {inputs : Inputs} {scalar : IndexScalar},
        inputs.list 0 = .ok items
        → inputs.scalar scalar = .ok index
        → -(items.length : Int) ≤ index ∧ index < items.length
        → ∃ next,
            execute (.listGet (.scalar scalar)) inputs = .ok (.tensor next)
            ∧ (items.take place ++ item :: items.drop place)[place + 1]? = some next
  refuses
    : ∀ {inputs : Inputs} {scalar : IndexScalar},
        inputs.list 0 = .ok items
        → inputs.scalar scalar = .ok index
        → ¬(-(items.length : Int) ≤ index ∧ index < items.length)
        → execute (.listGet (.scalar scalar)) inputs = .fail .listIndex

theorem exists_searchesAgree {items : List Tensor} (small : items.length < 2 ^ 63)
    (needle : Tensor) (inplace : Bool)
    : ∃ count removed, SearchesAgree items needle inplace count removed := by
  have counted {items : List Tensor} (small : items.length < 2 ^ 63)
      : Returns .listCount [.list items, .tensor needle] (items.countP (·.equal needle)) :=
    ⟨_, rfl, Tensor.index_ofSize (List.countP_le_length.trans_lt small)⟩
  cases Sequence.search needle items with
  | missing none =>
      have count := counted small
      rw [Sequence.countP_of_missing none] at count
      refine ⟨0, items, count, ?_, nofun, fun _ => ⟨?_, rfl⟩, count⟩
      · change Except.ok (Value.list (Sequence.removeFirst needle items)) = _
        rw [Sequence.removeFirst_of_missing none]
      · rw [execute_listIndex, Sequence.findIdx?_of_missing none]
  | found before item after split first equal =>
      subst split
      have shorter : (before ++ after).length < 2 ^ 63 := by
        simp only [List.length_append, List.length_cons] at small ⊢
        omega
      have place : before.length < 2 ^ 63 := by
        simp only [List.length_append, List.length_cons] at small
        omega
      have left : (before ++ after).countP (·.equal needle) = after.countP (·.equal needle) := by
        simp [Sequence.countP_of_missing first]
      have count := Sequence.countP_of_found first equal after
      refine ⟨_, before ++ after, counted small, ?_, fun _ => ⟨before.length, ?_, ?_, ?_⟩, ?_, ?_⟩
      · change Except.ok (Value.list (Sequence.removeFirst needle _)) = _
        rw [Sequence.removeFirst_of_found first equal]
      · refine ⟨_, ?_, Tensor.index_ofSize place⟩
        rw [execute_listIndex, Sequence.findIdx?_of_found first equal]
      · exact Sequence.isLeast_of_found first equal after
      · simp [List.eraseIdx_append_of_length_le]
      · intro zero
        rw [count] at zero
        cases zero
      · rw [count, Nat.add_sub_cancel, ← left]
        exact counted shorter

theorem placesAgree {items : List Tensor} (small : items.length < 2 ^ 63) (item : Tensor)
    {holder : Tensor} {index : Int} (held : holder.index = .ok index) (inplace : Bool)
    : PlacesAgree items item holder inplace index
        (Sequence.insertPosition index items.length) := by
  have place := Sequence.insertPosition_eq index items.length
  refine ⟨place, ?_, ?_, ?_⟩
  · rw [← Sequence.insertIdx_eq (Sequence.insertPosition_le _ _)]
    have read : Inputs.index [.list items, .tensor holder, .tensor item] 1 = .ok index := held
    simp only [execute, Sequence.mutate, read]
    rfl
  · intro inputs scalar listed read inside
    simp only [execute, Sequence.get, listed, read, Steps.ok_bind, Sequence.position?_eq small]
    have some : Sequence.insertPosition index items.length < items.length := by omega
    refine ⟨items[Sequence.insertPosition index items.length], ?_, ?_⟩
    · simp [inside, some]
    · simp [Nat.le_of_lt some, some]
  · intro inputs scalar listed read outside
    simp only [execute, Sequence.get, listed, read, Steps.ok_bind, Sequence.position?_eq small,
      if_neg outside]
    rfl

/-- The kernels on lists agree with each other, whatever the items and their numbers are. Searches
see the same items, and what an insertion does at an index agrees with what is read there. No memory
holds a list that is longer than words can count.
-/
theorem list_kernels_consistent {items : List Tensor} (small : items.length < 2 ^ 63)
    (item : Tensor) (inplace : Bool)
    : (∃ count removed, SearchesAgree items item inplace count removed)
      ∧ ∀ (holder : Tensor) (index : Int),
          holder.index = .ok index
          → ∃ place, PlacesAgree items item holder inplace index place :=
  ⟨exists_searchesAgree small item inplace,
    fun _ _ held => ⟨_, placesAgree small item held inplace⟩⟩

/-- The two zeros, between two items that are no numbers. -/
def zeros : List Tensor :=
  [⟨[], .f64 [0x7ff8000000000000]⟩, ⟨[], .f64 [0x8000000000000000]⟩, ⟨[], .f64 [0]⟩,
    ⟨[], .f64 [0x7ff8000000000000]⟩]

/-- Zero is found twice among `zeros`, and the negative one is the first to be removed. -/
theorem zeros_searched
    : zeros.length < 2 ^ 63
      ∧ SearchesAgree zeros ⟨[], .f64 [0]⟩ true 2 (zeros.eraseIdx 1)
      ∧ (Tensor.ofInt (-9)).index = .ok (-9)
      ∧ PlacesAgree zeros ⟨[], .f64 [0]⟩ (Tensor.ofInt (-9)) true (-9) 0 := by
  have small : zeros.length < 2 ^ 63 := by decide
  have held : (Tensor.ofInt (-9)).index = .ok (-9) := rfl
  obtain ⟨⟨count, removed, searches⟩, places⟩ :=
    list_kernels_consistent small ⟨[], .f64 [0]⟩ true
  refine ⟨small, ?_, held, ?_⟩
  · obtain ⟨result, done, read⟩ := searches.counts
    obtain rfl := Value.tensor.inj (Except.ok.inj done)
    have two : zeros.countP (·.equal ⟨[], .f64 [0]⟩) = 2 := by decide
    rw [two, Tensor.index_ofSize (by decide)] at read
    obtain rfl : 2 = count := Int.ofNat_inj.mp (Except.ok.inj read)
    have second : Sequence.removeFirst ⟨[], .f64 [0]⟩ zeros = zeros.eraseIdx 1 := by decide
    obtain rfl := second.symm.trans (Value.list.inj (Except.ok.inj searches.removes))
    exact searches
  · obtain ⟨place, agrees⟩ := places _ _ held
    have first : (place : Int) = 0 := agrees.clamped
    obtain rfl := Int.ofNat_eq_zero.mp first
    exact agrees

end Kernel

end Dataflow
