import Dataflow.DType
import Dataflow.Tensor.Reduction
import Mathlib.Data.List.Basic

/-!
Negated integers. An integer is stored in the width of its type, and the least one of a type is its
own negation there. So the extremes of negated integers are the opposite extremes, negated, only if
the least integer is not among them, or is all there is.
-/

namespace Dataflow

-----------------------------------------------------------------------------------------
-- Stored integers
-----------------------------------------------------------------------------------------

namespace DType

/-- What is read of an integer that was stored. -/
def wrap : DType → Int64 → Int64
  | .si32, x => x.toInt32.toInt64
  | _, x => x

/-- The negation of an integer, as it is stored. -/
def negate (dtype : DType) (x : Int64) : Int64 := dtype.wrap (-x)

/-- The least integer of a type. -/
def least : DType → Int64
  | .si32 => Int32.minValue.toInt64
  | _ => Int64.minValue

/-- Integers are no floating-point numbers. -/
theorem isFloat_of_isInteger {dtype : DType} (integer : dtype.isInteger = true)
    : dtype.isFloat = false := by
  cases dtype <;> simp_all [isInteger, isFloat]

/-- An integer of a type is read as it was stored. -/
def Fits (dtype : DType) (x : Int64) : Prop := dtype.wrap x = x

theorem wrap_wrap (dtype : DType) (x : Int64) : dtype.wrap (dtype.wrap x) = dtype.wrap x := by
  cases dtype <;> simp [wrap]

theorem fits_negate (dtype : DType) (x : Int64) : dtype.Fits (dtype.negate x) :=
  wrap_wrap dtype (-x)

theorem negate_negate {dtype : DType} {x : Int64} (fits : dtype.Fits x)
    : dtype.negate (dtype.negate x) = x := by
  cases dtype with
  | si32 =>
      have fits : x.toInt32.toInt64 = x := fits
      simp [negate, wrap, fits]
  | _ => simp [negate, wrap]

theorem negate_least (dtype : DType) : dtype.negate dtype.least = dtype.least := by
  cases dtype <;> rfl

/-- Only the least integer of a type leaves the type when it is negated. -/
theorem toInt_negate {dtype : DType} {x : Int64} (fits : dtype.Fits x) (other : x ≠ dtype.least)
    : (dtype.negate x).toInt = -x.toInt := by
  have upper := x.toInt_lt
  have lower := x.le_toInt
  have differs : x.toInt ≠ dtype.least.toInt := fun same => other (Int64.toInt_inj.mp same)
  have least64 : Int64.minValue.toInt = -2 ^ 63 := rfl
  cases dtype with
  | si32 =>
      have fits : x.toInt32.toInt64 = x := fits
      have upper32 := x.toInt32.toInt_lt
      have lower32 := x.toInt32.le_toInt
      have least32 : Int32.minValue.toInt64.toInt = -2 ^ 31 := rfl
      have read : x.toInt = x.toInt32.toInt := by
        conv_lhs => rw [← fits]
        exact Int32.toInt_toInt64 _
      simp only [least, least32] at differs
      rw [read] at differs ⊢
      rw [negate, wrap, Int64.toInt32_neg, Int32.toInt_toInt64, Int32.toInt_neg, Int.bmod_def]
      omega
  | _ =>
      simp only [least, least64] at differs
      simp only [negate, wrap, Int64.toInt_neg, Int.bmod_def]
      omega

/-- No integer of a type lies below the least one. -/
theorem least_le {dtype : DType} {x : Int64} (fits : dtype.Fits x)
    : dtype.least.toInt ≤ x.toInt := by
  cases dtype with
  | si32 =>
      have fits : x.toInt32.toInt64 = x := fits
      rw [← fits, Int32.toInt_toInt64]
      exact x.toInt32.le_toInt
  | _ => exact x.le_toInt

end DType

-----------------------------------------------------------------------------------------
-- Extremes
-----------------------------------------------------------------------------------------

namespace ReduceKind

/-- A value does not come before another one in the order whose last value an extreme is. -/
def Within : ReduceKind → Int64 → Int64 → Prop
  | .max, x, extreme => x.toInt ≤ extreme.toInt
  | .min, x, extreme => extreme.toInt ≤ x.toInt
  | .sum, _, _ => True

/-- What the negated numbers see as a reduction sees them as the negated reduction. -/
theorem negatedDual_symm {kind dual : ReduceKind} (known : kind.negatedDual = some dual)
    : dual.negatedDual = some kind := by
  cases kind <;> cases known <;> rfl

/-- An extreme of integers. -/
structure IsExtreme (kind : ReduceKind) (items : List Int64) (extreme : Int64) : Prop where
  listed : extreme ∈ items
  bounds : ∀ item ∈ items, kind.Within item extreme

/-- A step keeps the extreme of what came before and the next integer. -/
theorem intStep_cases {kind dual : ReduceKind} (known : kind.negatedDual = some dual)
    (extreme x : Int64)
    : (Reduce.intStep kind extreme x = extreme ∧ kind.Within x extreme)
      ∨ (Reduce.intStep kind extreme x = x ∧ kind.Within extreme x) := by
  cases kind with
  | sum => simp [negatedDual] at known
  | max =>
      simp only [Reduce.intStep, Int64.lt_iff_toInt_lt, Within]
      split_ifs with above
      · exact .inr ⟨rfl, Int.le_of_lt above⟩
      · exact .inl ⟨rfl, Int.not_lt.mp above⟩
  | min =>
      simp only [Reduce.intStep, Int64.lt_iff_toInt_lt, Within]
      split_ifs with below
      · exact .inr ⟨rfl, Int.le_of_lt below⟩
      · exact .inl ⟨rfl, Int.not_lt.mp below⟩

theorem Within.trans {kind : ReduceKind} {x y z : Int64} (first : kind.Within x y)
    (second : kind.Within y z)
    : kind.Within x z := by
  cases kind with
  | sum => trivial
  | max => exact Int.le_trans first second
  | min => exact Int.le_trans second first

theorem Within.refl (kind : ReduceKind) (x : Int64) : kind.Within x x := by
  cases kind <;> simp [Within]

theorem Within.antisymm {kind dual : ReduceKind} (known : kind.negatedDual = some dual)
    {x y : Int64} (first : kind.Within x y) (second : kind.Within y x)
    : x = y := by
  apply Int64.toInt_inj.mp
  cases kind with
  | sum => simp [negatedDual] at known
  | max => exact Int.le_antisymm first second
  | min => exact Int.le_antisymm second first

/-- There is one extreme only. -/
theorem IsExtreme.unique {kind dual : ReduceKind} {items : List Int64} {first second : Int64}
    (known : kind.negatedDual = some dual) (left : kind.IsExtreme items first)
    (right : kind.IsExtreme items second)
    : first = second :=
  Within.antisymm known (right.bounds first left.listed) (left.bounds second right.listed)

/-- Everything lies within the value of a reduction of no integers. -/
theorem within_intUnit (kind : ReduceKind) (x : Int64) : kind.Within (Reduce.intUnit kind) x := by
  cases kind with
  | sum => trivial
  | max => exact x.le_toInt
  | min => exact Int.le_of_lt_add_one x.toInt_lt

/-- A step and an extreme of what it leaves make an extreme of all. -/
theorem IsExtreme.step {kind dual : ReduceKind} (known : kind.negatedDual = some dual)
    {start item extreme : Int64} {items : List Int64}
    (later : kind.IsExtreme (Reduce.intStep kind start item :: items) extreme)
    : kind.IsExtreme (start :: item :: items) extreme := by
  have inside := later.bounds _ List.mem_cons_self
  have both : kind.Within start (Reduce.intStep kind start item)
      ∧ kind.Within item (Reduce.intStep kind start item) := by
    obtain ⟨same, within⟩ | ⟨same, within⟩ := intStep_cases known start item
    · rw [same]
      exact ⟨Within.refl kind start, within⟩
    · rw [same]
      exact ⟨within, Within.refl kind item⟩
  constructor
  · obtain rfl | member := List.mem_cons.mp later.listed
    · obtain ⟨chosen, -⟩ | ⟨chosen, -⟩ := intStep_cases known start item
      · rw [chosen]
        exact List.mem_cons_self
      · rw [chosen]
        exact List.mem_cons_of_mem _ List.mem_cons_self
    · exact List.mem_cons_of_mem _ (List.mem_cons_of_mem _ member)
  · intro other member
    simp only [List.mem_cons] at member
    obtain rfl | rfl | member := member
    · exact both.1.trans inside
    · exact both.2.trans inside
    · exact later.bounds other (List.mem_cons_of_mem _ member)

/-- A reduction that starts with an integer is an extreme, by induction on the other integers. -/
theorem isExtreme_foldl_cons {kind dual : ReduceKind} (known : kind.negatedDual = some dual)
    (start : Int64) (items : List Int64)
    : kind.IsExtreme (start :: items) (items.foldl (Reduce.intStep kind) start) := by
  induction items generalizing start with
  | nil => exact ⟨List.mem_singleton_self start, by simp [Within.refl]⟩
  | cons item items ih => exact (ih (Reduce.intStep kind start item)).step known

/-- The value of a reduction of no integers gives way to the first one. -/
theorem intStep_intUnit {kind dual : ReduceKind} (known : kind.negatedDual = some dual)
    (item : Int64)
    : Reduce.intStep kind (Reduce.intUnit kind) item = item := by
  obtain ⟨same, within⟩ | ⟨same, -⟩ := intStep_cases known (Reduce.intUnit kind) item
  · exact same.trans (Within.antisymm known (within_intUnit kind item) within)
  · exact same

/-- A reduction of some integers is an extreme of them. -/
theorem isExtreme_foldl {kind dual : ReduceKind} (known : kind.negatedDual = some dual)
    {items : List Int64} (some : items ≠ [])
    : kind.IsExtreme items (items.foldl (Reduce.intStep kind) (Reduce.intUnit kind)) := by
  obtain ⟨item, rest, rfl⟩ := List.exists_cons_of_ne_nil some
  rw [List.foldl_cons, intStep_intUnit known]
  exact isExtreme_foldl_cons known item rest

/-- Whether the least integer of a type stands among others. -/
def mixesLeast (dtype : DType) (items : List Int64) : Bool :=
  items.contains dtype.least && items.any (· ≠ dtype.least)

/-- Integers among which there are no others than the least one, or not the least one. -/
theorem mixesLeast_eq_false_iff {dtype : DType} {items : List Int64}
    : mixesLeast dtype items = false
      ↔ dtype.least ∉ items ∨ ∀ item ∈ items, item = dtype.least := by
  simp [mixesLeast, Classical.or_iff_not_imp_left]

/-- Negation turns the order around, except for the least integer. -/
theorem within_negate {kind dual : ReduceKind} {dtype : DType} {x y : Int64}
    (known : kind.negatedDual = some dual) (fitsFirst : dtype.Fits x) (fitsSecond : dtype.Fits y)
    (first : x ≠ dtype.least) (second : y ≠ dtype.least)
    : kind.Within (dtype.negate x) (dtype.negate y) ↔ dual.Within x y := by
  have left := DType.toInt_negate fitsFirst first
  have right := DType.toInt_negate fitsSecond second
  cases kind with
  | sum => simp [negatedDual] at known
  | max =>
      obtain rfl : ReduceKind.min = dual := Option.some.inj known
      rw [Within, Within, left, right]
      omega
  | min =>
      obtain rfl : ReduceKind.max = dual := Option.some.inj known
      rw [Within, Within, left, right]
      omega

/-- Where the least integer of a type is listed, it is the smallest. -/
theorem eq_least_of_min {dtype : DType} {items : List Int64} {smallest : Int64}
    (extreme : ReduceKind.min.IsExtreme items smallest) (listed : dtype.least ∈ items)
    (fits : dtype.Fits smallest)
    : smallest = dtype.least :=
  Int64.toInt_inj.mp (Int.le_antisymm (extreme.bounds _ listed) (DType.least_le fits))

/-- Where the least integer of a type is the largest, there is no other. -/
theorem eq_least_of_max {dtype : DType} {items : List Int64} {item : Int64}
    (extreme : ReduceKind.max.IsExtreme items dtype.least) (member : item ∈ items)
    (fits : dtype.Fits item)
    : item = dtype.least :=
  Int64.toInt_inj.mp (Int.le_antisymm (extreme.bounds item member) (DType.least_le fits))

/-- If the least integer is among integers, and the extreme of the negated ones is the opposite
extreme, negated, then there is no other.
-/
theorem eq_least_of_negated {kind dual : ReduceKind} {dtype : DType}
    (known : kind.negatedDual = some dual) {items : List Int64}
    (fits : ∀ item ∈ items, dtype.Fits item) {opposite : Int64}
    (turned : kind.IsExtreme (items.map dtype.negate) (dtype.negate opposite))
    (straight : dual.IsExtreme items opposite) (least : dtype.least ∈ items)
    : ∀ item ∈ items, item = dtype.least := by
  intro item member
  have recover {x : Int64} (fit : dtype.Fits x) (equal : dtype.negate x = dtype.least)
      : x = dtype.least := by
    rw [← DType.negate_negate fit, equal, DType.negate_least]
  have fitsOpposite := fits opposite straight.listed
  cases kind with
  | sum => simp [negatedDual] at known
  | max =>
      obtain rfl : ReduceKind.min = dual := Option.some.inj known
      rw [eq_least_of_min straight least fitsOpposite, DType.negate_least] at turned
      exact recover (fits item member)
        (eq_least_of_max turned (List.mem_map_of_mem member) (DType.fits_negate dtype item))
  | min =>
      obtain rfl : ReduceKind.max = dual := Option.some.inj known
      have listed : dtype.least ∈ items.map dtype.negate :=
        DType.negate_least dtype ▸ List.mem_map_of_mem least
      rw [recover fitsOpposite (eq_least_of_min turned listed (DType.fits_negate dtype opposite))]
        at straight
      exact eq_least_of_max straight member (fits item member)

/-- The extreme of negated integers is the opposite extreme, negated, iff the least integer of the
type does not stand among others.
-/
theorem foldl_negate_iff {kind dual : ReduceKind} {dtype : DType}
    (known : kind.negatedDual = some dual) {items : List Int64} (some : items ≠ [])
    (fits : ∀ item ∈ items, dtype.Fits item)
    : (items.map dtype.negate).foldl (Reduce.intStep kind) (Reduce.intUnit kind)
          = dtype.negate (items.foldl (Reduce.intStep dual) (Reduce.intUnit dual))
      ↔ mixesLeast dtype items = false := by
  have dualKnown := negatedDual_symm known
  have negatedSome : items.map dtype.negate ≠ [] := by simpa using some
  have turned := isExtreme_foldl known negatedSome
  have straight := isExtreme_foldl dualKnown some
  generalize (items.map dtype.negate).foldl (Reduce.intStep kind) (Reduce.intUnit kind) = extreme
    at turned ⊢
  generalize items.foldl (Reduce.intStep dual) (Reduce.intUnit dual) = opposite at straight ⊢
  have fitsOpposite := fits opposite straight.listed
  rw [mixesLeast_eq_false_iff]
  constructor
  · rintro rfl
    exact or_iff_not_imp_left.mpr fun least =>
      eq_least_of_negated known fits turned straight (not_not.mp least)
  · intro unmixed
    obtain absent | all := unmixed
    · refine turned.unique known ⟨List.mem_map_of_mem straight.listed, ?_⟩
      intro item member
      obtain ⟨source, listed, rfl⟩ := List.mem_map.mp member
      have first : source ≠ dtype.least := fun equal => absent (equal ▸ listed)
      have second : opposite ≠ dtype.least := fun equal => absent (equal ▸ straight.listed)
      exact (within_negate known (fits source listed) fitsOpposite first second).mpr
        (straight.bounds source listed)
    · obtain ⟨source, listed, rfl⟩ := List.mem_map.mp turned.listed
      rw [all source listed, all opposite straight.listed]

end ReduceKind

end Dataflow
