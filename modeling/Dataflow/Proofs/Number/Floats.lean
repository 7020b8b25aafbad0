import Dataflow.Number.Binary
import Dataflow.Proofs.Number.Formats

/-!
Numbers as the kernels use them. There is one number for each thing that a format holds, and a
single one that is no number. Negation turns the order around, and what was widened once is not
changed by narrowing it and widening it again.
-/

namespace Dataflow.Binary

open Float.Model (Format UnpackedFloat)
open Float.Model.UnpackedFloat (pack unpack)

-----------------------------------------------------------------------------------------
-- Unpacked numbers
-----------------------------------------------------------------------------------------

/-- Packing a number that was unpacked gives the number back. -/
theorem pack_unpack_model (number : Float.Model) : Float.Model.pack number.unpack = number := by
  have bits : pack Format.binary64 number.unpack = number.toBits.toBitVec := by
    by_cases none : number.unpack = .notANumber
    · have valid := number.valid.eq_packedNaN
      rw [none]
      simp only [Float.Model.unpack, unpack] at none
      split_ifs at none with ones payload
      exact (valid ones payload).symm
    · exact pack_unpack (by decide) none
  cases number with
  | mk toBits valid =>
      simp only [Float.Model.pack, Float.Model.mk.injEq]
      exact UInt64.toBitVec_inj.mp bits

/-- Numbers are equal if they are unpacked to the same. -/
theorem ext_unpack {x y : Float} (same : x.toModel.unpack = y.toModel.unpack) : x = y := by
  cases x with
  | ofModel a =>
      cases y with
      | ofModel b =>
          have same : a.unpack = b.unpack := same
          rw [← pack_unpack_model a, ← pack_unpack_model b, same]

/-- A number of the format is unpacked to what it was made of. -/
theorem unpack_ofModel_pack {number : UnpackedFloat} (holds : Holds .binary64 number)
    : (Float.ofModel (.pack number)).toModel.unpack = number :=
  unpack_pack holds

/-- Numbers are unpacked to what their format holds. -/
theorem holds_unpack_toModel (x : Float) : Holds .binary64 x.toModel.unpack :=
  holds_unpack (by decide) _

/-- Bits that a number was stored as are read as the number. -/
@[simp] theorem ofBits_toBits (x : Float) : Float.ofBits x.toBits = x := by
  cases x with
  | ofModel number => exact congrArg Float.ofModel (pack_unpack_model number)

/-- The number that bits stand for. -/
theorem unpack_ofBits (bits : UInt64)
    : (Float.ofBits bits).toModel.unpack = unpack Format.binary64 bits.toBitVec :=
  unpack_ofModel_pack (holds_unpack (by decide) _)

-----------------------------------------------------------------------------------------
-- Negation
-----------------------------------------------------------------------------------------

/-- The negation of a number, unpacked. -/
theorem unpack_neg (x : Float) : (-x).toModel.unpack = x.toModel.unpack.neg :=
  unpack_ofModel_pack (holds_unpack_toModel x).neg

/-- A number that is negated twice is itself. -/
@[simp] theorem neg_neg_float (x : Float) : - -x = x := by
  apply ext_unpack
  rw [unpack_neg, unpack_neg, neg_neg]

/-- The order of numbers, unpacked. -/
theorem lt_iff {x y : Float}
    : x < y ↔ (x.toModel.unpack.compare y.toModel.unpack == some .lt) = true :=
  decide_eq_true_iff

/-- Negation turns the order around. -/
theorem neg_lt_neg_iff {x y : Float} : -x < -y ↔ y < x := by
  rw [lt_iff, lt_iff, unpack_neg, unpack_neg, compare_neg]

/-- Negation does not make a number of what is none. -/
@[simp] theorem isNaN_neg (x : Float) : (-x).isNaN = x.isNaN := by
  change (-x).toModel.unpack.isNaN = x.toModel.unpack.isNaN
  rw [unpack_neg]
  cases x.toModel.unpack <;> rfl

/-- What is no number is unpacked to one thing only. -/
theorem isNaN_iff {x : Float} : x.isNaN = true ↔ x.toModel.unpack = .notANumber := by
  change x.toModel.unpack.isNaN = true ↔ _
  cases x.toModel.unpack <;> simp [UnpackedFloat.isNaN]

/-- The canonical form of what is no number. -/
theorem unpack_notANumber : notANumber.toModel.unpack = .notANumber := by
  rw [notANumber, unpack_ofBits]
  rfl

/-- Everything that is no number is the same. -/
theorem eq_notANumber {x : Float} (none : x.isNaN = true) : x = notANumber := by
  apply ext_unpack
  rw [isNaN_iff.mp none, unpack_notANumber]

/-- The canonical form of what is no number is none. -/
@[simp] theorem isNaN_notANumber : notANumber.isNaN = true := isNaN_iff.mpr unpack_notANumber

/-- Negating what is no number changes nothing. -/
@[simp] theorem neg_notANumber : -notANumber = notANumber :=
  eq_notANumber (by rw [isNaN_neg, isNaN_notANumber])

/-- Infinity, unpacked. -/
theorem unpack_infinity : infinity.toModel.unpack = .infinity .positive := by
  rw [infinity, unpack_ofBits]
  rfl

/-- The infinities are numbers. -/
@[simp] theorem isNaN_infinity : infinity.isNaN = false := by
  change infinity.toModel.unpack.isNaN = false
  rw [unpack_infinity]
  rfl

/-- Nothing but itself and what is no number is not above the lowest number. -/
theorem eq_neg_infinity {x : Float} (number : x.isNaN = false) (least : ¬ -infinity < x)
    : x = -infinity := by
  apply ext_unpack
  rw [unpack_neg, unpack_infinity]
  have some : x.toModel.unpack.isNaN = false := number
  rw [lt_iff, unpack_neg, unpack_infinity] at least
  cases same : x.toModel.unpack with
  | notANumber => simp [same, UnpackedFloat.isNaN] at some
  | infinity sign =>
      cases sign with
      | negative => rfl
      | positive => exact absurd (by rw [same]; rfl) least
  | zero sign => exact absurd (by rw [same]; rfl) least
  | finite sign mantissa exponent positive => exact absurd (by rw [same]; rfl) least

-----------------------------------------------------------------------------------------
-- Extremes
-----------------------------------------------------------------------------------------

/-- The largest of negated numbers is the smallest number, negated. -/
theorem maximum_neg (x y : Float) : maximum (-x) (-y) = -minimum x y := by
  rw [maximum, minimum, isNaN_neg, isNaN_neg]
  simp only [neg_lt_neg_iff]
  split_ifs
  · exact neg_notANumber.symm
  · rfl
  · rfl

/-- The smallest of negated numbers is the largest number, negated. -/
theorem minimum_neg (x y : Float) : minimum (-x) (-y) = -maximum x y := by
  rw [maximum, minimum, isNaN_neg, isNaN_neg]
  simp only [neg_lt_neg_iff]
  split_ifs
  · exact neg_notANumber.symm
  · rfl
  · rfl

-----------------------------------------------------------------------------------------
-- Between the two formats
-----------------------------------------------------------------------------------------

/-- Rounding does not look at the sign. -/
theorem roundTo_neg (format : Format) (number : UnpackedFloat)
    : roundTo format number.neg = (roundTo format number).neg := by
  cases number with
  | finite sign mantissa exponent positive =>
      simp only [roundTo, UnpackedFloat.neg, UnpackedFloat.round, UnpackedFloat.roundWithAccuracy]
      split_ifs <;> rfl
  | notANumber => rfl
  | infinity sign => rfl
  | zero sign => rfl

/-- A number with few enough digits and an exponent of the wide format is rounded to itself, with
zeros behind its mantissa.
-/
theorem round_widened (sign : UnpackedFloat.Sign) {mantissa : Nat} {exponent : Int}
    (positive : 0 < mantissa) (digits : mantissa.log2 ≤ 52)
    (least : -1022 ≤ mantissa.log2 + exponent) (most : mantissa.log2 + exponent ≤ 1023)
    : ∃ (count : Nat) (some : 0 < mantissa * 2 ^ count),
        Holds .binary64 (.finite sign (mantissa * 2 ^ count) (exponent - count) some)
        ∧ UnpackedFloat.round .binary64 sign mantissa exponent
          = .finite sign (mantissa * 2 ^ count) (exponent - count) some := by
  have wideBias : Format.exponentBias .binary64 = 1023 := rfl
  have wideWidth : Format.mantissaBitsWithoutImplicit .binary64 = 52 := rfl
  have wideField : Format.exponentBits .binary64 = 11 := rfl
  obtain ⟨count, filled⟩ : ∃ count, mantissa.log2 + count = 52 := ⟨52 - mantissa.log2, by omega⟩
  have whole : (mantissa * 2 ^ count).log2 = 52 := by
    have same := totalExponent_scaled positive 0 count
    simp only [Float.Model.totalExponent] at same
    omega
  have some : 0 < mantissa * 2 ^ count := Nat.mul_pos positive (Nat.two_pow_pos count)
  have held : Holds .binary64 (.finite sign (mantissa * 2 ^ count) (exponent - count) some) := by
    rw [Holds, targetExponent_eq_iff, whole, wideBias, wideWidth, wideField]
    omega
  have shortened := round_shortened held
  have back : exponent - (count : Int) + (count : Int) = exponent := by omega
  rw [back] at shortened
  exact ⟨count, some, held, shortened⟩

/-- What fits 32 bits fits 64 bits, and is found again in 32 bits. -/
theorem roundTo_of_holds {number : UnpackedFloat} (holds : Holds .binary32 number)
    : Holds .binary64 (roundTo .binary64 number)
      ∧ roundTo .binary32 (roundTo .binary64 number) = number := by
  cases number with
  | finite sign mantissa exponent positive =>
      obtain ⟨target, fits⟩ := id holds
      obtain ⟨narrow, least, -⟩ := targetExponent_eq_iff.mp target
      have bias : Format.exponentBias .binary32 = 127 := rfl
      simp only [bias] at narrow least fits
      obtain ⟨count, some, held, rounded⟩ :=
        @round_widened sign mantissa exponent positive (by omega) (by omega) (by omega)
      rw [roundTo, rounded]
      exact ⟨held, round_scaled holds count⟩
  | notANumber => exact ⟨trivial, rfl⟩
  | infinity sign => exact ⟨trivial, rfl⟩
  | zero sign => exact ⟨trivial, rfl⟩

/-- A widened number, unpacked. -/
theorem unpack_widen (word : UInt32)
    : (widen word).toModel.unpack
      = roundTo .binary64 (unpack Format.binary32 word.toBitVec) :=
  unpack_ofModel_pack (roundTo_of_holds (holds_unpack (by decide) _)).1

/-- Widening and narrowing a word keeps what it stands for. -/
theorem unpack_narrow_widen (word : UInt32)
    : unpack Format.binary32 (narrow (widen word)).toBitVec
      = unpack Format.binary32 word.toBitVec := by
  have holds := @holds_unpack .binary32 (by decide) word.toBitVec
  rw [narrow, unpack_widen, (roundTo_of_holds holds).2]
  exact unpack_pack holds

/-- A word that stands for a number is not changed by widening and narrowing it. -/
theorem narrow_widen {word : UInt32} (number : (widen word).isNaN = false)
    : narrow (widen word) = word := by
  have holds := @holds_unpack .binary32 (by decide) word.toBitVec
  have some : unpack Format.binary32 word.toBitVec ≠ .notANumber := by
    intro none
    have missing := isNaN_iff.mpr ((unpack_widen word).trans (by rw [none]; rfl))
    rw [missing] at number
    exact absurd number (by decide)
  rw [narrow, unpack_widen, (roundTo_of_holds holds).2]
  exact UInt32.toBitVec_inj.mp (pack_unpack (by decide) some)

/-- A narrowed number is not changed by widening and narrowing it. -/
@[simp] theorem narrow_widen_narrow (x : Float) : narrow (widen (narrow x)) = narrow x := by
  have holds := @holds_unpack .binary32 (by decide) (narrow x).toBitVec
  rw [narrow, unpack_widen, (roundTo_of_holds holds).2]
  refine UInt32.toBitVec_inj.mp ?_
  by_cases none : unpack Format.binary32 (narrow x).toBitVec = .notANumber
  · have valid := (Float32.Model.pack (roundTo .binary32 x.toModel.unpack)).valid.eq_packedNaN
    rw [none]
    simp only [unpack] at none
    split_ifs at none with ones payload
    exact (valid ones payload).symm
  · exact pack_unpack (by decide) none

/-- A number that is a widened word. -/
def IsSingle (x : Float) : Prop := ∃ word, x = widen word

/-- Widened words are not changed by narrowing and widening them. -/
theorem IsSingle.widen_narrow {x : Float} (single : IsSingle x) : widen (narrow x) = x := by
  obtain ⟨word, rfl⟩ := single
  apply ext_unpack
  rw [unpack_widen, unpack_narrow_widen, unpack_widen]

/-- The negation of a widened word is one. -/
theorem IsSingle.neg {x : Float} (single : IsSingle x) : IsSingle (-x) := by
  obtain ⟨word, rfl⟩ := single
  have holds := @holds_unpack .binary32 (by decide) word.toBitVec
  refine ⟨.ofBitVec (pack .binary32 (unpack .binary32 word.toBitVec).neg), ext_unpack ?_⟩
  rw [unpack_neg, unpack_widen, unpack_widen, ← roundTo_neg]
  exact congrArg _ (unpack_pack holds.neg).symm

/-- Infinity is a widened word. -/
theorem isSingle_infinity : IsSingle infinity := by
  refine ⟨0x7f800000, ext_unpack ?_⟩
  rw [unpack_infinity, unpack_widen]
  rfl

/-- What is no number is a widened word. -/
theorem isSingle_notANumber : IsSingle notANumber := by
  refine ⟨0x7fc00000, ext_unpack ?_⟩
  rw [unpack_notANumber, unpack_widen]
  rfl

/-- The larger of two widened words is one. -/
theorem IsSingle.maximum {x y : Float} (first : IsSingle x) (second : IsSingle y)
    : IsSingle (maximum x y) := by
  rw [Binary.maximum]
  split_ifs
  · exact isSingle_notANumber
  · exact second
  · exact first

/-- The smaller of two widened words is one. -/
theorem IsSingle.minimum {x y : Float} (first : IsSingle x) (second : IsSingle y)
    : IsSingle (minimum x y) := by
  rw [Binary.minimum]
  split_ifs
  · exact isSingle_notANumber
  · exact second
  · exact first

/-- Words that are narrowed to the same stand for the same number, or for none. -/
theorem eq_or_isNaN_of_narrow {a b : UInt32} (same : narrow (widen a) = narrow (widen b))
    : a = b ∨ (widen a).isNaN = true ∧ (widen b).isNaN = true := by
  have wide : widen a = widen b := by
    have both := congrArg widen same
    rwa [IsSingle.widen_narrow ⟨a, rfl⟩, IsSingle.widen_narrow ⟨b, rfl⟩] at both
  cases none : (widen a).isNaN with
  | true => exact .inr ⟨rfl, wide ▸ none⟩
  | false => exact .inl ((narrow_widen none).symm.trans (same.trans (narrow_widen (wide ▸ none))))

/-- Words that are stored as the same stand for the same number, or for none. -/
theorem eq_or_isNaN_of_toBits {a b : UInt64}
    (same : (Float.ofBits a).toBits = (Float.ofBits b).toBits)
    : a = b ∨ (Float.ofBits a).isNaN = true ∧ (Float.ofBits b).isNaN = true := by
  have read : Float.ofBits a = Float.ofBits b := by
    have both := congrArg Float.ofBits same
    rwa [ofBits_toBits, ofBits_toBits] at both
  have stored {word : UInt64} (number : (Float.ofBits word).isNaN = false)
      : (Float.ofBits word).toBits = word := by
    have some : unpack Format.binary64 word.toBitVec ≠ .notANumber := by
      intro none
      have missing := isNaN_iff.mpr ((unpack_ofBits word).trans none)
      rw [missing] at number
      exact absurd number (by decide)
    exact UInt64.toBitVec_inj.mp (pack_unpack (by decide) some)
  cases none : (Float.ofBits a).isNaN with
  | true => exact .inr ⟨rfl, read ▸ none⟩
  | false => exact .inl ((stored none).symm.trans (same.trans (stored (read ▸ none))))

end Dataflow.Binary
