import Mathlib

/-!
Binary formats. A number that a format holds survives packing and unpacking, and rounding leaves it
as it is, however its mantissa and its exponent are written.
-/

namespace Dataflow.Binary

open Float.Model (Format UnpackedFloat totalExponent)
open Float.Model.UnpackedFloat

-----------------------------------------------------------------------------------------
-- Signs
-----------------------------------------------------------------------------------------

/-- A sign that is turned twice is itself. -/
theorem sign_neg_neg (sign : Sign) : - -sign = sign := by
  cases sign <;> rfl

/-- A number that is negated twice is itself. -/
theorem neg_neg (number : UnpackedFloat) : number.neg.neg = number := by
  cases number <;> simp [UnpackedFloat.neg, sign_neg_neg]

/-- Turning both signs turns the order around. -/
theorem compare_neg (a b : UnpackedFloat) : a.neg.compare b.neg = b.compare a := by
  have turned (first second : Sign) : compare (-first) (-second) = compare second first := by
    cases first <;> cases second <;> rfl
  have swapped (first second : Int) (left right : Nat)
      : ((compare first second).then (compare left right)).swap
        = (compare second first).then (compare right left) := by
    rw [Ordering.swap_then, ← Std.OrientedCmp.eq_swap, ← Std.OrientedCmp.eq_swap]
  cases a with
  | notANumber => cases b <;> rfl
  | infinity first =>
      cases b with
      | infinity second => exact congrArg some (turned first second)
      | notANumber => cases first <;> rfl
      | zero second => cases first <;> rfl
      | finite second => cases first <;> cases second <;> rfl
  | zero first =>
      cases b with
      | infinity second => cases second <;> rfl
      | notANumber => rfl
      | zero second => rfl
      | finite second => cases second <;> rfl
  | finite first m e pos =>
      cases b with
      | infinity second => cases first <;> cases second <;> rfl
      | notANumber => cases first <;> rfl
      | zero second => cases first <;> rfl
      | finite second n f positive =>
          cases first <;> cases second <;>
            simp only [UnpackedFloat.neg, UnpackedFloat.compare, Neg.neg, swapped]

-----------------------------------------------------------------------------------------
-- Numbers of a format
-----------------------------------------------------------------------------------------

variable {format : Format}

/-- A format holds a number: its exponent is the one that the format asks for, and fits. -/
def Holds (format : Format) : UnpackedFloat → Prop
  | .finite _ mantissa exponent _ =>
    exponent = format.targetExponent (totalExponent mantissa exponent)
      ∧ exponent + format.exponentBias + format.mantissaBitsWithoutImplicit + 1
        < 2 ^ format.exponentBits
  | _ => True

/-- A format holds the negation of what it holds. -/
theorem Holds.neg {number : UnpackedFloat} (holds : Holds format number)
    : Holds format number.neg := by
  cases number <;> exact holds

/-- The exponent that a format asks for, in numbers. -/
theorem targetExponent_eq_iff {mantissa : Nat} {exponent : Int}
    : exponent = format.targetExponent (totalExponent mantissa exponent)
      ↔ mantissa.log2 ≤ format.mantissaBitsWithoutImplicit
        ∧ 1 ≤ exponent + format.exponentBias + format.mantissaBitsWithoutImplicit
        ∧ (mantissa.log2 = format.mantissaBitsWithoutImplicit
          ∨ exponent + format.exponentBias + format.mantissaBitsWithoutImplicit = 1) := by
  have bias : (format.exponentBias : Int) = 2 ^ (format.exponentBits - 1) - 1 := by
    have positive : 0 < 2 ^ (format.exponentBits - 1) := Nat.two_pow_pos _
    rw [Format.exponentBias, Int.natCast_sub positive]
    simp
  rw [Format.targetExponent, totalExponent, Format.minExponent, Format.mantissaBits, bias]
  generalize (2 : Int) ^ (format.exponentBits - 1) = half
  omega

/-- The parts of packed components. -/
theorem ofBitVec_unpackSign_packComponents {sign : Sign} {exponent : BitVec format.exponentBits}
    {mantissa : BitVec format.mantissaBitsWithoutImplicit}
    : Sign.ofBitVec (unpackSign (packComponents format sign exponent mantissa)) = sign := by
  have top : unpackSign (packComponents format sign exponent mantissa) = sign.toBitVec := by
    ext i inside
    obtain rfl : i = 0 := by omega
    simp only [unpackSign, packComponents, BitVec.getElem_cast, BitVec.getElem_extract]
    rw [BitVec.getLsbD_append, if_neg (by omega), BitVec.getLsbD_append, if_neg (by omega),
      ← BitVec.getLsbD_eq_getElem]
    congr 1
    omega
  rw [top]
  cases sign <;> rfl

/-- A leading one in front of the lower bits of a mantissa. -/
theorem toNat_one_append {width : Nat} (bits : BitVec width)
    : (1#1 ++ bits).toNat = 2 ^ width + bits.toNat := by
  rw [BitVec.toNat_append, ← Nat.shiftLeft_add_eq_or_of_lt bits.isLt]
  simp [Nat.shiftLeft_eq]

/-- The number of binary digits of a mantissa is known from its bounds. -/
theorem log2_eq_iff {mantissa width : Nat} (positive : 0 < mantissa)
    : mantissa.log2 = width ↔ 2 ^ width ≤ mantissa ∧ mantissa < 2 ^ (width + 1) := by
  rw [← Nat.le_log2 (by omega), ← Nat.log2_lt (by omega)]
  omega

/-- What a format holds survives packing and unpacking. -/
theorem unpack_pack {number : UnpackedFloat} (holds : Holds format number)
    : unpack format (pack format number) = number := by
  have widths := format.he
  have widthm := format.hm
  have ones : (-1#_ : BitVec format.exponentBits) ≠ 0#_ := by
    simp [BitVec.neg_one_eq_allOnes, ← BitVec.toNat_inj]
    have := Nat.one_lt_two_pow (Nat.pos_iff_ne_zero.mp widths)
    omega
  cases number with
  | notANumber =>
      have payload
          : ((1#_ : BitVec format.mantissaBitsWithoutImplicit)
              <<< (format.mantissaBitsWithoutImplicit - 1))
            ≠ 0#_ := by
        intro zero
        have bit := congrArg (·.getLsbD (format.mantissaBitsWithoutImplicit - 1)) zero
        simp at bit
        omega
      simp [pack, packedNaN, unpack, payload]
  | infinity sign =>
      simp [pack, packedInfinity, unpack]
  | zero sign =>
      simp [pack, packedZero, unpack, Ne.symm ones]
  | finite sign mantissa exponent positive =>
      obtain ⟨target, fits⟩ := holds
      obtain ⟨narrow, least, normal⟩ := targetExponent_eq_iff.mp target
      generalize biased
        : (exponent + format.exponentBias + format.mantissaBitsWithoutImplicit).toNat = field
      have fits : field + 1 < 2 ^ format.exponentBits := by
        refine Int.ofNat_lt.mp ?_
        push_cast
        omega
      have fieldBits : (BitVec.ofNat format.exponentBits field).toNat = field := by
        rw [BitVec.toNat_ofNat, Nat.mod_eq_of_lt (by omega)]
      have notOnes : BitVec.ofNat format.exponentBits field ≠ -1#_ := by
        intro same
        have := congrArg BitVec.toNat same
        rw [fieldBits, BitVec.neg_one_eq_allOnes, BitVec.toNat_allOnes] at this
        omega
      have notZero : BitVec.ofNat format.exponentBits field ≠ 0#_ := by
        intro same
        have := congrArg BitVec.toNat same
        rw [fieldBits, BitVec.toNat_ofNat, Nat.zero_mod] at this
        omega
      have below := (Nat.log2_lt (Nat.pos_iff_ne_zero.mp positive)).mp (Nat.lt_succ_of_le narrow)
      simp only [pack, biased]
      rw [if_neg (by omega)]
      by_cases whole : mantissa.log2 = format.mantissaBitsWithoutImplicit
      · rw [if_pos (by rw [whole, Format.mantissaBits, Nat.add_comm])]
        have digits := (log2_eq_iff positive).mp whole
        have restored
            : (1#1 ++ BitVec.ofNat format.mantissaBitsWithoutImplicit mantissa).toNat = mantissa := by
          rw [toNat_one_append, BitVec.toNat_ofNat]
          rw [Nat.pow_succ] at digits
          rw [Nat.mod_eq_sub_mod digits.1, Nat.mod_eq_of_lt (by omega)]
          omega
        simp only [unpack, unpackMantissa_packComponents, unpackExponent_packComponents,
          ofBitVec_unpackSign_packComponents, if_neg notOnes, if_neg notZero, restored, fieldBits]
        congr 1
        omega
      · rw [if_neg (by rw [Format.mantissaBits]; omega)]
        have small : mantissa < 2 ^ format.mantissaBitsWithoutImplicit :=
          (Nat.log2_lt (Nat.pos_iff_ne_zero.mp positive)).mp (by omega)
        have restored
            : (BitVec.ofNat format.mantissaBitsWithoutImplicit mantissa).toNat = mantissa := by
          rw [BitVec.toNat_ofNat, Nat.mod_eq_of_lt small]
        have some : BitVec.ofNat format.mantissaBitsWithoutImplicit mantissa ≠ 0#_ := by
          intro same
          have := congrArg BitVec.toNat same
          rw [restored, BitVec.toNat_ofNat, Nat.zero_mod] at this
          omega
        simp only [unpack, unpackMantissa_packComponents, unpackExponent_packComponents,
          ofBitVec_unpackSign_packComponents, if_neg (Ne.symm ones), dif_neg some, restored,
          if_pos]
        congr 1
        have := normal.resolve_left whole
        simp
        omega

/-- A leading one is the highest digit of a mantissa. -/
theorem log2_one_append {width : Nat} (bits : BitVec width)
    : (1#1 ++ bits).toNat.log2 = width := by
  have below := bits.isLt
  rw [toNat_one_append, log2_eq_iff (by omega), Nat.pow_succ]
  omega

/-- A format holds what its bits stand for. -/
theorem holds_unpack (wide : 2 ≤ format.exponentBits) (bits : BitVec format.numBits)
    : Holds format (unpack format bits) := by
  simp only [unpack]
  split_ifs with ones payload zero empty
  · trivial
  · trivial
  · trivial
  · have positive : 0 < (unpackMantissa bits).toNat := by
      rw [Nat.pos_iff_ne_zero]
      intro none
      exact empty (BitVec.eq_of_toNat_eq (by simpa using none))
    have small := (Nat.log2_lt (Nat.pos_iff_ne_zero.mp positive)).mpr (unpackMantissa bits).isLt
    have room : 2 ^ 2 ≤ 2 ^ format.exponentBits := Nat.pow_le_pow_right Nat.two_pos wide
    have room : (2 : Int) ^ 2 ≤ 2 ^ format.exponentBits := by exact_mod_cast room
    rw [Holds, targetExponent_eq_iff, zero]
    simp only [BitVec.toNat_ofNat, Nat.zero_mod]
    omega
  · have some : (unpackExponent bits).toNat ≠ 0 := by
      intro none
      exact zero (BitVec.eq_of_toNat_eq (by simpa using none))
    have notOnes : (unpackExponent bits).toNat + 1 ≠ 2 ^ format.exponentBits := by
      intro same
      refine ones (BitVec.eq_of_toNat_eq ?_)
      rw [BitVec.neg_one_eq_allOnes, BitVec.toNat_allOnes]
      omega
    have below := (unpackExponent bits).isLt
    have fits : (unpackExponent bits).toNat + 1 < 2 ^ format.exponentBits := by omega
    have fits : ((unpackExponent bits).toNat : Int) + 1 < 2 ^ format.exponentBits := by
      exact_mod_cast fits
    rw [Holds, targetExponent_eq_iff, log2_one_append]
    omega

/-- Bits are put together from their parts. -/
theorem packComponents_unpack (bits : BitVec format.numBits)
    : packComponents format (Sign.ofBitVec (unpackSign bits)) (unpackExponent bits)
        (unpackMantissa bits)
      = bits := by
  have top : (Sign.ofBitVec (unpackSign bits)).toBitVec = unpackSign bits := by
    generalize unpackSign bits = sign
    revert sign
    decide
  have widths := format.he
  have widthm := format.hm
  rw [packComponents, top]
  ext i inside
  simp [BitVec.getElem_append, unpackSign, unpackExponent, unpackMantissa]
  rw [← BitVec.getLsbD_eq_getElem]
  split_ifs <;> congr 1 <;> omega

/-- Bits that stand for a number are what the number is packed into. -/
theorem pack_unpack (wide : 2 ≤ format.exponentBits) {bits : BitVec format.numBits}
    (number : unpack format bits ≠ .notANumber)
    : pack format (unpack format bits) = bits := by
  have room : 2 ^ 2 ≤ 2 ^ format.exponentBits := Nat.pow_le_pow_right Nat.two_pos wide
  conv_rhs => rw [← packComponents_unpack bits]
  revert number
  simp only [unpack]
  split_ifs with ones payload zero empty
  · intro _
    rw [pack, packedInfinity, ones, payload]
    rfl
  · exact fun number => absurd rfl number
  · intro _
    rw [pack, packedZero, zero, empty]
    rfl
  · intro _
    have positive : 0 < (unpackMantissa bits).toNat := by
      rw [Nat.pos_iff_ne_zero]
      intro none
      exact empty (BitVec.eq_of_toNat_eq (by simpa using none))
    have small := (Nat.log2_lt (Nat.pos_iff_ne_zero.mp positive)).mpr (unpackMantissa bits).isLt
    simp only [pack, zero, BitVec.toNat_ofNat, Nat.zero_mod]
    rw [if_neg (by omega), if_neg (by rw [Format.mantissaBits]; omega), BitVec.ofNat_toNat,
      BitVec.setWidth_eq]
  · intro _
    have notOnes : (unpackExponent bits).toNat + 1 ≠ 2 ^ format.exponentBits := by
      intro same
      refine ones (BitVec.eq_of_toNat_eq ?_)
      rw [BitVec.neg_one_eq_allOnes, BitVec.toNat_allOnes]
      omega
    have below := (unpackExponent bits).isLt
    have field
        : ((unpackExponent bits).toNat - ((format.exponentBias : Int)
              + format.mantissaBitsWithoutImplicit) + format.exponentBias
            + format.mantissaBitsWithoutImplicit).toNat
          = (unpackExponent bits).toNat := by
      omega
    have mantissa
        : BitVec.ofNat format.mantissaBitsWithoutImplicit (1#1 ++ unpackMantissa bits).toNat
          = unpackMantissa bits := by
      refine BitVec.eq_of_toNat_eq ?_
      rw [BitVec.toNat_ofNat, toNat_one_append, Nat.add_mod_left,
        Nat.mod_eq_of_lt (unpackMantissa bits).isLt]
    simp only [pack, field, log2_one_append, mantissa]
    rw [if_neg (by omega), if_pos (by rw [Format.mantissaBits, Nat.add_comm]), BitVec.ofNat_toNat,
      BitVec.setWidth_eq]

-----------------------------------------------------------------------------------------
-- Rounding
-----------------------------------------------------------------------------------------

/-- Zeros at the end of a mantissa are shifted out without a trace. -/
theorem shiftRight_exact (mantissa count : Nat)
    : count.repeat ExtendedMantissa.shiftRightOne ⟨mantissa * 2 ^ count, false, false⟩
      = ⟨mantissa, false, false⟩ := by
  induction count generalizing mantissa with
  | zero => simp [Nat.repeat]
  | succ count ih =>
      have doubled : mantissa * 2 ^ (count + 1) = mantissa * 2 * 2 ^ count := by
        rw [Nat.pow_succ, Nat.mul_comm (2 ^ count), Nat.mul_assoc]
      rw [Nat.repeat, doubled, ih]
      simp [ExtendedMantissa.shiftRightOne]

/-- The digits of a mantissa with zeros behind it. -/
theorem totalExponent_scaled {mantissa : Nat} (positive : 0 < mantissa) (exponent : Int)
    (count : Nat)
    : totalExponent (mantissa * 2 ^ count) exponent = totalExponent mantissa (exponent + count) := by
  have digits : (mantissa * 2 ^ count).log2 = mantissa.log2 + count := by
    have scale : 0 < 2 ^ count := Nat.two_pow_pos count
    have low := Nat.log2_self_le (Nat.pos_iff_ne_zero.mp positive)
    have high := @Nat.lt_log2_self mantissa
    rw [log2_eq_iff (Nat.mul_pos positive scale), Nat.pow_add, Nat.add_right_comm, Nat.pow_add]
    exact ⟨Nat.mul_le_mul_right _ low, Nat.mul_lt_mul_of_pos_right high scale⟩
  rw [totalExponent, totalExponent, digits]
  omega

/-- Zeros at the end of a mantissa are dropped for a larger exponent. -/
theorem shiftToExponent_exact (mantissa : Nat) (exponent : Int) (count : Nat)
    : shiftToExponent (mantissa * 2 ^ count) (exponent - count) .exact exponent
      = (⟨mantissa, false, false⟩, exponent) := by
  have amount : (exponent - (exponent - count)).toNat = count := by omega
  have back : exponent - (count : Int) + (count : Int) = exponent := by omega
  rw [shiftToExponent, amount, back]
  exact congrArg (·, exponent) (shiftRight_exact mantissa count)

/-- A number that a format holds is rounded to itself, also with zeros behind its mantissa. -/
theorem roundWithAccuracy_eq {sign : Sign} {mantissa : Nat} {exponent : Int}
    {positive : 0 < mantissa} (holds : Holds format (.finite sign mantissa exponent positive))
    (count : Nat)
    : roundWithAccuracy format sign (mantissa * 2 ^ count) (exponent - count) .exact
      = .finite sign mantissa exponent positive := by
  obtain ⟨target, -⟩ := holds
  have back : exponent - (count : Int) + (count : Int) = exponent := by omega
  have first
      : shiftToTargetExponent format (mantissa * 2 ^ count) (exponent - count) .exact
        = (⟨mantissa, false, false⟩, exponent) := by
    rw [shiftToTargetExponent, totalExponent_scaled positive, back, ← target]
    exact shiftToExponent_exact mantissa exponent count
  have second
      : shiftToTargetExponent format mantissa exponent .exact
        = (⟨mantissa, false, false⟩, exponent) := by
    have settled := shiftToExponent_exact mantissa exponent 0
    rw [Nat.pow_zero, Nat.mul_one, Int.natCast_zero, Int.sub_zero] at settled
    rw [shiftToTargetExponent, ← target]
    exact settled
  have rounded : ExtendedMantissa.roundedMantissa ⟨mantissa, false, false⟩ = mantissa := rfl
  rw [roundWithAccuracy, first]
  dsimp only
  rw [rounded, second]
  exact dif_neg (Nat.pos_iff_ne_zero.mp positive)

/-- A number that a format holds is what its double with a smaller exponent is rounded to, -/
theorem round_scaled {sign : Sign} {mantissa : Nat} {exponent : Int}
    {positive : 0 < mantissa} (holds : Holds format (.finite sign mantissa exponent positive))
    (count : Nat)
    : UnpackedFloat.round format sign (mantissa * 2 ^ count) (exponent - count)
      = .finite sign mantissa exponent positive := by
  have back : exponent - (count : Int) + (count : Int) = exponent := by omega
  have still : (exponent - (count : Int) - exponent).toNat = 0 := by omega
  rw [UnpackedFloat.round, totalExponent_scaled positive, back, ← holds.1, decreaseExponent, still]
  simpa using roundWithAccuracy_eq holds count

/-- and so is its half with a larger one. -/
theorem round_shortened {sign : Sign} {mantissa : Nat} {exponent : Int} {count : Nat}
    {positive : 0 < mantissa * 2 ^ count}
    (holds : Holds format (.finite sign (mantissa * 2 ^ count) exponent positive))
    : UnpackedFloat.round format sign mantissa (exponent + count)
      = .finite sign (mantissa * 2 ^ count) exponent positive := by
  have some : 0 < mantissa := Nat.pos_of_mul_pos_right positive
  have amount : (exponent + (count : Int) - exponent).toNat = count := by omega
  have back : exponent + (count : Int) - (count : Int) = exponent := by omega
  have settled := roundWithAccuracy_eq holds 0
  rw [Nat.pow_zero, Nat.mul_one, Int.natCast_zero, Int.sub_zero] at settled
  rw [UnpackedFloat.round, ← totalExponent_scaled some, ← holds.1, decreaseExponent, amount, back,
    Nat.shiftLeft_eq]
  exact settled

end Dataflow.Binary
