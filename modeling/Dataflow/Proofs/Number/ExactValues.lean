import Dataflow.Literal
import Dataflow.Proofs.Number.Floats
import Dataflow.Proofs.Steps

/-!
Exact values. A finite number stands for a rational one, and so does an integer that is stored as a
number, as long as it has no more binary digits than the mantissa. Converting a number to an integer
keeps an integral value, except that the limit of the words, which is none of them, becomes the
largest word. So a payload is decoded as integers iff its values are integers up to that limit.
-/

namespace Dataflow

namespace Binary

open Float.Model (Format UnpackedFloat)
open Float.Model.UnpackedFloat

-----------------------------------------------------------------------------------------
-- Values
-----------------------------------------------------------------------------------------

/-- What an unpacked number stands for. Infinities and what is no number stand for nothing. -/
def rational? : UnpackedFloat → Option ℚ
  | .zero _ => some 0
  | .finite sign mantissa exponent _ => some (sign.apply mantissa * 2 ^ exponent)
  | _ => none

/-- What a number stands for. -/
def value? (x : Float) : Option ℚ := rational? x.toModel.unpack

/-- Zeros behind a mantissa make up for a smaller exponent. -/
theorem apply_scaled (sign : Sign) (mantissa count : Nat) (exponent : Int)
    : (sign.apply (mantissa * 2 ^ count : Nat) * 2 ^ (exponent - count) : ℚ)
      = sign.apply mantissa * 2 ^ exponent := by
  have scaled : ((2 : ℚ) ^ count) * 2 ^ (exponent - count) = 2 ^ exponent := by
    rw [← zpow_natCast, ← zpow_add₀ two_ne_zero, add_sub_cancel]
  cases sign <;> simp [Sign.apply, mul_assoc, scaled]

/-- A number with few enough digits and an exponent of the format is rounded to itself. -/
theorem rational?_round (sign : Sign) {mantissa : Nat} {exponent : Int} (positive : 0 < mantissa)
    (digits : mantissa.log2 ≤ 52) (least : -1022 ≤ mantissa.log2 + exponent)
    (most : mantissa.log2 + exponent ≤ 1023)
    : Holds .binary64 (UnpackedFloat.round .binary64 sign mantissa exponent)
      ∧ rational? (UnpackedFloat.round .binary64 sign mantissa exponent)
        = some (sign.apply mantissa * 2 ^ exponent : ℚ) := by
  obtain ⟨count, some, holds, rounded⟩ := round_widened sign positive digits least most
  rw [rounded]
  exact ⟨holds, congrArg Option.some (apply_scaled sign mantissa count exponent)⟩

/-- A 32-bit number keeps its value when it is widened. -/
theorem value?_widen (word : UInt32)
    : value? (widen word) = rational? (unpack Format.binary32 word.toBitVec) := by
  have holds := @holds_unpack .binary32 (by decide) word.toBitVec
  rw [value?, unpack_widen]
  cases unpacked : unpack Format.binary32 word.toBitVec with
  | finite sign mantissa exponent positive =>
      rw [unpacked] at holds
      obtain ⟨target, fits⟩ := holds
      obtain ⟨digits, least, -⟩ := targetExponent_eq_iff.mp target
      have bias : Format.exponentBias .binary32 = 127 := rfl
      simp only [bias] at digits least fits
      have digits : mantissa.log2 ≤ 52 := by omega
      have least : -1022 ≤ mantissa.log2 + exponent := by omega
      have most : mantissa.log2 + exponent ≤ 1023 := by omega
      exact (rational?_round sign positive digits least most).2
  | _ => rfl

/-- An integer with few enough digits is stored as itself. -/
theorem value?_ofInt64 {n : Int64} (small : n.toInt.natAbs < 2 ^ 53)
    : value? (ofInt64 n) = some (n.toInt : ℚ) := by
  have exact (sign : Sign) {mantissa : Nat} (positive : 0 < mantissa) (bound : mantissa < 2 ^ 53)
      : Holds .binary64 (UnpackedFloat.round .binary64 sign mantissa 0)
        ∧ rational? (UnpackedFloat.round .binary64 sign mantissa 0)
          = some (sign.apply mantissa : ℚ) := by
    have digits : mantissa.log2 < 53 := (Nat.log2_lt (Nat.pos_iff_ne_zero.mp positive)).mpr bound
    have rounded :=
      @rational?_round sign mantissa 0 positive (by omega) (by omega) (by omega)
    rwa [zpow_zero, mul_one] at rounded
  have normalized
      : Holds .binary64 (UnpackedFloat.normalize .binary64 n.toInt 0 .positive)
        ∧ rational? (UnpackedFloat.normalize .binary64 n.toInt 0 .positive)
          = some (n.toInt : ℚ) := by
    generalize n.toInt = integer at small
    obtain negative | rfl | positive := lt_trichotomy integer 0
    · rw [UnpackedFloat.normalize, Int.compare_eq_lt.mpr negative]
      have magnitude : ((-integer).toNat : Int) = -integer := Int.toNat_of_nonneg (by omega)
      simpa [Sign.apply, magnitude]
        using @exact .negative (-integer).toNat (by omega) (by omega)
    · exact ⟨trivial, by simp [UnpackedFloat.normalize, rational?]⟩
    · rw [UnpackedFloat.normalize, Int.compare_eq_gt.mpr positive]
      have magnitude : (integer.toNat : Int) = integer := Int.toNat_of_nonneg (by omega)
      simpa [Sign.apply, magnitude]
        using @exact .positive integer.toNat (by omega) (by omega)
  exact (congrArg rational? (unpack_ofModel_pack normalized.1)).trans normalized.2

-----------------------------------------------------------------------------------------
-- Integral values
-----------------------------------------------------------------------------------------

/-- A sign that is applied twice changes nothing. -/
theorem apply_apply (sign : Sign) (n : Int) : sign.apply (sign.apply n) = n := by
  cases sign <;> simp [Sign.apply]

/-- Whether a value is an integer, told without fractions. -/
theorem apply_eq_iff {sign : Sign} {mantissa : Nat} {exponent n : Int}
    : (sign.apply mantissa * 2 ^ exponent : ℚ) = n
      ↔ ((mantissa * 2 ^ exponent.toNat : Nat) : Int)
        = sign.apply n * (2 ^ (-exponent).toNat : Nat) := by
  have split : (2 : ℚ) ^ exponent = 2 ^ exponent.toNat / 2 ^ (-exponent).toNat := by
    rw [← zpow_natCast, ← zpow_natCast, ← zpow_sub₀ two_ne_zero]
    congr 1
    omega
  rw [split, ← mul_div_assoc, div_eq_iff (by positivity), ← @Int.cast_inj ℚ]
  cases sign with
  | positive => simp [Sign.apply]
  | negative => simp [Sign.apply, neg_eq_iff_eq_neg]

/-- A value is an integer iff the power of two below it divides the one above it. -/
theorem exists_apply_eq_iff {sign : Sign} {mantissa : Nat} {exponent : Int}
    : (∃ n : Int, (sign.apply mantissa * 2 ^ exponent : ℚ) = n)
      ↔ 2 ^ (-exponent).toNat ∣ mantissa * 2 ^ exponent.toNat := by
  simp only [apply_eq_iff]
  constructor
  · rintro ⟨n, same⟩
    exact Int.natCast_dvd_natCast.mp ⟨sign.apply n, same.trans (Int.mul_comm _ _)⟩
  · rintro ⟨quotient, same⟩
    refine ⟨sign.apply quotient, ?_⟩
    rw [apply_apply, same, Nat.mul_comm, Int.natCast_mul]

theorem isIntegral_iff {x : Float} : isIntegral x = true ↔ ∃ n : Int, value? x = some (n : ℚ) := by
  rw [isIntegral, value?]
  cases x.toModel.unpack with
  | zero sign => exact iff_of_true rfl ⟨0, by simp [rational?]⟩
  | finite sign mantissa exponent positive =>
      simp only [rational?, Option.some.injEq, exists_apply_eq_iff]
      obtain whole | fraction := le_or_gt 0 exponent
      · have none : (-exponent).toNat = 0 := by omega
        simp [whole, none]
      · have none : exponent.toNat = 0 := by omega
        simp [not_le.mpr fraction, none, Nat.shiftLeft_eq, Nat.dvd_iff_mod_eq_zero]
  | infinity sign => simp [rational?]
  | notANumber => simp [rational?]

/-- What is left of a mantissa whose last digits are dropped. -/
theorem mantissa_shiftRight (mantissa : ExtendedMantissa) (count : Nat)
    : (mantissa >>> count).mantissa = mantissa.mantissa / 2 ^ count := by
  induction count with
  | zero => exact (Nat.div_one _).symm
  | succ count ih =>
      change (mantissa >>> count).mantissa / 2 = _
      rw [ih, Nat.div_div_eq_div_mul, Nat.pow_succ]

/-- A number without its fraction. -/
theorem roundToInt_eq (sign : Sign) (mantissa : Nat) (exponent : Int)
    : roundToInt sign mantissa exponent
      = sign.apply (mantissa * 2 ^ exponent.toNat / 2 ^ (-exponent).toNat : Nat) := by
  have amount : (0 - (exponent - (exponent.toNat : Int))).toNat = (-exponent).toNat := by omega
  simp only [roundToInt, decreaseExponent, shiftToExponent, mantissa_shiftRight, Int.sub_zero,
    amount, ExtendedMantissa.ofMantissaAndAccuracy, Nat.shiftLeft_eq]

/-- A number that stands for an integer is converted to it, unless it is cut off at the words. -/
theorem toInt64_of_value? {x : Float} {n : Int} (value : value? x = some (n : ℚ))
    : toInt64 x = Int64.ofIntClamp n := by
  refine congrArg Int64.ofIntClamp ?_
  rw [value?] at value
  cases unpacked : x.toModel.unpack with
  | zero sign =>
      rw [unpacked] at value
      have same : (0 : ℚ) = n := Option.some.inj value
      exact_mod_cast same
  | finite sign mantissa exponent positive =>
      rw [unpacked] at value
      have same := apply_eq_iff.mp (Option.some.inj value)
      have scale : ((2 ^ (-exponent).toNat : Nat) : Int) ≠ 0 := by positivity
      change roundToInt sign mantissa exponent = n
      rw [roundToInt_eq, Int.natCast_div, same, Int.mul_ediv_cancel _ scale, apply_apply]
  | infinity sign => rw [unpacked] at value; cases value
  | notANumber => rw [unpacked] at value; cases value

-----------------------------------------------------------------------------------------
-- The limit of the words
-----------------------------------------------------------------------------------------

/-- The limit, unpacked. -/
theorem unpack_integerBound
    : integerBound.toModel.unpack = .finite .positive (2 ^ 52) 11 (by decide) := by
  have holds : Holds .binary64 (.finite .positive (2 ^ 52) 11 (by decide)) := by
    rw [Holds, targetExponent_eq_iff, Nat.log2_two_pow]
    decide
  exact unpack_ofModel_pack holds

/-- A number without its sign. -/
theorem unpack_abs (x : Float) : x.abs.toModel.unpack = x.toModel.unpack.abs := by
  refine unpack_ofModel_pack ?_
  have holds := holds_unpack_toModel x
  cases unpacked : x.toModel.unpack <;> rw [unpacked] at holds <;> exact holds

/-- The order of canonical magnitudes is told by their exponents first. -/
theorem magnitude_le_iff {mantissa : Nat} {exponent : Int} (narrow : mantissa.log2 ≤ 52)
    (normal : mantissa.log2 = 52 ∨ exponent = -1074)
    : ((compare exponent 11).then (compare mantissa (2 ^ 52))).isLE = true
      ↔ (mantissa * 2 ^ exponent : ℚ) ≤ 2 ^ 63 := by
  obtain below | rfl | above := lt_trichotomy exponent 11
  · have digits : (mantissa : ℚ) ≤ 2 ^ 53 := by
      have bound : mantissa < 2 ^ 53 :=
        Nat.lt_log2_self.trans_le (Nat.pow_le_pow_right Nat.two_pos (Nat.succ_le_succ narrow))
      exact_mod_cast bound.le
    have scale : (2 : ℚ) ^ exponent ≤ 2 ^ (10 : Int) :=
      zpow_le_zpow_right₀ one_le_two (by omega)
    refine iff_of_true (by simp [Int.compare_eq_lt.mpr below]) ?_
    calc (mantissa * 2 ^ exponent : ℚ) ≤ 2 ^ 53 * 2 ^ (10 : Int) := by gcongr
      _ = 2 ^ 63 := by norm_num
  · have scale : (2 : ℚ) ^ 63 = (2 ^ 52 : Nat) * 2 ^ (11 : Int) := by norm_num
    rw [scale, mul_le_mul_iff_left₀ (by positivity), Nat.cast_le]
    simp [Nat.isLE_compare]
  · have whole : mantissa.log2 = 52 := by omega
    have digits : (2 ^ 52 : ℚ) ≤ mantissa := by
      have bound : 2 ^ 52 ≤ mantissa := whole ▸ Nat.log2_self_le (by rintro rfl; simp at whole)
      exact_mod_cast bound
    have scale : (2 : ℚ) ^ (12 : Int) ≤ 2 ^ exponent :=
      zpow_le_zpow_right₀ one_le_two (by omega)
    refine iff_of_false (by simp [Int.compare_eq_gt.mpr above]) (not_le.mpr ?_)
    calc (2 ^ 63 : ℚ) < 2 ^ 52 * 2 ^ (12 : Int) := by norm_num
      _ ≤ mantissa * 2 ^ exponent := by gcongr

/-- Numbers are compared with the limit as their values are. -/
theorem abs_le_integerBound_iff {x : Float} {value : ℚ} (known : value? x = some value)
    : x.abs ≤ integerBound ↔ |value| ≤ 2 ^ 63 := by
  have order : x.abs ≤ integerBound
      ↔ (x.toModel.unpack.abs.compare (.finite .positive (2 ^ 52) 11 (by decide))).any (·.isLE) := by
    rw [← unpack_integerBound, ← unpack_abs]
    exact decide_eq_true_iff
  have holds := holds_unpack_toModel x
  rw [value?] at known
  rw [order]
  cases unpacked : x.toModel.unpack with
  | zero sign =>
      rw [unpacked] at known
      obtain rfl : 0 = value := Option.some.inj known
      exact iff_of_true rfl (by norm_num)
  | finite sign mantissa exponent positive =>
      rw [unpacked] at known holds
      obtain rfl := Option.some.inj known
      obtain ⟨narrow, -, normal⟩ := targetExponent_eq_iff.mp holds.1
      have bias : Format.exponentBias .binary64 = 1023 := rfl
      simp only [bias] at narrow normal
      have magnitude : |(sign.apply mantissa * 2 ^ exponent : ℚ)| = mantissa * 2 ^ exponent := by
        rw [abs_mul, abs_of_pos (zpow_pos (two_pos : (0 : ℚ) < 2) exponent)]
        cases sign <;> simp [Sign.apply]
      rw [magnitude]
      exact magnitude_le_iff narrow (by omega)
  | infinity sign => rw [unpacked] at known; cases known
  | notANumber => rw [unpacked] at known; cases known

/-- What passes for an integer stands for one up to the limit. -/
theorem passesAsInteger_iff {x : Float}
    : Literal.passesAsInteger x = true ↔ ∃ n : Int, value? x = some (n : ℚ) ∧ |n| ≤ 2 ^ 63 := by
  rw [Literal.passesAsInteger, Bool.and_eq_true_iff, decide_eq_true_iff, isIntegral_iff,
    ← exists_and_right]
  refine exists_congr fun n => and_congr_right fun value => ?_
  rw [abs_le_integerBound_iff value]
  norm_cast

end Binary

-----------------------------------------------------------------------------------------
-- Payloads
-----------------------------------------------------------------------------------------

/-- What the elements stand for. -/
def Elements.values : Elements → List (Option ℚ)
  | .i1 bytes => bytes.map fun byte => some (if byte = 0 then 0 else 1)
  | .si32 integers => integers.map fun integer => some integer.toInt
  | .si64 integers => integers.map fun integer => some integer.toInt
  | .f32 words =>
    words.map fun word => Binary.rational? (.unpack .binary32 word.toBitVec)
  | .f64 words =>
    words.map fun word => Binary.rational? (.unpack .binary64 word.toBitVec)

/-- The numbers that elements are read as stand for what the elements do, except that 64-bit words
may have too many digits.
-/
theorem Elements.map_value?_toFloats {elements : Elements} (short : elements.dtype ≠ .si64)
    : elements.toFloats.map Binary.value? = elements.values := by
  cases elements with
  | i1 bytes =>
      rw [toFloats, values, List.map_map]
      refine List.map_congr_left fun byte _ => ?_
      rw [Function.comp_apply, Binary.value?_ofInt64, truth]
      · split_ifs <;> rfl
      · rw [truth]
        split_ifs <;> decide
  | si32 integers =>
      rw [toFloats, values, List.map_map]
      refine List.map_congr_left fun integer _ => ?_
      rw [Function.comp_apply, Binary.value?_ofInt64, Int32.toInt_toInt64]
      have upper := integer.toInt_lt
      have lower := integer.le_toInt
      rw [Int32.toInt_toInt64]
      omega
  | si64 integers => exact absurd rfl short
  | f32 words =>
      rw [toFloats, values, List.map_map]
      exact List.map_congr_left fun word _ => Binary.value?_widen word
  | f64 words =>
      rw [toFloats, values, List.map_map]
      exact List.map_congr_left fun word _ => congrArg Binary.rational? (Binary.unpack_ofBits word)

namespace Literal

open Float.Model.UnpackedFloat (Sign)

/-- A value decodes to the integer that it is. The limit of the words decodes to the largest word,
though it is none.
-/
inductive DecodesTo : Option ℚ → Int64 → Prop where
  | word (n : Int64) : DecodesTo (some n.toInt) n
  | limit : DecodesTo (some (2 ^ 63)) Int64.maxValue

/-- What passes for an integer decodes to what it is converted to, and nothing else decodes. -/
theorem decodesTo_iff {x : Float} {n : Int64}
    : DecodesTo (Binary.value? x) n ↔ passesAsInteger x = true ∧ Binary.toInt64 x = n := by
  rw [Binary.passesAsInteger_iff]
  constructor
  · generalize known : Binary.value? x = value
    rintro (n | _)
    · refine ⟨⟨n.toInt, rfl, ?_⟩, ?_⟩
      · have upper := n.toInt_lt
        have lower := n.le_toInt
        exact abs_le.mpr (by omega)
      · rw [Binary.toInt64_of_value? known, Int64.ofIntClamp_toInt]
    · have known : Binary.value? x = some ((2 ^ 63 : Int) : ℚ) := by exact_mod_cast known
      exact ⟨⟨2 ^ 63, by norm_num, by norm_num⟩, (Binary.toInt64_of_value? known).trans rfl⟩
  · rintro ⟨⟨integer, known, bound⟩, rfl⟩
    rw [Binary.toInt64_of_value? known, known]
    obtain ⟨lower, upper⟩ := abs_le.mp bound
    obtain rfl | below := eq_or_lt_of_le upper
    · exact_mod_cast DecodesTo.limit
    · have word : (Int64.ofIntClamp integer).toInt = integer :=
        Int64.toInt_ofIntClamp lower (Int.le_of_lt_add_one below)
      have decoded := DecodesTo.word (Int64.ofIntClamp integer)
      rwa [word] at decoded

/-- Only a word itself decodes to it. -/
theorem decodesTo_word_iff {m n : Int64} : DecodesTo (some m.toInt) n ↔ m = n := by
  constructor
  · generalize known : some (m.toInt : ℚ) = value
    rintro (n | _)
    · exact Int64.toInt_inj.mp (by exact_mod_cast Option.some.inj known)
    · have same : m.toInt = 2 ^ 63 := by exact_mod_cast Option.some.inj known
      have upper := m.toInt_lt
      omega
  · rintro rfl
    exact .word m

/-- Payloads are decoded value by value. -/
theorem integers_eq_ok_iff {literal : Literal} {integers : List Int64}
    : literal.integers = .ok integers
      ↔ List.Forall₂ DecodesTo literal.elements.values integers := by
  have numbers (elements : Elements) (short : elements.dtype ≠ .si64)
      : elements.toFloats.mapM (fun value =>
            if passesAsInteger value then Except.ok (Binary.toInt64 value) else .error value)
          = .ok integers
        ↔ List.Forall₂ DecodesTo elements.values integers := by
    rw [← Elements.map_value?_toFloats short, List.forall₂_map_left_iff, Steps.mapM_eq_ok_iff,
      ← List.forall₂_eq_eq_eq, List.forall₂_map_left_iff, List.forall₂_map_right_iff]
    refine iff_of_eq (congrArg (List.Forall₂ · _ _) (funext₂ fun x n => propext ?_))
    rw [decodesTo_iff]
    split_ifs with passes <;> simp [passes]
  rw [Literal.integers]
  cases known : literal.elements with
  | si64 words =>
      rw [Elements.values, List.forall₂_map_left_iff]
      simp only [decodesTo_word_iff, List.forall₂_eq_eq_eq, Except.ok.injEq]
  | i1 bytes => exact numbers (.i1 bytes) nofun
  | si32 words => exact numbers (.si32 words) nofun
  | f32 words => exact numbers (.f32 words) nofun
  | f64 words => exact numbers (.f64 words) nofun

/-- A payload is decoded as integers iff each of its values is a word, or the limit of the words,
which is decoded to the largest one. Without the limit, it is decoded iff its values are words, to
these.
-/
theorem integral_payloads_decoded (literal : Literal)
    : (∀ integers : List Int64,
        literal.integers = .ok integers
        ↔ List.Forall₂ DecodesTo literal.elements.values integers)
      ∧ (some (2 ^ 63) ∉ literal.elements.values →
        ∀ integers : List Int64,
          literal.integers = .ok integers
          ↔ literal.elements.values = integers.map fun integer => some (integer.toInt : ℚ)) := by
  refine ⟨fun integers => integers_eq_ok_iff, fun limited integers => ?_⟩
  rw [integers_eq_ok_iff, ← List.forall₂_eq_eq_eq, List.forall₂_map_right_iff]
  constructor
  · intro decoded
    have apart := (List.forall₂_and_left _ _).mpr
      ⟨fun value (member : value ∈ literal.elements.values) => ne_of_mem_of_not_mem member limited,
        decoded⟩
    refine apart.imp fun value integer both => ?_
    obtain ⟨other, integer | _⟩ := both
    · rfl
    · exact absurd rfl other
  · exact List.Forall₂.imp fun value integer same => same ▸ .word integer

/-- A 32-bit payload of the least word and of three. -/
def leastAndThree : Literal := ⟨⟨.f32, .ofSizes [2]⟩, [0, 0, 0, 0xdf, 0, 0, 0x40, 0x40]⟩

/-- A 64-bit payload of the limit of the words. -/
def wordLimit : Literal := ⟨⟨.f64, .scalar⟩, [0, 0, 0, 0, 0, 0, 0xe0, 0x43]⟩

/-- The least word is decoded as it is, but the limit is decoded to the largest word. -/
theorem wordLimit_decodes_to_largest
    : some (2 ^ 63) ∉ leastAndThree.elements.values
      ∧ leastAndThree.integers = .ok [Int64.minValue, 3]
      ∧ wordLimit.elements.values = [some (2 ^ 63)]
      ∧ wordLimit.integers = .ok [Int64.maxValue] := by
  have known : leastAndThree.elements.values = [some (-2 ^ 63), some 3] := by
    have read : leastAndThree.elements.values
        = [Binary.rational? (.finite .negative (2 ^ 23) 40 (by decide)),
          Binary.rational? (.finite .positive (3 * 2 ^ 22) (-22) (by decide))] :=
      rfl
    rw [read]
    norm_num [Binary.rational?, Sign.apply]
  have limit : wordLimit.elements.values = [some (2 ^ 63)] := by
    have read : wordLimit.elements.values
        = [Binary.rational? (.finite .positive (2 ^ 52) 11 (by decide))] :=
      rfl
    rw [read]
    norm_num [Binary.rational?, Sign.apply]
  have limited : some (2 ^ 63) ∉ leastAndThree.elements.values := by
    rw [known]
    norm_num
  refine ⟨limited, ?_, limit, ?_⟩
  · have least : Int64.minValue.toInt = -2 ^ 63 := rfl
    have three : Int64.toInt 3 = 3 := rfl
    refine ((integral_payloads_decoded leastAndThree).2 limited _).mpr (known.trans ?_)
    norm_num [least, three]
  · rw [(integral_payloads_decoded wordLimit).1, limit]
    exact .cons .limit .nil

end Literal

end Dataflow
