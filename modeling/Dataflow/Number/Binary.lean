/-!
Binary floating-point numbers. A stored number is its bit pattern; arithmetic happens in
`Float`, and this module holds the conversions between the two formats and the integers.
Every conversion goes through the unpacked sign, mantissa and exponent, so it computes in
the logic as it does at run time.
-/

namespace Dataflow.Binary

open Float.Model (Format UnpackedFloat)

-----------------------------------------------------------------------------------------
-- Between the two formats
-----------------------------------------------------------------------------------------

/-- Rounds a number to `format`; a number that the format holds stays as it is. -/
def roundTo (format : Format) : UnpackedFloat → UnpackedFloat
  | .finite sign mantissa exponent _ => UnpackedFloat.round format sign mantissa exponent
  | other => other

/-- The number that a 32-bit pattern stands for. -/
def widen (bits : UInt32) : Float :=
  .ofModel (.pack (roundTo .binary64 (UnpackedFloat.unpack .binary32 bits.toBitVec)))

/-- The 32-bit pattern nearest to a number, ties to the even mantissa. -/
def narrow (value : Float) : UInt32 :=
  .ofBitVec (UnpackedFloat.pack .binary32 (roundTo .binary32 value.toModel.unpack))

/-- The 32-bit pattern nearest to a 64-bit pattern. A pattern that is no number keeps its
sign and the leading part of its payload, and becomes quiet.
-/
def narrowBits (bits : UInt64) : UInt32 :=
  if (Float.ofBits bits).isNaN then
    let sign : UInt32 := (bits >>> 63).toUInt32 <<< 31
    let payload : UInt32 := (bits >>> 29).toUInt32 &&& 0x003fffff
    sign ||| (0x7fc00000 : UInt32) ||| payload
  else
    narrow (Float.ofBits bits)

-----------------------------------------------------------------------------------------
-- Between numbers and integers
-----------------------------------------------------------------------------------------

/-- The number nearest to an integer, ties to the even mantissa. -/
def ofInt64 (value : Int64) : Float := .ofModel (.ofInt64 value)

/-- Drops the fraction; values outside the range go to its nearest end, and what is no
number goes to zero.
-/
def toInt64 (value : Float) : Int64 := value.toModel.toInt64

/-- Like `toInt64`, into 32 bits. -/
def toInt32 (value : Float) : Int32 := value.toModel.toInt32

/-- Whether the number is an integer. Infinities and what is no number are none. -/
def isIntegral (value : Float) : Bool :=
  match value.toModel.unpack with
  | .zero _ => true
  | .finite _ mantissa exponent _ => 0 ≤ exponent || mantissa % (1 <<< (-exponent).toNat) == 0
  | _ => false

/-- Two to the sixty-third power, one above the largest 64-bit integer. -/
def integerBound : Float := .ofModel (.ofInt (1 <<< 63 : Nat))

-----------------------------------------------------------------------------------------
-- Extremes
-----------------------------------------------------------------------------------------

/-- What is no number, in its canonical form. -/
def notANumber : Float := .ofBits 0x7ff8000000000000

/-- Above every other number. -/
def infinity : Float := .ofBits 0x7ff0000000000000

/-- The larger of two numbers; what is no number wins over both. -/
def maximum (x y : Float) : Float :=
  if x.isNaN || y.isNaN then notANumber else if x < y then y else x

/-- The smaller of two numbers; what is no number wins over both. -/
def minimum (x y : Float) : Float :=
  if x.isNaN || y.isNaN then notANumber else if y < x then y else x

end Dataflow.Binary
