/-!
Decimal text of a binary number: the fewest digits that read back as the same number, always
written out by position. Digits come from the coarsest decimal grid that has a point in the
interval of reals that round to the number.
-/

namespace Dataflow.Shortest

-----------------------------------------------------------------------------------------
-- Digits
-----------------------------------------------------------------------------------------

/-- The reals that round to a number, as a numerator range over one denominator. The ends
belong to the interval iff the mantissa is even.
-/
structure Interval where
  low : Nat
  centre : Nat
  high : Nat
  denominator : Nat
  closed : Bool

/-- The rounding interval of `mantissa * 2 ^ exponent` in binary64. Below a power of two the
neighbour is half as far, unless the number is among the smallest.
-/
def Interval.of (mantissa : Nat) (exponent : Int) : Interval :=
  let below := if mantissa == 1 <<< 52 && -1074 < exponent then 1 else 2
  let scale := if 0 ≤ exponent then 1 <<< exponent.toNat else 1
  { low := (4 * mantissa - below) * scale
    centre := 4 * mantissa * scale
    high := (4 * mantissa + 2) * scale
    denominator := if 0 ≤ exponent then 4 else 4 <<< (-exponent).toNat
    closed := mantissa % 2 == 0 }

/-- Whether `point * 10 ^ power` lies in the interval. -/
def Interval.holds (interval : Interval) (point : Nat) (power : Int) : Bool :=
  let up := if 0 ≤ power then Nat.pow 10 power.toNat else 1
  let down := if 0 ≤ power then 1 else Nat.pow 10 (-power).toNat
  let value := point * up * interval.denominator
  if interval.closed then
    interval.low * down ≤ value && value ≤ interval.high * down
  else
    interval.low * down < value && value < interval.high * down

/-- The grid point of step `10 ^ power` in the interval that is nearest to its centre; of
two equally near ones, the larger one.
-/
def Interval.nearest? (interval : Interval) (power : Int) : Option Nat :=
  let up := if 0 ≤ power then Nat.pow 10 power.toNat else 1
  let down := if 0 ≤ power then 1 else Nat.pow 10 (-power).toNat
  let centre := interval.centre * down
  let step := up * interval.denominator
  let floor := centre / step
  match interval.holds floor power, interval.holds (floor + 1) power with
  | false, false => none
  | true, false => some floor
  | false, true => some (floor + 1)
  | true, true =>
    if 2 * (centre % step) < step then some floor else some (floor + 1)

/-- Tries ever finer grids, `count` of them, starting with step `10 ^ power`. -/
def search (interval : Interval) : Nat → Int → Option (Nat × Int)
  | 0, _ => none
  | count + 1, power =>
    match interval.nearest? power with
    | some point => some (point, power)
    | none => search interval count (power - 1)

/-- The fewest digits of `mantissa * 2 ^ exponent` and the power of ten they count. Seventeen
significant digits always suffice, and the first grid lies above the leading digit.
-/
def digits (mantissa : Nat) (exponent : Int) : Nat × Int :=
  let top := ((mantissa.log2 : Int) + 1 + exponent) * 30103 / 100000 + 2
  (search (.of mantissa exponent) 24 top).getD (0, 0)

-----------------------------------------------------------------------------------------
-- Text
-----------------------------------------------------------------------------------------

/-- Writes `point * 10 ^ power` by position, without an exponent. -/
def positional (point : Nat) (power : Int) : String :=
  let text := (toString point).toList
  if 0 ≤ power then
    .ofList (text ++ List.replicate power.toNat '0')
  else
    let places := (-power).toNat
    if places < text.length then
      .ofList (text.take (text.length - places) ++ '.' :: text.drop (text.length - places))
    else
      .ofList ('0' :: '.' :: List.replicate (places - text.length) '0' ++ text)

/-- The sign before the text of a negative number. -/
def signed (sign : Float.Model.UnpackedFloat.Sign) (text : String) : String :=
  match sign with
  | .negative => "-" ++ text
  | .positive => text

/-- The text of a number. -/
def render (value : Float) : String :=
  match value.toModel.unpack with
  | .notANumber => "NaN"
  | .infinity sign => signed sign "inf"
  | .zero sign => signed sign "0"
  | .finite sign mantissa exponent _ =>
    let (point, power) := digits mantissa exponent
    signed sign (positional point power)

end Dataflow.Shortest
