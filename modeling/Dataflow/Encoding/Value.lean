import Dataflow.Encoding.Type
import Dataflow.Tensor.Basic

/-!
JSON forms of values that show their elements. A floating-point number is shown by its bits in
hexadecimal digits, so nothing is lost; all patterns that are no number are shown alike.
-/

namespace Dataflow

-----------------------------------------------------------------------------------------
-- Bit patterns
-----------------------------------------------------------------------------------------

namespace BitText

/-- A number in hexadecimal digits, with zeros in front up to a width. -/
def digits (width value : Nat) : String :=
  let digits := Nat.toDigits 16 value
  String.ofList (List.replicate (width - digits.length) '0' ++ digits)

/-- The text of a 64-bit pattern. -/
def ofDouble (bits : UInt64) : String :=
  if (Float.ofBits bits).isNaN then "nan" else digits 16 bits.toNat

/-- The text of a 32-bit pattern. -/
def ofSingle (bits : UInt32) : String :=
  if (Binary.widen bits).isNaN then "nan" else digits 8 bits.toNat

/-- The value of a hexadecimal digit. -/
def digit? (char : Char) : Option Nat :=
  if char.isDigit then some (char.toNat - 48)
  else if 'a' ≤ char ∧ char ≤ 'f' then some (char.toNat - 87)
  else if 'A' ≤ char ∧ char ≤ 'F' then some (char.toNat - 55)
  else none

/-- Drops a plus sign. -/
def withoutSign : List Char → List Char
  | '+' :: chars => chars
  | chars => chars

/-- Reads a 64-bit pattern. Leading zeros may be missing. -/
def decoder : Decoder UInt64 := fun mode value => do
  let text ← Decoder.text mode value
  let digits ← (withoutSign text.toList).mapM digit?
  let bits := digits.foldl (fun bits digit => 16 * bits + digit) 0
  if digits.isEmpty ∨ 1 <<< 64 ≤ bits then none else some (.ofNat bits)

end BitText

/-- The JSON form of a number. -/
def doubleToJson (value : Float) : Json := .ofString (BitText.ofDouble value.toBits)

/-- The JSON form of an integer. -/
def int64ToJson (value : Int64) : Json := .integer value.toInt

-----------------------------------------------------------------------------------------
-- Values
-----------------------------------------------------------------------------------------

/-- The JSON form of elements, one by one. -/
def Elements.toJson : Elements → Json
  | .i1 bytes => .array (bytes.map fun byte => .ofNat byte.toNat)
  | .si32 values => .array (values.map fun value => .integer value.toInt)
  | .si64 values => .array (values.map int64ToJson)
  | .f32 words => .array (words.map fun word => .ofString (BitText.ofSingle word))
  | .f64 words => .array (words.map fun word => .ofString (BitText.ofDouble word))

namespace Literal

/-- The JSON form of the sizes. -/
def sizesToJson (literal : Literal) : Json := .array (literal.sizes.map .ofNat)

/-- The JSON form that shows the elements. -/
def contentsToJson (literal : Literal) : Json :=
  .ofMembers
    [("dtype", literal.type.dtype.toJson), ("dims", literal.sizesToJson),
      ("data", literal.elements.toJson)]

/-- The JSON form that shows no elements. -/
def outlineToJson (literal : Literal) : Json :=
  .array [literal.type.dtype.toJson, literal.sizesToJson]

end Literal

namespace HostValue

mutual

/-- The JSON form, where `single` shows a tensor that stands alone and `item` one in a list. -/
def toJsonWith (single item : Literal → Json) : HostValue → Json
  | .tensor literal => single literal
  | .list items => .tagged "list" (.array (items.map item))
  | .tuple parts => .tagged "tuple" (.array (partsToJsonWith single item parts))

/-- The JSON forms of the parts of a tuple. -/
def partsToJsonWith (single item : Literal → Json) : List HostValue → List Json
  | [] => []
  | part :: parts => part.toJsonWith single item :: partsToJsonWith single item parts

end

/-- The JSON form that shows all elements. -/
def contentsToJson : HostValue → Json :=
  toJsonWith (fun literal => .tagged "tensor" literal.contentsToJson) Literal.contentsToJson

/-- The JSON form that shows no elements. -/
def outlineToJson : HostValue → Json := toJsonWith Literal.outlineToJson Literal.outlineToJson

end HostValue

/-- The JSON form that shows all elements. -/
def Value.toJson (value : Value) : Json := value.toHost.contentsToJson

end Dataflow
