import Dataflow.DType
import Dataflow.Number.Binary
import Dataflow.Number.Word

/-!
Stored elements. Every element type has its own storage, which keeps bit patterns exactly.
Arithmetic happens in one of two wide lanes, numbers (`Float`) or integers (`Int64`), and a
result is converted back when it is stored.
-/

namespace Dataflow

/-- The elements of a tensor in row-major order. -/
inductive Elements where
  /-- Truth values: zero is false, every other byte is true. -/
  | i1 (bytes : List UInt8)
  | si32 (values : List Int32)
  | si64 (values : List Int64)
  /-- Bit patterns of 32-bit numbers. -/
  | f32 (words : List UInt32)
  /-- Bit patterns of 64-bit numbers. -/
  | f64 (words : List UInt64)
  deriving DecidableEq

namespace Elements

/-- The element type. -/
def dtype : Elements → DType
  | .i1 _ => .i1
  | .si32 _ => .si32
  | .si64 _ => .si64
  | .f32 _ => .f32
  | .f64 _ => .f64

/-- The number of elements. -/
def size : Elements → Nat
  | .i1 bytes => bytes.length
  | .si32 values => values.length
  | .si64 values => values.length
  | .f32 words => words.length
  | .f64 words => words.length

-----------------------------------------------------------------------------------------
-- Bytes
-----------------------------------------------------------------------------------------

/-- Reads whole elements from little-endian bytes; a remainder stays unread. -/
def decode (dtype : DType) (bytes : List UInt8) : Elements :=
  match dtype with
  | .i1 => .i1 bytes
  | .si32 => .si32 ((wordsOf 4 bytes).map fun word => (UInt32.ofNat word).toInt32)
  | .si64 => .si64 ((wordsOf 8 bytes).map fun word => (UInt64.ofNat word).toInt64)
  | .f32 => .f32 ((wordsOf 4 bytes).map UInt32.ofNat)
  | .f64 => .f64 ((wordsOf 8 bytes).map UInt64.ofNat)

/-- The little-endian bytes of all elements. -/
def encode : Elements → List UInt8
  | .i1 bytes => bytes
  | .si32 values => values.flatMap fun value => bytesOfWord32 value.toUInt32
  | .si64 values => values.flatMap fun value => bytesOfWord64 value.toUInt64
  | .f32 words => words.flatMap bytesOfWord32
  | .f64 words => words.flatMap bytesOfWord64

-----------------------------------------------------------------------------------------
-- The two lanes
-----------------------------------------------------------------------------------------

/-- One for true, zero for false. -/
def truth (byte : UInt8) : Int64 := if byte = 0 then 0 else 1

/-- The elements as numbers. -/
def toFloats : Elements → List Float
  | .i1 bytes => bytes.map fun byte => Binary.ofInt64 (truth byte)
  | .si32 values => values.map fun value => Binary.ofInt64 value.toInt64
  | .si64 values => values.map Binary.ofInt64
  | .f32 words => words.map Binary.widen
  | .f64 words => words.map Float.ofBits

/-- The elements as integers; numbers lose their fraction and stay in range. -/
def toInts : Elements → List Int64
  | .i1 bytes => bytes.map truth
  | .si32 values => values.map Int32.toInt64
  | .si64 values => values
  | .f32 words => words.map fun word => Binary.toInt64 (Binary.widen word)
  | .f64 words => words.map fun word => Binary.toInt64 (Float.ofBits word)

/-- Stores numbers. Integers lose the fraction and stay in range. -/
def ofFloats (dtype : DType) (values : List Float) : Elements :=
  match dtype with
  | .i1 => .i1 (values.map fun value => if value == Binary.ofInt64 0 then 0 else 1)
  | .si32 => .si32 (values.map Binary.toInt32)
  | .si64 => .si64 (values.map Binary.toInt64)
  | .f32 => .f32 (values.map Binary.narrow)
  | .f64 => .f64 (values.map Float.toBits)

/-- Stores integers. The 32-bit type keeps the low half. -/
def ofInts (dtype : DType) (values : List Int64) : Elements :=
  match dtype with
  | .i1 => .i1 (values.map fun value => if value = 0 then 0 else 1)
  | .si32 => .si32 (values.map Int64.toInt32)
  | .si64 => .si64 values
  | .f32 => .f32 (values.map fun value => Binary.narrow (Binary.ofInt64 value))
  | .f64 => .f64 (values.map fun value => (Binary.ofInt64 value).toBits)

-----------------------------------------------------------------------------------------
-- Selection and comparison
-----------------------------------------------------------------------------------------

/-- Applies one operation on lists of any content to the stored list. -/
def mapList? (f : {α : Type} → List α → Option (List α)) : Elements → Option Elements
  | .i1 bytes => (f bytes).map .i1
  | .si32 values => (f values).map .si32
  | .si64 values => (f values).map .si64
  | .f32 words => (f words).map .f32
  | .f64 words => (f words).map .f64

/-- The items at some positions, in their order; `none` if one of them does not exist. -/
def select? {α : Type} (positions : List Nat) (items : List α) : Option (List α) :=
  positions.mapM (items[·]?)

/-- The elements at some positions, bit for bit; `none` if one of them does not exist. -/
def gather? (elements : Elements) (positions : List Nat) : Option Elements :=
  elements.mapList? (select? positions)

/-- Whether `relation` holds item by item. -/
def equalBy {α : Type} (relation : α → α → Bool) : List α → List α → Bool
  | [], [] => true
  | a :: as, b :: bs => relation a b && equalBy relation as bs
  | _, _ => false

/-- Numeric equality: the two zeros are equal, and what is no number equals nothing. -/
def equal : Elements → Elements → Bool
  | .i1 a, .i1 b => a = b
  | .si32 a, .si32 b => a = b
  | .si64 a, .si64 b => a = b
  | .f32 a, .f32 b => equalBy (fun x y => Float32.ofBits x == Float32.ofBits y) a b
  | .f64 a, .f64 b => equalBy (fun x y => Float.ofBits x == Float.ofBits y) a b
  | _, _ => false

end Elements

end Dataflow
