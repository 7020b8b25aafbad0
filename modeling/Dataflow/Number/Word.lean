/-! Machine words: the size limit, signed reading of a size, and little-endian bytes. -/

namespace Dataflow

-----------------------------------------------------------------------------------------
-- Sizes are 64-bit words
-----------------------------------------------------------------------------------------

/-- Sizes, axes and positions stay below this limit. -/
def sizeLimit : Nat := 1 <<< 64

/-- The product of all extents, multiplied from the left; `none` as soon as a partial
product leaves the word, even if a later extent is zero.
-/
def checkedProduct (extents : List Nat) : Option Nat :=
  extents.foldlM (fun total extent =>
    if total * extent < sizeLimit then some (total * extent) else none) 1

/-- A product that stops at the largest size instead of leaving the word. -/
def saturatingMul (a b : Nat) : Nat := min (a * b) (sizeLimit - 1)

/-- A size read as a signed 64-bit word: the upper half of the range is negative. -/
def signedSize (size : Nat) : Int := if size < sizeLimit / 2 then size else size - sizeLimit

-----------------------------------------------------------------------------------------
-- Little-endian bytes
-----------------------------------------------------------------------------------------

/-- The lowest `count` bytes of `value`, least significant first. -/
def littleEndian : Nat → Nat → List UInt8
  | 0, _ => []
  | count + 1, value => UInt8.ofNat value :: littleEndian count (value / 256)

/-- The number whose bytes, least significant first, are `bytes`. -/
def ofLittleEndian : List UInt8 → Nat
  | [] => 0
  | byte :: bytes => byte.toNat + 256 * ofLittleEndian bytes

/-- The first `count` groups of `size` items; a remainder stays unread. -/
def groupsOf {α : Type} (size : Nat) : Nat → List α → List (List α)
  | 0, _ => []
  | count + 1, items => items.take size :: groupsOf size count (items.drop size)

/-- The whole words of `size` bytes that `bytes` starts with. -/
def wordsOf (size : Nat) (bytes : List UInt8) : List Nat :=
  (groupsOf size (bytes.length / size) bytes).map ofLittleEndian

/-- A word of four bytes, least significant first. -/
def bytesOfWord32 (word : UInt32) : List UInt8 := littleEndian 4 word.toNat

/-- A word of eight bytes, least significant first. -/
def bytesOfWord64 (word : UInt64) : List UInt8 := littleEndian 8 word.toNat

end Dataflow
