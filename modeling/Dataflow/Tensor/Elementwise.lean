import Dataflow.Tensor.Basic

/-!
Functions of one and two numbers, element by element. Numbers are computed in binary64 and
integers in 64-bit words; the result is then stored as the element type of the first operand.
-/

namespace Dataflow.Elementwise

-----------------------------------------------------------------------------------------
-- One operand
-----------------------------------------------------------------------------------------

/-- The function on numbers. -/
def unaryFloat (kind : UnaryKind) (x : Float) : Float :=
  match kind with
  | .neg => -x
  | .abs => x.abs
  | .exp => x.exp
  | .log => x.log

/-- The function on integers, which wrap. -/
def unaryInt (kind : UnaryKind) : Option (Int64 → Int64) :=
  match kind with
  | .neg => some fun x => -x
  | .abs => some fun x => if x < 0 then -x else x
  | .exp | .log => none

/-- Applies a function to every element. -/
def unary (kind : UnaryKind) (input : Tensor) : Outcome Tensor :=
  if input.dtype.isFloat then
    .ok ⟨input.sizes, .ofFloats input.dtype (input.elements.toFloats.map (unaryFloat kind))⟩
  else
    match unaryInt kind with
    | none => .error (.unsupported kind input.dtype)
    | some f => .ok ⟨input.sizes, .ofInts input.dtype (input.elements.toInts.map f)⟩

-----------------------------------------------------------------------------------------
-- Broadcasting
-----------------------------------------------------------------------------------------

/-- The size of a broadcast axis. -/
def broadcastSize (a b : Nat) : Outcome Nat :=
  if a = b then .ok a
  else if a = 1 then .ok b
  else if b = 1 then .ok a
  else .fail (.broadcast a b)

/-- Sizes with axes of size one in front, up to some rank. -/
def padded (rank : Nat) (sizes : List Nat) : List Nat :=
  List.replicate (rank - sizes.length) 1 ++ sizes

/-- The sizes of a broadcast pair. -/
def broadcastSizes (lhs rhs : List Nat) : Outcome (List Nat) :=
  let rank := max lhs.length rhs.length
  ((padded rank lhs).zip (padded rank rhs)).mapM fun (a, b) => broadcastSize a b

/-- For every position of a larger tensor, the position of a broadcast one that is read there.
-/
def broadcastPositions (source target : List Nat) : List Nat :=
  let steps := List.zipWith (fun size stride => if size = 1 then 0 else stride) source
    (RowMajor.steps source)
  RowMajor.strided target (List.replicate (target.length - source.length) 0 ++ steps)

-----------------------------------------------------------------------------------------
-- Two operands
-----------------------------------------------------------------------------------------

/-- The function on numbers. -/
def binaryFloat (kind : BinaryKind) (x y : Float) : Float :=
  match kind with
  | .add => x + y
  | .sub => x - y
  | .mul => x * y
  | .div => x / y
  | .maximum => Binary.maximum x y
  | .minimum => Binary.minimum x y

/-- Division toward zero. The quotient must fit a word. -/
def divide (x y : Int64) : Outcome Int64 :=
  if y = 0 ∨ (x = Int64.minValue ∧ y = -1) then .fail .divisionByZero else .ok (x / y)

/-- The function on integers, which wrap. -/
def binaryInt (kind : BinaryKind) (x y : Int64) : Outcome Int64 :=
  match kind with
  | .add => .ok (x + y)
  | .sub => .ok (x - y)
  | .mul => .ok (x * y)
  | .div => divide x y
  | .maximum => .ok (if x < y then y else x)
  | .minimum => .ok (if y < x then y else x)

/-- The items at some positions. -/
def fetch {α : Type} (positions : List Nat) (items : List α) : Outcome (List α) :=
  Outcome.require .missingElement (Elements.select? positions items)

/-- Applies a function to every pair of elements. -/
def binary (kind : BinaryKind) (lhs rhs : Tensor) : Outcome Tensor := do
  let sizes ← broadcastSizes lhs.sizes rhs.sizes
  let left := broadcastPositions lhs.sizes sizes
  let right := broadcastPositions rhs.sizes sizes
  if lhs.dtype.isFloat then
    let xs ← fetch left lhs.elements.toFloats
    let ys ← fetch right rhs.elements.toFloats
    .ok ⟨sizes, .ofFloats lhs.dtype (List.zipWith (binaryFloat kind) xs ys)⟩
  else
    let xs ← fetch left lhs.elements.toInts
    let ys ← fetch right rhs.elements.toInts
    let results ← (xs.zip ys).mapM fun (x, y) => binaryInt kind x y
    .ok ⟨sizes, .ofInts lhs.dtype results⟩

end Dataflow.Elementwise
