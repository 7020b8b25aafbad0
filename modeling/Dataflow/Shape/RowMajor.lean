import Dataflow.Number.Word

/-!
Row-major positions. A tensor stores its elements in the order of their coordinates, the
last axis fastest. `steps` and `coordinates` are the two directions between a coordinate
list and a position; `select` lists the positions that a choice of places on each axis has.
-/

namespace Dataflow.RowMajor

/-- The number of positions of a list of sizes. -/
def count (sizes : List Nat) : Nat := sizes.foldl (· * ·) 1

/-- The position step of each axis. -/
def steps : List Nat → List Nat
  | [] => []
  | _ :: sizes => count sizes :: steps sizes

/-- The position step of each axis as a word, which stops at the largest size. A tensor with
elements in memory has words for all its steps.
-/
def strides : List Nat → List Nat
  | [] => []
  | _ :: sizes => sizes.foldr saturatingMul 1 :: strides sizes

/-- Splits a position along the axes, listed from the last one. Everything in front of an
axis of size zero is zero.
-/
def unravelBack (position : Nat) : List Nat → List Nat
  | [] => []
  | 0 :: sizes => 0 :: sizes.map fun _ => 0
  | size :: sizes => position % size :: unravelBack (position / size) sizes

/-- The coordinates of a position. -/
def coordinates (position : Nat) (sizes : List Nat) : List Nat :=
  (unravelBack position sizes.reverse).reverse

/-- The position of some coordinates. -/
def position (coords strides : List Nat) : Nat :=
  (List.zipWith (· * ·) coords strides).foldl (· + ·) 0

/-- The sums of one place of each list, the last list fastest. -/
def select : List (List Nat) → List Nat
  | [] => [0]
  | places :: rest =>
    let tail := select rest
    places.flatMap fun place => tail.map (place + ·)

/-- For every position of a tensor, the sum of its coordinates, each one times a step. A size
of zero leaves no position, however large the others are.
-/
def strided (sizes steps : List Nat) : List Nat :=
  if sizes.contains 0 then []
  else select (List.zipWith (fun size step => (List.range size).map (· * step)) sizes steps)

end Dataflow.RowMajor
