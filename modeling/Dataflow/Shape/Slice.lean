import Dataflow.Number.Word

/-!
Positions counted from either end. A negative axis or index counts from the end; a slice
clamps its bounds to the length and then walks from its start to its stop, exclusively, in
steps of either sign. A length counts as the signed word that it is, so one from the upper
half of the range lies below zero and leaves no position.
-/

namespace Dataflow.Slice

-----------------------------------------------------------------------------------------
-- One position
-----------------------------------------------------------------------------------------

/-- The position that `index` names among `length` ones, counting from the end if it is
negative; `none` outside.
-/
def position? (index : Int) (length : Nat) : Option Nat :=
  let length := signedSize length
  let counted := if index < 0 then index + length else index
  if 0 ≤ counted ∧ counted < length then some counted.toNat else none

-----------------------------------------------------------------------------------------
-- Slices
-----------------------------------------------------------------------------------------

/-- A slice whose bounds are clamped to a length. -/
structure Walk where
  start : Int
  stop : Int
  step : Int
  deriving DecidableEq

/-- The walk over all of `length` elements. -/
def Walk.whole (length : Nat) : Walk := ⟨0, length, 1⟩

/-- The walk that takes a single position. -/
def Walk.single (position : Nat) : Walk := ⟨position, position + 1, 1⟩

/-- Moves a bound into the range of a length: a negative one counts from the end first. -/
def clampBound (length lower upper bound : Int) : Int :=
  if bound < 0 then max (bound + length) lower else min bound upper

/-- The walk of a slice over `length` elements. A missing step is one; a missing bound is
the end that the walk comes from or goes to.
-/
def walk (length : Nat) (start stop step : Option Int) : Walk :=
  let length := signedSize length
  let step := step.getD 1
  let lower : Int := if step < 0 then -1 else 0
  let upper : Int := if step < 0 then length - 1 else length
  { start :=
      match start with
      | some bound => clampBound length lower upper bound
      | none => if step < 0 then upper else lower
    stop :=
      match stop with
      | some bound => clampBound length lower upper bound
      | none => if step < 0 then lower else upper
    step }

/-- The number of positions on a walk. -/
def Walk.count (walk : Walk) : Nat :=
  if 0 < walk.step ∧ walk.start < walk.stop then
    ((walk.stop - walk.start + walk.step - 1) / walk.step).toNat
  else if walk.step < 0 ∧ walk.stop < walk.start then
    ((walk.start - walk.stop - walk.step - 1) / -walk.step).toNat
  else 0

/-- The positions on a walk, in order. -/
def Walk.positions (walk : Walk) : List Nat :=
  (List.range walk.count).map fun (k : Nat) => (walk.start + k * walk.step).toNat

end Dataflow.Slice
