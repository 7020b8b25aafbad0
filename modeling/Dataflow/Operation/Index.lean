import Dataflow.Shape.Basic
import Dataflow.Shape.Slice

/-!
Indices whose numbers are known or come from operands. An operand is meant by its position
among the operands of the node.
-/

namespace Dataflow

/-- A number in an index. -/
inductive IndexScalar where
  | static (value : Int)
  /-- The integer that the operand at `position` holds. -/
  | operand (position : Nat)
  deriving DecidableEq

namespace IndexScalar

/-- The position of the operand that is read. -/
def operand? : IndexScalar → Option Nat
  | .static _ => none
  | .operand position => some position

/-- The number, where it is known. -/
def static? : IndexScalar → Option Int
  | .static value => some value
  | .operand _ => none

end IndexScalar

/-- The bounds of a slice; each one may be missing. -/
structure SliceBounds where
  start : Option IndexScalar
  stop : Option IndexScalar
  step : Option IndexScalar
  deriving DecidableEq

namespace SliceBounds

/-- The slice of everything. -/
def full : SliceBounds := ⟨none, none, none⟩

/-- The slice from `start` to `stop`, exclusively. -/
def range (start stop : Int) : SliceBounds := ⟨some (.static start), some (.static stop), none⟩

/-- Whether all bounds are missing. -/
def isFull (bounds : SliceBounds) : Bool := bounds = full

/-- The positions of the operands that are read. -/
def operands (bounds : SliceBounds) : List Nat :=
  [bounds.start, bounds.stop, bounds.step].filterMap fun bound =>
    bound.bind IndexScalar.operand?

/-- A bound as far as it is known: `some none` is a missing one. -/
def known? : Option IndexScalar → Option (Option Int)
  | none => some none
  | some scalar => scalar.static?.map some

/-- The walk over an axis of known length, if all bounds are known. -/
def walk? (bounds : SliceBounds) (length : Nat) : Option Slice.Walk := do
  let start ← known? bounds.start
  let stop ← known? bounds.stop
  let step ← known? bounds.step
  some (Slice.walk length start stop step)

/-- The extent that a slice of an axis has. A full slice of one element has one element,
whatever its step.
-/
def extent (bounds : SliceBounds) : Dimension → Dimension
  | .unknown => .unknown
  | .static length =>
    match bounds.walk? length with
    | some walk => .static walk.count
    | none =>
      if length = 1 ∧ bounds.start = none ∧ bounds.stop = none then .static 1 else .unknown

end SliceBounds

/-- What is taken from an axis or a list: one item, which drops the axis, or a slice. -/
inductive IndexEntry where
  | scalar (index : IndexScalar)
  | slice (bounds : SliceBounds)
  deriving DecidableEq

/-- The positions of the operands that are read. -/
def IndexEntry.operands : IndexEntry → List Nat
  | .scalar index => index.operand?.toList
  | .slice bounds => bounds.operands

/-- A size that is known or comes from an operand. -/
inductive ExtentSource where
  | static (size : Nat)
  /-- The size that the operand at `position` holds. -/
  | operand (position : Nat)
  deriving DecidableEq

/-- The position of the operand that is read. -/
def ExtentSource.operand? : ExtentSource → Option Nat
  | .static _ => none
  | .operand position => some position

/-- A size of a new shape. -/
inductive ReshapeExtent where
  | explicit (size : Nat)
  /-- The size that the other sizes leave. -/
  | infer
  /-- The size that the operand at `position` holds. -/
  | operand (position : Nat)
  deriving DecidableEq

/-- The position of the operand that is read. -/
def ReshapeExtent.operand? : ReshapeExtent → Option Nat
  | .operand position => some position
  | _ => none

end Dataflow
