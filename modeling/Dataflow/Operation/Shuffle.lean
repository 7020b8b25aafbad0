import Dataflow.Shape.Basic

/-!
Orders of axes. An order lists, for every axis of a result, the source axis it comes from or
that it is new; source axes that the order leaves out are dropped.
-/

namespace Dataflow

/-- Where an axis of a shuffled tensor comes from. -/
inductive ShuffleAxis where
  | axis (source : Nat)
  /-- A new axis of extent one. -/
  | broadcast
  deriving DecidableEq

/-- The source axis, for an axis that has one. -/
def ShuffleAxis.source? : ShuffleAxis → Option Nat
  | .axis source => some source
  | .broadcast => none

/-- An order of axes. -/
abbrev ShuffleOrder := List ShuffleAxis

namespace ShuffleOrder

/-- The source axes that are kept, in the order of the result. -/
def kept (order : ShuffleOrder) : List Nat := order.filterMap ShuffleAxis.source?

/-- Whether the order makes a new axis. -/
def insertsAxes (order : ShuffleOrder) : Bool := order.contains .broadcast

/-- The source axes that are left out. -/
def dropped (order : ShuffleOrder) (rank : Nat) : List Nat :=
  (List.range rank).filter fun axis => !(kept order).contains axis

/-- Whether numbers grow from each one to the next. -/
def increasing : List Nat → Bool
  | a :: b :: rest => a < b && increasing (b :: rest)
  | _ => true

/-- Whether the kept axes stay in their order. -/
def preservesOrder (order : ShuffleOrder) : Bool := increasing (kept order)

/-- The order that keeps every axis in its place. -/
def identity (rank : Nat) : ShuffleOrder := (List.range rank).map .axis

/-- Whether the order keeps every axis in its place. -/
def isIdentity (order : ShuffleOrder) (rank : Nat) : Bool := order = identity rank

end ShuffleOrder

end Dataflow
