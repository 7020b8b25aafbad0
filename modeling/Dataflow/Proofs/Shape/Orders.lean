import Dataflow.Operation.Shuffle
import Dataflow.Proofs.Shape.Points
import Mathlib.Data.List.Basic
import Mathlib.Data.List.Forall2
import Mathlib.Data.List.Nodup

/-!
Orders of axes as maps of points. An order sends a point of its result to the point of the source
that is read there: every kept axis gets the coordinate of the result axis that takes it, and the
other axes get zero.
-/

namespace Dataflow

namespace RowMajor

/-- A position without coordinates other than zero is the first one. -/
theorem position_replicate_zero_left (count : Nat) (steps : List Nat)
    : position (List.replicate count 0) steps = 0 := by
  induction count generalizing steps with
  | zero => exact position_nil steps
  | succ count ih =>
      cases steps with
      | nil => exact position_nil_right _
      | cons step steps => rw [List.replicate_succ, position_cons, ih, Nat.zero_mul]

/-- Changing a coordinate from zero moves the position by the step of its axis. -/
theorem position_set {coords steps : List Nat} {axis coord step : Nat}
    (here : coords[axis]? = some 0) (there : steps[axis]? = some step)
    : position (coords.set axis coord) steps = coord * step + position coords steps := by
  induction coords generalizing axis steps with
  | nil => simp at here
  | cons first rest ih =>
      cases steps with
      | nil => simp at there
      | cons firstStep steps =>
          cases axis with
          | zero =>
              obtain rfl : first = 0 := by simpa using here
              obtain rfl : firstStep = step := by simpa using there
              rw [List.set_cons_zero, position_cons, position_cons, Nat.zero_mul, Nat.zero_add]
          | succ axis =>
              rw [List.set_cons_succ, position_cons, position_cons,
                ih (by simpa using here) (by simpa using there)]
              omega

end RowMajor

namespace ShuffleOrder

/-- Nothing is kept by an order without axes. -/
@[simp] theorem kept_nil : kept [] = [] := rfl

/-- A new axis keeps nothing. -/
@[simp] theorem kept_cons_broadcast (order : ShuffleOrder)
    : kept (.broadcast :: order) = kept order := rfl

/-- An axis keeps its source. -/
@[simp] theorem kept_cons_axis (source : Nat) (order : ShuffleOrder)
    : kept (.axis source :: order) = source :: kept order := rfl

/-- An axis is kept iff the order takes it somewhere. -/
theorem mem_kept {order : ShuffleOrder} {axis : Nat} : axis ∈ kept order ↔ .axis axis ∈ order := by
  induction order with
  | nil => simp
  | cons first rest ih =>
      cases first with
      | broadcast => simp [ih]
      | axis source => simp [ih]

/-- An axis is dropped iff it is not kept. -/
theorem mem_dropped {order : ShuffleOrder} {rank axis : Nat}
    : axis ∈ dropped order rank ↔ axis < rank ∧ axis ∉ kept order := by
  simp [dropped]

/-- What the axes of a result take from the axes of the source; `unit` on new axes. -/
def Picks (items : List Nat) (unit : Nat) : ShuffleOrder → List Nat → Prop :=
  List.Forall₂ fun axis item =>
    match axis with
    | .broadcast => item = unit
    | .axis source => items[source]? = some item

/-- The coordinates of the source at which some coordinates of the result are read. -/
def sourceCoords (rank : Nat) : ShuffleOrder → List Nat → List Nat
  | .axis source :: order, coord :: coords => (sourceCoords rank order coords).set source coord
  | .broadcast :: order, _ :: coords => sourceCoords rank order coords
  | _, _ => List.replicate rank 0

/-- There is a coordinate for each axis of the source. -/
@[simp] theorem length_sourceCoords (rank : Nat) (order : ShuffleOrder) (coords : List Nat)
    : (sourceCoords rank order coords).length = rank := by
  induction order generalizing coords with
  | nil => simp [sourceCoords]
  | cons first rest ih =>
      cases coords with
      | nil => cases first <;> simp [sourceCoords]
      | cons coord coords =>
          cases first with
          | broadcast => exact ih coords
          | axis source => rw [sourceCoords, List.length_set, ih]

/-- Axes that are not kept have the coordinate zero. -/
theorem sourceCoords_of_not_kept {rank : Nat} {order : ShuffleOrder} {axis : Nat}
    (coords : List Nat) (fresh : axis ∉ kept order) (inside : axis < rank)
    : (sourceCoords rank order coords)[axis]? = some 0 := by
  induction order generalizing coords with
  | nil => simp [sourceCoords, inside]
  | cons first rest ih =>
      cases coords with
      | nil => cases first <;> simp [sourceCoords, inside]
      | cons coord coords =>
          cases first with
          | broadcast => exact ih coords fresh
          | axis source =>
              rw [kept_cons_axis, List.mem_cons, not_or] at fresh
              rw [sourceCoords, List.getElem?_set_ne (Ne.symm fresh.1)]
              exact ih coords fresh.2

/-- A kept axis has the coordinate of the axis that takes it, by induction on the order. -/
theorem sourceCoords_of_taken {rank : Nat} {order : ShuffleOrder} {coords : List Nat}
    {place axis coord : Nat} (distinct : (kept order).Nodup)
    (taken : order[place]? = some (.axis axis)) (here : coords[place]? = some coord)
    (inside : axis < rank)
    : (sourceCoords rank order coords)[axis]? = some coord := by
  induction order generalizing coords place with
  | nil => simp at taken
  | cons first rest ih =>
      cases coords with
      | nil => simp at here
      | cons firstCoord coords =>
          cases place with
          | zero =>
              obtain rfl : first = .axis axis := by simpa using taken
              obtain rfl : firstCoord = coord := by simpa using here
              rw [sourceCoords, List.getElem?_set_self (by simpa using inside)]
          | succ place =>
              have taken : rest[place]? = some (.axis axis) := by simpa using taken
              have here : coords[place]? = some coord := by simpa using here
              cases first with
              | broadcast => exact ih distinct taken here
              | axis source =>
                  obtain ⟨fresh, distinct⟩ := List.nodup_cons.mp distinct
                  have other : source ≠ axis := by
                    rintro rfl
                    exact fresh (mem_kept.mpr (List.mem_of_getElem? taken))
                  rw [sourceCoords, List.getElem?_set_ne other]
                  exact ih distinct taken here

/-- Reading by picked steps is reading at the source coordinates, by induction on the order. -/
theorem position_sourceCoords {order : ShuffleOrder} {steps picked coords : List Nat}
    (picks : Picks steps 0 order picked) (distinct : (kept order).Nodup)
    (length : coords.length = order.length)
    : RowMajor.position coords picked
      = RowMajor.position (sourceCoords steps.length order coords) steps := by
  induction picks generalizing coords with
  | nil =>
      obtain rfl : coords = [] := List.length_eq_zero_iff.mp length
      have start : sourceCoords steps.length [] [] = List.replicate steps.length 0 := by
        simp [sourceCoords]
      rw [start, RowMajor.position_replicate_zero_left, RowMajor.position_nil]
  | cons here later ih =>
      rename_i axis step order picked
      cases coords with
      | nil => simp at length
      | cons coord coords =>
          have shorter : coords.length = order.length := Nat.succ.inj length
          rw [RowMajor.position_cons]
          cases axis with
          | broadcast =>
              obtain rfl : step = 0 := here
              rw [sourceCoords, ← ih distinct shorter, Nat.mul_zero, Nat.zero_add]
          | axis source =>
              obtain ⟨fresh, distinct⟩ := List.nodup_cons.mp distinct
              have here : steps[source]? = some step := here
              obtain ⟨inside, -⟩ := List.getElem?_eq_some_iff.mp here
              rw [sourceCoords,
                RowMajor.position_set (sourceCoords_of_not_kept coords fresh inside) here,
                ← ih distinct shorter]

/-- The source coordinates of a point of the result are a point of the source, if dropped axes have
one place.
-/
theorem inside_sourceCoords {order : ShuffleOrder} {sizes picked coords : List Nat}
    (picks : Picks sizes 1 order picked) (distinct : (kept order).Nodup)
    (dropped : ∀ axis ∈ dropped order sizes.length, sizes[axis]? = some 1)
    (point : RowMajor.Inside coords picked)
    : RowMajor.Inside (sourceCoords sizes.length order coords) sizes := by
  refine List.forall₂_iff_get.mpr ⟨length_sourceCoords _ _ _, ?_⟩
  intro axis left inside
  change (sourceCoords sizes.length order coords)[axis] < sizes[axis]
  by_cases taken : axis ∈ kept order
  · obtain ⟨place, bound, same⟩ := List.mem_iff_getElem.mp (mem_kept.mp taken)
    have boundPicked : place < picked.length := picks.length_eq ▸ bound
    have boundCoords : place < coords.length := point.length_eq ▸ boundPicked
    have picked := picks.get bound boundPicked
    rw [List.get_eq_getElem, same] at picked
    have here : sizes[axis]? = some _ := picked
    rw [List.getElem?_eq_getElem inside, Option.some.injEq] at here
    have known
        : (sourceCoords sizes.length order coords)[axis]? = some coords[place] :=
      sourceCoords_of_taken distinct (List.getElem?_eq_some_iff.mpr ⟨bound, same⟩)
        (List.getElem?_eq_getElem boundCoords) inside
    rw [List.getElem?_eq_getElem left, Option.some.injEq] at known
    rw [known, here]
    exact point.get boundCoords boundPicked
  · have one := dropped axis (mem_dropped.mpr ⟨inside, taken⟩)
    have zero := sourceCoords_of_not_kept coords taken inside
    rw [List.getElem?_eq_getElem inside, Option.some.injEq] at one
    rw [List.getElem?_eq_getElem left, Option.some.injEq] at zero
    omega

end ShuffleOrder

end Dataflow
