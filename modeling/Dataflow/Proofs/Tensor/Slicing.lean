import Dataflow.Proofs.Tensor.Relocation

/-!
Positions that slices take. The bounds of a slice are clamped to the length, and the slice takes the
positions from the first one to the last one, exclusively, that a number of steps leads to: each one
once, in the direction of the step. The extent that is inferred for a slice, where it is known, is
their number.
-/

namespace Dataflow

namespace Slice

-----------------------------------------------------------------------------------------
-- Clamped bounds
-----------------------------------------------------------------------------------------

/-- A bound of a slice over some length: it counts from the end if it is negative, and is then moved
to the nearest place that a walk in the direction of the step starts from or stops at.
-/
def clamped (length step bound : Int) : Int :=
  max (if 0 < step then 0 else -1)
    (min (if 0 < step then length else length - 1) (if bound < 0 then bound + length else bound))

/-- Where a slice starts: at its start, or else at the end that it comes from. -/
def firstPlace (length step : Int) : Option Int → Int
  | some bound => clamped length step bound
  | none => if 0 < step then 0 else length - 1

/-- Where a slice stops, exclusively: at its stop, or else behind the end that it goes to. -/
def endPlace (length step : Int) : Option Int → Int
  | some bound => clamped length step bound
  | none => if 0 < step then length else -1

/-- A bound lies on one side of the end that it is not moved to. -/
theorem clampBound_eq {length step : Int} (size : 0 ≤ length) (nonzero : step ≠ 0) (bound : Int)
    : clampBound length (if step < 0 then -1 else 0) (if step < 0 then length - 1 else length) bound
      = clamped length step bound := by
  rw [clampBound, clamped]
  split_ifs <;> omega

/-- A step that is not zero, or missing, leads on. -/
theorem getD_ne_zero {step : Option Int} (moves : step ≠ some 0) : step.getD 1 ≠ 0 := by
  cases step with
  | none => decide
  | some step => exact fun zero => moves (congrArg some zero)

/-- The walk of a slice goes from its first place to its last one. -/
theorem walk_eq {length : Nat} (small : length < 2 ^ 63) {step : Option Int} (moves : step ≠ some 0)
    (start stop : Option Int)
    : walk length start stop step
      = ⟨firstPlace length (step.getD 1) start, endPlace length (step.getD 1) stop,
          step.getD 1⟩ := by
  have nonzero : step.getD 1 ≠ 0 := getD_ne_zero moves
  have clamps := @clampBound_eq length (step.getD 1) (Int.natCast_nonneg length) nonzero
  simp only [walk, signedSize_of_lt small, clamps]
  congr 1
  · cases start with
    | some bound => rfl
    | none => simp only [firstPlace]; split_ifs <;> omega
  · cases stop with
    | some bound => rfl
    | none => simp only [endPlace]; split_ifs <;> omega

-----------------------------------------------------------------------------------------
-- Places of walks
-----------------------------------------------------------------------------------------

/-- A walk takes a step iff it has not come to its stop before. -/
theorem lt_count_iff_of_ascending {walk : Walk} (ascends : 0 < walk.step) {k : Nat}
    : k < walk.count ↔ walk.start + k * walk.step < walk.stop := by
  refine ⟨fun inside => (ascending_bounds ascends inside).2, fun below => ?_⟩
  have grows : 0 ≤ (k : Int) * walk.step :=
    Int.mul_nonneg (Int.natCast_nonneg k) (Int.le_of_lt ascends)
  have steps : (k : Int) + 1 ≤ (walk.stop - walk.start + walk.step - 1) / walk.step := by
    rw [Int.le_ediv_iff_mul_le ascends, Int.add_mul, Int.one_mul]
    omega
  rw [Walk.count, if_pos ⟨ascends, by omega⟩]
  omega

/-- A walk takes a step iff it has not come to its stop before. -/
theorem lt_count_iff_of_descending {walk : Walk} (descends : walk.step < 0) {k : Nat}
    : k < walk.count ↔ walk.stop < walk.start + k * walk.step := by
  refine ⟨fun inside => (descending_bounds descends inside).2, fun above => ?_⟩
  have positive : 0 < -walk.step := Int.neg_pos_of_neg descends
  have grows : 0 ≤ (k : Int) * -walk.step :=
    Int.mul_nonneg (Int.natCast_nonneg k) (Int.le_of_lt positive)
  have steps : (k : Int) + 1 ≤ (walk.start - walk.stop - walk.step - 1) / -walk.step := by
    rw [Int.le_ediv_iff_mul_le positive, Int.add_mul, Int.one_mul]
    rw [Int.mul_neg] at grows ⊢
    omega
  rw [Int.mul_neg] at grows
  rw [Walk.count, if_neg (by omega), if_pos ⟨descends, by omega⟩]
  omega

/-- A walk takes a step iff it has not come to its stop before. -/
theorem lt_count_iff {walk : Walk} (moves : walk.step ≠ 0) {k : Nat}
    : k < walk.count
      ↔ if 0 < walk.step then walk.start + k * walk.step < walk.stop
        else walk.stop < walk.start + k * walk.step := by
  split_ifs with ascends
  · exact lt_count_iff_of_ascending ascends
  · exact lt_count_iff_of_descending (by omega)

/-- Steps lead ahead iff their number is not negative. -/
theorem ahead_iff {step : Int} (moves : step ≠ 0) (first k : Int)
    : (if 0 < step then first ≤ first + k * step else first + k * step ≤ first) ↔ 0 ≤ k := by
  split_ifs with ascends
  · rw [← Int.mul_nonneg_iff_of_pos_right ascends]
    omega
  · rw [← Int.mul_nonneg_iff_of_pos_right (show 0 < -step by omega), Int.mul_neg]
    omega

/-- A slice between two places takes a place if it lies on the way, and some steps lead to it. -/
structure Selects (first last step place : Int) : Prop where
  ahead : if 0 < step then first ≤ place else place ≤ first
  before : if 0 < step then place < last else last < place
  reached : step ∣ place - first

/-- A place is selected iff a walk comes to it, before its stop. -/
theorem selects_iff {walk : Walk} (moves : walk.step ≠ 0) {place : Int}
    : Selects walk.start walk.stop walk.step place
      ↔ ∃ k : Nat, k < walk.count ∧ walk.start + k * walk.step = place := by
  constructor
  · rintro ⟨ahead, before, k, reached⟩
    obtain rfl : walk.start + k * walk.step = place := by
      rw [Int.mul_comm k]
      omega
    lift k to Nat using (ahead_iff moves walk.start k).mp ahead
    exact ⟨k, (lt_count_iff moves).mpr before, rfl⟩
  · rintro ⟨k, inside, rfl⟩
    refine ⟨(ahead_iff moves walk.start k).mpr (Int.natCast_nonneg k),
      (lt_count_iff moves).mp inside, k, ?_⟩
    rw [Int.mul_comm walk.step]
    omega

-----------------------------------------------------------------------------------------
-- Positions of slices
-----------------------------------------------------------------------------------------

section

variable {length : Nat} (small : length < 2 ^ 63) {start stop step : Option Int}

include small

/-- A slice lists a position iff its walk comes to it. -/
theorem mem_positions_iff {position : Nat}
    : position ∈ (walk length start stop step).positions
      ↔ ∃ k : Nat, k < (walk length start stop step).count
          ∧ (walk length start stop step).start + k * (walk length start stop step).step
            = position := by
  rw [Walk.positions, List.mem_map]
  refine exists_congr fun k => ?_
  rw [List.mem_range]
  refine and_congr_right fun inside => ?_
  have stays := nonneg_of_lt_count small inside
  omega

/-- The positions of a slice go in the direction of the step. -/
theorem pairwise_positions
    : (0 < step.getD 1 → (walk length start stop step).positions.Pairwise (· < ·))
      ∧ (step.getD 1 < 0 → (walk length start stop step).positions.Pairwise (· > ·)) := by
  have ordered {relation : Nat → Nat → Prop}
      (steps
        : ∀ i j : Nat, i < j → j < (walk length start stop step).count →
            relation
              ((walk length start stop step).start + i * (walk length start stop step).step).toNat
              ((walk length start stop step).start + j * (walk length start stop step).step).toNat)
      : (walk length start stop step).positions.Pairwise relation := by
    rw [Walk.positions, List.pairwise_map]
    exact List.pairwise_lt_range.imp_of_mem fun _ member before =>
      steps _ _ before (List.mem_range.mp member)
  constructor <;> intro direction <;> refine ordered fun i j before inside => ?_
  · have first := @nonneg_of_lt_count length small start stop step i (Nat.lt_trans before inside)
    have further : (i : Int) * step.getD 1 < j * step.getD 1 :=
      Int.mul_lt_mul_of_pos_right (Int.ofNat_lt.mpr before) direction
    rw [show (walk length start stop step).step = step.getD 1 from rfl] at *
    omega
  · have last := @nonneg_of_lt_count length small start stop step j inside
    have further : (j : Int) * step.getD 1 < i * step.getD 1 :=
      Int.mul_lt_mul_of_neg_right (Int.ofNat_lt.mpr before) direction
    rw [show (walk length start stop step).step = step.getD 1 from rfl] at *
    omega

end

end Slice

namespace Movement

section

variable {bounds : SliceBounds} {inputs : Inputs} {start stop step : Option Int}
  (starts : bound inputs bounds.start = .ok start) (stops : bound inputs bounds.stop = .ok stop)
  (steps : bound inputs bounds.step = .ok step) (moves : step ≠ some 0)

include starts stops steps moves

theorem sliceWalk_eq_ok (length : Nat)
    : sliceWalk bounds inputs length = .ok (Slice.walk length start stop step) := by
  rw [sliceWalk, steps, Steps.ok_bind, if_neg moves, starts, Steps.ok_bind, stops, Steps.ok_bind]

end

end Movement

end Dataflow
