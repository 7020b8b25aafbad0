import Dataflow.Operation.Index
import Dataflow.Shape.Slice
import Mathlib.Data.List.Basic

/-!
Positions on the walks of slices. Whatever the bounds, a walk over some length stays below it, and
the extent that is inferred for a slice is the number of its positions.
-/

namespace Dataflow

/-- A size as a signed word is at most the size. -/
theorem signedSize_le (size : Nat) : signedSize size ≤ size := by
  rw [signedSize]
  split_ifs <;> omega

/-- No size but zero is zero as a signed word, among those that fit one. -/
theorem signedSize_zero : signedSize 0 = 0 := rfl

namespace Slice

-----------------------------------------------------------------------------------------
-- Walks
-----------------------------------------------------------------------------------------

/-- A walk lists as many positions as it counts. -/
@[simp] theorem length_positions (walk : Walk) : walk.positions.length = walk.count := by
  simp [Walk.positions]

/-- A walk of everything counts everything. -/
@[simp] theorem count_whole (length : Nat) : (Walk.whole length).count = length := by
  rcases Nat.eq_zero_or_pos length with rfl | positive
  · rfl
  · have ascends : 0 < (Walk.whole length).step := Int.one_pos
    have moves : (Walk.whole length).start < (Walk.whole length).stop := Int.natCast_pos.mpr positive
    rw [Walk.count, if_pos ⟨ascends, moves⟩]
    change (((length : Int) - 0 + 1 - 1) / 1).toNat = length
    rw [Int.ediv_one]
    omega

/-- The walk of a single position counts one. -/
@[simp] theorem count_single (position : Nat) : (Walk.single position).count = 1 := by
  have ascends : 0 < (Walk.single position).step := Int.one_pos
  have moves : (Walk.single position).start < (Walk.single position).stop := Int.lt_succ _
  rw [Walk.count, if_pos ⟨ascends, moves⟩]
  change (((position : Int) + 1 - position + 1 - 1) / 1).toNat = 1
  rw [Int.ediv_one]
  omega

/-- A walk of everything lists all positions. -/
theorem positions_whole (length : Nat) : (Walk.whole length).positions = List.range length := by
  rw [Walk.positions, count_whole]
  refine (List.map_congr_left ?_).trans (List.map_id _)
  intro k _
  simp [Walk.whole]

/-- The walk of a single position lists it. -/
theorem positions_single (position : Nat) : (Walk.single position).positions = [position] := by
  rw [Walk.positions, count_single]
  simp [Walk.single]

/-- A walk with a positive step goes up and stays below its stop. -/
theorem ascending_bounds {walk : Walk} (ascends : 0 < walk.step) {k : Nat} (inside : k < walk.count)
    : walk.start ≤ walk.start + k * walk.step
      ∧ walk.start + k * walk.step < walk.stop := by
  rw [Walk.count] at inside
  split_ifs at inside with up down
  · have steps : ((k : Int) + 1) ≤ (walk.stop - walk.start + walk.step - 1) / walk.step := by
      omega
    have scaled := (Int.le_ediv_iff_mul_le ascends).mp steps
    rw [Int.add_mul, Int.one_mul] at scaled
    have grows : 0 ≤ (k : Int) * walk.step := 
      Int.mul_nonneg (Int.natCast_nonneg k) (Int.le_of_lt ascends)
    omega
  · omega
  · omega

/-- A walk with a negative step goes down and stays above its stop. -/
theorem descending_bounds {walk : Walk} (descends : walk.step < 0) {k : Nat}
    (inside : k < walk.count)
    : walk.start + k * walk.step ≤ walk.start
      ∧ walk.stop < walk.start + k * walk.step := by
  rw [Walk.count] at inside
  split_ifs at inside with up down
  · omega
  · have steps : ((k : Int) + 1) ≤ (walk.start - walk.stop - walk.step - 1) / -walk.step := by
      omega
    have scaled := (Int.le_ediv_iff_mul_le (Int.neg_pos_of_neg descends)).mp steps
    rw [Int.add_mul, Int.one_mul, Int.mul_neg] at scaled
    have grows : 0 ≤ (k : Int) * -walk.step :=
      Int.mul_nonneg (Int.natCast_nonneg k) (Int.le_of_lt (Int.neg_pos_of_neg descends))
    rw [Int.mul_neg] at grows
    omega
  · omega

/-- A walk without a step counts nothing. -/
theorem count_of_zero_step {walk : Walk} (still : walk.step = 0) : walk.count = 0 := by
  rw [Walk.count, still]
  simp

-----------------------------------------------------------------------------------------
-- Slices
-----------------------------------------------------------------------------------------

/-- The start and the stop of an upward slice, for the signed length. -/
theorem ascending_walk {length : Nat} {start stop step : Option Int} (ascends : 0 < step.getD 1)
    : (walk length start stop step).stop ≤ max (signedSize length) 0
      ∧ (signedSize length = 0 → (walk length start stop step).start = 0)
      ∧ (walk length start stop step).step = step.getD 1 := by
  have up : ¬ step.getD 1 < 0 := by omega
  simp only [walk, up, if_false, clampBound]
  refine ⟨?_, ?_, trivial⟩
  · cases stop with
    | none => exact Int.le_max_left _ _
    | some bound =>
        dsimp only
        split_ifs <;> omega
  · intro zero
    cases start with
    | none => rfl
    | some bound =>
        dsimp only
        split_ifs <;> omega

/-- The start and the stop of a downward slice, for the signed length. -/
theorem descending_walk {length : Nat} {start stop step : Option Int} (descends : step.getD 1 < 0)
    : (walk length start stop step).start ≤ max (signedSize length - 1) (-1)
      ∧ (signedSize length = 0 → (walk length start stop step).stop = -1)
      ∧ (walk length start stop step).step = step.getD 1 := by
  simp only [walk, descends, if_true, clampBound]
  refine ⟨?_, ?_, trivial⟩
  · cases start with
    | none => exact Int.le_max_left _ _
    | some bound =>
        dsimp only
        split_ifs <;> omega
  · intro zero
    cases stop with
    | none => rfl
    | some bound =>
        dsimp only
        split_ifs <;> omega

/-- A slice takes positions below the length that it is taken from. -/
theorem lt_of_mem_positions {length : Nat} {start stop step : Option Int} {position : Nat}
    (member : position ∈ (walk length start stop step).positions)
    : position < length := by
  obtain ⟨k, inside, rfl⟩ := List.mem_map.mp member
  have inside := List.mem_range.mp inside
  have signed := signedSize_le length
  have zero : length = 0 → signedSize length = 0 := by
    rintro rfl
    exact signedSize_zero
  rcases Int.lt_trichotomy (step.getD 1) 0 with descends | still | ascends
  · obtain ⟨start, stop, same⟩ := @descending_walk length start stop step descends
    obtain ⟨below, above⟩ := descending_bounds (lt_of_eq_of_lt same descends) inside
    rcases Nat.eq_zero_or_pos length with none | some
    · have := zero none
      have := stop (zero none)
      omega
    · omega
  · have none : (walk length start stop step).count = 0 := count_of_zero_step still
    omega
  · obtain ⟨stop, start, same⟩ := @ascending_walk length start stop step ascends
    obtain ⟨above, below⟩ := ascending_bounds (lt_of_lt_of_eq ascends same.symm) inside
    rcases Nat.eq_zero_or_pos length with none | some
    · have := zero none
      have := start (zero none)
      omega
    · omega

/-- A full slice of one element takes it, whatever the step. -/
theorem count_full_of_one {step : Option Int} (moves : step ≠ some 0)
    : (walk 1 none none step).count = 1 := by
  have one : signedSize 1 = 1 := rfl
  have nonzero : step.getD 1 ≠ 0 := by
    cases step with
    | none => decide
    | some step => exact fun zero => moves (congrArg some zero)
  rcases Int.lt_or_gt_of_ne nonzero with descends | ascends
  · have exact : ((0 : Int) - -1 - step.getD 1 - 1) / -step.getD 1 = 1 := by
      have same : (0 : Int) - -1 - step.getD 1 - 1 = -step.getD 1 := by omega
      rw [same]
      exact Int.ediv_self (by omega)
    simp only [walk, one, descends, if_true, Walk.count, Int.sub_self]
    rw [if_neg (by omega), if_pos ⟨trivial, by omega⟩, exact]
    rfl
  · have exact : ((1 : Int) - 0 + step.getD 1 - 1) / step.getD 1 = 1 := by
      have same : (1 : Int) - 0 + step.getD 1 - 1 = step.getD 1 := by omega
      rw [same]
      exact Int.ediv_self (by omega)
    have up : ¬ step.getD 1 < 0 := by omega
    simp only [walk, one, up, if_false, Walk.count]
    rw [if_pos ⟨ascends, by omega⟩, exact]
    rfl

/-- A counted position lies below the length. -/
theorem lt_of_position? {index : Int} {length position : Nat}
    (found : position? index length = some position)
    : position < length := by
  have signed := signedSize_le length
  rw [position?] at found
  split_ifs at found with negative inside inside
  all_goals
    obtain rfl := Option.some.inj found
    omega

end Slice

end Dataflow
