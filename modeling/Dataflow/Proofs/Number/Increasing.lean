import Dataflow.Number.Increasing
import Mathlib.Data.List.Sort

/-!
Lists that are put in increasing order hold the same numbers, and they hold them in the one order
that there is.
-/

namespace Dataflow

theorem mem_insertIncreasing {number new : Nat} {numbers : List Nat}
    : number ∈ insertIncreasing new numbers ↔ number = new ∨ number ∈ numbers := by
  induction numbers with
  | nil => simp [insertIncreasing]
  | cons first rest ih =>
      rw [insertIncreasing]
      split_ifs with before same
      · simp
      · simp [same]
      · simp only [List.mem_cons, ih]
        tauto

theorem pairwise_insertIncreasing (new : Nat) {numbers : List Nat}
    (sorted : numbers.Pairwise (· < ·))
    : (insertIncreasing new numbers).Pairwise (· < ·) := by
  induction numbers with
  | nil => simp [insertIncreasing]
  | cons first rest ih =>
      obtain ⟨least, later⟩ := List.pairwise_cons.mp sorted
      rw [insertIncreasing]
      split_ifs with before same
      · refine List.pairwise_cons.mpr ⟨fun number member => ?_, sorted⟩
        rcases List.mem_cons.mp member with rfl | member
        · exact before
        · exact before.trans (least number member)
      · exact sorted
      · refine List.pairwise_cons.mpr ⟨fun number member => ?_, ih later⟩
        rcases mem_insertIncreasing.mp member with rfl | member
        · omega
        · exact least number member

theorem pairwise_increasing (numbers : List Nat) : (increasing numbers).Pairwise (· < ·) := by
  induction numbers with
  | nil => exact .nil
  | cons first rest ih => exact pairwise_insertIncreasing first ih

/-- The numbers stay, by induction on the list. -/
theorem mem_increasing {number : Nat} {numbers : List Nat}
    : number ∈ increasing numbers ↔ number ∈ numbers := by
  induction numbers with
  | nil => simp [increasing]
  | cons first rest ih =>
      rw [increasing, List.foldr_cons, mem_insertIncreasing, List.mem_cons]
      exact or_congr_right ih

/-- There is one increasing list of some numbers. -/
theorem eq_of_pairwise_lt {numbers others : List Nat} (sorted : numbers.Pairwise (· < ·))
    (sortedOther : others.Pairwise (· < ·)) (same : ∀ number, number ∈ numbers ↔ number ∈ others)
    : numbers = others := by
  refine List.Perm.eq_of_pairwise (fun a b _ _ ab ba => absurd ab ba.asymm) sorted sortedOther ?_
  exact (List.perm_ext_iff_of_nodup (sorted.imp fun lt => lt.ne)
    (sortedOther.imp fun lt => lt.ne)).mpr same

/-- Numbers in increasing order are determined by which numbers there are. -/
theorem increasing_eq {numbers others : List Nat}
    (same : ∀ number, number ∈ numbers ↔ number ∈ others)
    : increasing numbers = increasing others :=
  eq_of_pairwise_lt (pairwise_increasing numbers) (pairwise_increasing others) fun number => by
    rw [mem_increasing, mem_increasing, same]

end Dataflow
