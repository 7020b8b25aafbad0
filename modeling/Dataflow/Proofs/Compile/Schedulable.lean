import Dataflow.Proofs.Compile.History
import Dataflow.Proofs.Execution.Copying

/-!
What compilation hands out is ready to run. Whatever an optimizer does and wherever a program comes
from, its entry graph is in order and does not use what it destroyed, so that no run misses a value.
-/

namespace Dataflow

-----------------------------------------------------------------------------------------
-- Entry graphs
-----------------------------------------------------------------------------------------

namespace Program

/-- Whether a single graph, at most, has the entry name. -/
def hasOneEntry (program : Program) : Bool :=
  (program.graphs.filter fun graph => graph.name = program.entry).length ≤ 1

/-- Only the new graph has the name of the replaced one, if it takes that name over or no other graph
has it. By induction on the graphs.
-/
theorem eq_of_find?_replaceFirst {name : String} {new other : Graph} {graphs : List Graph}
    (single
      : new.name = name ∨ (graphs.filter fun graph => graph.name = name).length ≤ 1)
    (found : (replaceFirst name new graphs).find? (fun graph => graph.name = name) = some other)
    : other = new := by
  induction graphs with
  | nil => cases found
  | cons first rest ih =>
      rw [replaceFirst] at found
      by_cases here : first.name = name
      · rw [if_pos here, List.find?_cons] at found
        rcases single with named | single
        · simp only [named, decide_true] at found
          exact (Option.some.inj found).symm
        · rw [List.filter_cons_of_pos (by simpa using here), List.length_cons] at single
          have none : (rest.filter fun graph => graph.name = name) = [] :=
            List.eq_nil_of_length_eq_zero (by omega)
          split at found
          · exact (Option.some.inj found).symm
          · have member := List.mem_of_find?_eq_some found
            exact absurd (List.mem_filter.mpr ⟨member, List.find?_some found⟩) (by simp [none])
      · rw [if_neg here, List.find?_cons_of_neg (by simpa using here)] at found
        refine ih (single.imp_right fun single => ?_) found
        rwa [List.filter_cons_of_neg (by simpa using here)] at single

/-- A new graph of the same name is found where the replaced one was. -/
theorem find?_replaceFirst {name : String} {old new : Graph} {graphs : List Graph}
    (found : graphs.find? (fun graph => graph.name = name) = some old) (named : new.name = name)
    : (replaceFirst name new graphs).find? (fun graph => graph.name = name) = some new := by
  induction graphs with
  | nil => cases found
  | cons first rest ih =>
      rw [replaceFirst]
      split_ifs with here
      · exact List.find?_cons_of_pos (by simpa using named)
      · rw [List.find?_cons_of_neg (by simpa using here)] at found ⊢
        exact ih found

end Program

-----------------------------------------------------------------------------------------
-- Scheduling
-----------------------------------------------------------------------------------------

/-- A graph that was scheduled passes both checks. -/
theorem Graph.checked_of_scheduled {graph sorted : Graph} (done : graph.scheduled = .ok sorted)
    : sorted.checkOrder = .ok () ∧ sorted.checkStorage = .ok () := by
  obtain ⟨ordered, -, done⟩ := Steps.bind_eq_ok_iff.mp done
  obtain ⟨⟨⟩, order, done⟩ := Steps.bind_eq_ok_iff.mp done
  obtain ⟨⟨⟩, storage, done⟩ := Steps.bind_eq_ok_iff.mp done
  obtain rfl := Except.ok.inj done
  exact ⟨Steps.mapError_eq_ok_iff.mp order, Steps.mapError_eq_ok_iff.mp storage⟩

/-- A compiled program holds a scheduled graph in place of its entry graph. -/
theorem CompilesTo.exists_scheduled {backend : String} {optimizer : Optimizer}
    {program compiled : Program} (compiles : CompilesTo backend optimizer program compiled)
    : ∃ old graph,
        program.entryGraph? = some old
        ∧ compiled = program.withEntryGraph graph
        ∧ graph.checkOrder = .ok ()
        ∧ graph.checkStorage = .ok () := by
  obtain ⟨entry, checked, done⟩ := compilesTo_iff.mp compiles
  rw [Program.checkedEntry] at checked
  split at checked
  · cases checked
  · rename_i old found
    rw [finishOptimized] at done
    split at done
    · cases done
    · obtain ⟨graph, scheduled, rfl⟩ := Steps.map_eq_ok_iff.mp done
      exact ⟨old, graph, found, rfl, Graph.checked_of_scheduled scheduled⟩

end Dataflow
