import Dataflow.Proofs.Rewrite.Acyclic
import Mathlib.Data.List.Basic

/-!
The least order. Of all orders of a body in which every producer stands before its readers, sorting
finds the one that is least, position by position. It fails only for want of such an order: some
operand is unknown, or some value is computed from itself.
-/

namespace Dataflow.Graph

variable {graph : Graph} {needs : List (List Nat)} {order : List Nat}

-----------------------------------------------------------------------------------------
-- Schedules
-----------------------------------------------------------------------------------------

/-- An order of all positions of a body in which every producer stands before its readers. -/
structure Schedules (graph : Graph) (order : List Nat) : Prop where
  all : order.Perm (List.range graph.body.length)
  front
    : ∀ {first second : Nat} {producer reader : Node},
        graph.body[first]? = some producer
        → graph.body[second]? = some reader
        → producer.value ∈ reader.reads
        → order.idxOf first < order.idxOf second

theorem Schedules.mem_iff (schedules : graph.Schedules order) {position : Nat}
    : position ∈ order ↔ position < graph.body.length := by
  rw [schedules.all.mem_iff, List.mem_range]

/-- In such an order, every position comes behind those that it waits for. -/
theorem Schedules.ready (schedules : graph.Schedules order)
    : Ready (graph.body.map graph.needs) order := by
  have distinct : order.Nodup := schedules.all.nodup_iff.mpr List.nodup_range
  refine ⟨distinct, fun position member => ?_, ?_⟩
  · rw [List.length_map]
    exact schedules.mem_iff.mp member
  · intro place position placed need required
    obtain ⟨bound, same⟩ := List.getElem?_eq_some_iff.mp placed
    have inside := schedules.mem_iff.mp (List.mem_of_getElem? placed)
    rw [getD_map_needs (List.getElem?_eq_getElem inside)] at required
    obtain ⟨producer, there, read⟩ := exists_of_mem_needs required
    have front := schedules.front there (List.getElem?_eq_getElem inside) read
    have known := schedules.mem_iff.mpr (List.getElem?_eq_some_iff.mp there).1
    rw [← same, distinct.idxOf_getElem place bound] at front
    exact (List.mem_take_iff_idxOf_lt known).mpr front

/-- Sorted positions are such an order. -/
theorem schedules_of_sorted (distinct : graph.defined.Nodup)
    (sorted : graph.sortedPositions = .ok order)
    : graph.Schedules order := by
  have all := sortedPositions_perm sorted
  have ready := sortedPositions_ready sorted
  refine ⟨all, ?_⟩
  intro first second producer reader atFirst atSecond read
  have known {position : Nat} {node : Node} (found : graph.body[position]? = some node)
      : position ∈ order := by
    rw [all.mem_iff, List.mem_range]
    exact (List.getElem?_eq_some_iff.mp found).1
  have required : first ∈ graph.needs reader :=
    List.mem_filterMap.mpr ⟨_, read, position?_eq_some distinct atFirst⟩
  have behind := ready.behind (List.getElem?_idxOf (known atSecond)) first
    (by rwa [getD_map_needs atSecond])
  exact (List.mem_take_iff_idxOf_lt (known atFirst)).mp behind

-----------------------------------------------------------------------------------------
-- Least schedules
-----------------------------------------------------------------------------------------

/-- What is done stays done, by induction on the number of steps. -/
theorem prefix_schedule (needs : List (List Nat)) (count : Nat) (done : List Nat)
    : done <+: schedule needs count done := by
  induction count generalizing done with
  | zero => exact List.prefix_rfl
  | succ count ih =>
      rw [schedule]
      cases nextReady needs done with
      | none => exact List.prefix_rfl
      | some position => exact (List.prefix_append done [position]).trans (ih _)

/-- What may come next does not come before the next position. -/
theorem Ready.exists_next {done rest : List Nat} {position : Nat}
    (ready : Ready needs (done ++ position :: rest))
    : ∃ next, nextReady needs done = some next ∧ next ≤ position := by
  have placed : (done ++ position :: rest)[done.length]? = some position := by simp
  have known := ready.behind placed
  rw [List.take_left] at known
  have inside : position < needs.length := ready.inside position (List.mem_of_getElem? placed)
  have new : position ∉ done := by
    intro member
    exact (List.nodup_append.mp ready.distinct).2.2 _ member _ List.mem_cons_self rfl
  have here
      : (!done.contains position && (needs.getD position []).all done.contains) = true := by
    simpa [new] using known
  have some : (nextReady needs done).isSome = true :=
    List.find?_isSome.mpr ⟨position, List.mem_range.mpr inside, here⟩
  obtain ⟨next, found⟩ := Option.isSome_iff_exists.mp some
  refine ⟨next, found, ?_⟩
  by_contra before
  have first := (List.find?_range_eq_some.mp found).2.2 position (by omega)
  rw [here] at first
  exact absurd first (by decide)

/-- Scheduling goes on with the least of all ready continuations: as long as both agree, by
induction on the continuation, and where they differ first, the next ready position is less.
-/
theorem Ready.schedule_least {done rest : List Nat} (ready : Ready needs (done ++ rest))
    : Graph.schedule needs rest.length done = done ++ rest
      ∨ List.Lex (· < ·) (Graph.schedule needs rest.length done) (done ++ rest) := by
  induction rest generalizing done with
  | nil => exact .inl (List.append_nil done).symm
  | cons position rest ih =>
      obtain ⟨next, found, first⟩ := ready.exists_next
      rw [List.length_cons, Graph.schedule, found]
      dsimp only
      rcases Nat.eq_or_lt_of_le first with rfl | before
      · have same : done ++ next :: rest = done ++ [next] ++ rest := by simp
        rw [same] at ready ⊢
        exact ih ready
      · obtain ⟨later, continued⟩ := prefix_schedule needs rest.length (done ++ [next])
        rw [← continued, List.append_assoc]
        exact .inr ((List.Lex.rel before).append_left _ done)

/-- Sorted positions are the least order of all. -/
theorem least_of_sorted (sorted : graph.sortedPositions = .ok order) {other : List Nat}
    (schedules : graph.Schedules other)
    : order = other ∨ List.Lex (· < ·) order other := by
  obtain ⟨-, rfl, -⟩ := sortedPositions_eq_ok_iff.mp sorted
  have length : other.length = graph.body.length := by
    rw [schedules.all.length_eq, List.length_range]
  have least := @Ready.schedule_least _ [] other schedules.ready
  rwa [length] at least

-----------------------------------------------------------------------------------------
-- Sorting
-----------------------------------------------------------------------------------------

/-- Sorting reports an unknown operand iff something that is read is not defined. -/
theorem sortedPositions_eq_unknownValue_iff
    : (∃ value, graph.sortedPositions = .error (.unknownValue value)) ↔ ¬graph.ReadsKnown := by
  rw [← unknownOperand?_eq_none_iff]
  rcases sortedPositions_cases graph with
    ⟨value, unknown, failed⟩ | ⟨known, ⟨-, done⟩ | ⟨-, -, node, -, failed⟩⟩
  · simp [unknown, failed]
  · simp [known, done]
  · simp [known, failed]

/-- Sorting reports a cycle iff it is not for something unknown that it finds no order. -/
theorem sortedPositions_eq_cyclic_iff
    : (∃ value, graph.sortedPositions = .error (.cyclic value))
      ↔ graph.ReadsKnown ∧ ¬∃ order, graph.sortedPositions = .ok order := by
  rw [← unknownOperand?_eq_none_iff]
  rcases sortedPositions_cases graph with
    ⟨value, unknown, failed⟩ | ⟨known, ⟨-, done⟩ | ⟨-, -, node, -, failed⟩⟩
  · simp [unknown, failed]
  · simp [done]
  · simp [known, failed]

/-- Sorting leaves a body as it is in which every node reads what is defined in front of it. -/
theorem sortedPositions_of_reads (distinct : graph.defined.Nodup)
    (reads
      : ∀ {position : Nat} {node : Node},
          graph.body[position]? = some node
          → ∀ value ∈ node.reads, value ∈ graph.definedBefore position)
    : graph.sortedPositions = .ok (List.range graph.body.length) := by
  have ordered : Ordered { graph with outputs := [] } :=
    ⟨distinct, reads, fun _ output => absurd output List.not_mem_nil⟩
  exact ordered.sortedPositions

/-- A body whose values have different names has an order iff all its operands are defined and no
value is read on the way to itself. Then the order that is found is the least one in which every
producer stands before its readers, which is the order of the body if that is one, and the body
in this order passes the check if the outputs are defined. Without an order, an unknown operand is
reported if there is any, and a cycle otherwise.
-/
theorem sortedPositions_least (graph : Graph) (distinct : graph.defined.Nodup)
    : ((∃ order, graph.sortedPositions = .ok order)
        ↔ graph.ReadsKnown ∧ ¬∃ value, Relation.TransGen graph.ReadsFrom value value)
      ∧ (∀ order,
          graph.sortedPositions = .ok order
          → graph.Schedules order
            ∧ (∀ other,
                graph.Schedules other → order = other ∨ List.Lex (· < ·) order other)
            ∧ ((∀ value ∈ graph.outputs, value ∈ graph.defined)
              → checkOrder { graph with body := permute graph.body order } = .ok ()))
      ∧ ((∀ {position : Nat} {node : Node},
            graph.body[position]? = some node
            → ∀ value ∈ node.reads, value ∈ graph.definedBefore position)
          → graph.sortedPositions = .ok (List.range graph.body.length))
      ∧ ((∃ value, graph.sortedPositions = .error (.unknownValue value)) ↔ ¬graph.ReadsKnown)
      ∧ ((∃ value, graph.sortedPositions = .error (.cyclic value))
        ↔ graph.ReadsKnown ∧ ∃ value, Relation.TransGen graph.ReadsFrom value value) := by
  have sortable
      : (∃ order, graph.sortedPositions = .ok order)
        ↔ graph.ReadsKnown ∧ ¬∃ value, Relation.TransGen graph.ReadsFrom value value := by
    rw [exists_sortedPositions_iff distinct, acyclic_iff, not_exists]
  refine ⟨sortable, ?_, sortedPositions_of_reads distinct, sortedPositions_eq_unknownValue_iff, ?_⟩
  · intro order sorted
    refine ⟨schedules_of_sorted distinct sorted, fun _ => least_of_sorted sorted, ?_⟩
    intro shown
    have known := ReadsKnown.of_sorted sorted
    have closed : graph.Closed := ⟨distinct, fun member => known _ member, shown⟩
    exact checkOrder_eq_ok_iff.mpr (closed.ordered_permute sorted)
  · rw [sortedPositions_eq_cyclic_iff, sortable]
    tauto

/-- A graph that adds the negation of its input to itself in front of this negation. -/
def lateOperand : Graph where
  name := "late"
  inputTypes := [.tensor ⟨.si64, ⟨[.static 2]⟩⟩]
  inputs := [⟨0⟩]
  outputTypes := [.tensor ⟨.si64, ⟨[.static 2]⟩⟩]
  body :=
    [⟨⟨2⟩, .binary .add, [.value ⟨1⟩, .value ⟨1⟩], .tensor ⟨.si64, ⟨[.static 2]⟩⟩⟩,
      ⟨⟨1⟩, .unary .neg, [.value ⟨0⟩], .tensor ⟨.si64, ⟨[.static 2]⟩⟩⟩]
  outputs := [⟨2⟩]

/-- The negation goes first. -/
theorem lateOperand_least
    : lateOperand.defined.Nodup
      ∧ lateOperand.sortedPositions = .ok [1, 0]
      ∧ lateOperand.Schedules [1, 0]
      ∧ ¬lateOperand.Schedules [0, 1] := by
  have distinct : lateOperand.defined.Nodup := by decide
  have sorted : lateOperand.sortedPositions = .ok [1, 0] := rfl
  obtain ⟨schedules, least, -⟩ := (sortedPositions_least lateOperand distinct).2.1 _ sorted
  refine ⟨distinct, sorted, schedules, fun other => ?_⟩
  exact absurd (least [0, 1] other) (by decide)

end Dataflow.Graph
