import Dataflow.Graph.Order
import Mathlib.Data.List.Basic
import Mathlib.Data.List.Count
import Mathlib.Data.List.Perm.Basic
import Mathlib.Data.List.Perm.Subperm
import Mathlib.Data.List.Range

/-!
Sorted positions. The counts of the queue find the same order as a search for the first position
that waits for none that is not done. Sorted positions list every position of the body once, and a
node comes behind everything that it waits for. A body that is put in such an order keeps its nodes.
-/

namespace Dataflow.Graph

-----------------------------------------------------------------------------------------
-- Scheduling
-----------------------------------------------------------------------------------------

/-- The first position that is not done and waits for none that is not. -/
def nextReady (needs : List (List Nat)) (done : List Nat) : Option Nat :=
  (List.range needs.length).find? fun position =>
    !done.contains position && (needs.getD position []).all done.contains

/-- Appends ready positions, up to a number of them. -/
def schedule (needs : List (List Nat)) : Nat → List Nat → List Nat
  | 0, done => done
  | count + 1, done =>
    match nextReady needs done with
    | some position => schedule needs count (done ++ [position])
    | none => done

/-- A list of different positions in which every position comes behind those that it waits for.
-/
structure Ready (needs : List (List Nat)) (order : List Nat) : Prop where
  distinct : order.Nodup
  inside : ∀ position ∈ order, position < needs.length
  behind
    : ∀ {place position : Nat},
        order[place]? = some position
        → ∀ need ∈ needs.getD position [], need ∈ order.take place

/-- The next position is new, and everything that it waits for is done. -/
theorem nextReady_eq_some {needs : List (List Nat)} {done : List Nat} {position : Nat}
    (found : nextReady needs done = some position)
    : position < needs.length ∧ position ∉ done
      ∧ ∀ need ∈ needs.getD position [], need ∈ done := by
  have member := List.mem_of_find?_eq_some found
  have holds := List.find?_some found
  simp only [Bool.and_eq_true, Bool.not_eq_true', List.all_eq_true, List.contains_eq_mem,
    decide_eq_false_iff_not, decide_eq_true_eq] at holds
  exact ⟨List.mem_range.mp member, holds.1, holds.2⟩

/-- A position that waits for nothing else may be appended. -/
theorem Ready.append {needs : List (List Nat)} {done : List Nat} {position : Nat}
    (ready : Ready needs done) (found : nextReady needs done = some position)
    : Ready needs (done ++ [position]) := by
  obtain ⟨inside, new, waits⟩ := nextReady_eq_some found
  refine ⟨?_, ?_, ?_⟩
  · refine List.nodup_append.mpr ⟨ready.distinct, by simp, ?_⟩
    rintro old member _ single rfl
    exact new (List.mem_singleton.mp single ▸ member)
  · intro other member
    rcases List.mem_append.mp member with old | single
    · exact ready.inside other old
    · exact List.mem_singleton.mp single ▸ inside
  · intro place other placed need required
    rcases Nat.lt_or_ge place done.length with before | behind
    · rw [List.getElem?_append_left before] at placed
      rw [List.take_append_of_le_length before.le]
      exact ready.behind placed need required
    · rw [List.getElem?_append_right behind] at placed
      obtain ⟨zero, rfl⟩ : place - done.length = 0 ∧ position = other := by
        cases spot : place - done.length with
        | zero => simpa [spot] using placed
        | succ _ => simp [spot] at placed
      have end_ : place = done.length := by omega
      rw [end_, List.take_left]
      exact waits need required

/-- Scheduling keeps a list ready, by induction on the number of steps. -/
theorem Ready.schedule {needs : List (List Nat)} {done : List Nat} (ready : Ready needs done)
    (count : Nat)
    : Ready needs (Graph.schedule needs count done) := by
  induction count generalizing done with
  | zero => exact ready
  | succ count ih =>
      rw [Graph.schedule]
      cases found : nextReady needs done with
      | none => exact ready
      | some position => exact ih (ready.append found)

/-- There are no more ready positions than positions. -/
theorem Ready.length_le {needs : List (List Nat)} {order : List Nat} (ready : Ready needs order)
    : order.length ≤ needs.length := by
  have inside : order ⊆ List.range needs.length := fun position member =>
    List.mem_range.mpr (ready.inside position member)
  simpa using (ready.distinct.subperm inside).length_le

/-- Scheduling goes on until nothing is ready, by induction on the number of steps. -/
theorem length_schedule_or (needs : List (List Nat)) (count : Nat) (done : List Nat)
    : (schedule needs count done).length = done.length + count
      ∨ nextReady needs (schedule needs count done) = none := by
  induction count generalizing done with
  | zero => exact .inl rfl
  | succ count ih =>
      rw [schedule]
      cases found : nextReady needs done with
      | none => exact .inr found
      | some position =>
          refine (ih (done ++ [position])).imp_left fun length => length.trans ?_
          rw [List.length_append, List.length_singleton]
          omega

/-- A list of different positions that is too short misses one of them. -/
theorem exists_missing {needs : List (List Nat)} {done : List Nat}
    (short : done.length < needs.length)
    : ∃ missing < needs.length, missing ∉ done := by
  by_contra complete
  have all : List.range needs.length ⊆ done := by
    intro position member
    by_contra undone
    exact complete ⟨position, List.mem_range.mp member, undone⟩
  have length := (List.nodup_range.subperm all).length_le
  rw [List.length_range] at length
  omega

/-- As long as nothing is ready, a position that is not done waits for one that is not. -/
theorem exists_awaited {needs : List (List Nat)} {done : List Nat} {position : Nat}
    (stuck : nextReady needs done = none) (inside : position < needs.length)
    (undone : position ∉ done)
    : ∃ need ∈ needs.getD position [], need ∉ done := by
  have waits := List.find?_eq_none.mp stuck position (List.mem_range.mpr inside)
  simpa [undone] using waits

-----------------------------------------------------------------------------------------
-- Counting
-----------------------------------------------------------------------------------------

namespace Queue

variable {needs : List (List Nat)} {queue : Queue} {position : Nat}

@[simp]
theorem order_foldl_supply (readers : List Nat) (queue : Queue)
    : (readers.foldl supply queue).order = queue.order := by
  induction readers generalizing queue with
  | nil => rfl
  | cons reader rest ih => exact ih _

@[simp]
theorem length_foldl_supply (readers : List Nat) (queue : Queue)
    : (readers.foldl supply queue).pending.length = queue.pending.length := by
  induction readers generalizing queue with
  | nil => rfl
  | cons reader rest ih => exact (ih _).trans List.length_set

theorem pending_supply (queue : Queue) (reader position : Nat)
    : (queue.supply reader).pending.getD position 0
      = queue.pending.getD position 0 - if reader = position then 1 else 0 := by
  simp only [supply, List.getD_eq_getElem?_getD, List.getElem?_set]
  split_ifs with same inside
  · rw [same, Option.getD_some]
  · rw [List.getElem?_eq_none (by omega)]
    rfl
  · rfl

/-- A position waits for one operand less each time that it is supplied, by induction on the
supplied positions.
-/
theorem pending_foldl_supply (readers : List Nat) (queue : Queue) (position : Nat)
    : (readers.foldl supply queue).pending.getD position 0
      = queue.pending.getD position 0 - readers.count position := by
  induction readers generalizing queue with
  | nil => rfl
  | cons reader rest ih =>
      rw [List.foldl_cons, ih, pending_supply, List.count_cons]
      simp only [beq_iff_eq]
      omega

/-- The ready positions are those that wait for nothing and are not done. -/
structure Settled (queue : Queue) : Prop where
  distinct : queue.ready.Nodup
  mem_ready
    : ∀ {position : Nat},
        position ∈ queue.ready
        ↔ position < queue.pending.length
          ∧ position ∉ queue.order
          ∧ queue.pending.getD position 0 = 0

/-- A position that waits may be supplied. -/
theorem Settled.supply (settled : queue.Settled) (waits : 0 < queue.pending.getD position 0)
    (undone : position ∉ queue.order)
    : (queue.supply position).Settled := by
  have inside : position < queue.pending.length := by
    by_contra outside
    rw [List.getD_eq_getElem?_getD, List.getElem?_eq_none (by omega)] at waits
    exact Nat.lt_irrefl 0 waits
  have new : position ∉ queue.ready := fun member => waits.ne' (settled.mem_ready.mp member).2.2
  have ready
      : (queue.supply position).ready
        = if queue.pending.getD position 0 - 1 = 0 then position :: queue.ready
          else queue.ready :=
    rfl
  constructor
  · rw [ready]
    split_ifs
    · exact List.nodup_cons.mpr ⟨new, settled.distinct⟩
    · exact settled.distinct
  · intro other
    rw [pending_supply, ready]
    have length : (queue.supply position).pending.length = queue.pending.length :=
      List.length_set
    have order : (queue.supply position).order = queue.order := rfl
    rw [length, order]
    by_cases same : position = other
    · subst same
      rw [if_pos rfl]
      split_ifs with last
      · exact iff_of_true List.mem_cons_self ⟨inside, undone, last⟩
      · exact iff_of_false new fun settled => last settled.2.2
    · have others : other ∈ position :: queue.ready ↔ other ∈ queue.ready := by
        simp [Ne.symm same]
      rw [if_neg same, Nat.sub_zero, ← settled.mem_ready]
      split_ifs
      · exact others
      · exact Iff.rfl

/-- Positions may be supplied as often as they wait, by induction on the supplied positions. -/
theorem Settled.foldl_supply {readers : List Nat} (settled : queue.Settled)
    (waits : ∀ position, readers.count position ≤ queue.pending.getD position 0)
    (undone : ∀ position ∈ readers, position ∉ queue.order)
    : (readers.foldl Queue.supply queue).Settled := by
  induction readers generalizing queue with
  | nil => exact settled
  | cons reader rest ih =>
      have here := waits reader
      rw [List.count_cons_self] at here
      refine ih (settled.supply (by omega) (undone reader List.mem_cons_self)) ?_
        fun position member => undone position (List.mem_cons_of_mem _ member)
      intro position
      have there := waits position
      rw [List.count_cons] at there
      rw [pending_supply]
      simp only [beq_iff_eq] at there
      omega

/-- A ready position may be done. -/
theorem Settled.finish (settled : queue.Settled) (position : Nat)
    : (queue.finish position).Settled := by
  refine ⟨settled.distinct.erase _, ?_⟩
  intro other
  rw [Queue.finish, settled.distinct.mem_erase_iff, settled.mem_ready, List.mem_append,
    List.mem_singleton]
  tauto

/-- A position depends on another one as often as it waits for it, by induction on what the
positions wait for.
-/
theorem count_dependents (needs : List (List Nat)) (position reader : Nat)
    : (dependents needs position).count reader = (needs.getD reader []).count position := by
  have counted (start : Nat)
      : ((needs.zipIdx start).flatMap fun reader =>
          List.replicate (reader.1.count position) reader.2).count (start + reader)
        = (needs.getD reader []).count position := by
    induction needs generalizing start reader with
    | nil => rfl
    | cons producers rest ih =>
        rw [List.zipIdx_cons, List.flatMap_cons, List.count_append]
        dsimp only
        rw [List.count_replicate]
        cases reader with
        | zero =>
            have later
                : start ∉ (rest.zipIdx (start + 1)).flatMap fun reader =>
                    List.replicate (reader.1.count position) reader.2 := by
              intro member
              obtain ⟨⟨others, place⟩, listed, repeated⟩ := List.mem_flatMap.mp member
              have behind := (List.mem_zipIdx listed).1
              have same := List.eq_of_mem_replicate repeated
              omega
            rw [Nat.add_zero, List.count_eq_zero.mpr later]
            simp
        | succ reader =>
            have apart : (start == start + (reader + 1)) = false := by simp
            rw [apart, Nat.add_comm reader 1, ← Nat.add_assoc, ih]
            simp [Nat.add_comm 1 reader]
  simpa [dependents] using counted 0

/-- The queue counts what is not done. -/
structure Tracks (needs : List (List Nat)) (queue : Queue) : Prop extends queue.Settled where
  done : Ready needs queue.order
  length : queue.pending.length = needs.length
  pending
    : ∀ position,
        queue.pending.getD position 0
        = (needs.getD position []).countP fun need => need ∉ queue.order

/-- A position waits for nothing iff everything that it needs is done. -/
theorem Tracks.pending_eq_zero_iff (tracks : Tracks needs queue)
    : queue.pending.getD position 0 = 0
      ↔ ∀ need ∈ needs.getD position [], need ∈ queue.order := by
  rw [tracks.pending, List.countP_eq_zero]
  simp

/-- At first, nothing that is needed is done. -/
theorem tracks_start (needs : List (List Nat)) : Tracks needs (start needs) where
  distinct := List.nodup_range.filter _
  mem_ready := by
    intro position
    rw [start, List.mem_filter, List.mem_range, List.length_map]
    simp only [List.getD_eq_getElem?_getD, List.getElem?_map, List.isEmpty_iff, List.not_mem_nil,
      not_false_eq_true, true_and]
    refine and_congr_right fun inside => ?_
    rw [List.getElem?_eq_getElem inside]
    exact List.length_eq_zero_iff.symm
  done := ⟨List.nodup_nil, by simp [start], by simp [start]⟩
  length := List.length_map _
  pending := by
    intro position
    rw [start]
    simp only [List.getD_eq_getElem?_getD, List.getElem?_map, List.not_mem_nil, not_false_eq_true,
      decide_true, List.countP_true]
    cases needs[position]? <;> rfl

/-- The first ready position is the first one that waits for nothing. -/
theorem Tracks.nextReady (tracks : Tracks needs queue)
    : nextReady needs queue.order = queue.ready.min? := by
  have holds (position : Nat)
      : position ∈ queue.ready
        ↔ position < needs.length
          ∧ (!queue.order.contains position
              && (needs.getD position []).all queue.order.contains) = true := by
    rw [tracks.mem_ready, tracks.length, tracks.pending_eq_zero_iff]
    simp
  cases least : queue.ready.min? with
  | none =>
      rw [List.min?_eq_none_iff] at least
      refine List.find?_eq_none.mpr fun position inside found => ?_
      have member := (holds position).mpr ⟨List.mem_range.mp inside, found⟩
      rw [least] at member
      exact List.not_mem_nil member
  | some position =>
      obtain ⟨member, first⟩ := List.min?_eq_some_iff.mp least
      obtain ⟨inside, found⟩ := (holds position).mp member
      refine List.find?_range_eq_some.mpr ⟨found, List.mem_range.mpr inside, fun other before => ?_⟩
      by_contra earlier
      have ready := (holds other).mpr ⟨by omega, by simpa using earlier⟩
      have bound := first other ready
      omega

/-- What is not done is the new position, as often as it is waited for, and what is not done behind
it. By induction on what is waited for.
-/
theorem countP_not_done {done : List Nat} (new : position ∉ done) (list : List Nat)
    : list.countP (fun need => need ∉ done)
      = list.countP (fun need => need ∉ done ++ [position]) + list.count position := by
  induction list with
  | nil => rfl
  | cons need rest ih =>
      rw [List.countP_cons, List.countP_cons, List.count_cons, ih]
      by_cases same : need = position
      · subst same
        simp [new]
        omega
      · simp [same]
        omega

/-- The queue still counts what is not done when the next position is done. -/
theorem Tracks.next (tracks : Tracks needs queue) {after : Queue}
    (next : queue.next? needs = some after)
    : Tracks needs after
      ∧ ∃ position,
          Graph.nextReady needs queue.order = some position
          ∧ after.order = queue.order ++ [position] := by
  obtain ⟨position, least, rfl⟩ := Option.map_eq_some_iff.mp next
  have found : Graph.nextReady needs queue.order = some position := tracks.nextReady.trans least
  obtain ⟨-, new, known⟩ := nextReady_eq_some found
  have pending (other : Nat)
      : (queue.finish position).pending.getD other 0
        = (needs.getD other []).countP (fun need => need ∉ queue.order ++ [position])
          + (dependents needs position).count other := by
    rw [count_dependents]
    exact (tracks.pending other).trans (countP_not_done new _)
  have undone : ∀ other ∈ dependents needs position, other ∉ (queue.finish position).order := by
    intro other member
    have waits : position ∈ needs.getD other [] := by
      rw [← List.count_pos_iff, ← count_dependents]
      exact List.count_pos_iff.mpr member
    rw [Queue.finish, List.mem_append, List.mem_singleton]
    rintro (done | rfl)
    · obtain ⟨place, placed⟩ := List.mem_iff_getElem?.mp done
      exact new (List.mem_of_mem_take (tracks.done.behind placed position waits))
    · exact new (known _ waits)
  have settled : ((dependents needs position).foldl supply (queue.finish position)).Settled :=
    (tracks.toSettled.finish position).foldl_supply (fun other => by rw [pending]; omega) undone
  have order
      : ((dependents needs position).foldl supply (queue.finish position)).order
        = queue.order ++ [position] :=
    order_foldl_supply ..
  refine ⟨{ settled with done := ?_, length := ?_, pending := fun other => ?_ }, position, found, order⟩
  · rw [order]
    exact tracks.done.append found
  · rw [length_foldl_supply]
    exact tracks.length
  · rw [pending_foldl_supply, pending, order]
    exact Nat.add_sub_cancel ..

/-- The queue finds the order of a schedule, by induction on the number of steps. -/
theorem Tracks.drain (tracks : Tracks needs queue) (count : Nat)
    : Tracks needs (queue.drain needs count)
      ∧ (queue.drain needs count).order = schedule needs count queue.order := by
  induction count generalizing queue with
  | zero => exact ⟨tracks, rfl⟩
  | succ count ih =>
      rw [Queue.drain, schedule]
      cases next : queue.next? needs with
      | none =>
          have least : queue.ready.min? = none := Option.map_eq_none_iff.mp next
          rw [tracks.nextReady, least]
          exact ⟨tracks, rfl⟩
      | some after =>
          obtain ⟨kept, position, found, order⟩ := tracks.next next
          rw [found]
          dsimp only
          rw [← order]
          exact ih kept

/-- A queue that is stuck too early has a position that waits. -/
theorem Tracks.exists_stopped (tracks : Tracks needs queue)
    (stuck : Graph.nextReady needs queue.order = none)
    (short : queue.order.length < needs.length)
    : ∃ position < needs.length, queue.pending.findIdx? (0 < ·) = some position := by
  obtain ⟨missing, inside, undone⟩ := exists_missing short
  obtain ⟨need, awaited, absent⟩ := exists_awaited stuck inside undone
  have within : missing < queue.pending.length := tracks.length ▸ inside
  have waits : queue.pending[missing] ≠ 0 := by
    have settled := (@Tracks.pending_eq_zero_iff _ _ missing tracks).not
    rw [List.getD_eq_getElem?_getD, List.getElem?_eq_getElem within, Option.getD_some] at settled
    exact settled.mpr fun all => absent (all need awaited)
  cases stopped : queue.pending.findIdx? (0 < ·) with
  | none =>
      have settled := List.findIdx?_eq_none_iff.mp stopped _ (List.getElem_mem within)
      exact absurd (Nat.eq_zero_of_not_pos (by simpa using settled)) waits
  | some position =>
      have bound := (List.findIdx?_eq_some_iff_findIdx_eq.mp stopped).1
      exact ⟨position, tracks.length ▸ bound, rfl⟩

end Queue

-----------------------------------------------------------------------------------------
-- Sorted positions
-----------------------------------------------------------------------------------------

/-- The positions that are reached when a body is scheduled. -/
def reached (graph : Graph) : List Nat :=
  schedule (graph.body.map graph.needs) graph.body.length []

theorem ready_reached (graph : Graph) : Ready (graph.body.map graph.needs) graph.reached :=
  Ready.schedule ⟨List.nodup_nil, by simp, by simp⟩ _

/-- Sorting reports an unknown operand, or it reaches all positions, or it is stuck. -/
theorem sortedPositions_cases (graph : Graph)
    : (∃ value,
        graph.unknownOperand? = some value
        ∧ graph.sortedPositions = .error (.unknownValue value))
      ∨ graph.unknownOperand? = none
        ∧ (graph.reached.length = graph.body.length ∧ graph.sortedPositions = .ok graph.reached
          ∨ nextReady (graph.body.map graph.needs) graph.reached = none
            ∧ graph.reached.length < graph.body.length
            ∧ ∃ node ∈ graph.body, graph.sortedPositions = .error (.cyclic node.value)) := by
  rw [sortedPositions]
  cases unknown : graph.unknownOperand? with
  | some value => exact .inl ⟨value, rfl, rfl⟩
  | none =>
      refine .inr ⟨rfl, ?_⟩
      dsimp only
      obtain ⟨tracks, order⟩ :=
        (Queue.tracks_start (graph.body.map graph.needs)).drain graph.body.length
      change _ = graph.reached at order
      rw [order]
      by_cases complete : graph.reached.length = graph.body.length
      · rw [if_pos complete]
        exact .inl ⟨complete, rfl⟩
      · rw [if_neg complete]
        have stuck : nextReady (graph.body.map graph.needs) graph.reached = none :=
          (length_schedule_or ..).resolve_left
            fun length => complete (length.trans (Nat.zero_add _))
        have short : graph.reached.length < graph.body.length := by
          have bound := graph.ready_reached.length_le
          rw [List.length_map] at bound
          exact Nat.lt_of_le_of_ne bound complete
        refine .inr ⟨stuck, short, ?_⟩
        rw [← order] at stuck short
        obtain ⟨position, inside, stopped⟩ := tracks.exists_stopped stuck (by simpa using short)
        rw [List.length_map] at inside
        rw [stopped, Option.bind_some, List.getElem?_eq_getElem inside]
        exact ⟨_, List.getElem_mem inside, rfl⟩

/-- A body is sorted iff everything is known and all positions are reached. -/
theorem sortedPositions_eq_ok_iff {graph : Graph} {order : List Nat}
    : graph.sortedPositions = .ok order
      ↔ graph.unknownOperand? = none
        ∧ graph.reached = order
        ∧ order.length = graph.body.length := by
  rcases sortedPositions_cases graph with
    ⟨value, unknown, failed⟩ | ⟨known, ⟨complete, done⟩ | ⟨-, short, node, -, failed⟩⟩
  · simp [unknown, failed]
  · rw [done]
    constructor
    · intro same
      obtain rfl := Except.ok.inj same
      exact ⟨known, rfl, complete⟩
    · rintro ⟨-, rfl, -⟩
      rfl
  · rw [failed]
    refine iff_of_false (nomatch ·) ?_
    rintro ⟨-, rfl, complete⟩
    omega

/-- Sorted positions are ready. -/
theorem sortedPositions_ready {graph : Graph} {order : List Nat}
    (sorted : graph.sortedPositions = .ok order)
    : Ready (graph.body.map graph.needs) order := by
  obtain ⟨-, rfl, -⟩ := sortedPositions_eq_ok_iff.mp sorted
  exact ready_reached graph

/-- Sorted positions are all positions of the body. -/
theorem sortedPositions_perm {graph : Graph} {order : List Nat}
    (sorted : graph.sortedPositions = .ok order)
    : order.Perm (List.range graph.body.length) := by
  have ready := sortedPositions_ready sorted
  have inside : order ⊆ List.range graph.body.length := fun position member => by
    simpa using ready.inside position member
  obtain ⟨-, -, complete⟩ := sortedPositions_eq_ok_iff.mp sorted
  exact (ready.distinct.subperm inside).perm_of_length_le
    (by rw [complete, List.length_range])

-----------------------------------------------------------------------------------------
-- Permuted lists
-----------------------------------------------------------------------------------------

variable {α : Type}

/-- What stands at some place after a list was put in an order of valid positions, by induction
on the order.
-/
theorem getElem?_filterMap_getElem? {list : List α} {order : List Nat}
    (inside : ∀ position ∈ order, position < list.length) (place : Nat)
    : (order.filterMap (list[·]?))[place]? = order[place]?.bind (list[·]?) := by
  induction order generalizing place with
  | nil => simp
  | cons position rest ih =>
      have first : position < list.length := inside position List.mem_cons_self
      have known : list[position]? = some list[position] := List.getElem?_eq_getElem first
      rw [List.filterMap_cons_some known]
      cases place with
      | zero => simp [known]
      | succ place => simpa using ih (fun other member => inside other (by simp [member])) place

/-- Listing all positions in order gives the list itself. -/
theorem filterMap_range_getElem? (list : List α)
    : (List.range list.length).filterMap (list[·]?) = list := by
  refine List.ext_getElem? ?_
  intro place
  rw [getElem?_filterMap_getElem? (fun position member => List.mem_range.mp member)]
  rcases Nat.lt_or_ge place list.length with inside | outside
  · simp [List.getElem?_range inside]
  · have beyond : (List.range list.length)[place]? = none := by simpa using outside
    rw [beyond, List.getElem?_eq_none outside]
    rfl

/-- A list that is put in an order of all its positions keeps its entries. -/
theorem filterMap_getElem?_perm {list : List α} {order : List Nat}
    (all : order.Perm (List.range list.length))
    : (order.filterMap (list[·]?)).Perm list := by
  have permuted := all.filterMap (list[·]?)
  rwa [filterMap_range_getElem?] at permuted

end Dataflow.Graph
