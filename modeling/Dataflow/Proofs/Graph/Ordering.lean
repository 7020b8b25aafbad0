import Dataflow.Proofs.Graph.Sorting
import Dataflow.Proofs.Rewrite.Description
import Dataflow.Proofs.Steps
import Mathlib.Data.List.Nodup
import Mathlib.Data.List.Range

/-!
Bodies in order. The check of an order accepts exactly the graphs that define every value once and
before it is read, and sorting leaves such a body as it is.
-/

namespace Dataflow.Graph

variable {graph : Graph}

/-- What is defined in front of a position: the inputs, and what the nodes before it produce. -/
def definedBefore (graph : Graph) (position : Nat) : List ValueId :=
  graph.inputs ++ (graph.body.take position).map (·.value)

/-- Every value is defined once and before it is read, and every output is defined. -/
structure Ordered (graph : Graph) : Prop where
  distinct : graph.defined.Nodup
  reads
    : ∀ {position : Nat} {node : Node},
        graph.body[position]? = some node → ∀ value ∈ node.reads, value ∈ graph.definedBefore position
  outputs : ∀ value ∈ graph.outputs, value ∈ graph.defined

-----------------------------------------------------------------------------------------
-- What is defined
-----------------------------------------------------------------------------------------

/-- A value that is defined in front of a position is an input, or a node before it produces it. -/
theorem mem_definedBefore {position : Nat} {value : ValueId}
    : value ∈ graph.definedBefore position
      ↔ value ∈ graph.inputs
        ∨ ∃ (earlier : Nat) (node : Node),
            earlier < position ∧ graph.body[earlier]? = some node ∧ node.value = value := by
  rw [definedBefore, List.mem_append, List.mem_map]
  refine or_congr_right ?_
  constructor
  · rintro ⟨node, member, rfl⟩
    obtain ⟨earlier, found⟩ := List.mem_iff_getElem?.mp member
    rw [List.getElem?_take] at found
    split_ifs at found with before
    exact ⟨earlier, node, before, found, rfl⟩
  · rintro ⟨earlier, node, before, found, rfl⟩
    refine ⟨node, List.mem_iff_getElem?.mpr ⟨earlier, ?_⟩, rfl⟩
    rw [List.getElem?_take, if_pos before, found]

/-- What is defined in front of a position is defined. -/
theorem mem_defined_of_before {position : Nat} {value : ValueId}
    (before : value ∈ graph.definedBefore position)
    : value ∈ graph.defined := by
  rcases mem_definedBefore.mp before with input | ⟨_, node, -, found, rfl⟩
  · exact input_mem_defined input
  · exact value_mem_defined (List.mem_of_getElem? found)

/-- What is defined in front of a position is defined in front of all later ones. -/
theorem definedBefore_mono {first second : Nat} (le : first ≤ second) {value : ValueId}
    (before : value ∈ graph.definedBefore first)
    : value ∈ graph.definedBefore second := by
  rw [mem_definedBefore] at before ⊢
  exact before.imp_right fun ⟨earlier, node, lt, found⟩ => ⟨earlier, node, by omega, found⟩

/-- One position produces a value. -/
theorem position_unique (distinct : graph.defined.Nodup) {first second : Nat} {left right : Node}
    (atFirst : graph.body[first]? = some left) (atSecond : graph.body[second]? = some right)
    (same : left.value = right.value)
    : first = second := by
  have values : (graph.body.map (·.value)).Nodup := (List.nodup_append.mp distinct).2.1
  have inside := (List.getElem?_eq_some_iff.mp atFirst).1
  refine (List.getElem?_inj (by simpa using inside) values).mp ?_
  simp [atFirst, atSecond, same]

/-- No node produces an input. -/
theorem input_ne_value (distinct : graph.defined.Nodup) {value : ValueId} {node : Node}
    (input : value ∈ graph.inputs) (member : node ∈ graph.body)
    : node.value ≠ value := by
  rintro rfl
  exact (List.nodup_append.mp distinct).2.2 _ input _ (List.mem_map_of_mem member) rfl

/-- What a node produces is not defined in front of it. -/
theorem value_not_before (distinct : graph.defined.Nodup) {position : Nat} {node : Node}
    (found : graph.body[position]? = some node)
    : node.value ∉ graph.definedBefore position := by
  intro before
  rcases mem_definedBefore.mp before with input | ⟨earlier, other, lt, there, same⟩
  · exact input_ne_value distinct input (List.mem_of_getElem? found) rfl
  · exact absurd (position_unique distinct there found same) (Nat.ne_of_lt lt)

/-- What is defined in front of a position is produced there. -/
theorem Ordered.position_lt (ordered : graph.Ordered) {place position : Nat} {node : Node}
    (found : graph.body[place]? = some node) (before : node.value ∈ graph.definedBefore position)
    : place < position := by
  rcases mem_definedBefore.mp before with input | ⟨earlier, other, lt, there, same⟩
  · exact absurd rfl (input_ne_value ordered.distinct input (List.mem_of_getElem? found))
  · exact position_unique ordered.distinct there found same ▸ lt

/-- A graph stays in order if its nodes keep what they define and read. -/
theorem Ordered.mapBody (ordered : graph.Ordered) {change : Node → Node}
    (values : ∀ node, (change node).value = node.value)
    (reads : ∀ node, (change node).reads = node.reads)
    : Ordered { graph with body := graph.body.map change } := by
  have before (position : Nat)
      : definedBefore { graph with body := graph.body.map change } position
        = graph.definedBefore position := by
    simp [definedBefore, ← List.map_take, Function.comp_def, values]
  have same : defined { graph with body := graph.body.map change } = graph.defined := by
    simp [defined, Function.comp_def, values]
  refine ⟨same ▸ ordered.distinct, ?_, fun value output => same ▸ ordered.outputs value output⟩
  intro position node found value read
  dsimp only at found
  rw [List.getElem?_map] at found
  obtain ⟨original, listed, rfl⟩ := Option.map_eq_some_iff.mp found
  rw [before]
  exact ordered.reads listed value (reads original ▸ read)

-----------------------------------------------------------------------------------------
-- Checking an order
-----------------------------------------------------------------------------------------

/-- Values are defined if all of them are new, by induction on the values. -/
theorem define_eq_ok_iff {earlier values after : List ValueId} (distinct : earlier.Nodup)
    : define earlier values = .ok after
      ↔ (earlier.reverse ++ values).Nodup ∧ after = values.reverse ++ earlier := by
  induction values generalizing earlier with
  | nil =>
      rw [define, Except.ok.injEq, List.append_nil, List.nodup_reverse, and_iff_right distinct]
      exact eq_comm
  | cons value rest ih =>
      rw [define, List.contains_eq_mem]
      by_cases known : value ∈ earlier
      · rw [if_pos (by simpa using known)]
        refine iff_of_false (nomatch ·) fun both => ?_
        exact (List.nodup_append.mp both.1).2.2 _ (List.mem_reverse.mpr known) _
          List.mem_cons_self rfl
      · rw [if_neg (by simpa using known), ih (List.nodup_cons.mpr ⟨known, distinct⟩)]
        simp

/-- Nothing is undefined iff all values are defined. -/
theorem firstUndefined_eq_none_iff {defined values : List ValueId}
    : firstUndefined defined values = none ↔ ∀ value ∈ values, value ∈ defined := by
  rw [firstUndefined, List.find?_eq_none]
  simp

/-- A body is in order if each node reads what is defined before it and defines a new value, by
induction on the body.
-/
theorem checkBody_eq_ok_iff {earlier after : List ValueId} {body : List Node}
    : checkBody earlier body = .ok after
      ↔ (∀ {position : Nat} {node : Node},
            body[position]? = some node
            → (∀ value ∈ node.reads,
                value ∈ earlier ∨ value ∈ (body.take position).map (·.value))
              ∧ node.value ∉ earlier
              ∧ node.value ∉ (body.take position).map (·.value))
        ∧ after = (body.map (·.value)).reverse ++ earlier := by
  induction body generalizing earlier with
  | nil => simp [checkBody, eq_comm]
  | cons first rest ih =>
      have unfolded
          : checkBody earlier (first :: rest) = .ok after
            ↔ ((∀ value ∈ first.reads, value ∈ earlier) ∧ first.value ∉ earlier)
              ∧ checkBody (first.value :: earlier) rest = .ok after := by
        rw [checkBody]
        cases undefined : firstUndefined earlier first.reads with
        | some value =>
            refine iff_of_false (nomatch ·) fun both => ?_
            rw [firstUndefined_eq_none_iff.mpr both.1.1] at undefined
            cases undefined
        | none =>
            have known := firstUndefined_eq_none_iff.mp undefined
            by_cases again : first.value ∈ earlier
            · simp [again]
            · simp only [List.contains_eq_mem, again, decide_false, not_false_eq_true, and_true]
              exact (and_iff_right known).symm
      rw [unfolded, ih]
      constructor
      · rintro ⟨⟨reads, new⟩, later, rfl⟩
        refine ⟨?_, by simp⟩
        intro position node found
        cases position with
        | zero =>
            obtain rfl : first = node := by simpa using found
            exact ⟨fun value read => .inl (reads value read), new, by simp⟩
        | succ position =>
            obtain ⟨readsLater, newLater, apart⟩ := later (by simpa using found)
            rw [List.mem_cons, not_or] at newLater
            simp only [List.take_succ_cons, List.map_cons, List.mem_cons, not_or]
            refine ⟨fun value read => ?_, newLater.2, newLater.1, apart⟩
            have somewhere := readsLater value read
            rw [List.mem_cons] at somewhere
            tauto
      · rintro ⟨all, rfl⟩
        obtain ⟨reads, new, -⟩ := @all 0 first rfl
        refine ⟨⟨fun value read => by simpa using reads value read, new⟩, ?_, by simp⟩
        intro position node found
        obtain ⟨readsLater, newLater, apart⟩ := @all (position + 1) node found
        simp only [List.take_succ_cons, List.map_cons, List.mem_cons, not_or] at readsLater apart
        refine ⟨fun value read => ?_, by simp [newLater, apart.1], apart.2⟩
        have somewhere := readsLater value read
        rw [List.mem_cons]
        tauto

/-- The check of an order accepts the graphs in order, and no others. -/
theorem checkOrder_eq_ok_iff : graph.checkOrder = .ok () ↔ graph.Ordered := by
  have unfolded
      : graph.checkOrder = .ok ()
        ↔ ∃ inputs, define [] graph.inputs = .ok inputs
          ∧ ∃ all, checkBody inputs graph.body = .ok all
            ∧ ∀ value ∈ graph.outputs, value ∈ all := by
    simp only [checkOrder, Steps.bind_eq_ok_iff]
    refine exists_congr fun inputs => and_congr_right fun _ => ?_
    refine exists_congr fun all => and_congr_right fun _ => ?_
    rw [← firstUndefined_eq_none_iff]
    cases firstUndefined all graph.outputs <;> simp
  rw [unfolded]
  simp only [define_eq_ok_iff List.nodup_nil, checkBody_eq_ok_iff]
  have bodyNodup
      : (graph.body.map (·.value)).Nodup
        ↔ ∀ {position : Nat} {node : Node},
            graph.body[position]? = some node
            → node.value ∉ (graph.body.take position).map (·.value) := by
    rw [List.nodup_iff_getElem?_ne_getElem?]
    constructor
    · intro differ position node found member
      obtain ⟨earlier, listed, same⟩ := List.mem_map.mp member
      obtain ⟨place, there⟩ := List.mem_iff_getElem?.mp listed
      rw [List.getElem?_take] at there
      split_ifs at there with before
      have inside := (List.getElem?_eq_some_iff.mp found).1
      refine differ place position before (by simpa using inside) ?_
      simp [there, found, same]
    · intro apart first second before inside same
      rw [List.length_map] at inside
      have found := List.getElem?_eq_getElem inside
      refine apart found (List.mem_map.mpr ⟨graph.body[first], ?_, ?_⟩)
      · refine List.mem_iff_getElem?.mpr ⟨first, ?_⟩
        rw [List.getElem?_take, if_pos before, List.getElem?_eq_getElem]
      · simpa [List.getElem?_map, List.getElem?_eq_getElem inside,
          List.getElem?_eq_getElem (before.trans inside)] using same
  constructor
  · rintro ⟨inputs, ⟨distinct, rfl⟩, all, ⟨body, rfl⟩, shown⟩
    simp only [List.reverse_nil, List.nil_append, List.append_nil] at distinct body shown
    refine ⟨?_, ?_, ?_⟩
    · refine List.nodup_append.mpr ⟨distinct, bodyNodup.mpr fun found => (body found).2.2, ?_⟩
      rintro value input _ produced rfl
      obtain ⟨node, member, rfl⟩ := List.mem_map.mp produced
      obtain ⟨position, found⟩ := List.mem_iff_getElem?.mp member
      exact (body found).2.1 (List.mem_reverse.mpr input)
    · intro position node found value read
      rw [definedBefore, List.mem_append]
      exact ((body found).1 value read).imp_left List.mem_reverse.mp
    · intro value output
      have known := shown value output
      rw [List.mem_append, List.mem_reverse, List.mem_reverse] at known
      exact List.mem_append.mpr known.symm
  · intro ordered
    obtain ⟨inputs, produced, apart⟩ := List.nodup_append.mp ordered.distinct
    refine ⟨graph.inputs.reverse, ⟨by simpa using inputs, by simp⟩, _, ⟨?_, rfl⟩, ?_⟩
    · intro position node found
      refine ⟨fun value read => ?_, ?_, bodyNodup.mp produced found⟩
      · have before := ordered.reads found value read
        rw [definedBefore, List.mem_append] at before
        exact before.imp_left List.mem_reverse.mpr
      · exact fun input => input_ne_value ordered.distinct (List.mem_reverse.mp input)
          (List.mem_of_getElem? found) rfl
    · intro value output
      have known := ordered.outputs value output
      rw [defined, List.mem_append] at known
      rw [List.mem_append, List.mem_reverse, List.mem_reverse]
      exact known.symm

-----------------------------------------------------------------------------------------
-- Sorting
-----------------------------------------------------------------------------------------

/-- The position that is found for a value produces it, by induction on the body. -/
theorem exists_of_lastPosition {value : ValueId} {start position : Nat} {body : List Node}
    (found : lastPosition value start body = some position)
    : ∃ (place : Nat) (node : Node),
        position = start + place ∧ body[place]? = some node ∧ node.value = value := by
  induction body generalizing start with
  | nil => cases found
  | cons first rest ih =>
      rw [lastPosition] at found
      cases later : lastPosition value (start + 1) rest with
      | some other =>
          rw [later, Option.some_or] at found
          obtain rfl := Option.some.inj found
          obtain ⟨place, node, rfl, here, same⟩ := ih later
          exact ⟨place + 1, node, by omega, by simpa using here, same⟩
      | none =>
          rw [later, Option.none_or] at found
          split_ifs at found with same
          exact ⟨0, first, (Option.some.inj found).symm, rfl, same⟩

/-- A value that some node produces has a position, by induction on the body. -/
theorem lastPosition_isSome {value : ValueId} {start : Nat} {body : List Node} {node : Node}
    (member : node ∈ body) (same : node.value = value)
    : (lastPosition value start body).isSome = true := by
  induction body generalizing start with
  | nil => simp at member
  | cons first rest ih =>
      rw [lastPosition, Option.isSome_or]
      rcases List.mem_cons.mp member with rfl | later
      · simp [same]
      · simp [ih later]

/-- In a body in order, a node waits for positions before it. -/
theorem Ordered.needs_lt (ordered : graph.Ordered) {position need : Nat} {node : Node}
    (found : graph.body[position]? = some node) (required : need ∈ graph.needs node)
    : need < position := by
  obtain ⟨value, read, placed⟩ := List.mem_filterMap.mp required
  obtain ⟨place, producer, rfl, here, rfl⟩ := exists_of_lastPosition placed
  rw [Nat.zero_add]
  rcases mem_definedBefore.mp (ordered.reads found _ read) with
    input | ⟨earlier, other, before, there, same⟩
  · exact absurd rfl (input_ne_value ordered.distinct input (List.mem_of_getElem? here))
  · exact position_unique ordered.distinct there here same ▸ before

/-- Where every position waits for earlier ones only, the next one is the first that is not done.
-/
theorem nextReady_range {needs : List (List Nat)} {count : Nat} (inside : count < needs.length)
    (earlier : ∀ need ∈ needs.getD count [], need < count)
    : nextReady needs (List.range count) = some count := by
  rw [nextReady, List.find?_eq_some_iff_getElem]
  refine ⟨?_, count, by simpa using inside, by simp, ?_⟩
  · simpa [List.all_eq_true] using earlier
  · intro position before
    simp [before]

/-- Where every position waits for earlier ones only, positions are done in their order, by
induction on the number of steps.
-/
theorem schedule_range {needs : List (List Nat)}
    (earlier : ∀ position < needs.length, ∀ need ∈ needs.getD position [], need < position)
    {done count : Nat} (inside : done + count ≤ needs.length)
    : schedule needs count (List.range done) = List.range (done + count) := by
  induction count generalizing done with
  | zero => rfl
  | succ count ih =>
      have here : done < needs.length := by omega
      rw [schedule, nextReady_range here (earlier done here)]
      dsimp only
      rw [← List.range_succ, ih (by omega), Nat.succ_add_eq_add_succ]

/-- Everything that is read is defined. -/
def ReadsKnown (graph : Graph) : Prop :=
  ∀ node ∈ graph.body, ∀ value ∈ node.reads, value ∈ graph.defined

/-- A value is defined iff it is an input or some node has its position. -/
theorem mem_defined_iff {value : ValueId}
    : value ∈ graph.defined ↔ value ∈ graph.inputs ∨ ∃ position, graph.position? value = some position := by
  rw [defined, List.mem_append]
  refine or_congr_right ⟨fun produced => ?_, fun ⟨position, placed⟩ => ?_⟩
  · obtain ⟨node, member, rfl⟩ := List.mem_map.mp produced
    exact Option.isSome_iff_exists.mp (lastPosition_isSome member rfl)
  · obtain ⟨_, node, -, there, rfl⟩ := exists_of_lastPosition placed
    exact List.mem_map_of_mem (List.mem_of_getElem? there)

/-- No operand is unknown iff everything that is read is defined. -/
theorem unknownOperand?_eq_none_iff : graph.unknownOperand? = none ↔ graph.ReadsKnown := by
  have missing (value : ValueId)
      : ((graph.position? value).isNone && !graph.inputs.contains value) = true
        ↔ value ∉ graph.defined := by
    rw [mem_defined_iff, not_or]
    cases graph.position? value <;> simp
  rw [unknownOperand?, List.find?_eq_none]
  simp only [missing, not_not]
  constructor
  · intro known node member value read
    exact known value (List.mem_flatMap.mpr ⟨node, member, read⟩)
  · intro known value read
    obtain ⟨node, member, read⟩ := List.mem_flatMap.mp read
    exact known node member value read

theorem Ordered.readsKnown (ordered : graph.Ordered) : graph.ReadsKnown := by
  intro node member value read
  obtain ⟨position, found⟩ := List.mem_iff_getElem?.mp member
  exact mem_defined_of_before (ordered.reads found value read)

/-- Sorting leaves a body in order as it is. -/
theorem Ordered.sortedPositions (ordered : graph.Ordered)
    : graph.sortedPositions = .ok (List.range graph.body.length) := by
  have known : graph.unknownOperand? = none := unknownOperand?_eq_none_iff.mpr ordered.readsKnown
  have earlier
      : ∀ position < (graph.body.map graph.needs).length,
          ∀ need ∈ (graph.body.map graph.needs).getD position [], need < position := by
    intro position inside need required
    rw [List.length_map] at inside
    have found := List.getElem?_eq_getElem inside
    rw [List.getD_eq_getElem?_getD, List.getElem?_map, found] at required
    exact ordered.needs_lt found required
  have scheduled := @schedule_range _ earlier 0 graph.body.length (by simp)
  rw [Nat.zero_add, List.range_zero] at scheduled
  exact sortedPositions_eq_ok_iff.mpr ⟨known, scheduled, List.length_range⟩

end Dataflow.Graph
