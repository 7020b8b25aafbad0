import Dataflow.Proofs.Rewrite.Liveness

/-!
Failures of runs, told without environments. A graph computes a value if everything that the value is
made of is computed; it is stuck if a live node refuses what is computed for it. A run of a graph
without dead nodes that fails for another reason than memory leaves the graph stuck, and a stuck graph
has no results.
-/

namespace Dataflow

variable {narrow : Prop} {backend : Backend} {graph : Graph} {given results : List Value}
  {i j : Interpretation} {operation : Operation} {operands others : List Operand}
  {id : ValueId} {value other : Value}

/-- An operation makes nothing of its operands, and memory is not the reason. Operations that ask for
finite numbers ask for no memory.
-/
structure Interpretation.Refuses (backend : Backend) (i : Interpretation) (operation : Operation)
    (operands : List Operand) : Prop where
  nothing : ∀ value, ¬i.Makes backend operation operands value
  regular
    : Finiteness.isAskedBy operation = false
      → ∀ inputs, operands.mapM i.operand = .ok inputs
      → ∀ breach, backend.execute operation inputs ≠ .error (.breach breach)

theorem Interpretation.Refuses.congr (refuses : i.Refuses backend operation operands)
    (same : others.mapM j.operand = operands.mapM i.operand)
    : j.Refuses backend operation others where
  nothing value makes := refuses.nothing value (makes.congr same.symm)
  regular unasked inputs gathered := refuses.regular unasked inputs (same ▸ gathered)

namespace Graph

/-- The values that a graph makes of given ones, by way of what they are made of only. -/
inductive Computes (backend : Backend) (graph : Graph) (given : List Value)
    : ValueId → Value → Prop
  | input {id : ValueId} {value : Value} (bound : (id, value) ∈ graph.inputs.zip given)
    : graph.Computes backend given id value
  | node {node : Node} {value : Value} {i : Interpretation} (member : node ∈ graph.body)
    (reads : ∀ read ∈ node.reads, graph.Computes backend given read (i read))
    (makes : i.Makes backend node.operation node.operands value)
    : graph.Computes backend given node.value value

/-- Some live node refuses what is computed for it. -/
def Stuck (backend : Backend) (graph : Graph) (given : List Value) : Prop :=
  ∃ node ∈ graph.body,
    graph.Live node.value
    ∧ ∃ i : Interpretation,
        (∀ read ∈ node.reads, graph.Computes backend given read (i read))
        ∧ i.Refuses backend node.operation node.operands

/-- A graph computes one value for each name. By induction on what the value is made of. -/
theorem Computes.unique (first : graph.Computes backend given id value)
    (distinct : graph.defined.Nodup) (second : graph.Computes backend given id other)
    : value = other := by
  induction first generalizing other with
  | @input id value bound =>
      have input := (List.of_mem_zip bound).1
      cases second with
      | input again =>
          obtain ⟨place, found⟩ := List.mem_iff_getElem?.mp bound
          obtain ⟨place', found'⟩ := List.mem_iff_getElem?.mp again
          obtain ⟨named, found⟩ := List.getElem?_zip_eq_some.mp found
          obtain ⟨named', found'⟩ := List.getElem?_zip_eq_some.mp found'
          have nodup := (List.nodup_append.mp distinct).1
          obtain rfl := (List.getElem?_inj (List.getElem?_eq_some_iff.mp named).1 nodup).mp
            (named.trans named'.symm)
          exact Option.some.inj (found.symm.trans found')
      | node member => exact absurd rfl (input_ne_value distinct input member)
  | @node node value i member reads makes ih =>
      generalize named : node.value = id at second
      cases second with
      | input bound =>
          exact absurd named (input_ne_value distinct (List.of_mem_zip bound).1 member)
      | @node again _ j member' reads' makes' =>
          obtain rfl := eq_of_value_eq distinct member member' named
          refine (makes.unique (makes'.congr (Interpretation.mapM_operand_congr ?_))).symm
          exact fun read member => ih read member (reads' read member)

/-- What a node makes of computed values is what the graph computes for it. -/
theorem Computes.exists_makes (distinct : graph.defined.Nodup) {node : Node}
    (member : node ∈ graph.body) (computes : graph.Computes backend given node.value value)
    : ∃ i : Interpretation,
        (∀ read ∈ node.reads, graph.Computes backend given read (i read))
        ∧ i.Makes backend node.operation node.operands value := by
  generalize named : node.value = id at computes
  cases computes with
  | input bound =>
      exact absurd named (input_ne_value distinct (List.of_mem_zip bound).1 member)
  | @node again _ i member' reads makes =>
      obtain rfl := eq_of_value_eq distinct member member' named
      exact ⟨i, reads, makes⟩

/-- An interpretation that has the values that a graph computes. -/
theorem exists_computed (distinct : graph.defined.Nodup)
    : ∃ i : Interpretation,
        ∀ id value, graph.Computes backend given id value → i id = value := by
  classical
  refine ⟨fun id => if computed : ∃ value, graph.Computes backend given id value
    then computed.choose else .tuple [], fun id value computes => ?_⟩
  have computed : ∃ value, graph.Computes backend given id value := ⟨value, computes⟩
  exact (dif_pos computed).trans (computed.choose_spec.unique distinct computes)

/-- Computed values have the types of their names. By induction on what they are made of. -/
theorem Computes.hasType (computes : graph.Computes backend given id value)
    (faithful : backend.Faithful) (typed : graph.WellTyped narrow)
    (givenTyped : List.Forall₂ Value.HasType given graph.inputTypes) {type : ValueType}
    (declared : (id, type) ∈ graph.types)
    : value.HasType type := by
  induction computes generalizing type with
  | @input id value bound =>
      obtain ⟨place, found⟩ := List.mem_iff_getElem?.mp bound
      obtain ⟨named, held⟩ := List.getElem?_zip_eq_some.mp found
      obtain ⟨inside, rfl⟩ := List.getElem?_eq_some_iff.mp held
      have fits := givenTyped.get inside (givenTyped.length_eq ▸ inside)
      have here
          : (id, graph.inputTypes.get ⟨place, givenTyped.length_eq ▸ inside⟩) ∈ graph.types := by
        refine List.mem_append_left _ (List.mem_iff_getElem?.mpr ⟨place, ?_⟩)
        exact List.getElem?_zip_eq_some.mpr ⟨named, List.getElem?_eq_getElem _⟩
      obtain rfl := typed.type_unique here declared
      exact fits
  | @node node value i member reads makes ih =>
      obtain ⟨place, found⟩ := List.mem_iff_getElem?.mp member
      obtain rfl := typed.type_unique (result_mem_types member) declared
      refine makes.hasType faithful (typed.follows_at found).inferred fun read reads type here => ?_
      exact ih read reads (typesBefore_subset _ _ here)

/-- An interpretation that solves a graph in order has all values that the graph computes. -/
theorem computes_of_solves (ordered : graph.Ordered) (solves : i.Solves backend graph given results)
    (defined : id ∈ graph.defined)
    : graph.Computes backend given id (i id) := by
  have before (position : Nat)
      : ∀ id ∈ graph.definedBefore position, graph.Computes backend given id (i id) := by
    induction position using Nat.strong_induction_on with
    | _ position ih =>
        intro id defined
        rcases mem_definedBefore.mp defined with input | ⟨earlier, node, lt, found, rfl⟩
        · obtain ⟨place, found⟩ := List.mem_iff_getElem?.mp input
          refine .input (List.mem_iff_getElem?.mpr ⟨place, ?_⟩)
          refine List.getElem?_zip_eq_some.mpr ⟨found, ?_⟩
          simp only [← solves.given, List.getElem?_map, found, Option.map_some]
        · have member := List.mem_of_getElem? found
          exact .node member (fun read reads => ih earlier lt read (ordered.reads found read reads))
            (solves.nodes node member)
  refine before graph.body.length id ?_
  rwa [definedBefore, List.take_length]

theorem Computes.mem_defined (computes : graph.Computes backend given id value)
    : id ∈ graph.defined := by
  cases computes with
  | input bound => exact input_mem_defined (List.of_mem_zip bound).1
  | node member => exact value_mem_defined member

/-- It has no others. -/
theorem Computes.eq_of_solves (computes : graph.Computes backend given id value)
    (ordered : graph.Ordered) (solves : i.Solves backend graph given results)
    : i id = value :=
  (computes_of_solves ordered solves computes.mem_defined).unique ordered.distinct computes

/-- What is computed of a value in front of a position is computed there. By induction on what the
value is made of.
-/
theorem Computes.front (computes : graph.Computes backend given id value) (ordered : graph.Ordered)
    {position : Nat} (before : id ∈ graph.definedBefore position)
    : (graph.front position).Computes backend given id value := by
  induction computes with
  | input bound => exact .input bound
  | @node node value i member _ makes ih =>
      rcases mem_definedBefore.mp before with input | ⟨earlier, other, lt, there, same⟩
      · exact absurd rfl (input_ne_value ordered.distinct input member)
      · obtain rfl := eq_of_value_eq ordered.distinct (List.mem_of_getElem? there) member same
        have front : other ∈ (graph.front position).body :=
          List.mem_of_getElem? ((List.getElem?_take_of_lt lt).trans there)
        exact .node front (fun read reads =>
          ih read reads (definedBefore_mono lt.le (ordered.reads there read reads))) makes

theorem Stuck.not_solves (stuck : graph.Stuck backend given) (ordered : graph.Ordered)
    : ¬i.Solves backend graph given results := by
  obtain ⟨node, member, -, j, reads, refuses⟩ := stuck
  obtain ⟨place, found⟩ := List.mem_iff_getElem?.mp member
  intro solves
  refine refuses.nothing _ ((solves.nodes node member).congr (Interpretation.mapM_operand_congr ?_))
  intro read member
  have defined := mem_defined_of_before (ordered.reads found read member)
  exact (reads read member).unique ordered.distinct (computes_of_solves ordered solves defined)

end Graph

namespace Run

variable {environment : Environment} {known : Types} {entries : List (Nat × Node)}
  {error : BackendError}

/-- If an evaluation of nodes fails, and not for lack of memory, then one of them refuses what is
computed for it. By induction on the nodes, in front of which the environment holds computed values.
-/
theorem exists_refuses_of_evaluate (chained : Chained narrow known (entries.map (·.2)))
    (copies : ∀ entry ∈ entries, entry.2.operation.isInplace = false)
    (members : ∀ entry ∈ entries, entry.2 ∈ graph.body)
    (computed
      : ∀ id ∈ Table.keys known,
          ∃ value, environment.get? id = some value ∧ graph.Computes backend given id value)
    (failed : evaluate backend graph.name false environment entries = .error error)
    (regular : ∀ breach, error ≠ .breach breach)
    : ∃ node ∈ graph.body,
        ∃ i : Interpretation,
          (∀ read ∈ node.reads, graph.Computes backend given read (i read))
          ∧ i.Refuses backend node.operation node.operands := by
  induction entries generalizing known environment with
  | nil => cases failed
  | cons entry rest ih =>
      obtain ⟨position, node⟩ := entry
      obtain ⟨copiesHere, copies⟩ := List.forall_mem_cons.mp copies
      obtain ⟨member, members⟩ := List.forall_mem_cons.mp members
      cases chained with
      | cons here later =>
          let i : Interpretation := fun id => (environment.get? id).getD (.tuple [])
          have holds : ∀ read ∈ node.reads,
              environment.get? read = some (i read)
              ∧ graph.Computes backend given read (i read) := by
            intro read reads
            obtain ⟨value, found, computes⟩ := computed read (here.mem_keys_of_read reads)
            obtain rfl : i read = value := congrArg (Option.getD · _) found
            exact ⟨found, computes⟩
          have makes (value : Value) := @produce_eq_ok_iff backend graph.name environment i node value
            position fun read reads => (holds read reads).1
          rw [evaluate, withoutConsumed_of_copies copiesHere] at failed
          rcases Steps.bind_eq_error_iff.mp failed with refused | ⟨value, produced, failed⟩
          · refine ⟨node, member, i, fun read reads => (holds read reads).2, ?_, ?_⟩
            · intro value made
              cases refused.symm.trans ((makes value).mpr made)
            · intro unasked inputs gathered breach broken
              refine regular breach ?_
              have same : node.operands.mapM (operandValue environment node.value) = .ok inputs := by
                refine (Steps.mapM_congr fun operand member => ?_).trans gathered
                cases operand with
                | literal literal => rfl
                | value id =>
                    rw [operandValue, (holds id (List.mem_filterMap.mpr ⟨_, member, rfl⟩)).1]
                    rfl
              simp only [produce, same, Steps.ok_bind, unasked, broken, Except.mapError] at refused
              exact (Except.error.inj refused).symm
          · refine ih later copies members (fun id defined => ?_) failed
            rw [Table.get?_set]
            split_ifs with same
            · subst same
              refine ⟨value, rfl, .node member (fun read reads => (holds read reads).2) ?_⟩
              exact (makes value).mp produced
            · refine computed id ?_
              simpa [Table.keys, Node.result, Ne.symm same] using defined

/-- A run of a graph without dead nodes that fails on inputs of the declared types, and not for lack
of memory, leaves the graph stuck.
-/
theorem stuck_of_error (typed : graph.WellTyped narrow)
    (copies : ∀ node ∈ graph.body, node.operation.isInplace = false)
    (live : ∀ node ∈ graph.body, graph.Live node.value) (accepted : graph.Accepts given)
    (failed : (Run.graph backend graph false given).outcome = .error error)
    (regular : ∀ breach, error ≠ .breach breach)
    : graph.Stuck backend given := by
  have inputs := @bound_eq_ok_iff _ given typed.inputsDistinct typed.inputsTyped
  obtain ⟨environment, bounded⟩ := inputs.2.mpr accepted
  have steps := failed
  rw [outcome_of_ordered backend typed.ordered, bounded, Steps.ok_bind] at steps
  rcases Steps.bind_eq_error_iff.mp steps with refused | ⟨after, evaluated, -⟩
  · have computed : ∀ id ∈ Table.keys (graph.inputs.zip graph.inputTypes),
        ∃ value, environment.get? id = some value ∧ graph.Computes backend given id value := by
      rw [typed.keys_inputs]
      intro id member
      obtain ⟨place, found⟩ := List.mem_iff_getElem?.mp member
      have values := congrArg (·[place]?) (inputs.1 bounded)
      simp only [List.getElem?_map, found, Option.map_some] at values
      obtain ⟨value, held, same⟩ := Option.map_eq_some_iff.mp values.symm
      refine ⟨value, same.symm, .input (List.mem_iff_getElem?.mpr ⟨place, ?_⟩)⟩
      exact List.getElem?_zip_eq_some.mpr ⟨found, held⟩
    obtain ⟨node, member, i, reads, refuses⟩ := exists_refuses_of_evaluate (chained_numbered typed)
      (fun entry member => copies _ (List.mem_of_getElem? (mem_numbered member)))
      (fun entry member => List.mem_of_getElem? (mem_numbered member)) computed refused regular
    exact ⟨node, member, live node member, i, reads, refuses⟩
  · obtain ⟨i, solves⟩ := exists_solves_of_evaluate typed copies bounded evaluated
    cases failed.symm.trans (outcome_of_solves typed copies accepted solves)

end Run

end Dataflow
