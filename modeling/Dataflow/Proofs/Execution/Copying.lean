import Dataflow.Execution.Memory
import Dataflow.Execution.Run
import Dataflow.Proofs.Graph.Destruction
import Dataflow.Proofs.Steps

/-!
Copying instead of destroying. A graph that does not use what it destroyed runs as the graph does
that mutates copies: the environments of the two runs differ in destroyed values only.
-/

namespace Dataflow

-----------------------------------------------------------------------------------------
-- Copying graphs
-----------------------------------------------------------------------------------------

/-- The operation that mutates a copy where this one mutates in place. -/
def Operation.copying (operation : Operation) : Operation :=
  (operation.withInplace false).getD operation

def Node.copying (node : Node) : Node := { node with operation := node.operation.copying }

/-- The graph in which every list is copied before it is mutated. -/
def Graph.copying (graph : Graph) : Graph := { graph with body := graph.body.map Node.copying }

namespace Operation

@[simp] theorem name_copying (operation : Operation) : operation.copying.name = operation.name := by
  cases operation <;> rfl

@[simp] theorem isAskedBy_copying (operation : Operation)
    : Finiteness.isAskedBy operation.copying = Finiteness.isAskedBy operation := by
  cases operation <;> rfl

theorem storage_copying (operation : Operation) (position : Nat)
    : operation.copying.storage ≠ .consumes position := by
  cases operation <;> exact nofun

/-- The kernels do not look at where a list is mutated. -/
theorem execute_copying (operation : Operation) (inputs : Inputs)
    : Kernel.execute operation.copying inputs = Kernel.execute operation inputs := by
  cases operation <;> rfl

theorem isEnough_copying (operation : Operation) (inputs : Inputs)
    : Memory.isEnough operation.copying inputs = Memory.isEnough operation inputs := by
  cases operation <;> rfl

end Operation

/-- A backend computes the same in place and on a copy. -/
def Backend.Copies (backend : Backend) : Prop :=
  ∀ operation inputs, backend.execute operation.copying inputs = backend.execute operation inputs

theorem Backend.reference_copies : reference.Copies := Operation.execute_copying

theorem Backend.Copies.bounded {backend : Backend} (copies : backend.Copies)
    : backend.bounded.Copies := by
  intro operation inputs
  simp only [Backend.bounded, Operation.isEnough_copying, copies operation inputs]

/-- An error says that a value is out of reach. -/
def BackendError.Misses (error : BackendError) (id : ValueId) : Prop :=
  (∃ reader, error = .execution (.unavailable reader id))
  ∨ ∃ graph, error = .execution (.noResult graph id)

namespace Graph

variable {graph : Graph}

theorem getElem?_copying (graph : Graph) (position : Nat)
    : graph.copying.body[position]? = graph.body[position]?.map Node.copying :=
  List.getElem?_map

theorem Ordered.copying (ordered : graph.Ordered) : graph.copying.Ordered :=
  ordered.mapBody (fun _ => rfl) fun _ => rfl

end Graph

namespace Run

-----------------------------------------------------------------------------------------
-- Schedules
-----------------------------------------------------------------------------------------

/-- The nodes of a graph with their positions, as they stand. -/
def numbered (graph : Graph) : List (Nat × Node) :=
  (List.range graph.body.length).filterMap fun position =>
    graph.body[position]?.map fun node => (position, node)

theorem schedule_of_ordered {graph : Graph} (ordered : graph.Ordered)
    : schedule graph = .ok (numbered graph) := by
  rw [schedule, ordered.sortedPositions]
  rfl

theorem mem_numbered {graph : Graph} {entry : Nat × Node} (member : entry ∈ numbered graph)
    : graph.body[entry.1]? = some entry.2 := by
  obtain ⟨position, -, found⟩ := List.mem_filterMap.mp member
  obtain ⟨node, listed, rfl⟩ := Option.map_eq_some_iff.mp found
  exact listed

theorem pairwise_numbered (graph : Graph)
    : (numbered graph).Pairwise fun earlier later => earlier.1 < later.1 := by
  refine List.pairwise_filterMap.mpr (List.pairwise_lt_range.imp ?_)
  intro first second before _ atFirst _ atSecond
  obtain ⟨_, -, rfl⟩ := Option.map_eq_some_iff.mp atFirst
  obtain ⟨_, -, rfl⟩ := Option.map_eq_some_iff.mp atSecond
  exact before

theorem map_snd_numbered (graph : Graph) : (numbered graph).map (·.2) = graph.body := by
  rw [numbered, List.map_filterMap]
  conv_rhs => rw [← Graph.filterMap_range_getElem? graph.body]
  refine congrArg (List.filterMap · _) (funext fun position => ?_)
  rw [Option.map_map]
  exact Option.map_id'

theorem numbered_copying (graph : Graph)
    : numbered graph.copying
      = (numbered graph).map fun entry => (entry.1, entry.2.copying) := by
  have length : graph.copying.body.length = graph.body.length := List.length_map ..
  rw [numbered, numbered, List.map_filterMap, length]
  refine congrArg (List.filterMap · _) (funext fun position => ?_)
  rw [Graph.getElem?_copying, Option.map_map, Option.map_map]
  rfl

-----------------------------------------------------------------------------------------
-- Environments
-----------------------------------------------------------------------------------------

/-- Two environments hold the same, except for some values. -/
def AgreeExcept (gone : List ValueId) (left right : Environment) : Prop :=
  ∀ id, id ∉ gone → left.get? id = right.get? id

/-- Two outcomes are the same error, or environments that hold the same except for some values. -/
inductive Matches (gone : List ValueId) : Outcome Environment → Outcome Environment → Prop where
  | error (error : BackendError) : Matches gone (.error error) (.error error)
  | ok {left right : Environment} (agree : AgreeExcept gone left right)
    : Matches gone (.ok left) (.ok right)

theorem withoutConsumed_copying (environment : Environment) (node : Node)
    : withoutConsumed environment node.copying = environment := by
  rw [withoutConsumed]
  split
  · rename_i position consumes
    exact absurd consumes (Operation.storage_copying _ _)
  · rfl

/-- A node that destroys a value takes nothing else out of reach. -/
theorem get?_withoutConsumed {environment : Environment} {node : Node} {id : ValueId}
    (kept : Graph.destroyed? node ≠ some id)
    : (withoutConsumed environment node).get? id = environment.get? id := by
  rw [withoutConsumed]
  rw [Graph.destroyed?] at kept
  split
  · rename_i position consumes
    rw [consumes] at kept
    dsimp only at kept
    split
    · rename_i target destroyed
      exact Table.get?_erase_of_ne (fun same : target = id => kept (same ▸ destroyed)) environment
    · rfl
  · rfl

theorem AgreeExcept.next {gone : List ValueId} {left right : Environment}
    (agree : AgreeExcept gone left right) (node : Node) (value : Value)
    : AgreeExcept (gone ++ (Graph.destroyed? node).toList)
        ((withoutConsumed left node).set node.value value) (right.set node.value value) := by
  intro id there
  rw [List.mem_append, Option.mem_toList, not_or] at there
  rw [Table.get?_set, Table.get?_set, get?_withoutConsumed there.2, agree id there.1]

theorem AgreeExcept.operandValue {gone : List ValueId} {left right : Environment}
    (agree : AgreeExcept gone left right) (reader : ValueId) {operand : Operand}
    (kept : ∀ id ∈ gone, operand.value? ≠ some id)
    : Run.operandValue left reader operand = Run.operandValue right reader operand := by
  cases operand with
  | literal literal => rfl
  | value id =>
      rw [Run.operandValue, Run.operandValue, agree id fun member => kept id member rfl]

theorem AgreeExcept.operands {gone : List ValueId} {left right : Environment}
    (agree : AgreeExcept gone left right) {node : Node} (kept : ∀ id ∈ gone, id ∉ node.reads)
    : node.operands.mapM (Run.operandValue left node.value)
      = node.operands.mapM (Run.operandValue right node.value) := by
  refine Steps.mapM_congr fun operand member => agree.operandValue node.value ?_
  intro id destroyed read
  exact kept id destroyed (List.mem_filterMap.mpr ⟨operand, member, read⟩)

-----------------------------------------------------------------------------------------
-- Outcomes of runs
-----------------------------------------------------------------------------------------

/-- What a node produces in an environment. -/
def produce (backend : Backend) (graph : String) (checkFinite : Bool) (environment : Environment)
    (position : Nat) (node : Node)
    : Outcome Value := do
  let inputs ← node.operands.mapM (operandValue environment node.value)
  let asked := Finiteness.isAskedBy node.operation
  (if asked then checkOperands node inputs else .ok () : Outcome Unit)
  let value ← (backend.execute node.operation inputs).mapError (locate graph position node)
  (if checkFinite || asked then
      Finiteness.check node.operation.name node.value value.toHost
    else .ok () : Outcome Unit)
  .ok value

/-- The environment behind some nodes, without a record of the executions. -/
def evaluate (backend : Backend) (graph : String) (checkFinite : Bool)
    : Environment → List (Nat × Node) → Outcome Environment
  | environment, [] => .ok environment
  | environment, (position, node) :: rest => do
    let value ← produce backend graph checkFinite environment position node
    evaluate backend graph checkFinite
      ((withoutConsumed environment node).set node.value value) rest

variable {backend : Backend}

/-- The outcome of a run is what its nodes evaluate to, by induction on the nodes. -/
theorem runNodes_outcome (backend : Backend) (graph : String) (checkFinite : Bool)
    (environment : Environment) (done : List Execution) (nodes : List (Nat × Node))
    : (runNodes backend.executor graph checkFinite environment done nodes).2
      = evaluate backend graph checkFinite environment nodes := by
  induction nodes generalizing environment done with
  | nil => rfl
  | cons entry rest ih =>
      obtain ⟨position, node⟩ := entry
      rw [runNodes, evaluate, produce]
      cases node.operands.mapM (operandValue environment node.value) with
      | error error => rfl
      | ok inputs =>
          dsimp only [Steps.ok_bind, Backend.executor]
          generalize (if Finiteness.isAskedBy node.operation = true then checkOperands node inputs
            else .ok () : Outcome Unit) = asked
          cases asked with
          | error error => rfl
          | ok =>
              cases backend.execute node.operation inputs with
              | error error => rfl
              | ok value =>
                  dsimp only [Steps.ok_bind, Steps.mapError_ok]
                  generalize (if (checkFinite || Finiteness.isAskedBy node.operation) = true then
                    Finiteness.check node.operation.name node.value value.toHost
                    else .ok () : Outcome Unit) = finite
                  cases finite with
                  | error error => rfl
                  | ok => exact ih _ _

theorem locate_copying (graph : String) (position : Nat) (node : Node)
    : locate graph position node.copying = locate graph position node := by
  funext error
  simp only [locate, Node.copying, Operation.name_copying]

/-- A node that reads nothing that differs produces the same as its copying form. -/
theorem produce_copying (copies : backend.Copies) (graph : String) (checkFinite : Bool)
    {gone : List ValueId} {left right : Environment} (agree : AgreeExcept gone left right)
    (position : Nat) {node : Node} (kept : ∀ id ∈ gone, id ∉ node.reads)
    : produce backend graph checkFinite left position node
      = produce backend graph checkFinite right position node.copying := by
  rw [produce, produce, agree.operands kept, locate_copying]
  simp only [Node.copying, checkOperands, Operation.isAskedBy_copying, Operation.name_copying,
    copies node.operation]

/-- Nodes that do not read what was destroyed before them match their copying forms. By induction
on the nodes: what is destroyed on the way is not read by the rest.
-/
theorem evaluate_copying (copies : backend.Copies) (graph : String) (checkFinite : Bool)
    {gone : List ValueId} {left right : Environment} {nodes : List (Nat × Node)}
    (agree : AgreeExcept gone left right)
    (kept : ∀ entry ∈ nodes, ∀ id ∈ gone, id ∉ entry.2.reads)
    (unread
      : nodes.Pairwise fun earlier later =>
          ∀ target, Graph.destroyed? earlier.2 = some target → target ∉ later.2.reads)
    : Matches (gone ++ nodes.flatMap fun entry => (Graph.destroyed? entry.2).toList)
        (evaluate backend graph checkFinite left nodes)
        (evaluate backend graph checkFinite right
          (nodes.map fun entry => (entry.1, entry.2.copying))) := by
  induction nodes generalizing gone left right with
  | nil => exact .ok (by simpa using agree)
  | cons entry rest ih =>
      obtain ⟨position, node⟩ := entry
      obtain ⟨first, unread⟩ := List.pairwise_cons.mp unread
      rw [evaluate, List.map_cons, evaluate,
        produce_copying copies graph checkFinite agree position (kept _ List.mem_cons_self)]
      cases produce backend graph checkFinite right position node.copying with
      | error error => exact .error error
      | ok value =>
          rw [Steps.ok_bind, Steps.ok_bind, withoutConsumed_copying, List.flatMap_cons,
            ← List.append_assoc]
          refine ih (agree.next node value) ?_ unread
          intro entry member id there
          rcases List.mem_append.mp there with before | here
          · exact kept entry (List.mem_cons_of_mem _ member) id before
          · exact first entry member id (Option.mem_toList.mp here)

-----------------------------------------------------------------------------------------
-- Values out of reach
-----------------------------------------------------------------------------------------

theorem misses_of_operandValue {environment : Environment} {reader : ValueId} {operand : Operand}
    {error : BackendError} {id : ValueId}
    (failed : operandValue environment reader operand = .error error) (misses : error.Misses id)
    : operand.value? = some id ∧ environment.get? id = none := by
  cases operand with
  | literal literal =>
      rw [operandValue, Value.ofHost, Tensor.ofLiteral] at failed
      split at failed
      · obtain rfl := Except.error.inj failed
        rcases misses with ⟨_, same⟩ | ⟨_, same⟩ <;> cases same
      · dsimp only at failed
        split_ifs at failed
        · cases failed
        · obtain rfl := Except.error.inj failed
          rcases misses with ⟨_, same⟩ | ⟨_, same⟩ <;> cases same
  | value read =>
      rw [operandValue] at failed
      cases found : environment.get? read with
      | some value =>
          rw [found] at failed
          cases failed
      | none =>
          rw [found] at failed
          obtain rfl := Except.error.inj failed
          rcases misses with ⟨_, same⟩ | ⟨_, same⟩
          · obtain ⟨-, rfl⟩ := RunFault.unavailable.inj (BackendError.execution.inj same)
            exact ⟨rfl, found⟩
          · cases same

theorem check_not_misses {operation : String} {reader id : ValueId} {value : HostValue}
    {error : BackendError} (failed : Finiteness.check operation reader value = .error error)
    : ¬error.Misses id := by
  rw [Finiteness.check] at failed
  split at failed
  · cases failed
  · obtain rfl := Except.error.inj failed
    rintro (⟨_, same⟩ | ⟨_, same⟩) <;> cases same

theorem locate_not_misses {graph : String} {position : Nat} {node : Node} {error : BackendError}
    {id : ValueId}
    : ¬(locate graph position node error).Misses id := by
  cases error <;> rintro (⟨_, same⟩ | ⟨_, same⟩) <;> cases same

/-- A node that misses a value reads it. -/
theorem misses_of_produce {graph : String} {checkFinite : Bool} {environment : Environment}
    {position : Nat} {node : Node} {error : BackendError} {id : ValueId}
    (failed : produce backend graph checkFinite environment position node = .error error)
    (misses : error.Misses id)
    : id ∈ node.reads ∧ environment.get? id = none := by
  rw [produce] at failed
  rcases Steps.bind_eq_error_iff.mp failed with gathered | ⟨inputs, -, failed⟩
  · obtain ⟨operand, member, failed⟩ := Steps.exists_of_mapM_eq_error gathered
    obtain ⟨read, absent⟩ := misses_of_operandValue failed misses
    exact ⟨List.mem_filterMap.mpr ⟨operand, member, read⟩, absent⟩
  · exfalso
    rcases Steps.bind_eq_error_iff.mp failed with asked | ⟨_, -, failed⟩
    · split_ifs at asked
      obtain ⟨_, -, failed⟩ := Steps.exists_of_forM_eq_error asked
      exact check_not_misses failed misses
    · rcases Steps.bind_eq_error_iff.mp failed with executed | ⟨value, -, failed⟩
      · cases outcome : backend.execute node.operation inputs with
        | ok value =>
            rw [outcome] at executed
            cases executed
        | error inner =>
            rw [outcome] at executed
            obtain rfl : locate graph position node inner = error := Except.error.inj executed
            exact locate_not_misses misses
      · rcases Steps.bind_eq_error_iff.mp failed with finite | ⟨_, -, done⟩
        · split_ifs at finite
          exact check_not_misses finite misses
        · cases done

/-- Nodes that do not read what was destroyed before them miss only what is neither there nor produced
before, and keep within reach what none of them destroys. By induction on the nodes.
-/
theorem evaluate_reach {graph : String} {checkFinite : Bool} {known gone : List ValueId}
    {environment : Environment} {nodes : List (Nat × Node)}
    (there : ∀ id ∈ known, id ∉ gone → environment.get? id ≠ none)
    (kept : ∀ entry ∈ nodes, ∀ id ∈ gone, id ∉ entry.2.reads)
    (unread
      : nodes.Pairwise fun earlier later =>
          ∀ target, Graph.destroyed? earlier.2 = some target → target ∉ later.2.reads)
    : (∀ after, evaluate backend graph checkFinite environment nodes = .ok after
          → ∀ id ∈ known ++ nodes.map (·.2.value), id ∉ gone
          → (∀ entry ∈ nodes, Graph.destroyed? entry.2 ≠ some id) → after.get? id ≠ none)
      ∧ ∀ error, evaluate backend graph checkFinite environment nodes = .error error
          → ∀ id, error.Misses id
          → ∃ (place : Nat) (entry : Nat × Node), nodes[place]? = some entry
            ∧ id ∈ entry.2.reads ∧ id ∉ known ++ (nodes.take place).map (·.2.value) := by
  induction nodes generalizing known gone environment with
  | nil =>
      refine ⟨?_, fun error failed => nomatch failed⟩
      rintro after ⟨⟩ id member present -
      exact there id (by simpa using member) present
  | cons entry rest ih =>
      obtain ⟨position, node⟩ := entry
      obtain ⟨first, unread⟩ := List.pairwise_cons.mp unread
      obtain ⟨here, kept⟩ := List.forall_mem_cons.mp kept
      rw [evaluate]
      cases produced : produce backend graph checkFinite environment position node with
      | error error =>
          refine ⟨fun after same => (nomatch same), ?_⟩
          rintro _ ⟨⟩ id misses
          obtain ⟨read, absent⟩ := misses_of_produce produced misses
          refine ⟨0, _, rfl, read, fun member => ?_⟩
          exact there id (by simpa using member) (fun left => here id left read) absent
      | ok value =>
          have there'
              : ∀ id ∈ known ++ [node.value], id ∉ gone ++ (Graph.destroyed? node).toList
                → ((withoutConsumed environment node).set node.value value).get? id ≠ none := by
            intro id member present
            rw [List.mem_append, Option.mem_toList, not_or] at present
            rw [Table.get?_set]
            split_ifs with same
            · simp
            · rw [get?_withoutConsumed present.2]
              rcases List.mem_append.mp member with before | new
              · exact there id before present.1
              · exact absurd (List.mem_singleton.mp new).symm same
          have kept'
              : ∀ entry ∈ rest, ∀ id ∈ gone ++ (Graph.destroyed? node).toList,
                  id ∉ entry.2.reads := by
            intro entry member id left
            rcases List.mem_append.mp left with before | now
            · exact kept entry member id before
            · exact first entry member id (Option.mem_toList.mp now)
          obtain ⟨reached, missed⟩ := ih there' kept' unread
          refine ⟨?_, ?_⟩
          · intro after evaluated id member present undestroyed
            obtain ⟨undestroyed, later⟩ := List.forall_mem_cons.mp undestroyed
            refine reached after evaluated id (by simpa using member) ?_ later
            rw [List.mem_append, Option.mem_toList, not_or]
            exact ⟨present, undestroyed⟩
          · intro error failed id misses
            obtain ⟨place, entry, listed, read, absent⟩ := missed error failed id misses
            exact ⟨place + 1, entry, by simpa using listed, read, by simpa using absent⟩

theorem misses_of_outputs {graph : String} {environment : Environment} {outputs : List ValueId}
    {error : BackendError} {id : ValueId}
    (failed : outputs.mapM (outputValue graph environment) = .error error)
    (misses : error.Misses id)
    : id ∈ outputs ∧ environment.get? id = none := by
  obtain ⟨output, member, failed⟩ := Steps.exists_of_mapM_eq_error failed
  rw [outputValue] at failed
  cases found : environment.get? output with
  | some value =>
      rw [found] at failed
      cases failed
  | none =>
      rw [found] at failed
      obtain rfl := Except.error.inj failed
      rcases misses with ⟨_, same⟩ | ⟨_, same⟩
      · cases same
      · obtain ⟨-, rfl⟩ := RunFault.noResult.inj (BackendError.execution.inj same)
        exact ⟨member, found⟩

/-- Binding inputs puts them within reach, and misses nothing. -/
theorem bindInputs_reach {graph : String} {checkFinite : Bool} {index : Nat}
    {environment : Environment} {inputs : List ((ValueId × ValueType) × Value)}
    : (∀ after, bindInputs graph checkFinite index environment inputs = .ok after
          → ∀ id, environment.get? id ≠ none ∨ id ∈ inputs.map (·.1.1)
          → after.get? id ≠ none)
      ∧ ∀ error, bindInputs graph checkFinite index environment inputs = .error error
          → ∀ id, ¬error.Misses id := by
  induction inputs generalizing index environment with
  | nil =>
      refine ⟨?_, ?_⟩
      · rintro after ⟨⟩ id there
        simpa using there
      · rintro _ ⟨⟩
  | cons input rest ih =>
      obtain ⟨⟨value, type⟩, given⟩ := input
      rw [bindInputs]
      dsimp only
      split
      · constructor
        · rintro _ ⟨⟩
        · rintro _ ⟨⟩ id (⟨_, same⟩ | ⟨_, same⟩) <;> cases same
      · have further
            : (∀ after,
                  bindInputs graph checkFinite (index + 1) (environment.set value given) rest
                    = .ok after
                  → ∀ id, environment.get? id ≠ none
                      ∨ id ∈ (((value, type), given) :: rest).map (·.1.1)
                  → after.get? id ≠ none)
              ∧ ∀ error,
                  bindInputs graph checkFinite (index + 1) (environment.set value given) rest
                    = .error error
                  → ∀ id, ¬error.Misses id := by
          obtain ⟨reached, missed⟩ := @ih (index + 1) (environment.set value given)
          refine ⟨fun after bound id there => reached after bound id ?_, missed⟩
          rw [Table.get?_set]
          rw [List.map_cons, List.mem_cons] at there
          split_ifs with same
          · exact .inl (by simp)
          · exact there.imp_right fun member => member.resolve_left (Ne.symm same)
        cases checkFinite with
        | false => exact further
        | true =>
            rw [if_pos rfl]
            obtain ⟨reached, missed⟩ := further
            refine ⟨fun after bound => ?_, fun error failed id misses => ?_⟩
            · obtain ⟨_, -, bound⟩ := Steps.bind_eq_ok_iff.mp bound
              exact reached after bound
            · rcases Steps.bind_eq_error_iff.mp failed with finite | ⟨_, -, failed⟩
              · exact check_not_misses finite misses
              · exact missed error failed id misses

-----------------------------------------------------------------------------------------
-- Graphs
-----------------------------------------------------------------------------------------

/-- The environment in front of the first node. -/
def bound (graph : Graph) (checkFinite : Bool) (inputs : List Value) : Outcome Environment :=
  if graph.inputs.length ≠ inputs.length then
    .error (.execution (.inputCount graph.name graph.inputs.length inputs.length))
  else
    bindInputs graph.name checkFinite 0 [] ((graph.inputs.zip graph.inputTypes).zip inputs)

/-- The outcome of a run of a graph in order: the inputs are bound, the nodes are evaluated as they
stand, and the outputs are looked up.
-/
theorem outcome_of_ordered (backend : Backend) {graph : Graph} (ordered : graph.Ordered)
    (checkFinite : Bool) (inputs : List Value)
    : (Run.graph backend graph checkFinite inputs).outcome
      = bound graph checkFinite inputs >>= fun environment =>
          evaluate backend graph.name checkFinite environment (numbered graph) >>= fun after =>
            graph.outputs.mapM (outputValue graph.name after) := by
  have prepared
      : prepare graph checkFinite inputs
        = (bound graph checkFinite inputs).map fun environment =>
            (environment, numbered graph) := by
    rw [prepare, schedule_of_ordered ordered, bound]
    split_ifs
    · rfl
    · rw [Steps.ok_bind]
      cases bindInputs graph.name checkFinite 0 []
        ((graph.inputs.zip graph.inputTypes).zip inputs) <;> rfl
  rw [Run.graph, graphWith, prepared]
  cases bound graph checkFinite inputs with
  | error error => rfl
  | ok environment =>
      change (runNodes backend.executor graph.name checkFinite environment [] _).2.bind _ = _
      rw [runNodes_outcome]
      rfl

theorem Matches.outputs {gone : List ValueId} {left right : Outcome Environment}
    (same : Matches gone left right) (graph : String) {outputs : List ValueId}
    (kept : ∀ id ∈ outputs, id ∉ gone)
    : left >>= (fun after => outputs.mapM (outputValue graph after))
      = right >>= fun after => outputs.mapM (outputValue graph after) := by
  cases same with
  | error error => rfl
  | ok agree =>
      refine Steps.mapM_congr fun id output => ?_
      rw [outputValue, outputValue, agree id (kept id output)]

/-- The nodes of a run do not read what was destroyed before them. -/
theorem unread_numbered {graph : Graph} (disposes : graph.Disposes)
    : (numbered graph).Pairwise fun earlier later =>
        ∀ target, Graph.destroyed? earlier.2 = some target → target ∉ later.2.reads := by
  refine (pairwise_numbered graph).imp_of_mem ?_
  intro earlier later first second before target destroyed
  exact disposes.unread before (mem_numbered first) (mem_numbered second) destroyed

/-- A graph that does not use what it destroyed has the outcome of its copying form. -/
theorem outcome_copying {graph : Graph} (disposes : graph.Disposes) (copies : backend.Copies)
    (checkFinite : Bool) (inputs : List Value)
    : (Run.graph backend graph checkFinite inputs).outcome
      = (Run.graph backend graph.copying checkFinite inputs).outcome := by
  rw [outcome_of_ordered backend disposes.ordered,
    outcome_of_ordered backend disposes.ordered.copying, numbered_copying]
  change bound graph checkFinite inputs >>= _ = bound graph checkFinite inputs >>= _
  refine Steps.bind_congr fun environment => ?_
  have agree : AgreeExcept [] environment environment := fun _ _ => rfl
  refine (evaluate_copying copies graph.name checkFinite agree (by simp)
    (unread_numbered disposes)).outputs _ ?_
  intro id output gone
  obtain ⟨entry, member, destroyed⟩ := List.mem_flatMap.mp gone
  have listed := List.mem_of_getElem? (mem_numbered member)
  exact disposes.notOutput entry.2 listed id (Option.mem_toList.mp destroyed) output

theorem bound_reach {graph : Graph} {checkFinite : Bool} {inputs : List Value}
    : (∀ environment, bound graph checkFinite inputs = .ok environment
          → ∀ id ∈ graph.inputs.take graph.inputTypes.length, environment.get? id ≠ none)
      ∧ ∀ error, bound graph checkFinite inputs = .error error → ∀ id, ¬error.Misses id := by
  rw [bound]
  split_ifs with counts
  · constructor
    · rintro _ ⟨⟩
    · rintro _ ⟨⟩ id (⟨_, same⟩ | ⟨_, same⟩) <;> cases same
  · rw [not_not] at counts
    refine ⟨fun environment bound id typed => ?_, bindInputs_reach.2⟩
    refine bindInputs_reach.1 environment bound id (.inr ?_)
    obtain ⟨place, found⟩ := List.mem_iff_getElem?.mp typed
    rw [List.getElem?_take] at found
    split_ifs at found with inside
    have given := counts ▸ (List.getElem?_eq_some_iff.mp found).1
    refine List.mem_map.mpr ⟨((id, graph.inputTypes[place]), inputs[place]), ?_, rfl⟩
    refine List.mem_iff_getElem?.mpr ⟨place, List.getElem?_zip_eq_some.mpr ⟨?_, by simp⟩⟩
    exact List.getElem?_zip_eq_some.mpr ⟨found, by simp⟩

/-- A graph that does not use what it destroyed misses only inputs without a declared type. -/
theorem misses_of_disposes {graph : Graph} (disposes : graph.Disposes) {checkFinite : Bool}
    {inputs : List Value} {error : BackendError} {id : ValueId}
    (failed : (Run.graph backend graph checkFinite inputs).outcome = .error error)
    (misses : error.Misses id)
    : id ∈ graph.inputs.drop graph.inputTypes.length := by
  have ordered := disposes.ordered
  have untyped (input : id ∈ graph.inputs)
      (absent : id ∉ graph.inputs.take graph.inputTypes.length)
      : id ∈ graph.inputs.drop graph.inputTypes.length := by
    rw [← List.take_append_drop graph.inputTypes.length graph.inputs, List.mem_append] at input
    exact input.resolve_left absent
  rw [outcome_of_ordered backend ordered] at failed
  rcases Steps.bind_eq_error_iff.mp failed with early | ⟨environment, bounded, failed⟩
  · exact absurd misses (bound_reach.2 error early id)
  obtain ⟨reached, missed⟩ := @evaluate_reach backend graph.name checkFinite _ [] environment
    (numbered graph) (fun id known _ => bound_reach.1 environment bounded id known) (by simp)
    (unread_numbered disposes)
  rcases Steps.bind_eq_error_iff.mp failed with evaluated | ⟨after, evaluated, failed⟩
  · obtain ⟨place, entry, found, read, absent⟩ := missed error evaluated id misses
    have here : graph.body[place]? = some entry.2 := by
      rw [← map_snd_numbered, List.getElem?_map, found]
      rfl
    have before := ordered.reads here id read
    have names
        : ((numbered graph).take place).map (·.2.value)
          = (graph.body.take place).map (·.value) := by
      conv_rhs => rw [← map_snd_numbered graph]
      rw [← List.map_take, List.map_map]
      rfl
    rw [names, List.mem_append, not_or] at absent
    rw [Graph.definedBefore, List.mem_append] at before
    exact untyped (before.resolve_right absent.2) absent.1
  · obtain ⟨output, absent⟩ := misses_of_outputs failed misses
    have names : (numbered graph).map (·.2.value) = graph.body.map (·.value) := by
      conv_rhs => rw [← map_snd_numbered graph]
      rw [List.map_map]
      rfl
    have undestroyed : ∀ entry ∈ numbered graph, Graph.destroyed? entry.2 ≠ some id :=
      fun entry member destroyed =>
        disposes.notOutput _ (List.mem_of_getElem? (mem_numbered member)) id destroyed output
    have there : id ∉ graph.inputs.take graph.inputTypes.length ++ graph.body.map (·.value) := by
      intro known
      exact reached after evaluated id (names.symm ▸ known) List.not_mem_nil undestroyed absent
    rw [List.mem_append, not_or] at there
    exact untyped ((List.mem_append.mp (ordered.outputs id output)).resolve_right there.2) there.1

/-- A graph in order that destroys nothing misses only inputs without a declared type. -/
theorem misses_of_ordered {graph : Graph} (ordered : graph.Ordered)
    (copies : ∀ node ∈ graph.body, Graph.destroyed? node = none) {checkFinite : Bool}
    {inputs : List Value} {error : BackendError} {id : ValueId}
    (failed : (Run.graph backend graph checkFinite inputs).outcome = .error error)
    (misses : error.Misses id)
    : id ∈ graph.inputs.drop graph.inputTypes.length := by
  have none {node : Node} {target : ValueId} (member : node ∈ graph.body)
      : Graph.destroyed? node ≠ some target := by
    simp [copies node member]
  refine misses_of_disposes ⟨ordered, ?_, ?_, ?_⟩ failed misses
  · exact fun _ atFirst _ destroyed => absurd destroyed (none (List.mem_of_getElem? atFirst))
  · exact fun node member target destroyed => absurd destroyed (none member)
  · exact fun node member target destroyed => absurd destroyed (none member)

/-- Destroying operands changes nothing: a graph that passes the check of storage has the outcome,
be it results or an error, of the graph that mutates copies, with and without bounded memory. A
value is out of reach only if it is an input without a declared type, and no node destroys it.
-/
theorem graph_runs_as_copying {graph : Graph} (accepted : graph.checkStorage = .ok ())
    (checkFinite : Bool) (inputs : List Value)
    : ∀ backend ∈ [Backend.reference, Backend.reference.bounded],
        (Run.graph backend graph checkFinite inputs).outcome
          = (Run.graph backend graph.copying checkFinite inputs).outcome
        ∧ ∀ error, (Run.graph backend graph checkFinite inputs).outcome = .error error
            → ∀ id, error.Misses id
            → id ∈ graph.inputs.drop graph.inputTypes.length
              ∧ ∀ node ∈ graph.body, Graph.destroyed? node ≠ some id := by
  have disposes := Graph.disposes_of_checkStorage accepted
  intro backend member
  have copies : backend.Copies := by
    rcases List.mem_pair.mp member with rfl | rfl
    · exact Backend.reference_copies
    · exact Backend.reference_copies.bounded
  have same := outcome_copying disposes copies checkFinite inputs
  refine ⟨same, fun error failed id misses => ?_⟩
  have keeps : ∀ node ∈ graph.copying.body, Graph.destroyed? node = none := by
    intro node member
    obtain ⟨original, -, rfl⟩ := List.mem_map.mp member
    rw [Graph.destroyed?]
    split
    · rename_i position consumes
      exact absurd consumes (Operation.storage_copying _ _)
    · rfl
  have untyped := misses_of_ordered disposes.ordered.copying keeps (same ▸ failed) misses
  refine ⟨untyped, fun node member destroyed => ?_⟩
  exact disposes.notInput node member id destroyed (List.mem_of_mem_drop untyped)

/-- A graph that reverses a list in place and counts its items. -/
def reversal : Graph where
  name := "reversal"
  inputTypes := [.tensor ⟨.si64, ⟨[.static 2]⟩⟩]
  inputs := [⟨0⟩]
  outputTypes := [.tensor ⟨.si64, ⟨[]⟩⟩]
  body :=
    [⟨⟨1⟩, .makeList, [.value ⟨0⟩, .value ⟨0⟩], .list ⟨.si64, ⟨[.static 2]⟩⟩⟩,
      ⟨⟨2⟩, .listMutation .reverse true, [.value ⟨1⟩], .list ⟨.si64, ⟨[.static 2]⟩⟩⟩,
      ⟨⟨3⟩, .listLength, [.value ⟨2⟩], .tensor ⟨.si64, ⟨[]⟩⟩⟩]
  outputs := [⟨3⟩]

/-- The list of `reversal` may be reversed in place. -/
theorem reversal_runs_as_copying
    : reversal.checkStorage = .ok ()
      ∧ reversal.copying ≠ reversal
      ∧ (Run.graph .reference reversal false [.tensor ⟨[2], .si64 [1, 2]⟩]).outcome
          = (Run.graph .reference reversal.copying false [.tensor ⟨[2], .si64 [1, 2]⟩]).outcome :=
  have accepted : reversal.checkStorage = .ok () := rfl
  ⟨accepted, by decide,
    (graph_runs_as_copying accepted false _ .reference List.mem_cons_self).1⟩

end Run

end Dataflow
