import Dataflow.Proofs.Graph.WellTyped
import Dataflow.Proofs.Rewrite.TypedEdits
import Mathlib.Data.List.Basic

/-!
Calls of a builder and their answers. A call is accepted, and then the next name is handed out, or
it is refused, and then it leaves no trace. A finished graph is well formed, and it holds what the
accepted calls asked for, in their order and under their names.
-/

namespace Dataflow

namespace Builder

-----------------------------------------------------------------------------------------
-- Answers
-----------------------------------------------------------------------------------------

/-- What a builder answers to a call: a new name, or what is wrong with the call. -/
def answer (builder : Builder) : Call → Except TypeError ValueId
  | .input type => .ok (builder.addInput type).1
  | .node operation operands => (builder.addNode operation operands).map (·.1)
  | .constant literal => .ok (builder.addConstant literal).1

/-- What a builder answers to some calls, one after the other. -/
def answers : Builder → List Call → List (Except TypeError ValueId)
  | _, [] => []
  | builder, call :: rest => builder.answer call :: answers (builder.call call) rest

/-- The calls that are accepted, with the names that are handed out for them. -/
def accepted (builder : Builder) (calls : List Call) : List (Call × ValueId) :=
  (calls.zip (builder.answers calls)).filterMap fun (call, answer) =>
    answer.toOption.map fun value => (call, value)

/-- The names that a new builder hands out. -/
def handedOut (calls : List Call) : List ValueId := (empty.accepted calls).map (·.2)

/-- The input that a call asks for. -/
def Call.input? : Call → ValueId → Option (ValueId × ValueType)
  | .input type, value => some (value, type)
  | .node _ _, _ => none
  | .constant _, _ => none

/-- The node that a call asks for: its value, its operation and its operands. -/
def Call.node? : Call → ValueId → Option (ValueId × Operation × List Operand)
  | .input _, _ => none
  | .node operation operands, value => some (value, operation, operands)
  | .constant literal, value => some (value, .constant literal, [])

variable {builder : Builder} {done : List (Call × ValueId)}

/-- A node is added iff the types of its operands are found and fit the operation. -/
theorem addNode_eq_ok_iff {operation : Operation} {operands : List Operand}
    {result : ValueId × Builder}
    : builder.addNode operation operands = .ok result
      ↔ ∃ types,
          builder.operandTypes 0 operands = .ok types
          ∧ ∃ type,
              operation.resultType types = .ok type
              ∧ builder.push operation operands type = result := by
  simp only [addNode, Steps.bind_eq_ok_iff, Steps.mapError_eq_ok_iff, Except.ok.injEq]

/-- The types of operands are found if all of them have types, by induction on the operands. -/
theorem operandTypes_of_hasType {operands : List Operand} {types : List ValueType}
    (typed : List.Forall₂ (Operand.HasType builder.types) operands types) (position : Nat)
    : builder.operandTypes position operands = .ok types := by
  induction typed generalizing position with
  | nil => rfl
  | @cons operand type operands types here _ ih =>
      have found : builder.operandType position operand = .ok type := by
        cases operand with
        | literal literal => exact congrArg Except.ok here.symm
        | value id =>
            have known : builder.type? id = some type := here
            rw [operandType, known]
      rw [operandTypes, found, Steps.ok_bind, ih, Steps.ok_bind]

/-- A node is accepted iff all its operands have types, and the operation has a type for these. -/
theorem answer_node_eq_ok_iff {operation : Operation} {operands : List Operand}
    : (∃ value, builder.answer (.node operation operands) = .ok value)
      ↔ ∃ types type,
          List.Forall₂ (Operand.HasType builder.types) operands types
          ∧ operation.resultType types = .ok type := by
  constructor
  · rintro ⟨value, accepted⟩
    obtain ⟨result, added, -⟩ := Steps.map_eq_ok_iff.mp accepted
    obtain ⟨types, found, type, inferred, -⟩ := addNode_eq_ok_iff.mp added
    exact ⟨types, type, operandTypes_eq_ok found, inferred⟩
  · rintro ⟨types, type, typed, inferred⟩
    have added : builder.addNode operation operands = .ok (builder.push operation operands type) :=
      addNode_eq_ok_iff.mpr ⟨types, operandTypes_of_hasType typed 0, type, inferred, rfl⟩
    exact ⟨builder.fresh, by rw [answer, added]; rfl⟩

-----------------------------------------------------------------------------------------
-- Records
-----------------------------------------------------------------------------------------

/-- A builder holds what some calls asked for, and it keeps a type for each of their names. The
names are the numbers from zero on.
-/
structure Records (builder : Builder) (done : List (Call × ValueId)) : Prop where
  names : done.map (·.2) = (List.range builder.next).map ValueId.mk
  inputs : builder.inputs = done.filterMap fun (call, value) => call.input? value
  nodes
    : builder.nodes.map (fun node => (node.value, node.operation, node.operands))
      = done.filterMap fun (call, value) => call.node? value
  types : ∀ value, (builder.type? value).isSome = true ↔ value ∈ done.map (·.2)

/-- A new builder holds nothing. -/
theorem records_empty : empty.Records [] :=
  ⟨rfl, rfl, rfl, fun value => by simp [type?, empty, Table.get?]⟩

/-- A builder that has one more input or node, under the next name, holds what one more call asked
for.
-/
theorem Records.add (records : builder.Records done) {next : Builder} {call : Call}
    {type : ValueType} (number : next.next = builder.next + 1)
    (inputs : next.inputs = builder.inputs ++ (call.input? builder.fresh).toList)
    (nodes
      : next.nodes.map (fun node => (node.value, node.operation, node.operands))
        = builder.nodes.map (fun node => (node.value, node.operation, node.operands))
          ++ (call.node? builder.fresh).toList)
    (types : next.types = builder.types.set builder.fresh type)
    : next.Records (done ++ [(call, builder.fresh)]) := by
  have single {α : Type} (part : Call × ValueId → Option α)
      : [(call, builder.fresh)].filterMap part = (part (call, builder.fresh)).toList := by
    cases found : part (call, builder.fresh) <;> simp [found]
  refine ⟨?_, ?_, ?_, fun value => ?_⟩
  · rw [List.map_append, records.names, number, List.range_succ, List.map_append]
    rfl
  · rw [inputs, records.inputs, List.filterMap_append, single]
  · rw [nodes, records.nodes, List.filterMap_append, single]
  · rw [List.map_append, List.mem_append, ← records.types value, type?, types, Table.get?_set]
    by_cases new : builder.fresh = value
    · simp [new]
    · simp [new, Ne.symm new, type?]

/-- A call is refused and changes nothing, or the next name is handed out for it and the builder
holds what it asks for.
-/
theorem call_cases (builder : Builder) (call : Call)
    : (∃ error, builder.answer call = .error error ∧ builder.call call = builder)
      ∨ builder.answer call = .ok builder.fresh
        ∧ ∀ {done : List (Call × ValueId)},
            builder.Records done → (builder.call call).Records (done ++ [(call, builder.fresh)]) := by
  cases call with
  | input type =>
      refine .inr ⟨rfl, fun records => ?_⟩
      exact @Records.add _ _ records (builder.addInput type).2 (.input type) type rfl rfl
        (List.append_nil _).symm rfl
  | node operation operands =>
      rw [answer, Builder.call]
      cases added : builder.addNode operation operands with
      | error error => exact .inl ⟨error, rfl, rfl⟩
      | ok result =>
          obtain ⟨_, -, type, -, rfl⟩ := addNode_eq_ok_iff.mp added
          refine .inr ⟨rfl, fun records => ?_⟩
          exact @Records.add _ _ records (builder.push operation operands type).2
            (.node operation operands) type rfl (List.append_nil _).symm (List.map_append) rfl
  | constant literal =>
      refine .inr ⟨rfl, fun records => ?_⟩
      exact @Records.add _ _ records (builder.addConstant literal).2 (.constant literal)
        (.tensor literal.type) rfl (List.append_nil _).symm (List.map_append) rfl

/-- Behind some calls, a builder holds what those of them asked for that were accepted. By induction
on the calls.
-/
theorem Records.foldl (records : builder.Records done) (calls : List Call)
    : (calls.foldl Builder.call builder).Records (done ++ builder.accepted calls) := by
  induction calls generalizing builder done with
  | nil => simpa [accepted] using records
  | cons call rest ih =>
      rw [List.foldl_cons]
      rcases call_cases builder call with ⟨error, refused, same⟩ | ⟨handed, next⟩
      · have kept : builder.accepted (call :: rest) = builder.accepted rest := by
          simp [accepted, answers, refused, same, Except.toOption]
        rw [kept, same]
        exact ih records
      · have more
            : builder.accepted (call :: rest)
              = (call, builder.fresh) :: (builder.call call).accepted rest := by
          simp [accepted, answers, handed, Except.toOption]
        rw [more, List.append_cons]
        exact ih (next records)

theorem records_afterCalls (calls : List Call)
    : (afterCalls calls).Records (empty.accepted calls) :=
  records_empty.foldl calls

-----------------------------------------------------------------------------------------
-- Refused calls
-----------------------------------------------------------------------------------------

/-- Without a refused call, the builder and the other answers are the same. By induction on the
calls in front of it.
-/
theorem eraseIdx_refused {calls : List Call} {place : Nat} {error : TypeError}
    (refused : (builder.answers calls)[place]? = some (.error error))
    : builder.answers (calls.eraseIdx place) = (builder.answers calls).eraseIdx place
      ∧ (calls.eraseIdx place).foldl Builder.call builder = calls.foldl Builder.call builder := by
  induction calls generalizing builder place with
  | nil => simp [answers] at refused
  | cons call rest ih =>
      cases place with
      | zero =>
          have here : builder.answer call = .error error := by simpa [answers] using refused
          rcases call_cases builder call with ⟨_, -, same⟩ | ⟨handed, -⟩
          · simp [answers, same]
          · cases here.symm.trans handed
      | succ place =>
          have later : ((builder.call call).answers rest)[place]? = some (.error error) := by
            simpa [answers] using refused
          obtain ⟨others, builders⟩ := ih later
          simp [answers, others, builders]

-----------------------------------------------------------------------------------------
-- Finished graphs
-----------------------------------------------------------------------------------------

/-- An output has the type that is kept for it. -/
theorem outputType_eq_ok_iff {value : ValueId} {type : ValueType}
    : builder.outputType value = .ok type ↔ builder.type? value = some type := by
  rw [outputType]
  cases builder.type? value <;> simp

/-- A graph can be finished iff types are kept for all its outputs. -/
theorem exists_finish_iff {name : String} {outputs : List ValueId}
    : (∃ graph, builder.finish name outputs = .ok graph)
      ↔ ∀ value ∈ outputs, (builder.type? value).isSome = true := by
  constructor
  · rintro ⟨graph, finished⟩ value member
    obtain ⟨types, found, -⟩ := Steps.bind_eq_ok_iff.mp finished
    have listed : builder.outputType value ∈ types.map .ok :=
      Steps.mapM_eq_ok_iff.mp found ▸ List.mem_map_of_mem member
    obtain ⟨type, -, here⟩ := List.mem_map.mp listed
    rw [outputType_eq_ok_iff.mp here.symm]
    rfl
  · intro known
    obtain ⟨types, found⟩ := Steps.exists_mapM_eq_ok fun value member => by
      obtain ⟨type, here⟩ := Option.isSome_iff_exists.mp (known value member)
      exact ⟨type, outputType_eq_ok_iff.mpr here⟩
    exact ⟨_, by rw [finish, found]; rfl⟩

end Builder

/-- A graph is well formed: its values are distinct, tables can be built for it, its body is in order,
and its nodes and outputs have the types that follow from its own types. And it holds the inputs and
the nodes that some calls asked for, and no others, in the order of the calls.
-/
structure Graph.Realizes (graph : Graph) (done : List (Builder.Call × ValueId)) : Prop where
  distinct : graph.defined.Nodup
  indexed : ∃ index, Index.build graph = .ok index
  ordered : graph.checkOrder = .ok ()
  typed : graph.TypedBy graph.types
  inputs
    : graph.inputs.zip graph.inputTypes = done.filterMap fun (call, value) => call.input? value
  nodes
    : graph.body.map (fun node => (node.value, node.operation, node.operands))
      = done.filterMap fun (call, value) => call.node? value

namespace Builder

/-- Whatever is asked of a builder, in whatever order, and whether it is accepted or refused: the
names that are handed out are the numbers from zero on, and a graph can be finished iff all its
outputs were handed out. The graph then has the name and the outputs that were asked for, is well
formed, and holds what the accepted calls asked for. A refused call leaves no trace: without it, all
other answers are the same, and so is the builder.
-/
theorem finish_realizes (calls : List Call) (name : String) (outputs : List ValueId)
    : handedOut calls = (List.range (handedOut calls).length).map ValueId.mk
      ∧ ((∃ graph, (afterCalls calls).finish name outputs = .ok graph)
        ↔ ∀ value ∈ outputs, value ∈ handedOut calls)
      ∧ (∀ graph,
          (afterCalls calls).finish name outputs = .ok graph
          → graph.name = name
            ∧ graph.outputs = outputs
            ∧ graph.Realizes (empty.accepted calls))
      ∧ ∀ (place : Nat) (error : TypeError),
          (empty.answers calls)[place]? = some (.error error)
          → empty.answers (calls.eraseIdx place) = (empty.answers calls).eraseIdx place
            ∧ afterCalls (calls.eraseIdx place) = afterCalls calls := by
  have records := records_afterCalls calls
  refine ⟨?_, ?_, fun graph finished => ?_, fun place error refused => eraseIdx_refused refused⟩
  · have names : handedOut calls = _ := records.names
    rw [names, List.length_map, List.length_range]
  · rw [exists_finish_iff]
    exact forall₂_congr fun value _ => records.types value
  · have typed := wellTyped_of_finish finished
    obtain ⟨session, started, -⟩ := Session.exists_start_of_wellTyped typed
    obtain ⟨index, indexed, -⟩ := Steps.bind_eq_ok_iff.mp started
    obtain ⟨outputTypes, -, done⟩ := Steps.bind_eq_ok_iff.mp finished
    obtain rfl := Except.ok.inj done
    refine ⟨rfl, rfl, typed.distinct, ⟨index, indexed⟩, ?_, typed.typedBy, ?_, records.nodes⟩
    · exact Graph.checkOrder_eq_ok_iff.mpr typed.ordered
    · rw [← records.inputs, List.zip_map', List.map_id']

/-- Calls for two matrices, their product, which is refused because one holds integers, a constant, a
sum with a literal, a node that reads an unknown value, and one more input.
-/
def mixedCalls : List Call :=
  [.input (.tensor ⟨.f64, ⟨[.static 2, .static 2]⟩⟩),
    .input (.tensor ⟨.si64, ⟨[.static 2, .static 2]⟩⟩),
    .node .dot [.value ⟨0⟩, .value ⟨1⟩],
    .constant ⟨⟨.si64, ⟨[]⟩⟩, [1, 0, 0, 0, 0, 0, 0, 0]⟩,
    .node (.binary .add) [.value ⟨1⟩, .literal ⟨⟨.si64, ⟨[]⟩⟩, [1, 0, 0, 0, 0, 0, 0, 0]⟩],
    .node (.unary .neg) [.value ⟨9⟩],
    .input (.tensor ⟨.f32, ⟨[]⟩⟩),
    .node (.unary .neg) [.value ⟨3⟩]]

/-- Two of these calls are refused, six names are handed out, and the last one can be an output. The
name that was read too early cannot.
-/
theorem mixedCalls_realized
    : handedOut mixedCalls = [⟨0⟩, ⟨1⟩, ⟨2⟩, ⟨3⟩, ⟨4⟩, ⟨5⟩]
      ∧ (∃ graph,
          (afterCalls mixedCalls).finish "mixed" [⟨5⟩, ⟨2⟩] = .ok graph
          ∧ graph.Realizes (empty.accepted mixedCalls))
      ∧ (¬ ∃ graph, (afterCalls mixedCalls).finish "mixed" [⟨9⟩] = .ok graph)
      ∧ afterCalls (mixedCalls.eraseIdx 2) = afterCalls mixedCalls := by
  have handed : handedOut mixedCalls = [⟨0⟩, ⟨1⟩, ⟨2⟩, ⟨3⟩, ⟨4⟩, ⟨5⟩] := rfl
  obtain ⟨-, finishes, realized, refused⟩ := finish_realizes mixedCalls "mixed" [⟨5⟩, ⟨2⟩]
  obtain ⟨-, unknown, -⟩ := finish_realizes mixedCalls "mixed" [⟨9⟩]
  obtain ⟨graph, finished⟩ := finishes.mpr (by rw [handed]; decide)
  refine ⟨handed, ⟨graph, finished, (realized graph finished).2.2⟩, ?_, ?_⟩
  · rw [unknown, handed]
    decide
  · exact (refused 2 ⟨"dot", .dtype (.differ .f64 .si64)⟩ rfl).2

end Builder

end Dataflow
