import Dataflow.Execution.Memory
import Dataflow.Execution.Run
import Dataflow.Proofs.Graph.Construction
import Dataflow.Proofs.Typing.Soundness

/-!
Runs of well-typed graphs. Every value that a node produces has the type of the node, and no promise
is broken: what holds of a kernel holds of a run, by induction on the nodes.
-/

namespace Dataflow

/-- An executor is sound up to some breaches: on operands of types that the type of a node is
inferred from, its results have the type of the node, and it breaks no other promise.
-/
structure Executor.Sound (execute : Executor) (allowed : Breach → Prop) : Prop where
  value
    : ∀ {done : List Execution} {node : Node} {inputs : Inputs} {types : List ValueType}
        {value : Value},
        inputs.HaveTypes types
        → node.operation.resultType types = .ok node.type
        → execute done node inputs = .ok value
        → value.HasType node.type
  breach
    : ∀ {done : List Execution} {node : Node} {inputs : Inputs} {types : List ValueType}
        {breach : Breach},
        inputs.HaveTypes types
        → node.operation.resultType types = .ok node.type
        → execute done node inputs = .error (.breach breach)
        → allowed breach

/-- The reference backend breaks no promise. -/
theorem Backend.reference_sound : Executor.Sound reference.executor fun _ => False where
  value typed inferred done := (Kernel.safe_execute_of_resultType typed inferred).holds done
  breach typed inferred failed := (Kernel.safe_execute_of_resultType typed inferred).kept _ failed

/-- The reference backend with bounded memory breaks no promise but that memory is enough. -/
theorem Backend.bounded_reference_sound
    : Executor.Sound reference.bounded.executor fun breach => breach = .memory where
  value {_ node inputs types value} typed inferred done := by
    change (if Memory.isEnough node.operation inputs then Kernel.execute node.operation inputs
      else .error (.breach .memory)) = .ok value at done
    split_ifs at done
    exact (Kernel.safe_execute_of_resultType typed inferred).holds done
  breach {_ node inputs types breach} typed inferred failed := by
    change (if Memory.isEnough node.operation inputs then Kernel.execute node.operation inputs
      else .error (.breach .memory)) = .error (.breach breach) at failed
    split_ifs at failed
    · exact ((Kernel.safe_execute_of_resultType typed inferred).kept _ failed).elim
    · exact (BackendError.breach.inj (Except.error.inj failed)).symm

/-- The node of an execution is one of some nodes, and what it produced has the type of the node. -/
structure Execution.Conforms (execution : Execution) (body : List Node) : Prop where
  listed : execution.node ∈ body
  typed : ∀ value, execution.outcome = .ok value → value.HasType execution.node.type

/-- The values within reach have the types that are kept for them. -/
def Environment.TypedBy (environment : Environment) (types : Types) : Prop :=
  ∀ entry ∈ environment, ∃ type, types.get? entry.1 = some type ∧ entry.2.HasType type

/-- The value of an operand has the type of the operand. -/
theorem Run.safe_operandValue {environment : Environment} {types : Types}
    (typed : environment.TypedBy types) (reader : ValueId) (operand : Operand)
    : Outcome.Safe (fun value => ∀ type, operand.HasType types type → value.HasType type)
        (operandValue environment reader operand) := by
  cases operand with
  | literal literal =>
      rw [operandValue, Value.ofHost]
      refine (Tensor.safe_ofLiteral literal).bind ?_
      intro tensor fine
      refine Outcome.safe_ok ?_
      rintro type rfl
      exact Value.hasType_tensor.mpr fine
  | value id =>
      rw [operandValue]
      cases found : environment.get? id with
      | none => exact Outcome.safe_error fun _ same => nomatch same
      | some value =>
          refine Outcome.safe_ok ?_
          intro type known
          obtain ⟨other, kept, fine⟩ := typed _ (Table.mem_of_get? found)
          obtain rfl : other = type := Option.some.inj (kept.symm.trans known)
          exact fine

/-- The values of operands have their types. -/
theorem Run.safe_operands {environment : Environment} {types : Types}
    (typed : environment.TypedBy types) (reader : ValueId) {operands : List Operand}
    {operandTypes : List ValueType}
    (each : List.Forall₂ (Operand.HasType types) operands operandTypes)
    : Outcome.Safe (fun inputs : Inputs => inputs.HaveTypes operandTypes)
        (operands.mapM (operandValue environment reader)) := by
  refine (Outcome.Safe.mapM fun operand _ => safe_operandValue typed reader operand).mono ?_
  intro inputs values
  induction each generalizing inputs with
  | nil =>
      cases values
      exact .nil
  | cons here _ ih =>
      cases values with
      | cons value later => exact .cons (value _ here) (ih _ later)

/-- Looking for numbers that are not finite breaks no promise. -/
theorem Finiteness.safe_check (operation : String) (id : ValueId) (value : HostValue)
    : Outcome.Safe (fun _ => True) (check operation id value) := by
  rw [check]
  split
  · exact Outcome.safe_ok trivial
  · exact Outcome.safe_error fun _ same => nomatch same

namespace Run

/-- Looking at all operands breaks no promise. -/
theorem safe_checkOperands (node : Node) (inputs : Inputs)
    : Outcome.Safe (fun _ => True) (checkOperands node inputs) := by
  have each
      : ∀ pair ∈ node.operands.zip inputs,
          Outcome.Safe (fun _ => True)
            (Finiteness.check node.operation.name (pair.1.value?.getD node.value)
              pair.2.toHost) :=
    fun pair _ => Finiteness.safe_check _ _ _
  exact (Outcome.Safe.forM each).mono fun _ _ => trivial

/-- Saying where a node stands hides no broken promise and makes none. -/
theorem locate_eq_breach {graph : String} {position : Nat} {node : Node} {error : BackendError}
    {breach : Breach} (located : locate graph position node error = .breach breach)
    : error = .breach breach := by
  cases error <;> simp_all [locate]

/-- A new value of the type that is kept for it, after one went out of reach. -/
theorem typedBy_next {environment : Environment} {types : Types} {node : Node} {value : Value}
    (typed : environment.TypedBy types) (declared : types.get? node.value = some node.type)
    (fine : value.HasType node.type)
    : Environment.TypedBy ((withoutConsumed environment node).set node.value value) types := by
  intro entry member
  rcases Table.mem_of_mem_set member with rfl | before
  · exact ⟨node.type, declared, fine⟩
  · refine typed entry ?_
    rw [withoutConsumed] at before
    split at before
    · split at before
      · exact Table.mem_of_mem_erase before
      · exact before
    · exact before

/-- Nodes that types describe, run on values of these types: every value that is produced has the
type of its node, all values within reach have the types that are kept for them, and only allowed
promises are broken. By induction on the nodes.
-/
theorem runNodes_typed {execute : Executor} {allowed : Breach → Prop} {types : Types}
    (sound : execute.Sound allowed) (graph : String) (checkFinite : Bool)
    {body : List Node} {environment : Environment} {done : List Execution}
    {nodes : List (Nat × Node)} (typed : environment.TypedBy types)
    (before : ∀ execution ∈ done, execution.Conforms body)
    (nodesTyped : ∀ entry ∈ nodes, entry.2 ∈ body ∧ entry.2.TypedBy types)
    : (∀ execution ∈ (runNodes execute graph checkFinite environment done nodes).1,
          execution.Conforms body)
      ∧ (∀ after, (runNodes execute graph checkFinite environment done nodes).2 = .ok after
          → after.TypedBy types)
      ∧ ∀ breach,
          (runNodes execute graph checkFinite environment done nodes).2 = .error (.breach breach)
          → allowed breach := by
  induction nodes generalizing environment done with
  | nil =>
      refine ⟨before, ?_, fun breach same => nomatch same⟩
      rintro after ⟨⟩
      exact typed
  | cons entry rest ih =>
      obtain ⟨position, node⟩ := entry
      obtain ⟨listed, nodeTyped⟩ : node ∈ body ∧ node.TypedBy types :=
        nodesTyped _ List.mem_cons_self
      obtain ⟨operands, each, inferred⟩ := nodeTyped.inferred
      have gathers := safe_operands typed node.value each
      rw [runNodes]
      cases gathered : node.operands.mapM (operandValue environment node.value) with
      | error error =>
          refine ⟨before, fun after same => (nomatch same), ?_⟩
          rintro breach ⟨⟩
          exact (gathers.kept _ gathered).elim
      | ok inputs =>
          have haveTypes := gathers.holds gathered
          dsimp only
          split
          · rename_i error failed
            refine ⟨before, fun after same => (nomatch same), ?_⟩
            rintro breach ⟨⟩
            split_ifs at failed
            exact ((safe_checkOperands node inputs).kept _ failed).elim
          · have conforms
                : ∀ execution ∈ done ++ [⟨node, inputs, execute done node inputs⟩],
                    execution.Conforms body := by
              intro execution member
              rcases List.mem_append.mp member with earlier | last
              · exact before execution earlier
              · obtain rfl := List.mem_singleton.mp last
                exact ⟨listed, fun value same => sound.value haveTypes inferred same⟩
            generalize produced : execute done node inputs = outcome at conforms
            cases outcome with
            | error error =>
                refine ⟨conforms, fun after same => (nomatch same), ?_⟩
                intro breach same
                have located := locate_eq_breach (Except.error.inj same)
                exact sound.breach haveTypes inferred (located ▸ produced)
            | ok value =>
                dsimp only
                split
                · rename_i error failed
                  refine ⟨conforms, fun after same => (nomatch same), ?_⟩
                  rintro breach ⟨⟩
                  split_ifs at failed
                  exact ((Finiteness.safe_check _ _ _).kept _ failed).elim
                · refine ih ?_ conforms ?_
                  · exact typedBy_next typed nodeTyped.declared
                      (sound.value haveTypes inferred produced)
                  · exact fun entry member => nodesTyped entry (List.mem_cons_of_mem _ member)

/-- Binding valid inputs breaks no promise, and puts values of the declared types within reach. By
induction on the inputs.
-/
theorem safe_bindInputs {types : Types} (graph : String) (checkFinite : Bool) {index : Nat}
    {environment : Environment} {inputs : List ((ValueId × ValueType) × Value)}
    (typed : environment.TypedBy types)
    (declared : ∀ input ∈ inputs, types.get? input.1.1 = some input.1.2)
    (valid : ∀ input ∈ inputs, input.2.Valid)
    : Outcome.Safe (fun after => Environment.TypedBy after types)
        (bindInputs graph checkFinite index environment inputs) := by
  induction inputs generalizing index environment with
  | nil => exact Outcome.safe_ok typed
  | cons input rest ih =>
      obtain ⟨⟨id, type⟩, value⟩ := input
      rw [bindInputs]
      dsimp only
      by_cases conforms : value.toHost.conformsTo type = true
      · have further
            : Outcome.Safe (fun after => Environment.TypedBy after types)
                (bindInputs graph checkFinite (index + 1) (environment.set id value) rest) := by
          refine ih ?_ (fun other member => declared other (List.mem_cons_of_mem _ member))
            (fun other member => valid other (List.mem_cons_of_mem _ member))
          intro entry member
          rcases Table.mem_of_mem_set member with rfl | before
          · exact ⟨type, declared _ List.mem_cons_self, valid _ List.mem_cons_self, conforms⟩
          · exact typed entry before
        rw [conforms, if_neg (by simp)]
        cases checkFinite with
        | false => exact further
        | true => exact (Finiteness.safe_check _ _ _).bind fun _ _ => further
      · rw [Bool.eq_false_iff.mpr conforms, if_pos (by simp)]
        exact Outcome.safe_error fun _ same => nomatch same

/-- A run of a graph respects the types that the graph declares: it breaks none but the allowed
promises, every value that a node produces has the type of the node, and there is a value of its
type for each output.
-/
structure Respects (run : Run) (graph : Graph) (allowed : Breach → Prop) : Prop where
  breaches : ∀ breach, run.outcome = .error (.breach breach) → allowed breach
  nodes
    : ∀ execution ∈ run.executions,
        execution.node ∈ graph.body
        ∧ ∀ value, execution.outcome = .ok value
            → value.toHost.conformsTo execution.node.type = true
  outputs
    : ∀ values, run.outcome = .ok values
        → values.length = graph.outputs.length
          ∧ List.Forall₂ (fun value type => value.toHost.conformsTo type = true) values
              graph.outputTypes

/-- The values of outputs have the declared types. -/
theorem safe_outputs {graph : Graph} {types : Types} {environment : Environment}
    (graphTyped : graph.TypedBy types) (typed : environment.TypedBy types)
    : Outcome.Safe
        (fun values : List Value =>
          values.length = graph.outputs.length
          ∧ List.Forall₂ (fun value type => value.toHost.conformsTo type = true) values
              graph.outputTypes)
        (graph.outputs.mapM (outputValue graph.name environment)) := by
  have each
      : ∀ id ∈ graph.outputs,
          Outcome.Safe (fun value => ∀ type, types.get? id = some type → value.HasType type)
            (outputValue graph.name environment id) := by
    intro id _
    rw [outputValue]
    cases found : environment.get? id with
    | none => exact Outcome.safe_error fun _ same => nomatch same
    | some value =>
        refine Outcome.safe_ok ?_
        intro type known
        obtain ⟨other, kept, fine⟩ := typed _ (Table.mem_of_get? found)
        obtain rfl : other = type := Option.some.inj (kept.symm.trans known)
        exact fine
  refine (Outcome.Safe.mapM each).mono ?_
  intro values fine
  refine ⟨fine.length_eq.symm, ?_⟩
  have declared := graphTyped.outputs
  generalize graph.outputs = outputs at fine declared
  generalize graph.outputTypes = outputTypes at declared
  induction declared generalizing values with
  | nil =>
      cases fine
      exact .nil
  | cons here _ ih =>
      cases fine with
      | cons value later => exact .cons (value _ here).conforms (ih _ later)

/-- A run of a graph that types describe, on valid inputs, respects the declared types. -/
theorem respects_of_typedBy {backend : Backend} {allowed : Breach → Prop} {graph : Graph}
    {types : Types} {inputs : List Value} (sound : backend.executor.Sound allowed)
    (graphTyped : graph.TypedBy types) (checkFinite : Bool)
    (valid : ∀ input ∈ inputs, input.Valid)
    : (Run.graph backend graph checkFinite inputs).Respects graph allowed := by
  have prepared
      : Outcome.Safe
          (fun start =>
            start.1.TypedBy types ∧ ∀ entry ∈ start.2, entry.2 ∈ graph.body)
          (prepare graph checkFinite inputs) := by
    rw [prepare]
    split_ifs
    · exact Outcome.safe_error fun _ same => nomatch same
    · have scheduled
          : Outcome.Safe (fun nodes => ∀ entry ∈ nodes, entry.2 ∈ graph.body)
              (schedule graph) := by
        rw [schedule]
        split
        · exact Outcome.safe_error fun _ same => nomatch same
        · refine Outcome.safe_ok ?_
          intro entry member
          obtain ⟨position, _, found⟩ := List.mem_filterMap.mp member
          obtain ⟨node, here, rfl⟩ := Option.map_eq_some_iff.mp found
          exact List.mem_of_getElem? here
      refine scheduled.bind ?_
      intro nodes listed
      have start : Environment.TypedBy [] types := fun entry member => absurd member List.not_mem_nil
      refine (safe_bindInputs graph.name checkFinite start ?_ ?_).bind ?_
      · intro input member
        have pair := (List.of_mem_zip member).1
        exact (List.forall₂_iff_zip.mp graphTyped.inputs).2 pair
      · exact fun input member => valid _ (List.of_mem_zip member).2
      · exact fun environment typed => Outcome.safe_ok ⟨typed, listed⟩
  rw [Run.graph, graphWith]
  cases ready : prepare graph checkFinite inputs with
  | error error =>
      refine ⟨?_, fun execution member => absurd member List.not_mem_nil, fun values same => ?_⟩
      · intro breach same
        have failed : error = .breach breach := Except.error.inj same
        exact (prepared.kept breach (failed ▸ ready)).elim
      · cases same
  | ok start =>
      obtain ⟨environment, nodes⟩ := start
      obtain ⟨typed, listed⟩ := prepared.holds ready
      obtain ⟨conforms, after, breaches⟩ :=
        runNodes_typed sound graph.name checkFinite typed
          (fun execution member => absurd member List.not_mem_nil)
          (fun entry member => ⟨listed entry member, graphTyped.nodes _ (listed entry member)⟩)
      dsimp only
      rw [List.length_nil, List.drop_zero]
      refine ⟨?_, ?_, ?_⟩
      · intro breach same
        cases result : (runNodes backend.executor graph.name checkFinite environment [] nodes).2 with
        | error error =>
            rw [result] at same
            have failed : error = .breach breach := Except.error.inj same
            exact breaches breach (failed ▸ result)
        | ok final =>
            rw [result] at same
            exact ((safe_outputs graphTyped (after final result)).kept _ same).elim
      · intro execution member
        have fine := conforms execution member
        exact ⟨fine.listed, fun value same => (fine.typed value same).conforms⟩
      · intro values same
        cases result : (runNodes backend.executor graph.name checkFinite environment [] nodes).2 with
        | error error =>
            rw [result] at same
            cases same
        | ok final =>
            rw [result] at same
            exact (safe_outputs graphTyped (after final result)).holds same

/-- Types are sound for whole runs: whatever was asked of a builder, and whatever the inputs, a run
of the finished graph on the reference backend breaks no promise, and respects the declared types;
where memory is bounded, it breaks no promise but that memory is enough.
-/
theorem graph_respects_types {calls : List Builder.Call} {name : String} {outputs : List ValueId}
    {graph : Graph} {hosts : List HostValue} {inputs : List Value} (checkFinite : Bool)
    (finished : (Builder.afterCalls calls).finish name outputs = .ok graph)
    (materialized : hosts.mapM Value.ofHost = .ok inputs)
    : (Run.graph .reference graph checkFinite inputs).Respects graph (fun _ => False)
      ∧ (Run.graph Backend.reference.bounded graph checkFinite inputs).Respects graph
          (fun breach => breach = .memory) := by
  have graphTyped := (Builder.sound_afterCalls calls).finish finished
  have valid : ∀ input ∈ inputs, input.Valid := by
    have each := (Outcome.Safe.mapM fun host (_ : host ∈ hosts) => Value.safe_ofHost host).holds
      materialized
    intro input member
    obtain ⟨place, inside, rfl⟩ := List.mem_iff_getElem.mp member
    exact each.get (each.length_eq ▸ inside) inside
  exact ⟨respects_of_typedBy Backend.reference_sound graphTyped checkFinite valid,
    respects_of_typedBy Backend.bounded_reference_sound graphTyped checkFinite valid⟩

/-- What is asked of a builder for `partNegation`; the second call fails. -/
def partNegationCalls : List Builder.Call :=
  [.input (.tensor ⟨.si64, ⟨[.unknown]⟩⟩),
    .node (.unary .neg) [.value ⟨7⟩],
    .node (.subtensor [.slice (.range 1 3)]) [.value ⟨0⟩],
    .node (.unary .neg) [.value ⟨1⟩]]

/-- A graph that negates a part of a vector of unknown length. -/
def partNegation : Graph where
  name := "part"
  inputTypes := [.tensor ⟨.si64, ⟨[.unknown]⟩⟩]
  inputs := [⟨0⟩]
  outputTypes := [.tensor ⟨.si64, ⟨[.unknown]⟩⟩]
  body :=
    [⟨⟨1⟩, .subtensor [.slice (.range 1 3)], [.value ⟨0⟩], .tensor ⟨.si64, ⟨[.unknown]⟩⟩⟩,
      ⟨⟨2⟩, .unary .neg, [.value ⟨1⟩], .tensor ⟨.si64, ⟨[.unknown]⟩⟩⟩]
  outputs := [⟨2⟩]

/-- Runs of `partNegation` respect its types. -/
theorem partNegation_respects_types
    : (Builder.afterCalls partNegationCalls).finish "part" [⟨2⟩] = .ok partNegation
      ∧ [HostValue.tensor (.ofInts [3] [1, 2, 3])].mapM Value.ofHost
          = .ok [.tensor ⟨[3], .si64 [1, 2, 3]⟩]
      ∧ (Run.graph .reference partNegation false [.tensor ⟨[3], .si64 [1, 2, 3]⟩]).Respects
          partNegation (fun _ => False) :=
  have finished
      : (Builder.afterCalls partNegationCalls).finish "part" [⟨2⟩] = .ok partNegation :=
    rfl
  have materialized
      : [HostValue.tensor (.ofInts [3] [1, 2, 3])].mapM Value.ofHost
        = .ok [.tensor ⟨[3], .si64 [1, 2, 3]⟩] :=
    rfl
  ⟨finished, materialized, (graph_respects_types false finished materialized).1⟩

end Run

end Dataflow
