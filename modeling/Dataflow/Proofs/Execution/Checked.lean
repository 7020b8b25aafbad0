import Dataflow.Proofs.Execution.Finiteness
import Dataflow.Proofs.Execution.Runs
import Dataflow.Proofs.Tensor.Results

/-!
Checked runs. Asking for finite numbers is a filter: a checked run has the results of an unchecked
one if all inputs and everything that nodes produce are finite, and fails otherwise. An error about
numbers names a value of the run, and shows where its elements are not finite.
-/

namespace Dataflow

/-- What an execution produced is finite. -/
def Execution.IsFinite (execution : Execution) : Prop :=
  ∀ value, execution.outcome = .ok value → value.IsFinite

/-- An executor makes valid values of valid ones, and does not complain about numbers. -/
def Executor.IsPlain (execute : Executor) : Prop :=
  ∀ done node inputs, (∀ value ∈ inputs, Value.Valid value)
    → Outcome.Plain Value.Valid (execute done node inputs)

namespace Run

-----------------------------------------------------------------------------------------
-- Results of checked runs
-----------------------------------------------------------------------------------------

section

variable {execute : Executor} {graph : String} {environment after : Environment}
  {done : List Execution} {nodes : List (Nat × Node)}

/-- Executions stay in the record of a run, by induction on the nodes. -/
theorem mem_runNodes_of_mem {checkFinite : Bool} {execution : Execution} (before : execution ∈ done)
    : execution ∈ (runNodes execute graph checkFinite environment done nodes).1 := by
  induction nodes generalizing environment done with
  | nil => exact before
  | cons entry rest ih =>
      obtain ⟨position, node⟩ := entry
      rw [runNodes]
      cases node.operands.mapM (operandValue environment node.value) with
      | error error => exact before
      | ok inputs =>
          dsimp only
          split
          · exact before
          · have further : execution ∈ done ++ [⟨node, inputs, execute done node inputs⟩] :=
              List.mem_append_left _ before
            generalize execute done node inputs = outcome at further ⊢
            cases outcome with
            | error error => exact further
            | ok value =>
                dsimp only
                split
                · exact further
                · exact ih further

/-- Nodes that are run with checks come to an end iff they do without, and what they produce is
finite. By induction on the nodes.
-/
theorem runNodes_checked_eq_ok_iff (before : ∀ execution ∈ done, execution.IsFinite)
    : (runNodes execute graph true environment done nodes).2 = .ok after
      ↔ (runNodes execute graph false environment done nodes).2 = .ok after
        ∧ ∀ execution ∈ (runNodes execute graph false environment done nodes).1,
            execution.IsFinite := by
  induction nodes generalizing environment done with
  | nil => exact (and_iff_left before).symm
  | cons entry rest ih =>
      obtain ⟨position, node⟩ := entry
      rw [runNodes, runNodes]
      cases node.operands.mapM (operandValue environment node.value) with
      | error error => simp
      | ok inputs =>
          dsimp only
          split
          · simp
          · generalize produced : execute done node inputs = outcome
            cases outcome with
            | error error => simp
            | ok value =>
                simp only [Bool.true_or, Bool.false_or, if_true]
                cases checked : Finiteness.check node.operation.name node.value value.toHost with
                | ok _ =>
                    have finite := Finiteness.check_eq_ok_iff.mp checked
                    have further
                        : ∀ execution ∈ done ++ [⟨node, inputs, .ok value⟩],
                            execution.IsFinite := by
                      intro execution member
                      rcases List.mem_append.mp member with earlier | last
                      · exact before execution earlier
                      · obtain rfl := List.mem_singleton.mp last
                        exact fun _ same => Except.ok.inj same ▸ finite
                    simpa only [ite_self] using ih further
                | error error =>
                    refine iff_of_false (fun same => by cases same) ?_
                    rintro ⟨-, finite⟩
                    split_ifs at finite
                    · have here := finite _ (List.mem_append_right done List.mem_cons_self) value rfl
                      cases checked.symm.trans (Finiteness.check_eq_ok_iff.mpr here)
                    · have here := finite _
                        (mem_runNodes_of_mem (List.mem_append_right done List.mem_cons_self)) value
                        rfl
                      cases checked.symm.trans (Finiteness.check_eq_ok_iff.mpr here)

/-- Inputs are bound with checks iff they are without, and they are finite. -/
theorem bindInputs_checked_eq_ok_iff {index : Nat} {inputs : List ((ValueId × ValueType) × Value)}
    : bindInputs graph true index environment inputs = .ok after
      ↔ bindInputs graph false index environment inputs = .ok after
        ∧ ∀ input ∈ inputs, input.2.IsFinite := by
  induction inputs generalizing index environment with
  | nil => simp [bindInputs]
  | cons input rest ih =>
      obtain ⟨⟨id, type⟩, value⟩ := input
      rw [bindInputs, bindInputs, List.forall_mem_cons]
      dsimp only
      cases value.toHost.conformsTo type with
      | false => simp
      | true =>
          have step := @ih (environment.set id value) (index + 1)
          simp only [Bool.not_true, Bool.false_eq_true, if_false, if_true,
            Steps.check_bind_eq_ok_iff, Finiteness.check_eq_ok_iff, step]
          exact and_left_comm

end

variable {backend : Backend} {graph : Graph} {given results : List Value}

section

variable (declared : graph.inputs.length = graph.inputTypes.length)

include declared

/-- A checked run is prepared iff an unchecked one is, and the inputs are finite. -/
theorem prepare_checked_eq_ok_iff {start : Environment × List (Nat × Node)}
    : prepare graph true given = .ok start
      ↔ prepare graph false given = .ok start ∧ ∀ input ∈ given, input.IsFinite := by
  rw [prepare, prepare]
  split_ifs with count
  · simp
  · have all
        : (∀ input ∈ (graph.inputs.zip graph.inputTypes).zip given, input.2.IsFinite)
          ↔ ∀ input ∈ given, input.IsFinite := by
      have inputs : ((graph.inputs.zip graph.inputTypes).zip given).map (·.2) = given := by
        refine List.map_snd_zip (Nat.le_of_eq ?_)
        rw [List.length_zip, ← declared, Nat.min_self, Decidable.not_not.mp count]
      conv_rhs => rw [← inputs, List.forall_mem_map]
    simp only [Steps.bind_eq_ok_iff, bindInputs_checked_eq_ok_iff, all]
    constructor
    · rintro ⟨nodes, scheduled, environment, ⟨bounded, finite⟩, same⟩
      exact ⟨⟨nodes, scheduled, environment, bounded, same⟩, finite⟩
    · rintro ⟨⟨nodes, scheduled, environment, bounded, same⟩, finite⟩
      exact ⟨nodes, scheduled, environment, ⟨bounded, finite⟩, same⟩

/-- A checked run has results iff an unchecked one has them, and its inputs and everything that its
nodes produce are finite.
-/
theorem outcome_checked_eq_ok_iff
    : (Run.graph backend graph true given).outcome = .ok results
      ↔ (Run.graph backend graph false given).outcome = .ok results
        ∧ (∀ input ∈ given, input.IsFinite)
        ∧ ∀ execution ∈ (Run.graph backend graph false given).executions, execution.IsFinite := by
  have prepared := fun start => @prepare_checked_eq_ok_iff graph given declared start
  rw [Run.graph, Run.graph, graphWith, graphWith]
  cases ready : prepare graph false given with
  | error error =>
      refine iff_of_false ?_ fun both => by cases both.1
      intro done
      split at done
      · cases done
      · rename_i start nodes checked
        cases ready.symm.trans ((prepared _).mp checked).1
  | ok start =>
      by_cases finite : ∀ input ∈ given, input.IsFinite
      · rw [(prepared start).mpr ⟨ready, finite⟩]
        dsimp only
        rw [List.length_nil, List.drop_zero]
        have ends := fun after => @runNodes_checked_eq_ok_iff backend.executor graph.name start.1
          after [] start.2 fun execution member => absurd member List.not_mem_nil
        change (runNodes backend.executor graph.name true start.1 [] start.2).2 >>= _ = _
          ↔ (runNodes backend.executor graph.name false start.1 [] start.2).2 >>= _ = _ ∧ _
        simp only [Steps.bind_eq_ok_iff, ends]
        constructor
        · rintro ⟨after, ⟨ended, produced⟩, found⟩
          exact ⟨⟨after, ended, found⟩, finite, produced⟩
        · rintro ⟨⟨after, ended, found⟩, -, produced⟩
          exact ⟨after, ⟨ended, produced⟩, found⟩
      · refine iff_of_false ?_ fun both => finite both.2.1
        intro done
        split at done
        · cases done
        · rename_i start nodes checked
          exact finite ((prepared _).mp checked).2

end

-----------------------------------------------------------------------------------------
-- Values that are checked
-----------------------------------------------------------------------------------------

/-- A value goes by a name: it is an input, or a node produced it. -/
inductive Names (graph : Graph) (given : List Value) (executions : List Execution)
    : ValueId → Value → Prop where
  | input {id : ValueId} {value : Value} (bound : (id, value) ∈ graph.inputs.zip given)
    : Names graph given executions id value
  | produced {execution : Execution} {value : Value} (executed : execution ∈ executions)
      (done : execution.outcome = .ok value)
    : Names graph given executions execution.node.value value

theorem Names.mono {executions more : List Execution} {id : ValueId} {value : Value}
    (named : Names graph given executions id value) (kept : executions ⊆ more)
    : Names graph given more id value := by
  cases named with
  | input bound => exact .input bound
  | produced executed done => exact .produced (kept executed) done

/-- What a run checks under the name of an operation and of a value: an input, what a node produced,
or, if the operation asks for it, an operand. A literal goes by the name of its node.
-/
inductive Checks (graph : Graph) (given : List Value) (executions : List Execution)
    : String → ValueId → Value → Prop where
  | input {id : ValueId} {value : Value} (bound : (id, value) ∈ graph.inputs.zip given)
    : Checks graph given executions "input" id value
  | produced {execution : Execution} {value : Value} (executed : execution ∈ executions)
      (done : execution.outcome = .ok value)
    : Checks graph given executions execution.node.operation.name execution.node.value value
  | operand {node : Node} {id : ValueId} {value : Value} (listed : node ∈ graph.body)
      (asked : Finiteness.isAskedBy node.operation = true) (read : .value id ∈ node.operands)
      (named : Names graph given executions id value)
    : Checks graph given executions node.operation.name id value
  | literal {node : Node} {literal : Literal} {value : Value} (listed : node ∈ graph.body)
      (asked : Finiteness.isAskedBy node.operation = true)
      (read : .literal literal ∈ node.operands)
      (made : Value.ofHost (.tensor literal) = .ok value)
    : Checks graph given executions node.operation.name node.value value

/-- Everything within reach is valid and goes by its name. -/
def Reaches (graph : Graph) (given : List Value) (executions : List Execution)
    (environment : Environment) : Prop :=
  ∀ entry ∈ environment, Names graph given executions entry.1 entry.2 ∧ entry.2.Valid

section

variable {executions : List Execution} {environment : Environment} {node : Node}

/-- A new value is within reach, after one went out of reach. -/
theorem Reaches.next {execution : Execution} {value : Value}
    (reaches : Reaches graph given executions environment)
    (done : execution.outcome = .ok value) (valid : value.Valid)
    : Reaches graph given (executions ++ [execution])
        ((withoutConsumed environment execution.node).set execution.node.value value) := by
  intro entry member
  rcases Table.mem_of_mem_set member with rfl | before
  · exact ⟨.produced (List.mem_append_right _ List.mem_cons_self) done, valid⟩
  · have known : entry ∈ environment := by
      rw [withoutConsumed] at before
      split at before
      · split at before
        · exact Table.mem_of_mem_erase before
        · exact before
      · exact before
    obtain ⟨named, fine⟩ := reaches entry known
    exact ⟨named.mono (List.subset_append_left _ _), fine⟩

/-- Reading an operand is plain, and a node may check what was read. -/
theorem plain_operandValue (reaches : Reaches graph given executions environment)
    (listed : node ∈ graph.body) {operand : Operand} (read : operand ∈ node.operands)
    : Outcome.Plain
        (fun value =>
          value.Valid
          ∧ (Finiteness.isAskedBy node.operation = true
              → Checks graph given executions node.operation.name
                  (operand.value?.getD node.value) value))
        (operandValue environment node.value operand) := by
  cases operand with
  | value id =>
      rw [operandValue]
      cases found : environment.get? id with
      | none => exact Outcome.plain_error fun _ _ _ same => by cases same
      | some value =>
          obtain ⟨named, valid⟩ := reaches _ (Table.mem_of_get? found)
          exact Outcome.plain_ok ⟨valid, fun asked => .operand listed asked read named⟩
  | literal literal =>
      have plain : Outcome.Plain Value.Valid (Value.ofHost (.tensor literal)) := by
        rw [Value.ofHost]
        exact (Tensor.plain_ofLiteral literal).bind fun _ valid => Outcome.plain_ok valid
      exact plain.of_holds fun value made =>
        ⟨plain.holds made, fun asked => .literal listed asked read made⟩

/-- Operands that a node checks before it is executed, and that it complains about, show positions
of one of them.
-/
theorem checkOperands_eq_notFinite {inputs : Inputs} {operation : String} {id : ValueId}
    {positions : List Nat}
    (read
      : List.Forall₂
          (fun operand value =>
            Value.Valid value
            ∧ (Finiteness.isAskedBy node.operation = true
                → Checks graph given executions node.operation.name
                    (operand.value?.getD node.value) value))
          node.operands inputs)
    (failed
      : (if Finiteness.isAskedBy node.operation then checkOperands node inputs else .ok ())
        = .error (.notFinite operation id positions))
    : ∃ value,
        Checks graph given executions operation id value ∧ Finiteness.Shows value positions := by
  split_ifs at failed with asked
  obtain ⟨⟨operand, value⟩, member, failed⟩ := Steps.exists_of_forM_eq_error failed
  obtain ⟨valid, checks⟩ := (List.forall₂_iff_zip.mp read).2 member
  obtain ⟨rfl, rfl, shows⟩ := Finiteness.check_eq_notFinite valid failed
  exact ⟨value, checks asked, shows⟩

end

/-- Saying where a node stands makes no complaint about numbers. -/
theorem locate_eq_notFinite {graph operation : String} {position : Nat} {node : Node}
    {error : BackendError} {id : ValueId} {positions : List Nat}
    (located : locate graph position node error = .notFinite operation id positions)
    : error = .notFinite operation id positions := by
  cases error <;> simp_all [locate]

-----------------------------------------------------------------------------------------
-- Errors of runs
-----------------------------------------------------------------------------------------

variable {checkFinite : Bool} {operation : String} {id : ValueId} {positions : List Nat}

/-- If nodes are run and an error complains about numbers, then it shows positions of a value that
was checked. By induction on the nodes: everything within reach goes by its name.
-/
theorem runNodes_eq_notFinite {execute : Executor} {environment : Environment}
    {done : List Execution} {nodes : List (Nat × Node)} (plain : execute.IsPlain)
    (reaches : Reaches graph given done environment) (listed : ∀ entry ∈ nodes, entry.2 ∈ graph.body)
    (failed
      : (runNodes execute graph.name checkFinite environment done nodes).2
        = .error (.notFinite operation id positions))
    : ∃ value,
        Checks graph given (runNodes execute graph.name checkFinite environment done nodes).1
            operation id value
        ∧ Finiteness.Shows value positions := by
  induction nodes generalizing environment done with
  | nil => cases failed
  | cons entry rest ih =>
      obtain ⟨position, node⟩ := entry
      obtain ⟨listedHere, listed⟩ := List.forall_mem_cons.mp listed
      have reads := Outcome.Plain.mapM fun operand (member : operand ∈ node.operands) =>
        plain_operandValue reaches listedHere member
      rw [runNodes] at failed ⊢
      cases gathered : node.operands.mapM (operandValue environment node.value) with
      | error error =>
          rw [gathered] at failed
          obtain rfl : error = .notFinite operation id positions := Except.error.inj failed
          exact absurd gathered (reads.silent operation id positions)
      | ok inputs =>
          rw [gathered] at failed
          have read := reads.holds gathered
          have valid : ∀ value ∈ inputs, Value.Valid value := by
            intro value member
            obtain ⟨_, -, here, -⟩ := Steps.exists_of_mem_right read member
            exact here
          have executed := plain done node inputs valid
          dsimp only at failed ⊢
          split
          · rename_i error operands
            rw [operands] at failed
            obtain rfl : error = .notFinite operation id positions := Except.error.inj failed
            exact checkOperands_eq_notFinite read operands
          · rename_i operands
            rw [operands] at failed
            dsimp only at failed
            have further (value : Value) (same : execute done node inputs = .ok value) :=
              @Reaches.next graph given done environment ⟨node, inputs, .ok value⟩ value reaches rfl
                (executed.holds same)
            generalize produced : execute done node inputs = outcome at failed further executed ⊢
            cases outcome with
            | error error =>
                have same := locate_eq_notFinite (Except.error.inj failed)
                exact absurd (congrArg Except.error same) (executed.silent operation id positions)
            | ok value =>
                dsimp only at failed ⊢
                split
                · rename_i error checked
                  rw [checked] at failed
                  obtain rfl : error = .notFinite operation id positions := Except.error.inj failed
                  split_ifs at checked
                  obtain ⟨rfl, rfl, shows⟩ :=
                    Finiteness.check_eq_notFinite (executed.holds rfl) checked
                  exact ⟨value,
                    .produced (List.mem_append_right done List.mem_cons_self) rfl, shows⟩
                · rename_i checked
                  rw [checked] at failed
                  exact ih (further value rfl) listed failed

/-- Binding inputs complains about numbers of one of them only, and puts inputs within reach. -/
theorem bindInputs_bound {name : String} {index : Nat} {environment : Environment}
    {inputs : List ((ValueId × ValueType) × Value)} (reaches : Reaches graph given [] environment)
    (bound : ∀ input ∈ inputs, (input.1.1, input.2) ∈ graph.inputs.zip given ∧ input.2.Valid)
    : (∀ after, bindInputs name checkFinite index environment inputs = .ok after
        → Reaches graph given [] after)
      ∧ (bindInputs name checkFinite index environment inputs
            = .error (.notFinite operation id positions)
          → ∃ value,
              Checks graph given [] operation id value ∧ Finiteness.Shows value positions) := by
  induction inputs generalizing index environment with
  | nil => exact ⟨fun after same => Except.ok.inj same ▸ reaches, fun same => by cases same⟩
  | cons input rest ih =>
      obtain ⟨⟨name', type⟩, value⟩ := input
      obtain ⟨⟨here, valid⟩, bound⟩ := List.forall_mem_cons.mp bound
      have next : Reaches graph given [] (environment.set name' value) := by
        intro entry member
        rcases Table.mem_of_mem_set member with rfl | before
        · exact ⟨.input here, valid⟩
        · exact reaches entry before
      rw [bindInputs]
      dsimp only
      cases value.toHost.conformsTo type with
      | false => exact ⟨(by rintro _ ⟨⟩), (by rintro ⟨⟩)⟩
      | true =>
          cases checkFinite with
          | false => exact ih next bound
          | true =>
              cases checked : Finiteness.check "input" name' value.toHost with
              | ok _ => exact ih next bound
              | error error =>
                  refine ⟨(by rintro _ ⟨⟩), fun same => ?_⟩
                  obtain rfl : error = .notFinite operation id positions := Except.error.inj same
                  obtain ⟨rfl, rfl, shows⟩ := Finiteness.check_eq_notFinite valid checked
                  exact ⟨value, .input here, shows⟩

/-- Before the first node, an error that complains about numbers shows positions of an input, and
otherwise the inputs are within reach.
-/
theorem prepare_reaches (valid : ∀ value ∈ given, value.Valid)
    : (∀ start, prepare graph checkFinite given = .ok start
        → Reaches graph given [] start.1 ∧ ∀ entry ∈ start.2, entry.2 ∈ graph.body)
      ∧ (prepare graph checkFinite given = .error (.notFinite operation id positions)
          → ∃ value,
              Checks graph given [] operation id value ∧ Finiteness.Shows value positions) := by
  have bound
      : ∀ input ∈ (graph.inputs.zip graph.inputTypes).zip given,
          (input.1.1, input.2) ∈ graph.inputs.zip given ∧ input.2.Valid := by
    intro input member
    refine ⟨?_, valid _ (List.of_mem_zip member).2⟩
    obtain ⟨place, found⟩ := List.mem_iff_getElem?.mp member
    obtain ⟨pair, value⟩ := List.getElem?_zip_eq_some.mp found
    exact List.mem_iff_getElem?.mpr
      ⟨place, List.getElem?_zip_eq_some.mpr ⟨(List.getElem?_zip_eq_some.mp pair).1, value⟩⟩
  obtain ⟨reaches, complains⟩ := @bindInputs_bound graph given checkFinite operation id positions
    graph.name 0 [] _ (fun entry member => absurd member List.not_mem_nil) bound
  rw [prepare]
  split_ifs
  · exact ⟨(by rintro _ ⟨⟩), (by rintro ⟨⟩)⟩
  · rw [schedule]
    cases sorted : graph.sortedPositions with
    | error error => exact ⟨(by rintro _ ⟨⟩), (by rintro ⟨⟩)⟩
    | ok order =>
        rw [Steps.ok_bind]
        constructor
        · intro start done
          obtain ⟨environment, bounded, same⟩ := Steps.bind_eq_ok_iff.mp done
          obtain rfl := Except.ok.inj same
          refine ⟨reaches environment bounded, fun entry member => ?_⟩
          obtain ⟨position, -, found⟩ := List.mem_filterMap.mp member
          obtain ⟨node, here, rfl⟩ := Option.map_eq_some_iff.mp found
          exact List.mem_of_getElem? here
        · intro failed
          obtain failed | ⟨environment, -, failed⟩ := Steps.bind_eq_error_iff.mp failed
          · exact complains failed
          · cases failed

/-- If a run complains about numbers, then its error shows positions of a value that was checked. -/
theorem outcome_eq_notFinite (plain : backend.executor.IsPlain)
    (valid : ∀ value ∈ given, value.Valid)
    (failed
      : (Run.graph backend graph checkFinite given).outcome
        = .error (.notFinite operation id positions))
    : ∃ value,
        Checks graph given (Run.graph backend graph checkFinite given).executions operation id value
        ∧ Finiteness.Shows value positions := by
  obtain ⟨prepared, complains⟩ := @prepare_reaches graph given checkFinite operation id positions
    valid
  rw [Run.graph, graphWith] at failed ⊢
  cases ready : prepare graph checkFinite given with
  | error error =>
      rw [ready] at failed
      obtain rfl : error = .notFinite operation id positions := Except.error.inj failed
      exact complains ready
  | ok start =>
      rw [ready] at failed
      obtain ⟨reaches, listed⟩ := prepared start ready
      dsimp only at failed ⊢
      rw [List.length_nil, List.drop_zero]
      change (runNodes backend.executor graph.name checkFinite start.1 [] start.2).2 >>= _ = _
        at failed
      obtain failed | ⟨environment, -, failed⟩ := Steps.bind_eq_error_iff.mp failed
      · exact runNodes_eq_notFinite plain reaches listed failed
      · obtain ⟨output, -, failed⟩ := Steps.exists_of_mapM_eq_error failed
        rw [outputValue] at failed
        split at failed <;> cases failed

-----------------------------------------------------------------------------------------
-- Finiteness of runs
-----------------------------------------------------------------------------------------

/-- Checks of numbers only filter what a graph does on some values: a checked run has the results of
an unchecked one iff the values and everything that nodes produce are finite; and an error about
numbers shows the positions, in increasing order, of the first eight elements that are not finite in
a value that was checked.
-/
structure IsFiltered (backend : Backend) (graph : Graph) (given : List Value) : Prop where
  results
    : ∀ results,
        (Run.graph backend graph true given).outcome = .ok results
        ↔ (Run.graph backend graph false given).outcome = .ok results
          ∧ (∀ input ∈ given, input.IsFinite)
          ∧ ∀ execution ∈ (Run.graph backend graph false given).executions, execution.IsFinite
  errors
    : ∀ checkFinite operation id positions,
        (Run.graph backend graph checkFinite given).outcome
          = .error (.notFinite operation id positions)
        → ∃ value,
            Checks graph given (Run.graph backend graph checkFinite given).executions operation id
              value
            ∧ Finiteness.Shows value positions

/-- Whatever a graph does, the checks only filter it, if there is a type for each of its inputs. -/
theorem graph_isFiltered {graph : Graph} {hosts : List HostValue} {given : List Value}
    (declared : graph.inputs.length = graph.inputTypes.length)
    (materialized : hosts.mapM Value.ofHost = .ok given)
    : IsFiltered .reference graph given ∧ IsFiltered Backend.reference.bounded graph given := by
  have valid := Value.valid_of_mapM_ofHost materialized
  have filtered {backend : Backend} (plain : backend.executor.IsPlain)
      : IsFiltered backend graph given :=
    ⟨fun _ => outcome_checked_eq_ok_iff declared,
      fun _ _ _ _ => outcome_eq_notFinite plain valid⟩
  exact ⟨filtered fun _ node _ => Kernel.plain_execute node.operation,
    filtered fun _ node _ => Backend.plain_bounded node.operation⟩

/-- A graph that divides a number by itself. -/
def selfQuotient : Graph where
  name := "quotient"
  inputTypes := [.tensor ⟨.f64, .ofSizes [3]⟩]
  inputs := [⟨0⟩]
  outputTypes := [.tensor ⟨.f64, .ofSizes [3]⟩]
  body := [⟨⟨1⟩, .binary .div, [.value ⟨0⟩, .value ⟨0⟩], .tensor ⟨.f64, .ofSizes [3]⟩⟩]
  outputs := [⟨1⟩]

/-- Two zeros among the numbers fail the check. -/
theorem selfQuotient_isFiltered
    : selfQuotient.inputs.length = selfQuotient.inputTypes.length
      ∧ [HostValue.tensor (.ofElements [3] (.f64 [0, 0x3ff0000000000000, 0]))].mapM Value.ofHost
          = .ok [.tensor ⟨[3], .f64 [0, 0x3ff0000000000000, 0]⟩]
      ∧ (Run.graph .reference selfQuotient true
            [.tensor ⟨[3], .f64 [0, 0x3ff0000000000000, 0]⟩]).outcome
          = .error (.notFinite "div" ⟨1⟩ [0, 2])
      ∧ IsFiltered .reference selfQuotient [.tensor ⟨[3], .f64 [0, 0x3ff0000000000000, 0]⟩] :=
  have declared : selfQuotient.inputs.length = selfQuotient.inputTypes.length := rfl
  have materialized
      : [HostValue.tensor (.ofElements [3] (.f64 [0, 0x3ff0000000000000, 0]))].mapM Value.ofHost
        = .ok [.tensor ⟨[3], .f64 [0, 0x3ff0000000000000, 0]⟩] :=
    rfl
  ⟨declared, materialized, rfl, (graph_isFiltered declared materialized).1⟩

end Run

end Dataflow
