import Dataflow.Proofs.Execution.Acceptance
import Dataflow.Proofs.Execution.Interpretations
import Dataflow.Proofs.Execution.Room

/-!
Progress of static graphs. Where all sizes are known and all operations are total, each node makes
something of the values that it reads, so a run has results. A bounded backend has the same ones,
unless a node has a result of a size that there is no room for.
-/

namespace Dataflow

open Backend (reference)

-----------------------------------------------------------------------------------------
-- Sizes that there is room for
-----------------------------------------------------------------------------------------

/-- Whether the extents are known, and there is room for tensors of these sizes. -/
def TensorType.isHeld (type : TensorType) : Bool := type.shape.sizes?.any Memory.holdsSizes

theorem Tensor.HasType.holdsSizes {tensor : Tensor} {type : TensorType}
    (typed : tensor.HasType type) (held : type.isHeld = true)
    : Memory.holdsSizes tensor.sizes = true := by
  obtain ⟨sizes, known, held⟩ := (Option.any_eq_true _ _).mp held
  have fits := typed.fits
  rw [Movement.shape_eq_of_sizes? known] at fits
  rwa [show tensor.sizes = sizes from Movement.sizes_eq_of_fits fits]

namespace Value

mutual

/-- If the types that a type is made of pass a test, then each tensor of a value of the type has one
that does.
-/
theorem HasType.exists_of_mem_tensors {test : TensorType → Bool}
    : ∀ {type : ValueType} {value : Value},
        value.HasType type
        → type.all test = true
        → ∀ content ∈ value.tensors, ∃ type, content.HasType type ∧ test type = true
  | .tensor type, _, typed, passed, _, member => by
    obtain ⟨content, rfl, fine⟩ := typed.exists_tensor
    exact ⟨type, List.mem_singleton.mp member ▸ fine, passed⟩
  | .list element, _, typed, passed, content, member => by
    obtain ⟨items, rfl, fine⟩ := typed.exists_list
    exact ⟨element, fine content member, passed⟩
  | .tuple types, _, typed, passed, content, member => by
    obtain ⟨parts, rfl, each⟩ := typed.exists_tuple
    exact exists_of_mem_tensorsOfParts each passed content member

theorem exists_of_mem_tensorsOfParts {test : TensorType → Bool}
    : ∀ {types : List ValueType} {parts : List Value},
        List.Forall₂ HasType parts types
        → ValueType.allParts test types = true
        → ∀ content ∈ tensorsOfParts parts, ∃ type, content.HasType type ∧ test type = true
  | [], _, .nil, _, _, member => absurd member List.not_mem_nil
  | _ :: _, _, .cons here later, passed, content, member => by
    obtain ⟨first, rest⟩ := Bool.and_eq_true_iff.mp passed
    rcases List.mem_append.mp member with inside | behind
    · exact here.exists_of_mem_tensors first content inside
    · exact exists_of_mem_tensorsOfParts later rest content behind

end

end Value

-----------------------------------------------------------------------------------------
-- Static graphs
-----------------------------------------------------------------------------------------

/-- The type of an operand, if it is known. -/
def Operand.type? (known : Types) : Operand → Option ValueType
  | .value id => known.get? id
  | .literal content => some (.tensor content.type)

/-- Whether an operand is a value, or a literal with the number of bytes that its type asks for. -/
def Operand.isWhole : Operand → Bool
  | .value _ => true
  | .literal content => content.isWhole

/-- Whether the sizes of a node are known and its operation accepts all operands of their types. -/
def Node.isStatic (known : Types) (node : Node) : Bool :=
  node.type.isSized
    && node.operands.all Operand.isWhole
    && (node.operands.mapM (Operand.type? known)).any node.operation.isTotalOn

namespace Graph

/-- Whether all sizes are known and all operations are total. -/
def isStatic (graph : Graph) : Bool :=
  graph.inputTypes.all ValueType.isSized && graph.body.all (Node.isStatic graph.types)

/-- Whether there is room for everything that the nodes make. -/
def fitsMemory (graph : Graph) : Bool :=
  graph.body.all fun node => node.type.all TensorType.isHeld

end Graph

/-- The size of a whole literal is known. -/
theorem Literal.isSized_of_isWhole {literal : Literal} (whole : literal.isWhole = true)
    : (ValueType.tensor literal.type).isSized = true := by
  obtain ⟨count, known, -⟩ := Option.bind_eq_some_iff.mp (of_decide_eq_true whole)
  exact Option.isSome_iff_exists.mpr ⟨count, known⟩

/-- A total operation works on copies and does not ask for finite numbers. -/
theorem Operation.copies_of_isTotalOn {operation : Operation} {types : List ValueType}
    (total : operation.isTotalOn types = true)
    : operation.isInplace = false ∧ Finiteness.isAskedBy operation = false := by
  cases operation with
  | listMutation mutation inplace => exact ⟨by simpa [isTotalOn, isInplace] using total, rfl⟩
  | solveTriangular system => cases total
  | _ => exact ⟨rfl, rfl⟩

variable {narrow : Prop} {graph : Graph} {node : Node} {known : Types} {i : Interpretation}
  {given results : List Value}

/-- Whole operands have values. -/
theorem Interpretation.exists_operands {operands : List Operand}
    (whole : operands.all Operand.isWhole = true)
    : ∃ inputs, operands.mapM i.operand = .ok inputs := by
  refine Steps.exists_mapM_eq_ok fun operand member => ?_
  cases operand with
  | value id => exact ⟨i id, rfl⟩
  | literal content =>
      obtain ⟨tensor, read⟩ := Tensor.exists_ofLiteral (List.all_eq_true.mp whole _ member)
      rw [operand, Value.ofHost, read]
      exact ⟨.tensor tensor, rfl⟩

namespace Graph

variable (static : graph.isStatic = true)

include static

/-- Declared sizes are known. -/
theorem isSized_of_mem_types {id : ValueId} {type : ValueType} (declared : (id, type) ∈ graph.types)
    : type.isSized = true := by
  obtain ⟨inputs, nodes⟩ := Bool.and_eq_true_iff.mp static
  rcases List.mem_append.mp declared with input | result
  · exact List.all_eq_true.mp inputs type (List.of_mem_zip input).2
  · obtain ⟨node, member, same⟩ := List.mem_map.mp result
    obtain ⟨-, rfl⟩ := Prod.mk.inj same
    have here := List.all_eq_true.mp nodes node member
    rw [Node.isStatic, Bool.and_eq_true, Bool.and_eq_true] at here
    exact here.1.1

/-- The sizes of whole operands are known. -/
theorem isSized_of_declaredBy {operands : List Operand} {types : List ValueType}
    (whole : operands.all Operand.isWhole = true)
    (declared : List.Forall₂ (Operand.DeclaredBy graph.types) operands types)
    : ∀ type ∈ types, type.isSized = true := by
  intro type listed
  obtain ⟨operand, member, here⟩ := Steps.exists_of_mem_right declared listed
  cases operand with
  | value id => exact isSized_of_mem_types static here
  | literal content =>
      obtain rfl : type = .tensor content.type := here
      exact Literal.isSized_of_isWhole (List.all_eq_true.mp whole _ member)

end Graph

namespace Graph.WellTyped

variable (typed : graph.WellTyped narrow)

include typed

/-- The types of operands are found where they are declared. -/
theorem mapM_type? {operands : List Operand} {types : List ValueType}
    (declared : List.Forall₂ (Operand.DeclaredBy graph.types) operands types)
    : operands.mapM (Operand.type? graph.types) = some types := by
  rw [Steps.mapM_eq_some_iff, ← List.forall₂_eq_eq_eq, List.forall₂_map_left_iff,
    List.forall₂_map_right_iff]
  refine declared.imp fun operand type here => ?_
  cases operand with
  | value id => exact typed.get?_types_iff.mpr here
  | literal content => exact congrArg some here.symm

variable (static : graph.isStatic = true)

include static

/-- The operation of a static node is total on the types of its operands. -/
theorem isTotalOn {types : List ValueType} (member : node ∈ graph.body)
    (declared : List.Forall₂ (Operand.DeclaredBy graph.types) node.operands types)
    : node.operands.all Operand.isWhole = true ∧ node.operation.isTotalOn types = true := by
  obtain ⟨-, nodes⟩ := Bool.and_eq_true_iff.mp static
  have here := List.all_eq_true.mp nodes node member
  rw [Node.isStatic, typed.mapM_type? declared, Bool.and_eq_true, Bool.and_eq_true] at here
  exact ⟨here.1.2, here.2⟩

/-- A static node makes something of all values of the types that it follows. -/
theorem exists_makes {front : Types} (member : node ∈ graph.body)
    (follows : node.Follows narrow front) (declared : front ⊆ graph.types)
    (fits : ∀ id type, (id, type) ∈ front → (i id).HasType type)
    : ∃ value, i.Makes reference node.operation node.operands value := by
  obtain ⟨types, operands, inferred, -⟩ := follows.inferred
  have among := operands.imp fun _ _ here => Operand.DeclaredBy.mono here declared
  obtain ⟨whole, total⟩ := typed.isTotalOn static member among
  obtain ⟨inputs, gathered⟩ := @Interpretation.exists_operands i _ whole
  obtain ⟨value, executed⟩ := Kernel.exists_execute
    (Interpretation.haveTypes_of_declared operands (fun id _ => fits id) gathered)
    (Operation.resultType_eq_ok_iff.mp inferred)
    (isSized_of_mem_types static (result_mem_types member))
    (isSized_of_declaredBy static whole among) total
  refine ⟨value, inputs, gathered, executed, fun asked => ?_⟩
  cases (Operation.copies_of_isTotalOn total).2.symm.trans asked

end Graph.WellTyped

-----------------------------------------------------------------------------------------
-- Values of static graphs
-----------------------------------------------------------------------------------------

/-- If each node makes something of all values of the types that it follows, then there are values
with which each node makes its own. By induction on the nodes: the value of a node is added to
those in front of it, and no later one changes what it reads.
-/
theorem Chained.exists_makes {backend : Backend} (faithful : backend.Faithful) {body : List Node}
    (chained : Chained narrow known body)
    (progresses
      : ∀ node ∈ body, ∀ front, ∀ j : Interpretation,
          node.Follows narrow front
          → front ⊆ known ++ body.map Node.result
          → (∀ id type, (id, type) ∈ front → (j id).HasType type)
          → ∃ value, j.Makes backend node.operation node.operands value)
    (fits : ∀ id type, (id, type) ∈ known → (i id).HasType type)
    : ∃ j : Interpretation,
        (∀ id ∈ Table.keys known, j id = i id)
        ∧ ∀ node ∈ body, j.Makes backend node.operation node.operands (j node.value) := by
  induction chained generalizing i with
  | nil => exact ⟨i, fun _ _ => rfl, fun _ member => absurd member List.not_mem_nil⟩
  | @cons known node rest here _ ih =>
      obtain ⟨value, makes⟩ := progresses node List.mem_cons_self known i here
        (List.subset_append_left _ _) fits
      have before : ∀ id ∈ Table.keys known, i.extend node.value value id = i id :=
        fun id member => Interpretation.extend_of_ne fun same => here.fresh (same ▸ member)
      obtain ⟨j, kept, later⟩ := @ih (i.extend node.value value)
        (fun other member front j follows declared => progresses other
          (List.mem_cons_of_mem _ member) front j follows (by simpa using declared))
        (fun id type declared => by
          rcases List.mem_append.mp declared with front | new
          · rw [before id (List.mem_map_of_mem front)]
            exact fits id type front
          · obtain ⟨rfl, rfl⟩ := Prod.mk.inj (List.mem_singleton.mp new)
            rw [Interpretation.extend_self]
            exact makes.hasType faithful here.inferred fun id _ => fits id)
      have keys : Table.keys (known ++ [node.result]) = Table.keys known ++ [node.value] :=
        Table.keys_append _ _ _
      rw [keys] at kept
      have same : ∀ id ∈ Table.keys known, j id = i id := fun id member =>
        (kept id (List.mem_append_left _ member)).trans (before id member)
      refine ⟨j, same, List.forall_mem_cons.mpr ⟨?_, later⟩⟩
      rw [kept _ (List.mem_append_right _ List.mem_cons_self), Interpretation.extend_self]
      exact makes.congr (Interpretation.mapM_operand_congr fun read reads =>
        same read (here.mem_keys_of_read reads))

namespace Graph.WellTyped

variable (typed : graph.WellTyped narrow) (static : graph.isStatic = true)
  (valid : ∀ value ∈ given, value.Valid) (accepted : graph.Accepts given)

include typed

/-- Some interpretation has given values for the inputs. -/
theorem exists_given (length : graph.inputs.length = given.length)
    : ∃ i : Interpretation, graph.inputs.map i = given := by
  let bound : Table ValueId Value := graph.inputs.zip given
  have names : Table.keys bound = graph.inputs := List.map_fst_zip length.le
  refine ⟨fun id => (bound.get? id).getD (.tuple []), ?_⟩
  have found : ∀ pair ∈ graph.inputs.zip given, (bound.get? pair.1).getD (.tuple []) = pair.2 :=
    fun pair member =>
      congrArg (Option.getD · _) (Table.get?_of_mem (names.symm ▸ typed.inputsDistinct) member)
  conv_lhs => rw [← List.map_fst_zip length.le, List.map_map]
  exact (List.map_congr_left found).trans (List.map_snd_zip length.ge)

include static valid accepted

/-- A static graph accounts for all values that it accepts. -/
theorem exists_accounts
    : ∃ (i : Interpretation) (results : List Value), i.Accounts reference graph given results := by
  have fits := accepted.hasType valid
  obtain ⟨i, named⟩ := typed.exists_given
    (typed.inputsTyped.trans (List.Forall₂.length_eq accepted).symm)
  obtain ⟨j, kept, makes⟩ := typed.body.exists_makes Backend.reference_faithful
    (fun node member _ _ => typed.exists_makes static member)
    (fun id type => Interpretation.hasType_of_given named fits)
  rw [typed.keys_inputs] at kept
  exact ⟨j, _, ⟨(List.map_congr_left kept).trans named, makes, rfl⟩, fits⟩

end Graph.WellTyped

-----------------------------------------------------------------------------------------
-- Bounded memory
-----------------------------------------------------------------------------------------

namespace Run

variable (backend : Backend) (checkFinite : Bool)

theorem produce_bounded (graph : String) (environment : Environment) (position : Nat) (node : Node)
    : produce backend.bounded graph checkFinite environment position node
          = produce backend graph checkFinite environment position node
      ∨ produce backend.bounded graph checkFinite environment position node
          = .error (.breach .memory) := by
  rw [produce, produce]
  cases node.operands.mapM (operandValue environment node.value) with
  | error error => exact .inl rfl
  | ok inputs =>
      dsimp only [Steps.ok_bind, Backend.bounded]
      generalize (if Finiteness.isAskedBy node.operation = true then checkOperands node inputs
        else .ok () : Outcome Unit) = asked
      cases asked with
      | error error => exact .inl rfl
      | ok =>
          cases Memory.isEnough node.operation inputs with
          | true => exact .inl rfl
          | false => exact .inr rfl

/-- Nodes on a bounded backend evaluate as they do without the bound, or they break the promise that
memory is enough. By induction on the nodes.
-/
theorem evaluate_bounded (graph : String) (environment : Environment) (nodes : List (Nat × Node))
    : evaluate backend.bounded graph checkFinite environment nodes
          = evaluate backend graph checkFinite environment nodes
      ∨ evaluate backend.bounded graph checkFinite environment nodes
          = .error (.breach .memory) := by
  induction nodes generalizing environment with
  | nil => exact .inl rfl
  | cons entry rest ih =>
      obtain ⟨position, node⟩ := entry
      rw [evaluate, evaluate]
      rcases produce_bounded backend checkFinite graph environment position node with same | breach
      · rw [same]
        cases produce backend graph checkFinite environment position node with
        | error error => exact .inl rfl
        | ok value => exact ih _
      · rw [breach]
        exact .inr rfl

/-- A run on a bounded backend does what it does without the bound, unless memory is not enough. -/
theorem outcome_bounded (graph : Graph) (given : List Value)
    : (Run.graph backend.bounded graph checkFinite given).outcome
          = (Run.graph backend graph checkFinite given).outcome
      ∨ (Run.graph backend.bounded graph checkFinite given).outcome
          = .error (.breach .memory) := by
  rw [Run.graph, Run.graph, graphWith, graphWith]
  cases prepare graph checkFinite given with
  | error error => exact .inl rfl
  | ok start =>
      dsimp only
      rw [runNodes_outcome, runNodes_outcome]
      rcases evaluate_bounded backend checkFinite graph.name start.1 start.2 with same | breach
      · exact .inl (by rw [same])
      · exact .inr (by rw [breach]; rfl)

end Run

/-- Where there is room for what the nodes make, values that account for a graph do so on the bounded
reference.
-/
theorem Interpretation.Accounts.bounded (accounts : i.Accounts reference graph given results)
    (typed : graph.WellTyped narrow) (fits : graph.fitsMemory = true)
    : i.Accounts reference.bounded graph given results := by
  refine ⟨⟨accounts.given, fun node member => ?_, accounts.results⟩, accounts.typed⟩
  obtain ⟨inputs, gathered, executed, finite⟩ := accounts.nodes node member
  have fine := accounts.hasType Backend.reference_faithful typed node.value node.type
    (Graph.result_mem_types member)
  have enough : Memory.isEnough node.operation inputs = true := by
    refine Memory.isEnough_of_execute (fun content inside => ?_) executed
    obtain ⟨type, here, held⟩ :=
      fine.exists_of_mem_tensors (List.all_eq_true.mp fits node member) content inside
    exact here.holdsSizes held
  exact ⟨inputs, gathered, Backend.bounded_eq_ok_iff.mpr ⟨enough, executed⟩, finite⟩

-----------------------------------------------------------------------------------------
-- Progress
-----------------------------------------------------------------------------------------

namespace Run

/-- What is asked of a builder for `lastMaximum`. -/
def lastMaximumCalls : List Builder.Call :=
  [.input (.tensor ⟨.si64, .ofSizes [2, 3]⟩),
    .node (.reduce ⟨.max, [-1], false⟩) [.value ⟨0⟩],
    .node (.subtensor [.scalar (.static (-1))]) [.value ⟨1⟩]]

/-- A graph that takes the maximum of the last row of a matrix. -/
def lastMaximum : Graph where
  name := "last"
  inputTypes := [.tensor ⟨.si64, .ofSizes [2, 3]⟩]
  inputs := [⟨0⟩]
  outputTypes := [.tensor ⟨.si64, .ofSizes []⟩]
  body :=
    [⟨⟨1⟩, .reduce ⟨.max, [-1], false⟩, [.value ⟨0⟩], .tensor ⟨.si64, .ofSizes [2]⟩⟩,
      ⟨⟨2⟩, .subtensor [.scalar (.static (-1))], [.value ⟨1⟩], .tensor ⟨.si64, .ofSizes []⟩⟩]
  outputs := [⟨2⟩]

/-- What is asked of a builder for `longNothing`. -/
def longNothingCalls : List Builder.Call :=
  [.input (.tensor ⟨.f64, .ofSizes [2 ^ 60, 0]⟩),
    .node (.subtensor [.slice .full]) [.value ⟨0⟩]]

/-- A graph that takes the whole of a matrix of very many rows without elements. -/
def longNothing : Graph where
  name := "nothing"
  inputTypes := [.tensor ⟨.f64, .ofSizes [2 ^ 60, 0]⟩]
  inputs := [⟨0⟩]
  outputTypes := [.tensor ⟨.f64, .ofSizes [2 ^ 60, 0]⟩]
  body :=
    [⟨⟨1⟩, .subtensor [.slice .full], [.value ⟨0⟩], .tensor ⟨.f64, .ofSizes [2 ^ 60, 0]⟩⟩]
  outputs := [⟨1⟩]

end Run

end Dataflow
