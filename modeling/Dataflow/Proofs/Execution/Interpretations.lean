import Dataflow.Proofs.Execution.Congruence
import Dataflow.Proofs.Execution.Copying
import Dataflow.Proofs.Execution.Finiteness
import Dataflow.Proofs.Graph.WellTyped
import Dataflow.Proofs.Typing.Soundness
import Mathlib.Logic.Function.Basic

/-!
Interpretations of graphs. An interpretation gives every name a value; it solves a graph if each node
makes its value from those that it reads, and accounts for the graph if the inputs have their types,
too. A graph that destroys nothing has results iff some interpretation solves it with these results,
so what it computes can be told without environments.
-/

namespace Dataflow

-----------------------------------------------------------------------------------------
-- Backends
-----------------------------------------------------------------------------------------

/-- A backend has the results of the kernels, and it has all of them where no memory is asked for. -/
structure Backend.Faithful (backend : Backend) : Prop where
  kernel
    : ∀ {operation : Operation} {inputs : Inputs} {value : Value},
        backend.execute operation inputs = .ok value → Kernel.execute operation inputs = .ok value
  unasked
    : ∀ {operation : Operation} {inputs : Inputs},
        Memory.pieces operation inputs = .ok []
        → backend.execute operation inputs = Kernel.execute operation inputs

theorem Backend.reference_faithful : reference.Faithful := ⟨id, fun _ => rfl⟩

theorem Backend.bounded_reference_faithful : reference.bounded.Faithful where
  kernel {operation inputs value} done := by
    change (if Memory.isEnough operation inputs then Kernel.execute operation inputs
      else .error (.breach .memory)) = .ok value at done
    split_ifs at done
    exact done
  unasked {operation inputs} none := by
    have enough : Memory.isEnough operation inputs = true := by
      rw [Memory.isEnough, none]
      rfl
    exact if_pos enough

-----------------------------------------------------------------------------------------
-- Interpretations
-----------------------------------------------------------------------------------------

/-- A value for every name. -/
abbrev Interpretation := ValueId → Value

namespace Interpretation

/-- The interpretation with another value for one name. -/
def extend (i : Interpretation) (new : ValueId) (value : Value) : Interpretation :=
  Function.update i new value

/-- The value of an operand. -/
def operand (i : Interpretation) : Operand → Outcome Value
  | .value id => .ok (i id)
  | .literal literal => Value.ofHost (.tensor literal)

/-- Under an interpretation, an operation makes a value of its operands. If it asks for finite
numbers, there are no others.
-/
def Makes (backend : Backend) (i : Interpretation) (operation : Operation)
    (operands : List Operand) (value : Value) : Prop :=
  ∃ inputs,
    operands.mapM i.operand = .ok inputs
    ∧ backend.execute operation inputs = .ok value
    ∧ (Finiteness.isAskedBy operation = true
        → (∀ input ∈ inputs, input.IsFinite) ∧ value.IsFinite)

/-- An interpretation solves a graph: the inputs have the given values, each node makes its value, and
the outputs are the results.
-/
structure Solves (backend : Backend) (i : Interpretation) (graph : Graph)
    (given results : List Value) : Prop where
  given : graph.inputs.map i = given
  nodes : ∀ node ∈ graph.body, i.Makes backend node.operation node.operands (i node.value)
  results : graph.outputs.map i = results

/-- An interpretation accounts for a graph: it solves the graph, and the inputs have their types. -/
structure Accounts (backend : Backend) (i : Interpretation) (graph : Graph)
    (inputs outputs : List Value) : Prop extends i.Solves backend graph inputs outputs where
  typed : List.Forall₂ Value.HasType inputs graph.inputTypes

variable {backend : Backend} {i j : Interpretation} {operation : Operation}
  {operands others : List Operand} {inputs : Inputs} {value other : Value}

@[simp] theorem extend_self {new : ValueId} : i.extend new value new = value :=
  Function.update_self ..

theorem extend_of_ne {id new : ValueId} (differs : id ≠ new) : i.extend new value id = i id :=
  Function.update_of_ne differs ..

theorem Makes.unique (makes : i.Makes backend operation operands value)
    (again : i.Makes backend operation operands other)
    : other = value := by
  obtain ⟨inputs, gathered, done, -⟩ := makes
  obtain ⟨_, gathered', done', -⟩ := again
  obtain rfl := Except.ok.inj (gathered.symm.trans gathered')
  exact Except.ok.inj (done'.symm.trans done)

/-- What is made depends on the values of the operands only. -/
theorem Makes.congr (makes : i.Makes backend operation operands value)
    (same : others.mapM j.operand = operands.mapM i.operand)
    : j.Makes backend operation others value := by
  rwa [Makes, same]

theorem mapM_operand_congr
    (same : ∀ read ∈ operands.filterMap Operand.value?, j read = i read)
    : operands.mapM j.operand = operands.mapM i.operand := by
  refine Steps.mapM_congr fun operand member => ?_
  cases operand with
  | literal literal => rfl
  | value id => exact congrArg Except.ok (same id (List.mem_filterMap.mpr ⟨_, member, rfl⟩))

-----------------------------------------------------------------------------------------
-- Types
-----------------------------------------------------------------------------------------

variable {narrow : Prop} {known : Types} {types : List ValueType} {type : ValueType}

/-- Operands have the types of their declarations, by induction on the operands. -/
theorem haveTypes_of_declared
    (declared : List.Forall₂ (Operand.DeclaredBy known) operands types)
    (typed
      : ∀ id ∈ operands.filterMap Operand.value?, ∀ type, (id, type) ∈ known
          → (i id).HasType type)
    (gathered : operands.mapM i.operand = .ok inputs)
    : inputs.HaveTypes types := by
  induction declared generalizing inputs with
  | nil =>
      obtain rfl := Except.ok.inj gathered
      exact .nil
  | @cons operand type operands types here _ ih =>
      rw [List.mapM_cons] at gathered
      obtain ⟨first, made, gathered⟩ := Steps.bind_eq_ok_iff.mp gathered
      obtain ⟨rest, later, gathered⟩ := Steps.bind_eq_ok_iff.mp gathered
      obtain rfl := Except.ok.inj gathered
      refine .cons ?_ (ih (fun id member => typed id ?_) later)
      · cases operand with
        | value id =>
            obtain rfl := Except.ok.inj made
            exact typed id List.mem_cons_self type here
        | literal literal =>
            obtain rfl : type = .tensor literal.type := here
            rw [operand, Value.ofHost] at made
            obtain ⟨content, read, same⟩ := Steps.bind_eq_ok_iff.mp made
            obtain rfl := Except.ok.inj same
            exact Value.hasType_tensor.mpr ((Tensor.safe_ofLiteral literal).holds read)
      · cases operand with
        | value _ => exact List.mem_cons_of_mem _ member
        | literal _ => exact member

theorem Makes.hasType (faithful : backend.Faithful)
    (makes : i.Makes backend operation operands value)
    (follows : operation.Follows narrow known operands type)
    (typed
      : ∀ id ∈ operands.filterMap Operand.value?, ∀ type, (id, type) ∈ known
          → (i id).HasType type)
    : value.HasType type := by
  obtain ⟨inputs, gathered, done, -⟩ := makes
  obtain ⟨types, declared, inferred, -⟩ := follows
  exact (Kernel.safe_execute_of_resultType (haveTypes_of_declared declared typed gathered)
    inferred).holds (faithful.kernel done)

end Interpretation

-----------------------------------------------------------------------------------------
-- Exact numbers
-----------------------------------------------------------------------------------------

/-- The literals of a node store their numbers in the way in which they are stored again. -/
structure Node.IsExact (node : Node) : Prop where
  operation : node.operation.IsExact
  operands : ∀ literal, .literal literal ∈ node.operands → literal.IsExact

/-- Reading the numbers of a graph and storing them again changes none of them. -/
def Graph.IsExact (graph : Graph) : Prop := ∀ node ∈ graph.body, node.IsExact

namespace Interpretation

variable {backend : Backend} {i : Interpretation} {node : Node} {value : Value}

theorem Makes.canonical (faithful : backend.Faithful)
    (makes : i.Makes backend node.operation node.operands value) (stored : node.IsExact)
    (reads : ∀ read ∈ node.reads, (i read).canonical = i read)
    : value.canonical = value := by
  obtain ⟨inputs, gathered, done, -⟩ := makes
  refine Kernel.canonical_of_execute stored.operation ?_ (faithful.kernel done)
  have each := Steps.mapM_eq_ok_iff.mp gathered
  refine (List.map_congr_left fun input member => ?_).trans (List.map_id inputs)
  obtain ⟨operand, listed, made⟩ := List.mem_map.mp (each ▸ List.mem_map_of_mem member)
  cases operand with
  | value id =>
      obtain rfl := Except.ok.inj made
      exact reads id (List.mem_filterMap.mpr ⟨_, listed, rfl⟩)
  | literal literal =>
      rw [operand, Value.ofHost] at made
      obtain ⟨content, read, same⟩ := Steps.bind_eq_ok_iff.mp made
      obtain rfl := Except.ok.inj same
      exact congrArg Value.tensor
        (Tensor.canonical_of_ofLiteral (stored.operands literal listed) read)

end Interpretation

-----------------------------------------------------------------------------------------
-- Values of a graph
-----------------------------------------------------------------------------------------

/-- Values are of the types that a graph declares for its inputs. -/
def Graph.Accepts (graph : Graph) (given : List Value) : Prop :=
  List.Forall₂ (fun value type => value.toHost.conformsTo type = true) given graph.inputTypes

theorem Graph.Accepts.hasType {graph : Graph} {given : List Value} (accepted : graph.Accepts given)
    (valid : ∀ value ∈ given, value.Valid)
    : List.Forall₂ Value.HasType given graph.inputTypes :=
  (List.forall₂_and_left _ _).mpr ⟨valid, accepted⟩ |>.imp fun _ _ ⟨valid, conforms⟩ =>
    ⟨valid, conforms⟩

theorem Graph.Accepts.of_hasType {graph : Graph} {given : List Value}
    (typed : List.Forall₂ Value.HasType given graph.inputTypes)
    : graph.Accepts given :=
  typed.imp fun _ _ => Value.HasType.conforms

/-- Inputs have their types, if what is given for them does. -/
theorem Interpretation.hasType_of_given {i : Interpretation} {graph : Graph} {given : List Value}
    (named : graph.inputs.map i = given)
    (typed : List.Forall₂ Value.HasType given graph.inputTypes) {id : ValueId} {type : ValueType}
    (declared : (id, type) ∈ graph.inputs.zip graph.inputTypes)
    : (i id).HasType type := by
  rw [← named, List.forall₂_map_left_iff] at typed
  exact (List.forall₂_iff_zip.mp typed).2 declared

namespace Interpretation.Accounts

variable {narrow : Prop} {backend : Backend} {i : Interpretation} {graph : Graph}
  {given results : List Value}

theorem hasType_input (accounts : i.Accounts backend graph given results) {id : ValueId}
    {type : ValueType} (declared : (id, type) ∈ graph.inputs.zip graph.inputTypes)
    : (i id).HasType type :=
  hasType_of_given accounts.given accounts.typed declared

/-- All values have their types. -/
theorem hasType (accounts : i.Accounts backend graph given results) (faithful : backend.Faithful)
    (typed : graph.WellTyped narrow)
    : ∀ id type, (id, type) ∈ graph.types → (i id).HasType type :=
  typed.body.forall_declared (fun _ _ declared => accounts.hasType_input declared)
    fun node member _ follows before =>
      (accounts.nodes node member).hasType faithful follows.inferred fun id _ => before id

/-- If the given values and the literals are exact, then so are all values. -/
theorem canonical (accounts : i.Accounts backend graph given results) (faithful : backend.Faithful)
    (typed : graph.WellTyped narrow) (stored : graph.IsExact)
    (givenStored : ∀ value ∈ given, value.canonical = value)
    : ∀ id type, (id, type) ∈ graph.types → (i id).canonical = i id := by
  refine typed.body.forall_declared (fun id type declared => givenStored _ ?_) ?_
  · rw [← accounts.given]
    exact List.mem_map_of_mem (List.of_mem_zip declared).1
  · intro node member front follows before
    refine (accounts.nodes node member).canonical faithful (stored node member) fun read reads => ?_
    obtain ⟨⟨_, type⟩, declared, rfl⟩ := List.mem_map.mp (follows.mem_keys_of_read reads)
    exact before _ type declared

end Interpretation.Accounts

-----------------------------------------------------------------------------------------
-- Nodes of a run
-----------------------------------------------------------------------------------------

theorem Operation.storage_of_copies {operation : Operation} (copies : operation.isInplace = false)
    (position : Nat)
    : operation.storage ≠ .consumes position := by
  cases operation with
  | listMutation mutation inplace =>
      obtain rfl : inplace = false := copies
      exact nofun
  | _ => exact nofun

namespace Run

variable {narrow : Prop} {backend : Backend} {graph : String} {environment after : Environment}
  {i : Interpretation} {node : Node} {value : Value} {known : Types}
  {entries : List (Nat × Node)}

theorem withoutConsumed_of_copies (copies : node.operation.isInplace = false)
    : withoutConsumed environment node = environment := by
  rw [withoutConsumed]
  split
  · rename_i position consumes
    exact absurd consumes (Operation.storage_of_copies copies position)
  · rfl

theorem checkOperands_eq_ok_iff {inputs : Inputs} (length : node.operands.length = inputs.length)
    : checkOperands node inputs = .ok () ↔ ∀ input ∈ inputs, input.IsFinite := by
  rw [checkOperands, Steps.forM_eq_ok_iff]
  constructor
  · intro all input member
    obtain ⟨place, found⟩ := List.mem_iff_getElem?.mp member
    have inside := length ▸ (List.getElem?_eq_some_iff.mp found).1
    have pair : (node.operands[place], input) ∈ node.operands.zip inputs :=
      List.mem_iff_getElem?.mpr
        ⟨place, List.getElem?_zip_eq_some.mpr ⟨List.getElem?_eq_getElem inside, found⟩⟩
    exact Finiteness.check_eq_ok_iff.mp (all _ pair)
  · rintro all ⟨operand, input⟩ member
    exact Finiteness.check_eq_ok_iff.mpr (all input (List.of_mem_zip member).2)

/-- Where an environment holds what an interpretation says, a node produces what it makes. -/
theorem produce_eq_ok_iff (position : Nat)
    (agree : ∀ read ∈ node.reads, environment.get? read = some (i read))
    : produce backend graph false environment position node = .ok value
      ↔ i.Makes backend node.operation node.operands value := by
  have same
      : node.operands.mapM (operandValue environment node.value)
        = node.operands.mapM i.operand := by
    refine Steps.mapM_congr fun operand member => ?_
    cases operand with
    | literal literal => rfl
    | value id =>
        rw [operandValue, agree id (List.mem_filterMap.mpr ⟨_, member, rfl⟩)]
        rfl
  rw [produce, same, Steps.bind_eq_ok_iff, Interpretation.Makes]
  refine exists_congr fun inputs => and_congr_right fun gathered => ?_
  have length : node.operands.length = inputs.length := by
    simpa using congrArg List.length (Steps.mapM_eq_ok_iff.mp gathered)
  rw [Steps.check_bind_eq_ok_iff, Steps.bind_eq_ok_iff]
  simp only [Steps.mapError_eq_ok_iff, Steps.check_bind_eq_ok_iff, Except.ok.injEq]
  cases asked : Finiteness.isAskedBy node.operation with
  | false => simp
  | true =>
      simp [checkOperands_eq_ok_iff length, Finiteness.check_eq_ok_iff, and_left_comm]

/-- If each node makes its value, then the nodes are evaluated to these values. By induction on the
nodes, in front of which the environment holds what is declared.
-/
theorem evaluate_of_makes (chained : Chained narrow known (entries.map (·.2)))
    (copies : ∀ entry ∈ entries, entry.2.operation.isInplace = false)
    (makes
      : ∀ entry ∈ entries,
          i.Makes backend entry.2.operation entry.2.operands (i entry.2.value))
    (agree : ∀ id ∈ Table.keys known, environment.get? id = some (i id))
    : ∃ after,
        evaluate backend graph false environment entries = .ok after
        ∧ ∀ id ∈ Table.keys known ++ entries.map (·.2.value), after.get? id = some (i id) := by
  induction entries generalizing known environment with
  | nil => exact ⟨environment, rfl, by simpa using agree⟩
  | cons entry rest ih =>
      obtain ⟨position, node⟩ := entry
      obtain ⟨copiesHere, copies⟩ := List.forall_mem_cons.mp copies
      obtain ⟨made, makes⟩ := List.forall_mem_cons.mp makes
      cases chained with
      | cons here later =>
          have produced
              : produce backend graph false environment position node = .ok (i node.value) :=
            (produce_eq_ok_iff position fun read reads =>
              agree read (here.mem_keys_of_read reads)).mpr made
          have next : ∀ id ∈ Table.keys (known ++ [node.result]),
              (environment.set node.value (i node.value)).get? id = some (i id) := by
            intro id member
            rw [Table.get?_set]
            split_ifs with same
            · rw [same]
            · refine agree id ?_
              simpa [Table.keys, Node.result, Ne.symm same] using member
          obtain ⟨after, done, holds⟩ := ih later copies makes next
          refine ⟨after, ?_, by simpa [Table.keys, Node.result] using holds⟩
          rw [evaluate, produced, Steps.ok_bind, withoutConsumed_of_copies copiesHere]
          exact done

/-- If the nodes are evaluated, then nothing in front of them changes, and under an interpretation
that has the values of the evaluation each node makes its value. By induction on the nodes.
-/
theorem makes_of_evaluate (chained : Chained narrow known (entries.map (·.2)))
    (copies : ∀ entry ∈ entries, entry.2.operation.isInplace = false)
    (there : ∀ id ∈ Table.keys known, environment.get? id ≠ none)
    (done : evaluate backend graph false environment entries = .ok after)
    : (∀ id ∈ Table.keys known, after.get? id = environment.get? id)
      ∧ ∀ i : Interpretation, (∀ id value, after.get? id = some value → i id = value)
          → ∀ entry ∈ entries,
              i.Makes backend entry.2.operation entry.2.operands (i entry.2.value) := by
  induction entries generalizing known environment with
  | nil =>
      obtain rfl := Except.ok.inj done
      exact ⟨fun _ _ => rfl, fun _ _ _ member => absurd member List.not_mem_nil⟩
  | cons entry rest ih =>
      obtain ⟨position, node⟩ := entry
      obtain ⟨copiesHere, copies⟩ := List.forall_mem_cons.mp copies
      rw [evaluate, withoutConsumed_of_copies copiesHere] at done
      obtain ⟨value, produced, done⟩ := Steps.bind_eq_ok_iff.mp done
      cases chained with
      | cons here later =>
          have next : ∀ id ∈ Table.keys (known ++ [node.result]),
              (environment.set node.value value).get? id ≠ none := by
            intro id member
            rw [Table.get?_set]
            split_ifs with same
            · exact Option.some_ne_none value
            · refine there id ?_
              simpa [Table.keys, Node.result, Ne.symm same] using member
          obtain ⟨kept, makes⟩ := ih later copies next done
          have keys : Table.keys (known ++ [node.result]) = Table.keys known ++ [node.value] := by
            simp [Table.keys, Node.result]
          rw [keys] at kept
          have before : ∀ id ∈ Table.keys known, after.get? id = environment.get? id := by
            intro id member
            have differs : node.value ≠ id := fun same => here.fresh (same ▸ member)
            rw [kept id (List.mem_append_left _ member), Table.get?_set, if_neg differs]
          have own : after.get? node.value = some value := by
            rw [kept _ (List.mem_append_right _ List.mem_cons_self), Table.get?_set, if_pos rfl]
          refine ⟨before, fun i holds => List.forall_mem_cons.mpr ⟨?_, makes i holds⟩⟩
          rw [holds _ _ own]
          refine (produce_eq_ok_iff position fun read reads => ?_).mp produced
          have defined := here.mem_keys_of_read reads
          obtain ⟨held, found⟩ := Option.ne_none_iff_exists'.mp (there read defined)
          rw [found, holds read held ((before read defined).trans found)]

-----------------------------------------------------------------------------------------
-- Inputs of a run
-----------------------------------------------------------------------------------------

/-- Inputs that have their types are bound, one after the other. -/
theorem bindInputs_eq_ok_iff {index : Nat} {inputs : List ((ValueId × ValueType) × Value)}
    : bindInputs graph false index environment inputs = .ok after
      ↔ (∀ input ∈ inputs, input.2.toHost.conformsTo input.1.2 = true)
        ∧ inputs.foldl (fun bound input => bound.set input.1.1 input.2) environment = after := by
  induction inputs generalizing index environment with
  | nil => simp [bindInputs]
  | cons input rest ih =>
      obtain ⟨⟨id, type⟩, value⟩ := input
      rw [bindInputs, List.forall_mem_cons, List.foldl_cons]
      dsimp only
      cases conforms : value.toHost.conformsTo type with
      | false => simp
      | true => simpa using ih

/-- Each bound input is found. By induction on the inputs, whose names are distinct. -/
theorem get?_foldl_set {inputs : List ((ValueId × ValueType) × Value)}
    (distinct : (inputs.map (·.1.1)).Nodup)
    : (∀ input ∈ inputs,
          (inputs.foldl (fun bound input => bound.set input.1.1 input.2) environment).get? input.1.1
            = some input.2)
      ∧ ∀ id ∉ inputs.map (·.1.1),
          (inputs.foldl (fun bound input => bound.set input.1.1 input.2) environment).get? id
            = environment.get? id := by
  induction inputs generalizing environment with
  | nil => exact ⟨fun _ member => absurd member List.not_mem_nil, fun _ _ => rfl⟩
  | cons input rest ih =>
      rw [List.map_cons, List.nodup_cons] at distinct
      obtain ⟨bound, kept⟩ := @ih (environment.set input.1.1 input.2) distinct.2
      refine ⟨List.forall_mem_cons.mpr ⟨?_, bound⟩, fun id absent => ?_⟩
      · rw [List.foldl_cons, kept _ distinct.1, Table.get?_set, if_pos rfl]
      · rw [List.map_cons, List.mem_cons, not_or] at absent
        rw [List.foldl_cons, kept _ absent.2, Table.get?_set, if_neg (Ne.symm absent.1)]

/-- Inputs are bound iff they are of the declared types, and then each of them is found. -/
theorem bound_eq_ok_iff {graph : Graph} {given : List Value} (distinct : graph.inputs.Nodup)
    (length : graph.inputs.length = graph.inputTypes.length)
    : (∀ {environment}, bound graph false given = .ok environment
          → graph.inputs.map environment.get? = given.map some)
      ∧ ((∃ environment, bound graph false given = .ok environment) ↔ graph.Accepts given) := by
  rw [bound]
  split_ifs with counts
  · constructor
    · rintro _ ⟨⟩
    · refine iff_of_false ?_ fun accepted => counts (length.trans accepted.length_eq.symm)
      rintro ⟨_, ⟨⟩⟩
  · rw [not_not] at counts
    have pairs : (graph.inputs.zip graph.inputTypes).length = given.length := by simp [← length, counts]
    have names := List.map_fst_zip length.le
    have types := List.map_snd_zip length.ge
    rw [← List.map_fst_zip pairs.le, List.map_map] at names types
    have values := List.map_snd_zip pairs.ge
    rw [Graph.Accepts]
    generalize (graph.inputs.zip graph.inputTypes).zip given = rows at names types values
    constructor
    · intro environment bounded
      obtain ⟨-, rfl⟩ := bindInputs_eq_ok_iff.mp bounded
      rw [← names] at distinct
      rw [← names, ← values, List.map_map, List.map_map]
      exact List.map_congr_left fun row member => (get?_foldl_set distinct).1 row member
    · rw [← values, ← types, List.forall₂_map_left_iff, List.forall₂_map_right_iff,
        List.forall₂_same]
      constructor
      · rintro ⟨environment, bounded⟩
        exact (bindInputs_eq_ok_iff.mp bounded).1
      · intro accepted
        exact ⟨_, bindInputs_eq_ok_iff.mpr ⟨accepted, rfl⟩⟩

-----------------------------------------------------------------------------------------
-- Whole runs
-----------------------------------------------------------------------------------------

/-- An interpretation that has the values of an environment has those that are found there. -/
theorem map_eq_of_found {ids : List ValueId} {values : List Value}
    (held : ∀ id value, environment.get? id = some value → i id = value)
    (found : ids.map environment.get? = values.map some)
    : ids.map i = values := by
  refine List.map_injective_iff.mpr (Option.some_injective Value) ?_
  rw [← found, List.map_map]
  refine List.map_congr_left fun id member => ?_
  obtain ⟨value, -, same⟩ := List.mem_map.mp (found ▸ List.mem_map_of_mem member)
  rw [Function.comp_apply, held id value same.symm, same]

/-- Outputs have values iff these are found. -/
theorem mapM_outputValue_eq_ok_iff {ids : List ValueId} {values : List Value}
    : ids.mapM (outputValue graph environment) = .ok values
      ↔ ids.map environment.get? = values.map some := by
  have each (id : ValueId) (value : Value)
      : outputValue graph environment id = .ok value ↔ environment.get? id = some value := by
    rw [outputValue]
    cases environment.get? id <;> simp
  rw [Steps.mapM_eq_ok_iff, ← List.forall₂_eq_eq_eq, ← List.forall₂_eq_eq_eq,
    List.forall₂_map_left_iff, List.forall₂_map_right_iff, List.forall₂_map_left_iff,
    List.forall₂_map_right_iff]
  simp only [each]

section

variable {graph : Graph} {given results : List Value} (typed : graph.WellTyped narrow)
  (copies : ∀ node ∈ graph.body, node.operation.isInplace = false)

include typed

theorem chained_numbered
    : Chained narrow (graph.inputs.zip graph.inputTypes) ((numbered graph).map (·.2)) := by
  rw [map_snd_numbered]
  exact typed.body

include copies

/-- The values of an evaluation solve the graph. -/
theorem exists_solves_of_evaluate {environment : Environment}
    (bounded : bound graph false given = .ok environment)
    (evaluated : evaluate backend graph.name false environment (numbered graph) = .ok after)
    : ∃ i : Interpretation, i.Solves backend graph given (graph.outputs.map i) := by
  have found := (bound_eq_ok_iff typed.inputsDistinct typed.inputsTyped).1 bounded
  have there : ∀ id ∈ Table.keys (graph.inputs.zip graph.inputTypes), environment.get? id ≠ none := by
    rw [typed.keys_inputs]
    intro id member none
    obtain ⟨value, -, same⟩ := List.mem_map.mp (found ▸ List.mem_map_of_mem member)
    cases same.trans none
  obtain ⟨kept, makes⟩ := makes_of_evaluate (chained_numbered typed)
    (fun entry member => copies _ (List.mem_of_getElem? (mem_numbered member))) there evaluated
  rw [typed.keys_inputs] at kept
  let i : Interpretation := fun id => (after.get? id).getD (.tuple [])
  have held : ∀ id value, after.get? id = some value → i id = value := fun id value held =>
    congrArg (Option.getD · _) held
  refine ⟨i, ?_, ?_, rfl⟩
  · exact map_eq_of_found held ((List.map_congr_left kept).trans found)
  · intro node member
    obtain ⟨entry, listed, rfl⟩ := List.mem_map.mp ((map_snd_numbered graph).symm ▸ member)
    exact makes i held entry listed

/-- A run has the values that solve the graph. -/
theorem outcome_of_solves (accepted : graph.Accepts given)
    (solves : i.Solves backend graph given results)
    : (Run.graph backend graph false given).outcome = .ok results := by
  have inputs := @bound_eq_ok_iff _ given typed.inputsDistinct typed.inputsTyped
  obtain ⟨environment, bounded⟩ := inputs.2.mpr accepted
  have found := inputs.1 bounded
  rw [← solves.given, List.map_map] at found
  have agree : ∀ id ∈ Table.keys (graph.inputs.zip graph.inputTypes),
      environment.get? id = some (i id) := by
    rw [typed.keys_inputs]
    exact fun id member => List.map_inj_left.mp found id member
  obtain ⟨after, evaluated, holds⟩ := @evaluate_of_makes _ backend graph.name _ _ _ _
    (chained_numbered typed)
    (fun entry member => copies _ (List.mem_of_getElem? (mem_numbered member)))
    (fun entry member => solves.nodes _ (List.mem_of_getElem? (mem_numbered member))) agree
  have names : (numbered graph).map (·.2.value) = graph.body.map (·.value) := by
    conv_rhs => rw [← map_snd_numbered graph]
    rw [List.map_map]
    rfl
  rw [typed.keys_inputs, names] at holds
  rw [outcome_of_ordered backend typed.ordered, bounded, Steps.ok_bind, evaluated, Steps.ok_bind,
    mapM_outputValue_eq_ok_iff, ← solves.results, List.map_map]
  exact List.map_congr_left fun id member => holds id (typed.ordered.outputs id member)

/-- The values of a run solve the graph. -/
theorem exists_solves (done : (Run.graph backend graph false given).outcome = .ok results)
    : graph.Accepts given ∧ ∃ i : Interpretation, i.Solves backend graph given results := by
  have steps := done
  rw [outcome_of_ordered backend typed.ordered] at steps
  obtain ⟨environment, bounded, steps⟩ := Steps.bind_eq_ok_iff.mp steps
  obtain ⟨after, evaluated, -⟩ := Steps.bind_eq_ok_iff.mp steps
  have inputs := @bound_eq_ok_iff _ given typed.inputsDistinct typed.inputsTyped
  have accepted := inputs.2.mp ⟨environment, bounded⟩
  obtain ⟨i, solves⟩ := exists_solves_of_evaluate typed copies bounded evaluated
  have again := outcome_of_solves typed copies accepted solves
  exact ⟨accepted, i, Except.ok.inj (again.symm.trans done) ▸ solves⟩

/-- A run of a graph that destroys nothing has results iff the inputs are accepted and some
interpretation solves the graph with these results.
-/
theorem graph_eq_ok_iff_solves
    : (Run.graph backend graph false given).outcome = .ok results
      ↔ graph.Accepts given ∧ ∃ i : Interpretation, i.Solves backend graph given results :=
  ⟨exists_solves typed copies, fun ⟨accepted, _, solves⟩ =>
    outcome_of_solves typed copies accepted solves⟩

/-- Of valid inputs, a run has results iff some interpretation accounts for the graph with these
results.
-/
theorem graph_eq_ok_iff (valid : ∀ value ∈ given, value.Valid)
    : (Run.graph backend graph false given).outcome = .ok results
      ↔ ∃ i : Interpretation, i.Accounts backend graph given results := by
  rw [graph_eq_ok_iff_solves typed copies]
  constructor
  · intro ⟨accepted, i, solves⟩
    exact ⟨i, solves, accepted.hasType valid⟩
  · intro ⟨i, accounts⟩
    exact ⟨.of_hasType accounts.typed, i, accounts.toSolves⟩

end

end Run

end Dataflow
