import Dataflow.Proofs.Graph.Construction
import Dataflow.Proofs.Graph.Ordering
import Dataflow.Proofs.Rewrite.Changes
import Mathlib.Algebra.Group.Nat.Defs

/-!
Well-typed graphs, node by node. Each node is inferred from what is declared before it, so a body is
in order and well typed at once. Nodes may be added, taken out and redirected as long as what they
read stays declared.
-/

namespace Dataflow

-----------------------------------------------------------------------------------------
-- Nodes
-----------------------------------------------------------------------------------------

/-- An operand has a type among some declarations. -/
def Operand.DeclaredBy (known : Types) : Operand → ValueType → Prop
  | .literal content, type => type = .tensor content.type
  | .value id, type => (id, type) ∈ known

/-- No axis that an index can select from has 2^63 elements or more, which no index counts. -/
def Operation.IsNarrow (operation : Operation) (operands : List ValueType) : Prop :=
  ∀ entries, operation = .subtensor entries
    → ∀ type, operands.head? = some (.tensor type)
    → ∀ size, .static size ∈ type.shape.dims → size < 2 ^ 63

/-- The type of an operation is inferred from the declarations of its operands, and its axes are
narrow where that is asked for.
-/
def Operation.Follows (narrow : Prop) (known : Types) (operation : Operation)
    (operands : List Operand) (type : ValueType) : Prop :=
  ∃ types,
    List.Forall₂ (Operand.DeclaredBy known) operands types
    ∧ operation.resultType types = .ok type
    ∧ (narrow → operation.IsNarrow types)

/-- A node has a new name and the type that is inferred from the declarations. -/
structure Node.Follows (narrow : Prop) (known : Types) (node : Node) : Prop where
  fresh : node.value ∉ Table.keys known
  inferred : node.operation.Follows narrow known node.operands node.type

/-- Each node follows what is declared before it. -/
inductive Chained (narrow : Prop) : Types → List Node → Prop where
  | nil {known : Types} : Chained narrow known []
  | cons {known : Types} {node : Node} {rest : List Node} (here : node.Follows narrow known)
      (later : Chained narrow (known ++ [node.result]) rest)
    : Chained narrow known (node :: rest)

theorem Operand.DeclaredBy.mono {known more : Types} {operand : Operand} {type : ValueType}
    (declared : operand.DeclaredBy known type) (subset : known ⊆ more)
    : operand.DeclaredBy more type := by
  cases operand with
  | literal content => exact declared
  | value id => exact subset declared

theorem Operation.Follows.mono {narrow : Prop} {known more : Types} {operation : Operation}
    {operands : List Operand} {type : ValueType}
    (follows : operation.Follows narrow known operands type) (subset : known ⊆ more)
    : operation.Follows narrow more operands type := by
  obtain ⟨types, declared, inferred⟩ := follows
  exact ⟨types, declared.imp fun _ _ here => here.mono subset, inferred⟩

/-- What operands read is declared with one of their types. -/
theorem exists_declared_of_read {known : Types} {operands : List Operand} {types : List ValueType}
    (declared : List.Forall₂ (Operand.DeclaredBy known) operands types) {value : ValueId}
    (read : value ∈ operands.filterMap Operand.value?)
    : ∃ type ∈ types, (value, type) ∈ known := by
  induction declared with
  | nil => exact absurd read List.not_mem_nil
  | @cons operand type operands types here _ ih =>
      have behind (later : value ∈ operands.filterMap Operand.value?)
          : ∃ other ∈ type :: types, (value, other) ∈ known := by
        obtain ⟨other, member, declared⟩ := ih later
        exact ⟨other, List.mem_cons_of_mem _ member, declared⟩
      cases operand with
      | literal content => exact behind read
      | value id =>
          rcases List.mem_cons.mp read with rfl | later
          · exact ⟨type, List.mem_cons_self, here⟩
          · exact behind later

theorem Node.Follows.mem_keys_of_read {narrow : Prop} {known : Types} {node : Node}
    (follows : node.Follows narrow known) {value : ValueId} (read : value ∈ node.reads)
    : value ∈ Table.keys known := by
  obtain ⟨types, declared, -⟩ := follows.inferred
  obtain ⟨type, -, here⟩ := exists_declared_of_read declared read
  exact List.mem_map_of_mem here

/-- What a node follows may change, as long as everything that it reads stays declared. -/
theorem Node.Follows.transfer {narrow : Prop} {known other : Types} {node : Node}
    (follows : node.Follows narrow known) (fresh : node.value ∉ Table.keys other)
    (kept : ∀ value ∈ node.reads, ∀ type, (value, type) ∈ known → (value, type) ∈ other)
    : node.Follows narrow other := by
  obtain ⟨types, declared, inferred⟩ := follows.inferred
  refine ⟨fresh, types, ?_, inferred⟩
  have reads : ∀ value ∈ node.operands.filterMap Operand.value?, ∀ type,
      (value, type) ∈ known → (value, type) ∈ other := kept
  clear kept inferred
  generalize node.operands = operands at declared reads
  induction declared with
  | nil => exact .nil
  | @cons operand type operands types here _ ih =>
      refine .cons ?_ (ih fun value member => reads value ?_)
      · cases operand with
        | literal content => exact here
        | value id => exact reads id (by simp [Operand.value?]) type here
      · rw [List.filterMap_cons]
        cases operand with
        | literal content => exact member
        | value id => exact List.mem_cons_of_mem _ member

namespace Chained

variable {narrow : Prop} {known more : Types} {body front back : List Node}

-----------------------------------------------------------------------------------------
-- Positions
-----------------------------------------------------------------------------------------

theorem append_iff
    : Chained narrow known (front ++ back)
      ↔ Chained narrow known front ∧ Chained narrow (known ++ front.map Node.result) back := by
  induction front generalizing known with
  | nil => simp [Chained.nil]
  | cons node rest ih =>
      constructor
      · rintro (_ | ⟨here, later⟩)
        obtain ⟨first, second⟩ := ih.mp later
        exact ⟨.cons here first, by simpa using second⟩
      · rintro ⟨_ | ⟨here, first⟩, second⟩
        exact .cons here (ih.mpr ⟨first, by simpa using second⟩)

theorem follows_at (chained : Chained narrow known body) {position : Nat} {node : Node}
    (found : body[position]? = some node)
    : node.Follows narrow (known ++ (body.take position).map Node.result) := by
  obtain ⟨inside, rfl⟩ := List.getElem?_eq_some_iff.mp found
  rw [← List.take_append_drop position body, append_iff] at chained
  obtain ⟨-, later⟩ := chained
  rw [List.drop_eq_getElem_cons inside] at later
  cases later with
  | cons here _ => exact here

theorem keys_append_results (known : Types) (body : List Node)
    : Table.keys (known ++ body.map Node.result) = Table.keys known ++ body.map (·.value) := by
  simp [Table.keys, Node.result, Function.comp_def]

theorem value_not_mem (chained : Chained narrow known body) {node : Node} (member : node ∈ body)
    : node.value ∉ Table.keys known := by
  obtain ⟨position, found⟩ := List.mem_iff_getElem?.mp member
  have fresh := (chained.follows_at found).fresh
  rw [keys_append_results, List.mem_append, not_or] at fresh
  exact fresh.1

theorem nodup (chained : Chained narrow known body) (distinct : (Table.keys known).Nodup)
    : (Table.keys known ++ body.map (·.value)).Nodup := by
  induction chained with
  | nil => simpa using distinct
  | @cons known node rest here _ ih =>
      have keys : Table.keys (known ++ [node.result]) = Table.keys known ++ [node.value] := by
        simp [Table.keys, Node.result]
      rw [keys] at ih
      have longer : (Table.keys known ++ [node.value]).Nodup := by
        rw [List.nodup_append]
        refine ⟨distinct, List.nodup_singleton _, ?_⟩
        intro key member value single same
        exact here.fresh (List.mem_singleton.mp single ▸ same ▸ member)
      simpa using ih longer

/-- What holds of all declarations and passes from what a node follows to the node holds of what
the body declares, by induction on the body.
-/
theorem forall_declared {holds : ValueId → ValueType → Prop} (chained : Chained narrow known body)
    (start : ∀ id type, (id, type) ∈ known → holds id type)
    (step
      : ∀ node ∈ body, ∀ front, node.Follows narrow front
          → (∀ id type, (id, type) ∈ front → holds id type)
          → holds node.value node.type)
    : ∀ id type, (id, type) ∈ known ++ body.map Node.result → holds id type := by
  induction chained with
  | nil => simpa using start
  | @cons known node rest here _ ih =>
      rw [List.map_cons, List.append_cons]
      refine ih (fun id type declared => ?_) fun other member =>
        step other (List.mem_cons_of_mem _ member)
      rcases List.mem_append.mp declared with before | new
      · exact start id type before
      · obtain ⟨rfl, rfl⟩ := Prod.mk.inj (List.mem_singleton.mp new)
        exact step node List.mem_cons_self known here start

-----------------------------------------------------------------------------------------
-- Changes
-----------------------------------------------------------------------------------------

/-- What is declared in front of a body may change, as long as what the body reads from there stays
declared and no name is taken. By induction on the body.
-/
theorem transfer (chained : Chained narrow known body)
    (fresh : ∀ node ∈ body, node.value ∉ Table.keys more)
    (kept
      : ∀ node ∈ body, ∀ value ∈ node.reads, ∀ type,
          (value, type) ∈ known → (value, type) ∈ more)
    : Chained narrow more body := by
  induction chained generalizing more with
  | nil => exact .nil
  | @cons known node rest here later ih =>
      refine .cons (here.transfer (fresh node List.mem_cons_self) (kept node List.mem_cons_self))
        (ih ?_ ?_)
      · intro other member taken
        rw [show [node.result] = [node].map Node.result from rfl, keys_append_results,
          List.mem_append] at taken
        refine taken.elim (fresh other (List.mem_cons_of_mem _ member)) fun same => ?_
        refine later.value_not_mem member ?_
        rw [show [node.result] = [node].map Node.result from rfl, keys_append_results]
        exact List.mem_append_right _ same
      · intro other member value read type declared
        rcases List.mem_append.mp declared with before | new
        · exact List.mem_append_left _
            (kept other (List.mem_cons_of_mem _ member) value read type before)
        · exact List.mem_append_right _ new

/-- More may be declared in front of a body, if no name is taken. -/
theorem weaken (chained : Chained narrow known body) (subset : known ⊆ more)
    (fresh : ∀ node ∈ body, node.value ∉ Table.keys more)
    : Chained narrow more body :=
  chained.transfer fresh fun _ _ _ _ _ declared => subset declared

end Chained

/-- A node that reads another value of the same type follows the same declarations without the old
value.
-/
theorem Node.Follows.redirect {narrow : Prop} {known more : Types} {node : Node}
    {old new : ValueId} (follows : node.Follows narrow known)
    (fresh : node.value ∉ Table.keys more)
    (others : ∀ value type, (value, type) ∈ known → value ≠ old → (value, type) ∈ more)
    (replaced : ∀ type, (old, type) ∈ known → (new, type) ∈ more)
    : (Session.redirectNode old new node).Follows narrow more := by
  obtain ⟨types, declared, inferred⟩ := follows.inferred
  refine ⟨fresh, types, ?_, inferred⟩
  change List.Forall₂ _ (node.operands.map (Session.redirect old new)) types
  rw [List.forall₂_map_left_iff]
  refine declared.imp fun operand type here => ?_
  rw [Session.redirect]
  split_ifs with same
  · rw [same] at here
    exact replaced type here
  · cases operand with
    | literal content => exact here
    | value id => exact others id type here fun same' => same (congrArg Operand.value same')

/-- A value may be replaced by another one of its type. By induction on the body. -/
theorem Chained.redirect {narrow : Prop} {known more : Types} {body : List Node}
    {old new : ValueId} (chained : Chained narrow known body) (defined : old ∈ Table.keys known)
    (fresh : ∀ node ∈ body, node.value ∉ Table.keys more)
    (others : ∀ value type, (value, type) ∈ known → value ≠ old → (value, type) ∈ more)
    (replaced : ∀ type, (old, type) ∈ known → (new, type) ∈ more)
    : Chained narrow more (body.map (Session.redirectNode old new)) := by
  induction chained generalizing more with
  | nil => exact .nil
  | @cons known node rest here later ih =>
      have differs : node.value ≠ old := fun same => here.fresh (same ▸ defined)
      refine .cons (here.redirect (fresh node List.mem_cons_self) others replaced) (ih ?_ ?_ ?_ ?_)
      · rw [Table.keys, List.map_append]
        exact List.mem_append_left _ defined
      · intro other member taken
        rw [Table.keys, List.map_append, List.mem_append] at taken
        refine taken.elim (fresh other (List.mem_cons_of_mem _ member)) fun same => ?_
        refine later.value_not_mem member ?_
        rw [Table.keys, List.map_append]
        exact List.mem_append_right _ same
      · intro value type declared other
        rcases List.mem_append.mp declared with before | new
        · exact List.mem_append_left _ (others value type before other)
        · exact List.mem_append_right _ new
      · intro type declared
        rcases List.mem_append.mp declared with before | new
        · exact List.mem_append_left _ (replaced type before)
        · exact absurd (Prod.mk.inj (List.mem_singleton.mp new)).1.symm differs

-----------------------------------------------------------------------------------------
-- Graphs
-----------------------------------------------------------------------------------------

namespace Graph

variable {narrow : Prop} {graph : Graph}

/-- The types that a graph declares. -/
def types (graph : Graph) : Types :=
  graph.inputs.zip graph.inputTypes ++ graph.body.map Node.result

/-- The types that a graph declares in front of a position. -/
def typesBefore (graph : Graph) (position : Nat) : Types :=
  graph.inputs.zip graph.inputTypes ++ (graph.body.take position).map Node.result

/-- Each node follows the inputs and the nodes before it, and the outputs have their types. -/
structure WellTyped (narrow : Prop) (graph : Graph) : Prop where
  inputsDistinct : graph.inputs.Nodup
  inputsTyped : graph.inputs.length = graph.inputTypes.length
  body : Chained narrow (graph.inputs.zip graph.inputTypes) graph.body
  outputs : List.Forall₂ (fun id type => (id, type) ∈ graph.types) graph.outputs graph.outputTypes

theorem result_mem_types {node : Node} (member : node ∈ graph.body) : node.result ∈ graph.types :=
  List.mem_append_right _ (List.mem_map_of_mem member)

theorem typesBefore_subset (graph : Graph) (position : Nat)
    : graph.typesBefore position ⊆ graph.types :=
  List.append_subset.mpr ⟨List.subset_append_left _ _,
    List.subset_append_of_subset_right _ (List.map_subset _ (List.take_subset _ _))⟩

theorem typesBefore_mono (graph : Graph) {first second : Nat} (le : first ≤ second)
    : graph.typesBefore first ⊆ graph.typesBefore second :=
  List.append_subset.mpr ⟨List.subset_append_left _ _, List.subset_append_of_subset_right _
    (List.map_subset _ (List.take_prefix_take_left le).subset)⟩

namespace WellTyped

theorem keys_inputs (typed : graph.WellTyped narrow)
    : Table.keys (graph.inputs.zip graph.inputTypes) = graph.inputs :=
  List.map_fst_zip typed.inputsTyped.le

theorem keys_types (typed : graph.WellTyped narrow)
    : Table.keys graph.types = graph.defined := by
  rw [types, Chained.keys_append_results, typed.keys_inputs, defined]

theorem keys_typesBefore (typed : graph.WellTyped narrow) (position : Nat)
    : Table.keys (graph.typesBefore position) = graph.definedBefore position := by
  rw [typesBefore, Chained.keys_append_results, typed.keys_inputs, definedBefore]

theorem distinct (typed : graph.WellTyped narrow) : graph.defined.Nodup := by
  have all := typed.body.nodup (typed.keys_inputs.symm ▸ typed.inputsDistinct)
  rwa [typed.keys_inputs] at all

theorem follows_at (typed : graph.WellTyped narrow) {position : Nat} {node : Node}
    (found : graph.body[position]? = some node)
    : node.Follows narrow (graph.typesBefore position) :=
  typed.body.follows_at found

theorem get?_types_iff (typed : graph.WellTyped narrow) {value : ValueId} {type : ValueType}
    : graph.types.get? value = some type ↔ (value, type) ∈ graph.types :=
  ⟨Table.mem_of_get?, Table.get?_of_mem (typed.keys_types.symm ▸ typed.distinct)⟩

/-- A value has one type. -/
theorem type_unique (typed : graph.WellTyped narrow) {value : ValueId} {type other : ValueType}
    (first : (value, type) ∈ graph.types) (second : (value, other) ∈ graph.types)
    : type = other :=
  Option.some.inj ((typed.get?_types_iff.mpr first).symm.trans (typed.get?_types_iff.mpr second))

theorem ordered (typed : graph.WellTyped narrow) : graph.Ordered where
  distinct := typed.distinct
  reads {position node} found value read := by
    rw [← typed.keys_typesBefore]
    exact (typed.follows_at found).mem_keys_of_read read
  outputs value output := by
    rw [← typed.keys_types]
    obtain ⟨place, inside, rfl⟩ := List.mem_iff_getElem.mp output
    exact List.mem_map_of_mem (typed.outputs.get inside (typed.outputs.length_eq ▸ inside))

theorem typedBy (typed : graph.WellTyped narrow) : graph.TypedBy graph.types where
  inputs := by
    refine List.forall₂_iff_zip.mpr ⟨typed.inputsTyped, fun {id type} member => ?_⟩
    exact typed.get?_types_iff.mpr (List.mem_append_left _ member)
  nodes node member := by
    obtain ⟨position, found⟩ := List.mem_iff_getElem?.mp member
    obtain ⟨types, declared, inferred, -⟩ := (typed.follows_at found).inferred
    refine ⟨?_, types, declared.imp fun operand type here => ?_, inferred⟩
    · exact typed.get?_types_iff.mpr (List.mem_append_right _ (List.mem_map_of_mem member))
    · cases operand with
      | literal content => exact here
      | value id => exact typed.get?_types_iff.mpr (typesBefore_subset graph position here)
  outputs := typed.outputs.imp fun id type declared => typed.get?_types_iff.mpr declared

end WellTyped

/-- A graph whose nodes index narrow axes. -/
def IsNarrow (graph : Graph) : Prop :=
  ∀ node ∈ graph.body, ∀ types,
    List.Forall₂ (Operand.DeclaredBy graph.types) node.operands types
    → node.operation.IsNarrow types

end Graph

theorem Chained.narrow {wide narrow : Prop} {known : Types} {body : List Node}
    (chained : Chained wide known body)
    (sizes
      : narrow → ∀ node ∈ body, ∀ types,
          List.Forall₂ (Operand.DeclaredBy (known ++ body.map Node.result)) node.operands types
          → node.operation.IsNarrow types)
    : Chained narrow known body := by
  induction chained with
  | nil => exact .nil
  | @cons known node rest here _ ih =>
      obtain ⟨types, declared, inferred, -⟩ := here.inferred
      refine .cons ⟨here.fresh, types, declared, inferred, fun small => ?_⟩ (ih fun small => ?_)
      · refine sizes small node List.mem_cons_self types (declared.imp fun _ _ known => ?_)
        exact known.mono (List.subset_append_left _ _)
      · intro other member types declared
        refine sizes small other (List.mem_cons_of_mem _ member) types ?_
        rwa [List.map_cons, List.append_cons]

theorem Graph.WellTyped.narrow {wide narrow : Prop} {graph : Graph} (typed : graph.WellTyped wide)
    (sizes : narrow → graph.IsNarrow)
    : graph.WellTyped narrow where
  inputsDistinct := typed.inputsDistinct
  inputsTyped := typed.inputsTyped
  body := typed.body.narrow sizes
  outputs := typed.outputs

-----------------------------------------------------------------------------------------
-- Built graphs
-----------------------------------------------------------------------------------------

namespace Builder

variable {builder : Builder}

/-- The values of a builder so far, with their types. The inputs come first. -/
def declared (builder : Builder) : Types := builder.inputs ++ builder.nodes.map Node.result

/-- The nodes of a builder follow each other, and all names are below the next one. -/
structure Chains (builder : Builder) : Prop where
  distinct : (Table.keys builder.inputs).Nodup
  nodes : Chained False builder.inputs builder.nodes
  below : ∀ id ∈ Table.keys builder.declared, id.number < builder.next
  types
    : ∀ (id : ValueId) (type : ValueType),
        builder.types.get? id = some type → (id, type) ∈ builder.declared

theorem Chains.fresh_not_mem (chains : builder.Chains)
    : builder.fresh ∉ Table.keys builder.declared :=
  fun member => Nat.lt_irrefl _ (chains.below _ member)

/-- One more value keeps the tables in step. -/
theorem Chains.add {next : Builder} {type : ValueType} (chains : builder.Chains)
    (number : next.next = builder.next + 1)
    (types : next.types = builder.types.set builder.fresh type)
    (declared
      : ∀ id other, (id, other) ∈ next.declared
          ↔ (id, other) ∈ builder.declared ∨ id = builder.fresh ∧ other = type)
    : (∀ id ∈ Table.keys next.declared, id.number < next.next)
      ∧ ∀ id other, next.types.get? id = some other → (id, other) ∈ next.declared := by
  constructor
  · intro id member
    obtain ⟨⟨id, other⟩, there, rfl⟩ := List.mem_map.mp member
    rw [number]
    rcases (declared id other).mp there with before | ⟨rfl, -⟩
    · exact Nat.lt_succ_of_lt (chains.below id (List.mem_map_of_mem before))
    · exact Nat.lt_succ_self builder.next
  · intro id other known
    rw [types, Table.get?_set] at known
    refine (declared id other).mpr ?_
    split_ifs at known with same
    · exact .inr ⟨same.symm, (Option.some.inj known).symm⟩
    · exact .inl (chains.types id other known)

/-- An input is declared in front of all nodes, whenever it is added. -/
theorem Chains.addInput (chains : builder.Chains) (type : ValueType)
    : (builder.addInput type).2.Chains := by
  have fresh := chains.fresh_not_mem
  rw [declared, Chained.keys_append_results, List.mem_append, not_or] at fresh
  obtain ⟨below, types⟩ := @Chains.add builder (builder.addInput type).2 type chains rfl rfl
    fun id other => by simp [declared, Builder.addInput, or_left_comm, or_comm]
  have keys : Table.keys (builder.addInput type).2.inputs
      = Table.keys builder.inputs ++ [builder.fresh] :=
    Table.keys_append _ _ _
  refine ⟨?_, ?_, below, types⟩
  · rw [keys, List.nodup_append]
    refine ⟨chains.distinct, List.nodup_singleton _, ?_⟩
    rintro id member _ last rfl
    exact fresh.1 (List.mem_singleton.mp last ▸ member)
  · refine chains.nodes.weaken (List.subset_append_left _ _) fun node member taken => ?_
    rw [keys, List.mem_append] at taken
    rcases taken with before | last
    · exact chains.nodes.value_not_mem member before
    · exact fresh.2 (List.mem_singleton.mp last ▸ List.mem_map_of_mem member)

theorem Chains.push (chains : builder.Chains) {operation : Operation} {operands : List Operand}
    {type : ValueType} {operandTypes : List ValueType}
    (each : List.Forall₂ (Operand.HasType builder.types) operands operandTypes)
    (inferred : operation.resultType operandTypes = .ok type)
    : (builder.push operation operands type).2.Chains := by
  obtain ⟨below, types⟩ :=
    @Chains.add builder (builder.push operation operands type).2 type chains rfl rfl
      fun id other => by simp [declared, Builder.push, Node.result, or_assoc]
  refine ⟨chains.distinct, Chained.append_iff.mpr ⟨chains.nodes, .cons ⟨chains.fresh_not_mem,
    operandTypes, each.imp fun operand type known => ?_, inferred, False.elim⟩ .nil⟩, below, types⟩
  cases operand with
  | literal content => exact known
  | value id => exact chains.types id type known

theorem Chains.call (chains : builder.Chains) (call : Call) : (builder.call call).Chains := by
  cases call with
  | input type => exact chains.addInput type
  | constant literal => exact chains.push .nil rfl
  | node operation operands =>
      rw [Builder.call]
      split
      · rename_i value next done
        obtain ⟨types, type, each, inferred, rfl⟩ := addNode_eq_ok done
        exact chains.push each inferred
      · exact chains

theorem chains_afterCalls (calls : List Call) : (afterCalls calls).Chains := by
  have all : ∀ {builder : Builder}, builder.Chains → (calls.foldl Builder.call builder).Chains := by
    induction calls with
    | nil => exact id
    | cons first rest ih => exact fun chains => ih (chains.call first)
  exact all ⟨.nil, .nil, nofun, nofun⟩

/-- A finished graph is well typed. -/
theorem wellTyped_of_finish {calls : List Call} {name : String} {outputs : List ValueId}
    {graph : Graph} (built : (afterCalls calls).finish name outputs = .ok graph)
    : graph.WellTyped graph.IsNarrow := by
  have chains := chains_afterCalls calls
  have typed := (sound_afterCalls calls).finish built
  obtain ⟨outputTypes, -, built⟩ := Steps.bind_eq_ok_iff.mp built
  obtain rfl := Except.ok.inj built
  generalize afterCalls calls = builder at chains typed
  have inputs
      : (builder.inputs.map (·.1)).zip (builder.inputs.map (·.2)) = builder.inputs := by
    rw [List.zip_map', List.map_id']
  refine @Graph.WellTyped.narrow False _ _ ⟨chains.distinct, ?_, ?_, ?_⟩ id
  · rw [List.length_map, List.length_map]
  · rw [inputs]
    exact chains.nodes
  · refine typed.outputs.imp fun id type known => ?_
    rw [Graph.types, inputs]
    exact chains.types id type known

end Builder

end Dataflow
