import Dataflow.Graph.Builder
import Dataflow.Proofs.Steps
import Dataflow.Proofs.Table
import Mathlib.Data.List.Basic
import Mathlib.Data.List.Forall2

/-!
Well-typed graphs, and how they come about. Types of values describe a graph if every node has the
type that is inferred from the types of its operands. Whatever is asked of a builder, in whatever
order, the graph that it finishes is described by the types that it keeps.
-/

namespace Dataflow

-----------------------------------------------------------------------------------------
-- Well-typed graphs
-----------------------------------------------------------------------------------------

/-- The types of all values. -/
abbrev Types := Table ValueId ValueType

/-- An operand has a type: a literal its own, and a value the type that is kept for it. -/
def Operand.HasType (types : Types) : Operand → ValueType → Prop
  | .literal content, type => type = .tensor content.type
  | .value id, type => types.get? id = some type

/-- A node has the type that is inferred from the types of its operands. -/
structure Node.TypedBy (node : Node) (types : Types) : Prop where
  declared : types.get? node.value = some node.type
  inferred
    : ∃ operands,
        List.Forall₂ (Operand.HasType types) node.operands operands
        ∧ node.operation.resultType operands = .ok node.type

/-- Types describe the inputs, the nodes and the outputs of a graph. -/
structure Graph.TypedBy (graph : Graph) (types : Types) : Prop where
  inputs : List.Forall₂ (fun id type => types.get? id = some type) graph.inputs graph.inputTypes
  nodes : ∀ node ∈ graph.body, node.TypedBy types
  outputs
    : List.Forall₂ (fun id type => types.get? id = some type) graph.outputs graph.outputTypes

/-- Types that keep what other types say. -/
def Types.Extends (more types : Types) : Prop :=
  ∀ (id : ValueId) (type : ValueType), types.get? id = some type → more.get? id = some type

/-- A node keeps its type under more types. -/
theorem Node.TypedBy.extend {node : Node} {types more : Types} (typed : node.TypedBy types)
    (extends_ : more.Extends types)
    : node.TypedBy more := by
  obtain ⟨operands, each, inferred⟩ := typed.inferred
  refine ⟨extends_ _ _ typed.declared, operands, each.imp ?_, inferred⟩
  intro operand type known
  cases operand with
  | literal literal => exact known
  | value id => exact extends_ id type known

-----------------------------------------------------------------------------------------
-- Calls of a builder
-----------------------------------------------------------------------------------------

namespace Builder

/-- What can be asked of a builder. -/
inductive Call where
  | input (type : ValueType)
  | node (operation : Operation) (operands : List Operand)
  | constant (literal : Literal)

/-- The builder after a call. A call that fails leaves it as it was. -/
def call (builder : Builder) : Call → Builder
  | .input type => (builder.addInput type).2
  | .node operation operands =>
    match builder.addNode operation operands with
    | .ok (_, next) => next
    | .error _ => builder
  | .constant literal => (builder.addConstant literal).2

/-- The builder after some calls, from the start. -/
def afterCalls (calls : List Call) : Builder := calls.foldl call empty

/-- The types of a builder describe what it has so far, and all names are below the next one. -/
structure Sound (builder : Builder) : Prop where
  below : ∀ id ∈ Table.keys builder.types, id.number < builder.next
  inputs : ∀ input ∈ builder.inputs, builder.types.get? input.1 = some input.2
  nodes : ∀ node ∈ builder.nodes, node.TypedBy builder.types

/-- Nothing is kept under the next name. -/
theorem Sound.fresh_not_mem {builder : Builder} (sound : builder.Sound)
    : builder.fresh ∉ Table.keys builder.types :=
  fun member => Nat.lt_irrefl _ (sound.below _ member)

/-- A type for the next name keeps all others. -/
theorem Sound.extends_set {builder : Builder} (sound : builder.Sound) (type : ValueType)
    : Types.Extends (builder.types.set builder.fresh type) builder.types := by
  intro id known found
  rw [Table.get?_set]
  split_ifs with same
  · have absent := Table.get?_eq_none_iff.mpr (same ▸ sound.fresh_not_mem)
    exact absurd (absent.symm.trans found) (Option.some_ne_none _).symm
  · exact found

/-- A type for the next name leaves all names below the one after it. -/
theorem Sound.below_set {builder : Builder} (sound : builder.Sound) (type : ValueType)
    : ∀ id ∈ Table.keys (builder.types.set builder.fresh type), id.number < builder.next + 1 := by
  intro id member
  rw [Table.set_of_new type sound.fresh_not_mem, Table.keys_append] at member
  rcases List.mem_append.mp member with before | last
  · exact Nat.lt_succ_of_lt (sound.below id before)
  · rw [List.mem_singleton.mp last]
    exact Nat.lt_succ_self _

/-- An input keeps a builder sound. -/
theorem Sound.addInput {builder : Builder} (sound : builder.Sound) (type : ValueType)
    : (builder.addInput type).2.Sound := by
  have more := sound.extends_set type
  refine ⟨sound.below_set type, ?_, fun node member => (sound.nodes node member).extend more⟩
  intro input member
  rcases List.mem_append.mp member with before | last
  · exact more _ _ (sound.inputs input before)
  · obtain rfl := List.mem_singleton.mp last
    exact (Table.get?_set ..).trans (if_pos rfl)

/-- A node of the inferred type keeps a builder sound. -/
theorem Sound.push {builder : Builder} {operation : Operation} {operands : List Operand}
    {type : ValueType} {types : List ValueType} (sound : builder.Sound)
    (each : List.Forall₂ (Operand.HasType builder.types) operands types)
    (inferred : operation.resultType types = .ok type)
    : (builder.push operation operands type).2.Sound := by
  have more := sound.extends_set type
  refine ⟨sound.below_set type, fun input member => more _ _ (sound.inputs input member), ?_⟩
  intro node member
  rcases List.mem_append.mp member with before | last
  · exact (sound.nodes node before).extend more
  · obtain rfl := List.mem_singleton.mp last
    refine ⟨(Table.get?_set ..).trans (if_pos rfl), types, each.imp ?_, inferred⟩
    intro operand known typed
    cases operand with
    | literal literal => exact typed
    | value id => exact more id known typed

/-- The types of operands that are found are those that are kept, by induction on the operands. -/
theorem operandTypes_eq_ok {builder : Builder} {position : Nat} {operands : List Operand}
    {types : List ValueType} (done : builder.operandTypes position operands = .ok types)
    : List.Forall₂ (Operand.HasType builder.types) operands types := by
  induction operands generalizing position types with
  | nil =>
      obtain rfl := Except.ok.inj done
      exact .nil
  | cons operand operands ih =>
      obtain ⟨type, here, done⟩ := Steps.bind_eq_ok_iff.mp done
      obtain ⟨rest, later, done⟩ := Steps.bind_eq_ok_iff.mp done
      obtain rfl := Except.ok.inj done
      refine .cons ?_ (ih later)
      cases operand with
      | literal literal => exact (Except.ok.inj here).symm
      | value id =>
          rw [operandType] at here
          cases known : builder.type? id with
          | none => simp [known] at here
          | some other =>
              rw [known] at here
              obtain rfl := Except.ok.inj here
              exact known

/-- A node is added with the type that is inferred from the types of its operands. -/
theorem addNode_eq_ok {builder next : Builder} {operation : Operation} {operands : List Operand}
    {value : ValueId} (done : builder.addNode operation operands = .ok (value, next))
    : ∃ types type,
        List.Forall₂ (Operand.HasType builder.types) operands types
        ∧ operation.resultType types = .ok type
        ∧ (builder.push operation operands type).2 = next := by
  obtain ⟨types, found, done⟩ := Steps.bind_eq_ok_iff.mp done
  obtain ⟨type, inferred, done⟩ := Steps.bind_eq_ok_iff.mp done
  have found : builder.operandTypes 0 operands = .ok types := by
    cases known : builder.operandTypes 0 operands with
    | error fault =>
        rw [known] at found
        cases found
    | ok others =>
        rw [known] at found
        exact congrArg Except.ok (Except.ok.inj found)
  exact ⟨types, type, operandTypes_eq_ok found, inferred, congrArg Prod.snd (Except.ok.inj done)⟩

/-- A node that is added keeps a builder sound. -/
theorem Sound.addNode {builder next : Builder} {operation : Operation} {operands : List Operand}
    {value : ValueId} (sound : builder.Sound)
    (done : builder.addNode operation operands = .ok (value, next))
    : next.Sound := by
  obtain ⟨types, type, each, inferred, rfl⟩ := addNode_eq_ok done
  exact sound.push each inferred

/-- A call keeps a builder sound. -/
theorem Sound.call {builder : Builder} (sound : builder.Sound) (call : Call)
    : (builder.call call).Sound := by
  cases call with
  | input type => exact sound.addInput type
  | node operation operands =>
      rw [Builder.call]
      split
      · rename_i next done
        exact sound.addNode done
      · exact sound
  | constant literal => exact sound.push .nil rfl

/-- After any calls, a builder is sound, by induction on the calls. -/
theorem sound_afterCalls (calls : List Call) : (afterCalls calls).Sound := by
  have all : ∀ {builder : Builder}, builder.Sound → (calls.foldl Builder.call builder).Sound := by
    induction calls with
    | nil => exact id
    | cons first rest ih => exact fun sound => ih (sound.call first)
  exact all ⟨fun id member => absurd member List.not_mem_nil,
    fun input member => absurd member List.not_mem_nil,
    fun node member => absurd member List.not_mem_nil⟩

/-- A finished graph is described by the types of its builder. -/
theorem Sound.finish {builder : Builder} {name : String} {outputs : List ValueId} {graph : Graph}
    (sound : builder.Sound) (finished : builder.finish name outputs = .ok graph)
    : graph.TypedBy builder.types := by
  obtain ⟨outputTypes, found, finished⟩ := Steps.bind_eq_ok_iff.mp finished
  obtain rfl := Except.ok.inj finished
  refine ⟨?_, sound.nodes, ?_⟩
  · rw [List.forall₂_map_left_iff, List.forall₂_map_right_iff, List.forall₂_same]
    exact sound.inputs
  · have each := Steps.mapM_eq_ok_iff.mp found
    rw [← List.forall₂_eq_eq_eq, List.forall₂_map_left_iff, List.forall₂_map_right_iff] at each
    refine each.imp ?_
    intro id type known
    rw [outputType] at known
    cases here : builder.type? id with
    | none => simp [here] at known
    | some other =>
        rw [here] at known
        obtain rfl := Except.ok.inj known
        exact here

end Builder

end Dataflow
