import Dataflow.Encoding.Graph
import Dataflow.Proofs.Encoding.Operations

/-!
Programs come back from their JSON text: every part is recovered from its form, and the text of a
form spells that form. A text bounds how deep its form nests, and only types can nest deep: tuples
hold tuples, and everything else has a form of a few brackets.
-/

namespace Dataflow

open Decoder Json

-----------------------------------------------------------------------------------------
-- Nodes
-----------------------------------------------------------------------------------------

/-- Whether the numbers of an operand fit their words. -/
def Operand.fits : Operand → Bool
  | .value id => id.fits
  | .literal constant => constant.fits

theorem Operand.recovers {operand : Operand} (fits : operand.fits)
    : Operand.decoder.Recovers operand.toJson operand := by
  cases operand with
  | value id =>
      apply recovers_tagged (ValueId.recovers fits)
      intro mode whole inner payload split
      simp [decoder, split]
  | literal constant =>
      apply recovers_tagged (Literal.recovers fits)
      intro mode whole inner payload split
      simp [decoder, split]

/-- Whether the numbers of a node fit their words. -/
def Node.fits (node : Node) : Bool :=
  node.value.fits && node.operation.fits && node.operands.all Operand.fits && node.type.fits

/-- A node is read where its four fields are, whatever their forms. -/
theorem Node.decoder_of_fields {node : Node} {mode inner : Mode} {whole : Json}
    {id operation operands type : Option Json}
    (opened : descend mode = some inner)
    (read : fields ["id", "op", "operands", "output"] whole
      = some [id, operation, operands, type])
    (value : required ValueId.decoder inner id = some node.value)
    (does : required Operation.decoder inner operation = some node.operation)
    (takes : required (list Operand.decoder) inner operands = some node.operands)
    (makes : required ValueType.decoder inner type = some node.type)
    : Node.decoder mode whole = some node := by
  simp [decoder, opened, read, value, does, takes, makes]

/-- A node is recovered, as its fields are. -/
theorem Node.recovers {node : Node} (fits : node.fits)
    : Node.decoder.Recovers node.toJson node := by
  simp only [Node.fits, Bool.and_eq_true, List.all_eq_true] at fits
  rcases fits with ⟨⟨⟨valueFits, operationFits⟩, operandsFit⟩, typeFits⟩
  have value := ValueId.recovers valueFits
  have operation := Operation.recovers operationFits
  have operands := recovers_list fun operand member => Operand.recovers (operandsFit operand member)
  have type := ValueType.recovers typeFits
  apply recovers_ofMembers (by simp)
    (by simp [value.plain, operation.plain, operands.plain, type.plain])
  intro mode inner opened room read
  simp only [List.forall_mem_cons] at room
  exact decoder_of_fields opened read (value.required room.1) (operation.required room.2.1)
    (operands.required room.2.2.1) (type.required room.2.2.2.1)

-----------------------------------------------------------------------------------------
-- Graphs and programs
-----------------------------------------------------------------------------------------

/-- Whether the numbers of a graph fit their words. -/
def Graph.fits (graph : Graph) : Bool :=
  graph.inputTypes.all ValueType.fits && graph.inputs.all ValueId.fits
    && graph.outputTypes.all ValueType.fits && graph.body.all Node.fits
    && graph.outputs.all ValueId.fits

/-- A graph is recovered, as its fields are. -/
theorem Graph.recovers {graph : Graph} (fits : graph.fits)
    : Graph.decoder.Recovers graph.toJson graph := by
  simp only [Graph.fits, Bool.and_eq_true, List.all_eq_true] at fits
  rcases fits with ⟨⟨⟨⟨inputTypesFit, inputsFit⟩, outputTypesFit⟩, bodyFits⟩, outputsFit⟩
  have name := recovers_text graph.name
  have inputTypes := recovers_list fun type member => ValueType.recovers (inputTypesFit type member)
  have inputs := recovers_list fun id member => ValueId.recovers (inputsFit id member)
  have outputTypes := recovers_list fun type member =>
    ValueType.recovers (outputTypesFit type member)
  have body := recovers_list fun node member => Node.recovers (bodyFits node member)
  have outputs := recovers_list fun id member => ValueId.recovers (outputsFit id member)
  apply recovers_ofMembers (by simp)
    (by simp [name.plain, inputTypes.plain, inputs.plain, outputTypes.plain, body.plain,
      outputs.plain])
  intro mode inner opened room read
  simp only [List.map_cons, List.map_nil] at read
  simp only [List.forall_mem_cons] at room
  simp [decoder, opened, read, name.required room.1, inputTypes.required room.2.1,
    inputs.required room.2.2.1, outputTypes.required room.2.2.2.1,
    body.required room.2.2.2.2.1, outputs.required room.2.2.2.2.2.1]

/-- Whether the numbers of a program fit their words. -/
def Program.fits (program : Program) : Bool := program.graphs.all Graph.fits

/-- A program is recovered, as its graphs are. -/
theorem Program.recovers {program : Program} (fits : program.fits)
    : Program.decoder.Recovers program.toJson program := by
  have entry := recovers_text program.entry
  have graphs := recovers_list fun graph member =>
    Graph.recovers (List.all_eq_true.mp fits graph member)
  apply recovers_ofMembers (by simp) (by simp [entry.plain, graphs.plain])
  intro mode inner opened room read
  simp only [List.map_cons, List.map_nil] at read
  simp only [List.forall_mem_cons] at room
  simp [decoder, opened, read, entry.required room.1, graphs.required room.2.1]

-----------------------------------------------------------------------------------------
-- Shallow forms
-----------------------------------------------------------------------------------------

theorem Dimension.depth_toJson_le (dim : Dimension) : dim.toJson.depth ≤ 1 := by
  cases dim <;> simp [toJson]

theorem Shape.depth_toJson_le (shape : Shape) : shape.toJson.depth ≤ 3 :=
  depth_tagged_le (depth_array_map_le Dimension.depth_toJson_le shape.dims)

theorem TensorType.depth_toJson_le (type : TensorType) : type.toJson.depth ≤ 4 := by
  apply depth_ofMembers_le_iff.mpr
  simp [DType.toJson, Shape.depth_toJson_le]

theorem Literal.depth_toJson_le (literal : Literal) : literal.toJson.depth ≤ 5 := by
  have bytes : (Json.array (literal.bytes.map fun byte => .ofNat byte.toNat)).depth ≤ 3 + 1 :=
    depth_array_map_le (by simp) literal.bytes
  apply depth_ofMembers_le_iff.mpr
  simp [TensorType.depth_toJson_le, bytes]

theorem IndexScalar.depth_toJson_le (index : IndexScalar) : index.toJson.depth ≤ 1 := by
  cases index <;> simp [toJson]

theorem SliceBounds.depth_toJson_le (bounds : SliceBounds) : bounds.toJson.depth ≤ 2 := by
  have each : ∀ bound : Option IndexScalar, (ofOption IndexScalar.toJson bound).depth ≤ 1 := by
    intro bound
    cases bound with
    | none => exact Nat.zero_le _
    | some index => exact index.depth_toJson_le
  apply depth_ofMembers_le_iff.mpr
  simp [each]

theorem IndexEntry.depth_toJson_le (entry : IndexEntry) : entry.toJson.depth ≤ 3 := by
  cases entry with
  | scalar index => exact Nat.le_succ_of_le (depth_tagged_le index.depth_toJson_le)
  | slice bounds => exact depth_tagged_le bounds.depth_toJson_le

theorem ShuffleAxis.depth_toJson_le (axis : ShuffleAxis) : axis.toJson.depth ≤ 1 := by
  cases axis <;> simp [toJson]

theorem ExtentSource.depth_toJson_le (extent : ExtentSource) : extent.toJson.depth ≤ 1 := by
  cases extent <;> simp [toJson]

theorem ReshapeExtent.depth_toJson_le (extent : ReshapeExtent) : extent.toJson.depth ≤ 1 := by
  cases extent <;> simp [toJson]

theorem Reduction.depth_toJson_le (reduction : Reduction) : reduction.toJson.depth ≤ 2 := by
  have axes : (Json.array (reduction.axes.map Json.integer)).depth ≤ 0 + 1 :=
    depth_array_map_le (by simp) reduction.axes
  apply depth_ofMembers_le_iff.mpr
  simp [axes]

theorem TriangularSystem.depth_toJson_le (system : TriangularSystem)
    : system.toJson.depth ≤ 1 := by
  apply depth_ofMembers_le_iff.mpr
  simp

/-- No operation nests deeper than literals and indices do, by cases on the operation. -/
theorem Operation.depth_toJson_le (operation : Operation) : operation.toJson.depth ≤ 6 := by
  cases operation with
  | constant literal => exact depth_tagged_le literal.depth_toJson_le
  | reduce reduction =>
      exact Nat.le_trans (depth_tagged_le reduction.depth_toJson_le) (by decide)
  | argMax axis keepAxes =>
      have fields : (ofMembers [("axis", .integer axis), ("keepdims", .bool keepAxes)]).depth
          ≤ 4 + 1 :=
        depth_ofMembers_le_iff.mpr (by simp)
      exact depth_tagged_le fields
  | shuffle order =>
      have axes := depth_array_map_le ShuffleAxis.depth_toJson_le order
      exact Nat.le_trans (depth_tagged_le (depth_tagged_le axes)) (by decide)
  | alloc extents =>
      have shape := depth_array_map_le ExtentSource.depth_toJson_le extents
      exact Nat.le_trans (depth_tagged_le (depth_tagged_le shape)) (by decide)
  | subtensor entries =>
      have indices := depth_array_map_le IndexEntry.depth_toJson_le entries
      exact depth_tagged_le (depth_tagged_le indices)
  | reshape extents =>
      have shape := depth_array_map_le ReshapeExtent.depth_toJson_le extents
      exact Nat.le_trans (depth_tagged_le (depth_tagged_le shape)) (by decide)
  | solveTriangular system =>
      exact Nat.le_trans (depth_tagged_le system.depth_toJson_le) (by decide)
  | listGet entry => exact Nat.le_trans (depth_tagged_le entry.depth_toJson_le) (by decide)
  | _ => simp [toJson]

theorem Operand.depth_toJson_le (operand : Operand) : operand.toJson.depth ≤ 6 := by
  cases operand with
  | value id => simp [toJson, ValueId.toJson]
  | literal constant => exact depth_tagged_le constant.depth_toJson_le

-----------------------------------------------------------------------------------------
-- Nesting
-----------------------------------------------------------------------------------------

/-- A node nests as deep as its type, with one bracket around it. -/
theorem Node.depth_toJson_le_iff {node : Node} {bound : Nat} (wide : 7 ≤ bound)
    : node.toJson.depth ≤ bound + 1 ↔ node.type.toJson.depth ≤ bound := by
  have operation := Nat.le_trans node.operation.depth_toJson_le (Nat.le_of_succ_le wide)
  have operands : (Json.array (node.operands.map Operand.toJson)).depth ≤ bound := by
    apply Nat.le_trans ?_ wide
    exact depth_array_map_le Operand.depth_toJson_le node.operands
  rw [toJson, depth_ofMembers_le_iff]
  simp [operation, operands, ValueId.toJson]

/-- A graph nests as deep as its types and nodes, with two brackets around them. -/
theorem Graph.depth_toJson_le_iff {graph : Graph} {bound : Nat}
    : graph.toJson.depth ≤ bound + 2
      ↔ (∀ type ∈ graph.inputTypes ++ graph.outputTypes, type.toJson.depth ≤ bound)
        ∧ ∀ node ∈ graph.body, node.toJson.depth ≤ bound := by
  rw [toJson, depth_ofMembers_le_iff]
  simp [depth_array_le_iff, ValueId.toJson, or_imp, forall_and, and_assoc]

/-- A program nests as deep as its graphs, with two brackets around them. -/
theorem Program.depth_toJson_le_iff {program : Program} {bound : Nat}
    : program.toJson.depth ≤ bound + 2 ↔ ∀ graph ∈ program.graphs, graph.toJson.depth ≤ bound := by
  rw [toJson, depth_ofMembers_le_iff]
  simp [depth_array_le_iff]

/-- Whether the types of a graph nest within the limit of a text. The type of a node has five
brackets around it, the type of an input or output has four.
-/
def Graph.nests (graph : Graph) : Bool :=
  (graph.inputTypes ++ graph.outputTypes).all (fun type => type.toJson.depth + 4 < nestingLimit)
    && graph.body.all fun node => node.type.toJson.depth + 5 < nestingLimit

/-- A graph leaves room for the two brackets of its program iff its types do. -/
theorem Graph.depth_toJson_le_iff_nests {graph : Graph}
    : graph.toJson.depth ≤ 123 + 2 ↔ graph.nests := by
  have types : ∀ type : ValueType, type.toJson.depth ≤ 123
      ↔ type.toJson.depth + 4 < nestingLimit := by
    intro type
    rw [nestingLimit]
    omega
  have nodes : ∀ node : Node, node.toJson.depth ≤ 122 + 1
      ↔ node.type.toJson.depth + 5 < nestingLimit := by
    intro node
    rw [Node.depth_toJson_le_iff (by decide), nestingLimit]
    omega
  rw [Graph.depth_toJson_le_iff, Graph.nests]
  simp only [types, nodes, Bool.and_eq_true, List.all_eq_true, decide_eq_true_eq]

/-- Whether all types of a program nest within the limit of a text. -/
def Program.nests (program : Program) : Bool := program.graphs.all Graph.nests

/-- A program nests within the limit of a text iff its types do. -/
theorem Program.depth_toJson_lt_iff_nests {program : Program}
    : program.toJson.depth < nestingLimit ↔ program.nests := by
  calc program.toJson.depth < nestingLimit
      ↔ program.toJson.depth ≤ 125 + 2 := Nat.lt_succ_iff
    _ ↔ ∀ graph ∈ program.graphs, graph.toJson.depth ≤ 123 + 2 := depth_toJson_le_iff
    _ ↔ program.nests := by simp only [Graph.depth_toJson_le_iff_nests, nests, List.all_eq_true]

-----------------------------------------------------------------------------------------
-- Text
-----------------------------------------------------------------------------------------

/-- A program comes back from its JSON text, if its numbers fit their words and its types nest
within the limit of a text.
-/
theorem Program.json_roundTrip {program : Program} (fits : program.fits)
    (nests : program.nests)
    : ofJsonText? program.toJsonText = some program := by
  have recovers := Program.recovers fits
  rw [ofJsonText?, toJsonText, Json.parse?_pretty recovers.plain, Option.bind_some]
  exact recovers.reads .lenient (depth_toJson_lt_iff_nests.mpr nests)

/-- A program of names that need escapes and of numbers at the ends of their words, on tuples in
tuples.
-/
def Program.extremes : Program where
  entry := "\x22\\\n\x01é"
  graphs :=
    [{ name := "\x22\\\n\x01é"
       inputTypes := [.tuple [.list ⟨.i1, ⟨[.unknown]⟩⟩, .tuple []]]
       inputs := [⟨1 <<< 32 - 1⟩]
       outputTypes := [.tensor ⟨.f64, ⟨[]⟩⟩]
       body :=
        [{ value := ⟨0⟩
           operation := .subtensor
            [.slice ⟨some (.static (-(1 <<< 63))), none, some (.operand (sizeLimit - 1))⟩]
           operands := [.value ⟨1 <<< 32 - 1⟩, .literal ⟨⟨.si32, ⟨[.static 1]⟩⟩, [0, 255]⟩]
           type := .tuple [.tuple [.tuple []]] }]
       outputs := [⟨0⟩] }]

theorem Program.extremes_roundTrip
    : extremes.fits ∧ extremes.nests ∧ ofJsonText? extremes.toJsonText = some extremes :=
  ⟨by decide, by decide, json_roundTrip (by decide) (by decide)⟩

end Dataflow
