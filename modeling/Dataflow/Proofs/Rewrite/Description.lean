import Dataflow.Proofs.Table
import Dataflow.Rewrite.Session
import Mathlib.Data.List.Basic
import Mathlib.Data.List.Perm.Basic

/-!
When the tables of a session describe its graph. The description names the nodes of the body in
their order; everything that the tables say follows from the graph, those names and the versions.
-/

namespace Dataflow

-----------------------------------------------------------------------------------------
-- Values of a graph
-----------------------------------------------------------------------------------------

/-- The value that a node produces, with its type. -/
def Node.result (node : Node) : ValueId × ValueType := (node.value, node.type)

/-- What stands at an operand is read. -/
theorem Node.mem_reads_of_input? {node : Node} {position : Nat} {value : ValueId}
    (reads : node.input? position = some value)
    : value ∈ node.reads := by
  obtain ⟨operand, listed, same⟩ := Option.bind_eq_some_iff.mp reads
  exact List.mem_filterMap.mpr ⟨operand, List.mem_of_getElem? listed, same⟩

namespace Graph

/-- The values that a graph defines: its inputs and what its nodes produce. -/
def defined (graph : Graph) : List ValueId := graph.inputs ++ graph.body.map (·.value)

/-- What a node produces is defined. -/
theorem value_mem_defined {graph : Graph} {node : Node} (member : node ∈ graph.body)
    : node.value ∈ graph.defined :=
  List.mem_append_right _ (List.mem_map_of_mem member)

/-- An input is defined. -/
theorem input_mem_defined {graph : Graph} {value : ValueId} (member : value ∈ graph.inputs)
    : value ∈ graph.defined :=
  List.mem_append_left _ member

end Graph

-----------------------------------------------------------------------------------------
-- Descriptions
-----------------------------------------------------------------------------------------

/-- The tables have the nodes of a graph at their positions, under the names `ids` in the order of
the body, and its values with their types and producers.
-/
structure Index.Places (index : Index) (graph : Graph) (ids : List NodeId) : Prop where
  /-- Every node has a name, -/
  length : ids.length = graph.body.length
  /-- a different one each, -/
  idsDistinct : ids.Nodup
  /-- and the table of nodes holds these names and no others. -/
  nodeKeys : (Table.keys index.nodes).Perm ids
  node
    : ∀ {position : Nat} {id : NodeId} {node : Node},
        ids[position]? = some id
        → graph.body[position]? = some node
        → ∃ version, index.nodes.get? id = some ⟨node.value, position, version⟩
  valuesDistinct : graph.defined.Nodup
  valueKeys : (Table.keys index.values).Perm graph.defined
  inputsTyped : graph.inputs.length = graph.inputTypes.length
  input
    : ∀ {value : ValueId} {type : ValueType},
        (value, type) ∈ graph.inputs.zip graph.inputTypes
        → ∃ readers, index.values.get? value = some ⟨type, none, readers⟩
  produced
    : ∀ {position : Nat} {id : NodeId} {node : Node},
        ids[position]? = some id
        → graph.body[position]? = some node
        → ∃ readers, index.values.get? node.value = some ⟨node.type, some id, readers⟩

/-- The tables describe a graph: they have its nodes and values, and they list every reader of a
value once for each operand that reads it. New numbers are above all that are in use.
-/
structure Index.Describes (index : Index) (graph : Graph) (ids : List NodeId) : Prop
    extends index.Places graph ids where
  slots
    : ∀ {position : Nat} {id : NodeId} {node : Node},
        ids[position]? = some id
        → graph.body[position]? = some node
        → ∀ value, (index.readers value).count id = node.reads.count value
  liveReaders : ∀ {value : ValueId} {id : NodeId}, id ∈ index.readers value → id ∈ ids
  readsKnown : ∀ {node : Node}, node ∈ graph.body → ∀ value ∈ node.reads, value ∈ graph.defined
  outputsKnown : ∀ value ∈ graph.outputs, value ∈ graph.defined
  nodesBelow : ∀ id ∈ ids, id.number < index.nextNode
  valuesBelow : ∀ value ∈ graph.defined, value.number < index.nextValue

namespace Index.Places

variable {index : Index} {graph : Graph} {ids : List NodeId}

/-- A node that is in the table stands in the body where the table says. -/
theorem at_position (placed : index.Places graph ids) {id : NodeId} {entry : NodeEntry}
    (found : index.nodes.get? id = some entry)
    : ids[entry.position]? = some id
      ∧ ∃ node, graph.body[entry.position]? = some node ∧ node.value = entry.value := by
  have member : id ∈ ids := by
    refine placed.nodeKeys.mem_iff.mp (Table.has_iff.mp ?_)
    simp [Table.has, found]
  obtain ⟨position, inside, rfl⟩ := List.mem_iff_getElem.mp member
  have body : position < graph.body.length := placed.length ▸ inside
  obtain ⟨version, known⟩ :=
    placed.node (List.getElem?_eq_getElem inside) (List.getElem?_eq_getElem body)
  obtain rfl := Option.some.inj (known.symm.trans found)
  exact ⟨List.getElem?_eq_getElem inside, _, List.getElem?_eq_getElem body, rfl⟩

/-- The position of a node is where its name is listed. -/
theorem position?_eq_some_iff (placed : index.Places graph ids) {id : NodeId}
    {position : Nat}
    : index.position? id = some position ↔ ids[position]? = some id := by
  constructor
  · intro found
    obtain ⟨entry, known, rfl⟩ := Option.map_eq_some_iff.mp found
    exact (placed.at_position known).1
  · intro listed
    have inside := (List.getElem?_eq_some_iff.mp listed).1
    have body : position < graph.body.length := placed.length ▸ inside
    obtain ⟨version, known⟩ := placed.node listed (List.getElem?_eq_getElem body)
    simp [Index.position?, known]

/-- Every listed name belongs to a node of the body. -/
theorem exists_node (placed : index.Places graph ids) {id : NodeId} (member : id ∈ ids)
    : ∃ (position : Nat) (node : Node),
        ids[position]? = some id ∧ graph.body[position]? = some node := by
  obtain ⟨position, inside, rfl⟩ := List.mem_iff_getElem.mp member
  have body : position < graph.body.length := placed.length ▸ inside
  exact ⟨position, _, List.getElem?_eq_getElem inside, List.getElem?_eq_getElem body⟩

/-- Every node of the body has a name. -/
theorem exists_id (placed : index.Places graph ids) {position : Nat} {node : Node}
    (found : graph.body[position]? = some node)
    : ∃ id, ids[position]? = some id := by
  have inside := (List.getElem?_eq_some_iff.mp found).1
  exact ⟨_, List.getElem?_eq_getElem (placed.length ▸ inside)⟩

/-- A value has an entry iff the graph defines it. -/
theorem has_iff (placed : index.Places graph ids) {value : ValueId}
    : index.values.has value = true ↔ value ∈ graph.defined := by
  rw [Table.has_iff, placed.valueKeys.mem_iff]

/-- A value without an entry is not defined. -/
theorem get?_eq_none_iff (placed : index.Places graph ids) {value : ValueId}
    : index.values.get? value = none ↔ value ∉ graph.defined := by
  rw [Table.get?_eq_none_iff, placed.valueKeys.mem_iff]

/-- The names in the table of nodes are distinct. -/
theorem nodeKeys_nodup (placed : index.Places graph ids)
    : (Table.keys index.nodes).Nodup :=
  placed.nodeKeys.nodup_iff.mpr placed.idsDistinct

/-- The names in the table of values are distinct. -/
theorem valueKeys_nodup (placed : index.Places graph ids)
    : (Table.keys index.values).Nodup :=
  placed.valueKeys.nodup_iff.mpr placed.valuesDistinct

/-- A value is an input or the value of exactly one position. -/
theorem defined_cases {graph : Graph} {value : ValueId} (known : value ∈ graph.defined)
    : (∃ position : Nat, graph.inputs[position]? = some value)
      ∨ ∃ (position : Nat) (node : Node),
          graph.body[position]? = some node ∧ node.value = value := by
  rcases List.mem_append.mp known with input | produced
  · exact .inl (List.mem_iff_getElem?.mp input)
  · obtain ⟨node, member, rfl⟩ := List.mem_map.mp produced
    obtain ⟨position, found⟩ := List.mem_iff_getElem?.mp member
    exact .inr ⟨position, node, found, rfl⟩

/-- No two positions of the body produce one value. -/
theorem position_unique (placed : index.Places graph ids) {first second : Nat}
    {left right : Node} (atFirst : graph.body[first]? = some left)
    (atSecond : graph.body[second]? = some right) (same : left.value = right.value)
    : first = second := by
  have distinct : (graph.body.map (·.value)).Nodup :=
    (List.nodup_append.mp placed.valuesDistinct).2.1
  have inside := (List.getElem?_eq_some_iff.mp atFirst).1
  refine (List.getElem?_inj (by simpa using inside) distinct).mp ?_
  simp [atFirst, atSecond, same]

/-- An input is not produced by a node. -/
theorem input_not_produced (placed : index.Places graph ids) {value : ValueId}
    {node : Node} (input : value ∈ graph.inputs) (member : node ∈ graph.body)
    : node.value ≠ value := by
  rintro rfl
  exact (List.nodup_append.mp placed.valuesDistinct).2.2 _ input _
    (List.mem_map_of_mem member) rfl

end Index.Places

end Dataflow
