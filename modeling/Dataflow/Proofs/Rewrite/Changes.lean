import Dataflow.Proofs.Rewrite.Description
import Mathlib.Data.List.Basic
import Mathlib.Data.List.Count
import Mathlib.Data.List.InsertIdx

/-!
What the single changes of the tables do to the description of a graph. A change that only touches
readers and versions keeps everything but the readers; a node that is added or removed shifts the
positions behind it.
-/

namespace Dataflow

-----------------------------------------------------------------------------------------
-- Readers
-----------------------------------------------------------------------------------------

namespace Index

/-- What is found under a value after its entry was changed. -/
theorem get?_modifyValue (index : Index) (value other : ValueId)
    (change : ValueEntry → ValueEntry)
    : (index.modifyValue value change).values.get? other
      = if value = other then (index.values.get? other).map change
        else index.values.get? other :=
  Table.get?_modify value other change index.values

/-- What is found under a node after its entry was changed. -/
theorem get?_modifyNode (index : Index) (node other : NodeId) (change : NodeEntry → NodeEntry)
    : (index.modifyNode node change).nodes.get? other
      = if node = other then (index.nodes.get? other).map change
        else index.nodes.get? other :=
  Table.get?_modify node other change index.nodes

/-- The readers of an entry that was found. -/
theorem readers_of_get? {index : Index} {value : ValueId} {entry : ValueEntry}
    (found : index.values.get? value = some entry)
    : index.readers value = entry.readers := by
  rw [readers, found]

/-- A value without an entry has no readers. -/
theorem readers_of_none {index : Index} {value : ValueId}
    (missing : index.values.get? value = none)
    : index.readers value = [] := by
  rw [readers, missing]

/-- A reader that is added stands behind the others. -/
theorem readers_addReader (index : Index) (value other : ValueId) (reader : NodeId)
    : (index.addReader value reader).readers other
      = if value = other ∧ index.values.has value = true then index.readers other ++ [reader]
        else index.readers other := by
  rw [readers, addReader, get?_modifyValue]
  by_cases same : value = other
  · subst same
    cases found : index.values.get? value <;> simp [readers, Table.has, found]
  · simp [same, readers]

/-- Dropping a reader erases its first entry. -/
theorem readers_dropReader (index : Index) (value other : ValueId) (reader : NodeId)
    : (index.dropReader value reader).readers other
      = if value = other then (index.readers other).erase reader
        else index.readers other := by
  rw [readers, dropReader, get?_modifyValue]
  by_cases same : value = other
  · subst same
    cases found : index.values.get? value <;> simp [readers, found]
  · simp [same, readers]

/-- Lets some operands of one node read another value. -/
def moveReads (index : Index) (reader : NodeId) (source target : ValueId) : Nat → Index
  | 0 => index
  | count + 1 => (index.moveRead reader source target).moveReads reader source target count

/-- Two tables that differ in readers and versions only. -/
structure SameNames (before after : Index) : Prop where
  nodeKeys : Table.keys after.nodes = Table.keys before.nodes
  valueKeys : Table.keys after.values = Table.keys before.values
  nodeEntry
    : ∀ {id : NodeId} {entry : NodeEntry},
        before.nodes.get? id = some entry
        → ∃ version, after.nodes.get? id = some { entry with version }
  valueEntry
    : ∀ {value : ValueId} {entry : ValueEntry},
        before.values.get? value = some entry
        → ∃ readers, after.values.get? value = some { entry with readers }
  nextNode : after.nextNode = before.nextNode
  nextValue : after.nextValue = before.nextValue

namespace SameNames

/-- Tables agree with themselves. -/
theorem refl (index : Index) : SameNames index index :=
  ⟨rfl, rfl, fun {_ entry} found => ⟨entry.version, found⟩,
    fun {_ entry} found => ⟨entry.readers, found⟩, rfl, rfl⟩

/-- Changes of readers and versions follow each other. -/
theorem trans {first second third : Index} (left : SameNames first second)
    (right : SameNames second third)
    : SameNames first third := by
  refine ⟨right.nodeKeys.trans left.nodeKeys, right.valueKeys.trans left.valueKeys, ?_, ?_,
    right.nextNode.trans left.nextNode, right.nextValue.trans left.nextValue⟩
  · intro id entry found
    obtain ⟨_, found⟩ := left.nodeEntry found
    obtain ⟨version, found⟩ := right.nodeEntry found
    exact ⟨version, found⟩
  · intro value entry found
    obtain ⟨_, found⟩ := left.valueEntry found
    obtain ⟨readers, found⟩ := right.valueEntry found
    exact ⟨readers, found⟩

/-- Changing the readers of a value touches nothing else. -/
theorem of_modifyValue (index : Index) (value : ValueId) (change : List NodeId → List NodeId)
    : SameNames index
        (index.modifyValue value fun entry => { entry with readers := change entry.readers }) := by
  refine ⟨rfl, Table.keys_modify .., fun {_ entry} found => ⟨entry.version, found⟩, ?_, rfl, rfl⟩
  intro other entry found
  rw [get?_modifyValue, found]
  by_cases same : value = other
  · exact ⟨change entry.readers, by simp [same]⟩
  · exact ⟨entry.readers, by simp [same]⟩

/-- Adding a reader touches nothing else. -/
theorem addReader (index : Index) (value : ValueId) (reader : NodeId)
    : SameNames index (index.addReader value reader) :=
  of_modifyValue index value (· ++ [reader])

/-- Dropping a reader touches nothing else. -/
theorem dropReader (index : Index) (value : ValueId) (reader : NodeId)
    : SameNames index (index.dropReader value reader) :=
  of_modifyValue index value (·.erase reader)

/-- Moving reads touches readers only, by induction on their number. -/
theorem moveReads (index : Index) (reader : NodeId) (source target : ValueId) (count : Nat)
    : SameNames index (index.moveReads reader source target count) := by
  induction count generalizing index with
  | zero => exact refl index
  | succ count ih =>
      have moved : SameNames index (index.moveRead reader source target) :=
        (addReader index target reader).trans (dropReader _ source reader)
      exact moved.trans (ih _)

/-- Marking a node as changed touches its version only. -/
theorem bump (index : Index) (node : NodeId) : SameNames index (index.bump node) := by
  refine ⟨Table.keys_modify .., rfl, ?_, fun {_ entry} found => ⟨entry.readers, found⟩, rfl, rfl⟩
  intro other entry found
  rw [Index.bump, get?_modifyNode, found]
  by_cases same : node = other
  · exact ⟨(entry.version + 1) % versionLimit, by simp [same]⟩
  · exact ⟨entry.version, by simp [same]⟩

/-- The same values have entries. -/
theorem has_eq {before after : Index} (same : SameNames before after) (value : ValueId)
    : after.values.has value = before.values.has value := by
  rw [Bool.eq_iff_iff, Table.has_iff, Table.has_iff, same.valueKeys]

end SameNames

/-- Marking a node as changed keeps all readers. -/
@[simp] theorem readers_bump (index : Index) (node : NodeId) (value : ValueId)
    : (index.bump node).readers value = index.readers value :=
  rfl

/-- How often a node reads each value after one of its operands was moved. -/
theorem count_moveRead (index : Index) (reader id : NodeId) {source target : ValueId}
    (value : ValueId) (differ : source ≠ target) (known : index.values.has target = true)
    : ((index.moveRead reader source target).readers value).count id
      = if id = reader then
          if value = source then (index.readers value).count id - 1
          else if value = target then (index.readers value).count id + 1
          else (index.readers value).count id
        else (index.readers value).count id := by
  rw [moveRead, readers_dropReader, readers_addReader]
  by_cases atSource : value = source
  · subst atSource
    by_cases same : id = reader
    · simp [Ne.symm differ, same]
    · simp [Ne.symm differ, same, List.count_erase_of_ne same]
  · by_cases atTarget : value = target
    · subst atTarget
      by_cases same : id = reader
      · simp [known, differ, atSource, same]
      · simp [known, differ, same, List.count_append, Ne.symm same]
    · simp [Ne.symm atSource, Ne.symm atTarget, atSource, atTarget]

/-- How often a node reads each value after some of its operands were moved, by induction on
their number.
-/
theorem count_moveReads (index : Index) (reader id : NodeId) {source target : ValueId}
    (value : ValueId) (count : Nat) (differ : source ≠ target)
    (known : index.values.has target = true)
    : ((index.moveReads reader source target count).readers value).count id
      = if id = reader then
          if value = source then (index.readers value).count id - count
          else if value = target then (index.readers value).count id + count
          else (index.readers value).count id
        else (index.readers value).count id := by
  induction count generalizing index with
  | zero => simp [moveReads]
  | succ count ih =>
      have moved : SameNames index (index.moveRead reader source target) :=
        (SameNames.addReader index target reader).trans (SameNames.dropReader _ source reader)
      rw [moveReads, ih _ (by rw [moved.has_eq, known]), count_moveRead _ _ _ _ differ known]
      split_ifs <;> omega

end Index

-----------------------------------------------------------------------------------------
-- Redirected reads
-----------------------------------------------------------------------------------------

namespace Session

/-- Lets an operand read `target` instead of `source`. -/
def redirect (source target : ValueId) (operand : Operand) : Operand :=
  if operand = .value source then .value target else operand

/-- Lets a node read `target` instead of `source`. -/
def redirectNode (source target : ValueId) (node : Node) : Node :=
  { node with operands := node.operands.map (redirect source target) }

/-- A redirected node reads the new value wherever it read the old one. -/
theorem reads_redirectNode (source target : ValueId) (node : Node)
    : (redirectNode source target node).reads
      = node.reads.map fun value => if value = source then target else value := by
  simp only [redirectNode, Node.reads, List.filterMap_map, List.map_filterMap]
  refine List.filterMap_congr ?_
  intro operand _
  cases operand with
  | literal literal => simp [redirect, Operand.value?]
  | value value =>
      by_cases same : value = source <;> simp [redirect, Operand.value?, same]

/-- How often a redirected node reads each value. -/
theorem count_reads_redirectNode {source target : ValueId} (node : Node) (value : ValueId)
    (differ : source ≠ target)
    : (redirectNode source target node).reads.count value
      = if value = source then 0
        else if value = target then node.reads.count value + node.reads.count source
        else node.reads.count value := by
  rw [reads_redirectNode]
  induction node.reads with
  | nil => simp
  | cons first rest ih =>
      rw [List.map_cons, List.count_cons, ih]
      simp only [List.count_cons, beq_iff_eq]
      grind

theorem not_mem_reads_redirectNode {source target : ValueId} (node : Node)
    (differ : source ≠ target)
    : source ∉ (redirectNode source target node).reads := by
  rw [← List.count_eq_zero, count_reads_redirectNode node source differ, if_pos rfl]

/-- No redirected value is the old one. -/
theorem not_mem_map_redirected {source target : ValueId} (values : List ValueId)
    (differ : source ≠ target)
    : source ∉ values.map fun id => if id = source then target else id := by
  intro member
  obtain ⟨value, -, same⟩ := List.mem_map.mp member
  split_ifs at same with hit
  · exact differ same.symm
  · exact hit same

/-- What a redirected node reads is the new value or was read before. -/
theorem mem_reads_redirectNode {source target value : ValueId} {node : Node}
    (member : value ∈ (redirectNode source target node).reads)
    : value = target ∨ value ∈ node.reads := by
  rw [reads_redirectNode] at member
  obtain ⟨old, read, rfl⟩ := List.mem_map.mp member
  by_cases same : old = source
  · exact .inl (by simp [same])
  · exact .inr (by simpa [same] using read)

end Session

-----------------------------------------------------------------------------------------
-- Descriptions
-----------------------------------------------------------------------------------------

namespace Index

variable {index after : Index} {graph changed : Graph} {ids : List NodeId}

/-- A node of the changed body stands where one with its value and type stood. -/
theorem exists_same_result {body changed : List Node}
    (same : changed.map Node.result = body.map Node.result) {position : Nat} {node : Node}
    (found : changed[position]? = some node)
    : ∃ old, body[position]? = some old ∧ old.value = node.value ∧ old.type = node.type := by
  have results : (body.map Node.result)[position]? = some node.result := by
    rw [← same, List.getElem?_map, found]
    rfl
  rw [List.getElem?_map] at results
  obtain ⟨old, known, equal⟩ := Option.map_eq_some_iff.mp results
  exact ⟨old, known, (Prod.mk.inj equal).1, (Prod.mk.inj equal).2⟩

/-- Bodies with the same values and types define the same values. -/
theorem defined_eq (inputs : changed.inputs = graph.inputs)
    (same : changed.body.map Node.result = graph.body.map Node.result)
    : changed.defined = graph.defined := by
  have values := congrArg (List.map Prod.fst) same
  simp only [List.map_map] at values
  rw [Graph.defined, Graph.defined, inputs]
  exact congrArg _ values

/-- Changing one node of the body, but not some part of it, keeps this part of all nodes. -/
theorem map_modify {α : Type} (body : List Node) (position : Nat) {update : Node → Node}
    {part : Node → α} (same : ∀ node, part (update node) = part node)
    : (body.modify position update).map part = body.map part := by
  refine List.ext_getElem? ?_
  intro other
  rw [List.getElem?_map, List.getElem?_map, List.getElem?_modify]
  by_cases hit : position = other
  · cases body[other]? <;> simp [hit, same]
  · simp [hit]

/-- Changing one node of the body, but neither its value nor its type, keeps all results. -/
theorem map_result_modify (body : List Node) (position : Nat) {update : Node → Node}
    (same : ∀ node, (update node).result = node.result)
    : (body.modify position update).map Node.result = body.map Node.result :=
  map_modify body position same

/-- A change of operands, outputs, readers and versions leaves all nodes and values in place. -/
theorem Places.change (placed : index.Places graph ids) (names : SameNames index after)
    (inputs : changed.inputs = graph.inputs) (inputTypes : changed.inputTypes = graph.inputTypes)
    (results : changed.body.map Node.result = graph.body.map Node.result)
    : after.Places changed ids := by
  have defined := defined_eq inputs results
  refine ⟨?_, placed.idsDistinct, names.nodeKeys ▸ placed.nodeKeys, ?_,
    defined ▸ placed.valuesDistinct, ?_, ?_, ?_, ?_⟩
  · have lengths := congrArg List.length results
    rw [List.length_map, List.length_map] at lengths
    rw [lengths]
    exact placed.length
  · intro position id node listed found
    obtain ⟨old, known, value, -⟩ := exists_same_result results found
    obtain ⟨_, entry⟩ := placed.node listed known
    obtain ⟨version, entry⟩ := names.nodeEntry entry
    exact ⟨version, value ▸ entry⟩
  · rw [defined, names.valueKeys]
    exact placed.valueKeys
  · rw [inputs, inputTypes]
    exact placed.inputsTyped
  · intro value type member
    rw [inputs, inputTypes] at member
    obtain ⟨_, entry⟩ := placed.input member
    obtain ⟨readers, entry⟩ := names.valueEntry entry
    exact ⟨readers, entry⟩
  · intro position id node listed found
    obtain ⟨old, known, value, type⟩ := exists_same_result results found
    obtain ⟨_, entry⟩ := placed.produced listed known
    obtain ⟨readers, entry⟩ := names.valueEntry entry
    exact ⟨readers, value ▸ type ▸ entry⟩

namespace Describes

/-- A change of operands, outputs, readers and versions leaves the description in place, if the
readers follow the operands.
-/
theorem change (described : index.Describes graph ids) (names : SameNames index after)
    (inputs : changed.inputs = graph.inputs) (inputTypes : changed.inputTypes = graph.inputTypes)
    (results : changed.body.map Node.result = graph.body.map Node.result)
    (slots
      : ∀ {position : Nat} {id : NodeId} {node : Node},
          ids[position]? = some id
          → changed.body[position]? = some node
          → ∀ value, (after.readers value).count id = node.reads.count value)
    (liveReaders : ∀ {value : ValueId} {id : NodeId}, id ∈ after.readers value → id ∈ ids)
    (readsKnown : ∀ {node : Node}, node ∈ changed.body → ∀ value ∈ node.reads,
      value ∈ graph.defined)
    (outputsKnown : ∀ value ∈ changed.outputs, value ∈ graph.defined)
    : after.Describes changed ids := by
  have defined := defined_eq inputs results
  refine ⟨described.toPlaces.change names inputs inputTypes results, slots, liveReaders, ?_, ?_,
    ?_, ?_⟩
  · exact fun member => defined ▸ readsKnown member
  · exact defined ▸ outputsKnown
  · exact names.nextNode ▸ described.nodesBelow
  · exact names.nextValue ▸ defined ▸ described.valuesBelow

/-- Marking a node as changed keeps the description. -/
theorem bump (described : index.Describes graph ids) (id : NodeId)
    : (index.bump id).Describes graph ids :=
  described.change (SameNames.bump index id) rfl rfl rfl described.slots described.liveReaders
    described.readsKnown described.outputsKnown

/-- The readers follow when the operands of one node are redirected. -/
theorem redirect (described : index.Describes graph ids) {position : Nat} {id : NodeId}
    {node : Node} {source target : ValueId} (listed : ids[position]? = some id)
    (found : graph.body[position]? = some node) (differ : source ≠ target)
    (known : target ∈ graph.defined)
    : (index.moveReads id source target (node.reads.count source)).Describes
        { graph with
          body := graph.body.modify position (Session.redirectNode source target) } ids := by
  have has : index.values.has target = true := described.has_iff.mpr known
  refine described.change (SameNames.moveReads ..) rfl rfl
    (map_result_modify _ _ fun _ => rfl) ?_ ?_ ?_ described.outputsKnown
  · intro other reader changed otherListed otherFound value
    rw [count_moveReads _ _ _ _ _ differ has]
    dsimp only at otherFound
    rw [List.getElem?_modify] at otherFound
    by_cases same : position = other
    · subst same
      obtain rfl : id = reader := Option.some.inj (listed.symm.trans otherListed)
      obtain rfl : Session.redirectNode source target node = changed := by
        simpa [found] using otherFound
      rw [if_pos rfl, Session.count_reads_redirectNode _ _ differ, described.slots listed found]
      split_ifs with atSource
      · subst atSource
        omega
      · rfl
      · rfl
    · have differs : reader ≠ id := by
        rintro rfl
        have inside := (List.getElem?_eq_some_iff.mp listed).1
        exact same ((List.getElem?_inj inside described.idsDistinct).mp
          (listed.trans otherListed.symm))
      rw [if_neg differs]
      exact described.slots otherListed (by simpa [same] using otherFound) value
  · intro value reader member
    by_cases same : reader = id
    · exact same ▸ List.mem_of_getElem? listed
    · have positive := List.count_pos_iff.mpr member
      rw [count_moveReads _ _ _ _ _ differ has, if_neg same] at positive
      exact described.liveReaders (List.count_pos_iff.mp positive)
  · intro changed member value read
    obtain ⟨other, otherFound⟩ := List.mem_iff_getElem?.mp member
    dsimp only at otherFound
    rw [List.getElem?_modify] at otherFound
    obtain ⟨old, oldFound, rfl⟩ := Option.map_eq_some_iff.mp otherFound
    have oldMember := List.mem_of_getElem? oldFound
    by_cases same : position = other
    · rw [if_pos same] at read
      rcases Session.mem_reads_redirectNode read with rfl | read
      · exact known
      · exact described.readsKnown oldMember value read
    · rw [if_neg same] at read
      exact described.readsKnown oldMember value read

/-- The tables follow when a node gets another operation with another type. -/
theorem retype (described : index.Describes graph ids) {position : Nat} {node : Node}
    (found : graph.body[position]? = some node) (operation : Operation) (type : ValueType)
    : (index.setType node.value type).Describes
        { graph with
          body := graph.body.modify position fun node => { node with operation, type } } ids := by
  have stands
      : ∀ {other : Nat} {changed : Node},
          (graph.body.modify position fun node => { node with operation, type })[other]?
            = some changed
          → ∃ old,
              graph.body[other]? = some old
              ∧ changed.value = old.value
              ∧ changed.reads = old.reads
              ∧ changed.type = if position = other then type else old.type := by
    intro other changed there
    rw [List.getElem?_modify] at there
    obtain ⟨old, known, rfl⟩ := Option.map_eq_some_iff.mp there
    refine ⟨old, known, ?_⟩
    split_ifs <;> exact ⟨rfl, rfl, rfl⟩
  have values
      : (graph.body.modify position fun node => { node with operation, type }).map (·.value)
        = graph.body.map (·.value) := by
    refine List.ext_getElem? ?_
    intro other
    rw [List.getElem?_map, List.getElem?_map, List.getElem?_modify]
    by_cases hit : position = other
    · cases graph.body[other]? <;> simp [hit]
    · simp [hit]
  have defined
      : Graph.defined { graph with
          body := graph.body.modify position fun node => { node with operation, type } }
        = graph.defined := by
    rw [Graph.defined, values]
    rfl
  have readersEq
      : ∀ value, (index.setType node.value type).readers value = index.readers value := by
    intro value
    rw [readers, setType, get?_modifyValue]
    by_cases same : node.value = value
    · cases known : index.values.get? value <;> simp [same, readers, known]
    · simp [same, readers]
  refine ⟨⟨?_, described.idsDistinct, described.nodeKeys, ?_, defined ▸ described.valuesDistinct,
    ?_, described.inputsTyped, ?_, ?_⟩, ?_, ?_, ?_, ?_, described.nodesBelow, ?_⟩
  · rw [List.length_modify]
    exact described.length
  · intro other reader changed otherListed there
    obtain ⟨old, known, value, -, -⟩ := stands there
    rw [value]
    exact described.node otherListed known
  · rw [defined, setType, modifyValue, Table.keys_modify]
    exact described.valueKeys
  · intro value declared member
    have differs : node.value ≠ value :=
      described.input_not_produced (List.of_mem_zip member).1 (List.mem_of_getElem? found)
    rw [setType, get?_modifyValue, if_neg differs]
    exact described.input member
  · intro other reader changed otherListed there
    obtain ⟨old, known, value, -, typed⟩ := stands there
    obtain ⟨readers, entry⟩ := described.produced otherListed known
    refine ⟨readers, ?_⟩
    rw [setType, get?_modifyValue, value, entry, typed]
    by_cases same : node.value = old.value
    · rw [if_pos same, if_pos (described.position_unique found known same), Option.map_some]
    · have apart : position ≠ other := by
        rintro rfl
        exact same (congrArg Node.value (Option.some.inj (found.symm.trans known)))
      rw [if_neg same, if_neg apart]
  · intro other reader changed otherListed there value
    obtain ⟨old, known, -, reads, -⟩ := stands there
    rw [readersEq, reads]
    exact described.slots otherListed known value
  · intro value reader member
    rw [readersEq] at member
    exact described.liveReaders member
  · intro changed member value read
    obtain ⟨other, there⟩ := List.mem_iff_getElem?.mp member
    obtain ⟨old, known, -, reads, -⟩ := stands there
    rw [reads] at read
    exact defined ▸ described.readsKnown (List.mem_of_getElem? known) value read
  · exact defined ▸ described.outputsKnown
  · exact defined ▸ described.valuesBelow

end Describes

end Index

end Dataflow
