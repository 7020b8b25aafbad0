import Dataflow.Proofs.Rewrite.Changes
import Mathlib.Data.List.Basic
import Mathlib.Data.List.InsertIdx
import Mathlib.Data.List.Perm.Basic

/-!
Adding a node to the tables and removing one. The names of the other nodes stay with them, and
their positions move by one place behind the change.
-/

namespace Dataflow.Index

variable {index : Index} {graph : Graph} {ids : List NodeId}

-----------------------------------------------------------------------------------------
-- Reads of one node
-----------------------------------------------------------------------------------------

/-- A node that reads known values is added to their readers, once for each read. Witness: the
tables with all readers added, by induction on the reads.
-/
theorem addReads_eq_ok (id : NodeId) (index : Index) {reads : List ValueId}
    (known : ∀ value ∈ reads, index.values.has value = true)
    : ∃ after,
        addReads id index reads = .ok after
        ∧ SameNames index after
        ∧ ∀ value reader,
            (after.readers value).count reader
            = (index.readers value).count reader
              + if reader = id then reads.count value else 0 := by
  induction reads generalizing index with
  | nil => exact ⟨index, rfl, SameNames.refl index, by simp⟩
  | cons first rest ih =>
      have added : SameNames index (index.addReader first id) := SameNames.addReader index first id
      have here : index.values.has first = true := known first List.mem_cons_self
      obtain ⟨after, done, names, counts⟩ := ih (index.addReader first id) (by
        intro value member
        rw [added.has_eq]
        exact known value (List.mem_cons_of_mem _ member))
      refine ⟨after, ?_, added.trans names, ?_⟩
      · rw [addReads, if_pos here, done]
      · intro value reader
        rw [counts, readers_addReader, List.count_cons]
        by_cases same : first = value
        · subst same
          rw [if_pos ⟨rfl, here⟩, List.count_append, List.count_singleton]
          by_cases hit : reader = id
          · simp [hit]
            omega
          · simp [hit, Ne.symm hit]
        · simp [same]

/-- A node that is dropped from the readers of a list of values is dropped once for each of them,
by induction on the list.
-/
theorem dropReads (id : NodeId) (index : Index) (reads : List ValueId)
    : SameNames index (reads.foldl (fun index value => index.dropReader value id) index)
      ∧ ∀ value reader,
          ((reads.foldl (fun index value => index.dropReader value id) index).readers
            value).count reader
          = (index.readers value).count reader
            - if reader = id then reads.count value else 0 := by
  induction reads generalizing index with
  | nil => exact ⟨SameNames.refl index, by simp⟩
  | cons first rest ih =>
      obtain ⟨names, counts⟩ := ih (index.dropReader first id)
      refine ⟨(SameNames.dropReader index first id).trans names, ?_⟩
      intro value reader
      rw [List.foldl_cons, counts, readers_dropReader, List.count_cons]
      by_cases same : first = value
      · subst same
        by_cases hit : reader = id
        · simp [hit]
          omega
        · simp [hit, List.count_erase_of_ne hit]
      · simp [same]

-----------------------------------------------------------------------------------------
-- Adding
-----------------------------------------------------------------------------------------

/-- What a gap in front of some position does to a node. -/
def pastGap (position : Nat) (entry : NodeEntry) : NodeEntry :=
  if position ≤ entry.position then { entry with position := entry.position + 1 } else entry

/-- Opening a gap keeps all names. -/
theorem keys_openGap (index : Index) (position : Nat)
    : Table.keys (index.openGap position).nodes = Table.keys index.nodes :=
  Table.keys_map (fun _ => pastGap position) index.nodes

/-- Opening a gap moves every node that does not stand in front of it. -/
theorem get?_openGap (index : Index) (position : Nat) (id : NodeId)
    : (index.openGap position).nodes.get? id
      = (index.nodes.get? id).map (pastGap position) :=
  Table.get?_map id (fun _ => pastGap position) index.nodes

/-- The tables with a new node, before its reads are added. -/
def withNode (index : Index) (position : Nat) (node : Node) : Index :=
  { nodes := (index.openGap position).nodes ++ [(⟨index.nextNode⟩, ⟨node.value, position, 0⟩)]
    values := index.values ++ [(node.value, ⟨node.type, some ⟨index.nextNode⟩, []⟩)]
    nextNode := index.nextNode + 1
    nextValue := index.nextValue + 1 }

namespace Describes

/-- The next free name is new. -/
theorem nextNode_not_mem (described : index.Describes graph ids) : ⟨index.nextNode⟩ ∉ ids :=
  fun member => Nat.lt_irrefl _ (described.nodesBelow _ member)

/-- The next free value is not defined. -/
theorem nextValue_not_mem (described : index.Describes graph ids)
    : ⟨index.nextValue⟩ ∉ graph.defined :=
  fun member => Nat.lt_irrefl _ (described.valuesBelow _ member)

/-- Adding a node is adding it without reads, and then its reads. -/
theorem insert_eq (described : index.Describes graph ids) (position : Nat) {node : Node}
    (fresh : node.value = ⟨index.nextValue⟩)
    (known : ∀ value ∈ node.reads, value ∈ graph.defined)
    : index.insert position node
      = addReads ⟨index.nextNode⟩ (index.withNode position node) node.reads := by
  have newValue : node.value ∉ Table.keys index.values := by
    rw [fresh, described.valueKeys.mem_iff]
    exact described.nextValue_not_mem
  have newNode : (⟨index.nextNode⟩ : NodeId) ∉ Table.keys (index.openGap position).nodes := by
    rw [keys_openGap, described.nodeKeys.mem_iff]
    exact described.nextNode_not_mem
  have absent : index.reserve.values.has node.value = false := by
    rw [Bool.eq_false_iff, Ne, Table.has_iff]
    exact newValue
  have present : (node.reads.find? fun value => !index.values.has value) = none := by
    refine List.find?_eq_none.mpr fun value read => ?_
    simpa using described.has_iff.mpr (known value read)
  rw [insert, present]
  dsimp only
  rw [define, absent]
  simp only [Bool.false_eq_true, if_false]
  change addReads _ _ _ = _
  have values : index.reserve.values.set node.value ⟨node.type, some ⟨index.nextNode⟩, []⟩
      = (index.withNode position node).values :=
    Table.set_of_new _ newValue
  rw [values]
  exact congrArg
    (fun nodes => addReads ⟨index.nextNode⟩ { index.withNode position node with nodes } node.reads)
    (Table.set_of_new _ newNode)

/-- Where the nodes stand after one was added. -/
theorem get?_withNode (described : index.Describes graph ids) (position : Nat) (node : Node)
    (id : NodeId)
    : (index.withNode position node).nodes.get? id
      = if ⟨index.nextNode⟩ = id then some ⟨node.value, position, 0⟩
        else (index.nodes.get? id).map (pastGap position) := by
  have new : (⟨index.nextNode⟩ : NodeId) ∉ Table.keys (index.openGap position).nodes := by
    rw [keys_openGap, described.nodeKeys.mem_iff]
    exact described.nextNode_not_mem
  rw [withNode, ← Table.set_of_new _ new, Table.get?_set, get?_openGap]

/-- What is known about the values after a node was added. -/
theorem get?_values_withNode (described : index.Describes graph ids) (position : Nat)
    {node : Node} (fresh : node.value = ⟨index.nextValue⟩) (value : ValueId)
    : (index.withNode position node).values.get? value
      = if node.value = value then some ⟨node.type, some ⟨index.nextNode⟩, []⟩
        else index.values.get? value := by
  have new : node.value ∉ Table.keys index.values := by
    rw [fresh, described.valueKeys.mem_iff]
    exact described.nextValue_not_mem
  rw [withNode, ← Table.set_of_new _ new, Table.get?_set]

/-- A body with one more node defines one more value. -/
theorem defined_insertIdx_perm {position : Nat} (node : Node)
    (inside : position ≤ graph.body.length)
    : (Graph.defined { graph with body := graph.body.insertIdx position node }).Perm
        (node.value :: graph.defined) := by
  have values := (List.perm_insertIdx node graph.body inside).map Node.value
  exact (values.append_left graph.inputs).trans List.perm_middle

/-- A name and a node that stand at one place after an insertion are the new ones, or stood at one
place before it.
-/
theorem insertIdx_cases {body : List Node} {position place : Nat} {new id : NodeId}
    {node found : Node} (length : ids.length = body.length) (inside : position ≤ body.length)
    (listed : (ids.insertIdx position new)[place]? = some id)
    (stands : (body.insertIdx position node)[place]? = some found)
    : place = position ∧ id = new ∧ found = node
      ∨ ∃ old, ids[old]? = some id ∧ body[old]? = some found
          ∧ place = if position ≤ old then old + 1 else old := by
  rw [List.getElem?_insertIdx] at listed stands
  rcases Nat.lt_trichotomy place position with before | rfl | behind
  · rw [if_pos before] at listed stands
    exact .inr ⟨place, listed, stands, by rw [if_neg (by omega)]⟩
  · rw [if_neg (Nat.lt_irrefl _), if_pos rfl, if_pos inside] at stands
    rw [if_neg (Nat.lt_irrefl _), if_pos rfl, if_pos (length ▸ inside)] at listed
    exact .inl ⟨rfl, (Option.some.inj listed).symm, (Option.some.inj stands).symm⟩
  · rw [if_neg (by omega), if_neg (by omega)] at listed stands
    refine .inr ⟨place - 1, listed, stands, ?_⟩
    rw [if_pos (by omega)]
    omega

/-- The tables with a new node have all nodes and values in place. -/
theorem withNode_places (described : index.Describes graph ids) {position : Nat} {node : Node}
    (inside : position ≤ graph.body.length) (fresh : node.value = ⟨index.nextValue⟩)
    : (index.withNode position node).Places
        { graph with body := graph.body.insertIdx position node }
        (ids.insertIdx position ⟨index.nextNode⟩) := by
  have insideIds : position ≤ ids.length := described.length ▸ inside
  have names := List.perm_insertIdx (⟨index.nextNode⟩ : NodeId) ids insideIds
  have defined := defined_insertIdx_perm node inside
  have newValue : node.value ∉ graph.defined := fresh ▸ described.nextValue_not_mem
  refine ⟨?_, ?_, ?_, ?_, ?_, ?_, described.inputsTyped, ?_, ?_⟩
  · rw [List.length_insertIdx_of_le_length insideIds, List.length_insertIdx_of_le_length inside,
      described.length]
  · exact names.nodup_iff.mpr
      (List.nodup_cons.mpr ⟨described.nextNode_not_mem, described.idsDistinct⟩)
  · rw [withNode, Table.keys_append, keys_openGap]
    exact (List.perm_append_singleton _ _).trans
      ((described.nodeKeys.cons _).trans names.symm)
  · intro place id found listed stands
    rw [described.get?_withNode]
    rcases insertIdx_cases described.length inside listed stands with
      ⟨rfl, rfl, rfl⟩ | ⟨old, wasListed, stood, rfl⟩
    · exact ⟨0, by rw [if_pos rfl]⟩
    · have differs : (⟨index.nextNode⟩ : NodeId) ≠ id := by
        rintro rfl
        exact described.nextNode_not_mem (List.mem_of_getElem? wasListed)
      obtain ⟨version, known⟩ := described.node wasListed stood
      refine ⟨version, ?_⟩
      rw [if_neg differs, known, Option.map_some, pastGap]
      split_ifs <;> rfl
  · exact defined.nodup_iff.mpr (List.nodup_cons.mpr ⟨newValue, described.valuesDistinct⟩)
  · rw [withNode, Table.keys_append]
    exact (List.perm_append_singleton _ _).trans
      ((described.valueKeys.cons _).trans defined.symm)
  · intro value type member
    rw [described.get?_values_withNode position fresh]
    have differs : node.value ≠ value := by
      rintro rfl
      exact newValue (Graph.input_mem_defined (List.of_mem_zip member).1)
    obtain ⟨readers, known⟩ := described.input member
    exact ⟨readers, by rw [if_neg differs, known]⟩
  · intro place id found listed stands
    rw [described.get?_values_withNode position fresh]
    rcases insertIdx_cases described.length inside listed stands with
      ⟨rfl, rfl, rfl⟩ | ⟨old, wasListed, stood, rfl⟩
    · exact ⟨[], by rw [if_pos rfl]⟩
    · have differs : node.value ≠ found.value := by
        intro same
        exact newValue (same ▸ Graph.value_mem_defined (List.mem_of_getElem? stood))
      obtain ⟨readers, known⟩ := described.produced wasListed stood
      exact ⟨readers, by rw [if_neg differs, known]⟩

/-- Adding a node keeps the description, if it reads defined values. Witness: the tables with the
reads of the new node.
-/
theorem insert (described : index.Describes graph ids) {position : Nat} {node : Node}
    (inside : position ≤ graph.body.length) (fresh : node.value = ⟨index.nextValue⟩)
    (known : ∀ value ∈ node.reads, value ∈ graph.defined)
    : ∃ after,
        index.insert position node = .ok after
        ∧ after.Describes { graph with body := graph.body.insertIdx position node }
            (ids.insertIdx position ⟨index.nextNode⟩)
        ∧ after.nextNode = index.nextNode + 1 := by
  have places := described.withNode_places inside fresh
  have defined := defined_insertIdx_perm node inside
  have here : ∀ value ∈ node.reads, (index.withNode position node).values.has value = true := by
    intro value read
    rw [places.has_iff, defined.mem_iff]
    exact List.mem_cons_of_mem _ (known value read)
  obtain ⟨after, done, kept, counts⟩ :=
    addReads_eq_ok ⟨index.nextNode⟩ (index.withNode position node) here
  have readersEq : ∀ value, (index.withNode position node).readers value = index.readers value := by
    intro value
    rw [readers, described.get?_values_withNode position fresh]
    by_cases same : node.value = value
    · have none := described.get?_eq_none_iff.mpr (fresh ▸ described.nextValue_not_mem)
      rw [if_pos same, readers_of_none (same ▸ none)]
    · rw [if_neg same, readers]
  have unread : ∀ value, (index.readers value).count ⟨index.nextNode⟩ = 0 := by
    intro value
    exact List.count_eq_zero.mpr fun member =>
      described.nextNode_not_mem (described.liveReaders member)
  refine ⟨after, ?_, ⟨places.change kept rfl rfl rfl, ?_, ?_, ?_, ?_, ?_, ?_⟩, kept.nextNode⟩
  · rw [described.insert_eq position fresh known, done]
  · intro place id found listed stands value
    rw [counts, readersEq]
    rcases insertIdx_cases described.length inside listed stands with
      ⟨rfl, rfl, rfl⟩ | ⟨old, wasListed, stood, rfl⟩
    · rw [if_pos rfl, unread, Nat.zero_add]
    · have differs : id ≠ ⟨index.nextNode⟩ := by
        rintro rfl
        exact described.nextNode_not_mem (List.mem_of_getElem? wasListed)
      rw [if_neg differs, Nat.add_zero]
      exact described.slots wasListed stood value
  · intro value id member
    have names := List.perm_insertIdx (⟨index.nextNode⟩ : NodeId) ids (described.length ▸ inside)
    refine names.mem_iff.mpr ?_
    by_cases new : id = ⟨index.nextNode⟩
    · exact new ▸ List.mem_cons_self
    · have positive := List.count_pos_iff.mpr member
      rw [counts, readersEq, if_neg new, Nat.add_zero] at positive
      exact List.mem_cons_of_mem _ (described.liveReaders (List.count_pos_iff.mp positive))
  · intro found member value read
    refine defined.mem_iff.mpr (List.mem_cons_of_mem _ ?_)
    rcases (List.mem_insertIdx inside).mp member with rfl | old
    · exact known value read
    · exact described.readsKnown old value read
  · intro value shown
    exact defined.mem_iff.mpr (List.mem_cons_of_mem _ (described.outputsKnown value shown))
  · intro id member
    have names := List.perm_insertIdx (⟨index.nextNode⟩ : NodeId) ids (described.length ▸ inside)
    rw [kept.nextNode]
    rcases List.mem_cons.mp (names.mem_iff.mp member) with rfl | old
    · exact Nat.lt_succ_self _
    · exact Nat.lt_succ_of_lt (described.nodesBelow id old)
  · intro value member
    rw [kept.nextValue]
    rcases List.mem_cons.mp (defined.mem_iff.mp member) with rfl | old
    · rw [fresh]
      exact Nat.lt_succ_self _
    · exact Nat.lt_succ_of_lt (described.valuesBelow value old)

end Describes

-----------------------------------------------------------------------------------------
-- Removing
-----------------------------------------------------------------------------------------

/-- What closing the gap at some position does to a node. -/
def beforeGap (position : Nat) (entry : NodeEntry) : NodeEntry :=
  if position < entry.position then { entry with position := entry.position - 1 } else entry

/-- Closing a gap keeps all names. -/
theorem keys_closeGap (index : Index) (position : Nat)
    : Table.keys (index.closeGap position).nodes = Table.keys index.nodes :=
  Table.keys_map (fun _ => beforeGap position) index.nodes

/-- Closing a gap moves every node behind it. -/
theorem get?_closeGap (index : Index) (position : Nat) (id : NodeId)
    : (index.closeGap position).nodes.get? id
      = (index.nodes.get? id).map (beforeGap position) :=
  Table.get?_map id (fun _ => beforeGap position) index.nodes

/-- The tables without a node and its value, before its reads are dropped. -/
def withoutNode (index : Index) (id : NodeId) (entry : NodeEntry) : Index :=
  { index with
    nodes := (Index.closeGap { index with nodes := index.nodes.erase id } entry.position).nodes
    values := index.values.erase entry.value }

/-- Removing a node is removing it with its value, and then its reads. -/
theorem remove_eq {index : Index} {id : NodeId} {entry : NodeEntry} (node : Node)
    (found : index.nodes.get? id = some entry)
    : index.remove id node
      = node.reads.foldl (fun index value => index.dropReader value id)
          (index.withoutNode id entry) := by
  rw [remove, found]
  rfl

namespace Describes

/-- A name and a node that stand at one place after a removal stood at one place before it, and
it was another one than that of the removed node.
-/
theorem eraseIdx_cases {body : List Node} {position place : Nat} {id : NodeId} {found : Node}
    (listed : (ids.eraseIdx position)[place]? = some id)
    (stands : (body.eraseIdx position)[place]? = some found)
    : ∃ old, ids[old]? = some id ∧ body[old]? = some found ∧ old ≠ position
        ∧ place = if position < old then old - 1 else old := by
  rw [List.getElem?_eraseIdx] at listed stands
  by_cases before : place < position
  · rw [if_pos before] at listed stands
    exact ⟨place, listed, stands, by omega, by rw [if_neg (by omega)]⟩
  · rw [if_neg before] at listed stands
    exact ⟨place + 1, listed, stands, by omega, by rw [if_pos (by omega)]; rfl⟩

/-- A body with one node less defines one value less. -/
theorem defined_eraseIdx_perm {position : Nat} {node : Node}
    (found : graph.body[position]? = some node)
    : graph.defined.Perm
        (node.value :: Graph.defined { graph with body := graph.body.eraseIdx position }) := by
  obtain ⟨inside, rfl⟩ := List.getElem?_eq_some_iff.mp found
  have values := (List.getElem_cons_eraseIdx_perm inside).symm.map Node.value
  exact (values.append_left graph.inputs).trans List.perm_middle

/-- The names without the one at some position. -/
theorem eraseIdx_perm {position : Nat} {id : NodeId} (listed : ids[position]? = some id)
    : ids.Perm (id :: ids.eraseIdx position) := by
  obtain ⟨inside, rfl⟩ := List.getElem?_eq_some_iff.mp listed
  exact (List.getElem_cons_eraseIdx_perm inside).symm

/-- Removing a node that nothing reads or shows keeps the description. -/
theorem remove (described : index.Describes graph ids) {position : Nat} {id : NodeId}
    {node : Node} (listed : ids[position]? = some id) (found : graph.body[position]? = some node)
    (unread : index.readers node.value = []) (hidden : node.value ∉ graph.outputs)
    : (index.remove id node).Describes
          { graph with body := graph.body.eraseIdx position } (ids.eraseIdx position)
      ∧ (index.remove id node).nextNode = index.nextNode := by
  obtain ⟨version, known⟩ := described.node listed found
  have defined := defined_eraseIdx_perm found
  have names := eraseIdx_perm listed
  obtain ⟨absent, idsDistinct⟩ := List.nodup_cons.mp (names.nodup_iff.mp described.idsDistinct)
  obtain ⟨gone, valuesDistinct⟩ :=
    List.nodup_cons.mp (defined.nodup_iff.mp described.valuesDistinct)
  have otherIds : ∀ {other : NodeId}, other ∈ ids.eraseIdx position → id ≠ other := by
    rintro other member rfl
    exact absent member
  have otherValues
      : ∀ {value : ValueId},
          value ∈ Graph.defined { graph with body := graph.body.eraseIdx position }
          → node.value ≠ value := by
    rintro value member rfl
    exact gone member
  have readersEq
      : ∀ value, (index.withoutNode id ⟨node.value, position, version⟩).readers value
          = index.readers value := by
    intro value
    rw [readers, withoutNode, Table.get?_erase _ _ described.valueKeys_nodup]
    by_cases same : node.value = value
    · rw [if_pos same, ← same, unread]
    · rw [if_neg same, readers]
  obtain ⟨same, counts⟩ :=
    dropReads id (index.withoutNode id ⟨node.value, position, version⟩) node.reads
  rw [← remove_eq node known] at same counts
  refine ⟨⟨Places.change ?_ same rfl rfl rfl, ?_, ?_, ?_, ?_, ?_, ?_⟩, same.nextNode⟩
  · refine ⟨?_, idsDistinct, ?_, ?_, valuesDistinct, ?_, described.inputsTyped, ?_, ?_⟩
    · rw [List.length_eraseIdx, List.length_eraseIdx, described.length]
    · rw [withoutNode, keys_closeGap, Table.keys_erase]
      have member : id ∈ Table.keys index.nodes :=
        described.nodeKeys.mem_iff.mpr (List.mem_of_getElem? listed)
      exact ((List.perm_cons_erase member).symm.trans
        (described.nodeKeys.trans names)).cons_inv
    · intro place other stays otherListed stands
      obtain ⟨old, wasListed, stood, -, rfl⟩ := eraseIdx_cases otherListed stands
      obtain ⟨version, entry⟩ := described.node wasListed stood
      refine ⟨version, ?_⟩
      rw [withoutNode, get?_closeGap, Table.get?_erase _ _ described.nodeKeys_nodup,
        if_neg (otherIds (List.mem_of_getElem? otherListed)), entry, Option.map_some, beforeGap]
      split_ifs <;> rfl
    · rw [withoutNode, Table.keys_erase]
      have member : node.value ∈ Table.keys index.values :=
        described.valueKeys.mem_iff.mpr
          (Graph.value_mem_defined (List.mem_of_getElem? found))
      exact ((List.perm_cons_erase member).symm.trans
        (described.valueKeys.trans defined)).cons_inv
    · intro value type member
      have differs := otherValues (Graph.input_mem_defined (List.of_mem_zip member).1)
      obtain ⟨readers, entry⟩ := described.input member
      refine ⟨readers, ?_⟩
      rw [withoutNode, Table.get?_erase _ _ described.valueKeys_nodup, if_neg differs, entry]
    · intro place other stays otherListed stands
      have differs := otherValues (Graph.value_mem_defined (List.mem_of_getElem? stands))
      obtain ⟨old, wasListed, stood, -, -⟩ := eraseIdx_cases otherListed stands
      obtain ⟨readers, entry⟩ := described.produced wasListed stood
      refine ⟨readers, ?_⟩
      rw [withoutNode, Table.get?_erase _ _ described.valueKeys_nodup, if_neg differs, entry]
  · intro place other stays otherListed stands value
    obtain ⟨old, wasListed, stood, -, -⟩ := eraseIdx_cases otherListed stands
    have differs := otherIds (List.mem_of_getElem? otherListed)
    rw [counts, readersEq, if_neg (Ne.symm differs), Nat.sub_zero]
    exact described.slots wasListed stood value
  · intro value other member
    have positive := List.count_pos_iff.mpr member
    rw [counts, readersEq] at positive
    by_cases hit : other = id
    · subst hit
      rw [if_pos rfl, described.slots listed found, Nat.sub_self] at positive
      exact absurd positive (Nat.lt_irrefl 0)
    · rw [if_neg hit, Nat.sub_zero] at positive
      have live := described.liveReaders (List.count_pos_iff.mp positive)
      rcases List.mem_cons.mp (names.mem_iff.mp live) with rfl | stays
      · exact absurd rfl hit
      · exact stays
  · intro stays member value read
    obtain ⟨old, stood⟩ := List.mem_iff_getElem?.mp (List.mem_of_mem_eraseIdx member)
    obtain ⟨reader, wasListed⟩ := described.exists_id stood
    rcases List.mem_cons.mp (defined.mem_iff.mp
      (described.readsKnown (List.mem_of_getElem? stood) value read)) with rfl | stays
    · have count := described.slots wasListed stood node.value
      rw [unread, List.count_nil] at count
      exact absurd read (List.count_eq_zero.mp count.symm)
    · exact stays
  · intro value shown
    rcases List.mem_cons.mp (defined.mem_iff.mp (described.outputsKnown value shown)) with
      rfl | stays
    · exact absurd shown hidden
    · exact stays
  · intro other member
    rw [same.nextNode]
    exact described.nodesBelow other (names.mem_iff.mpr (List.mem_cons_of_mem _ member))
  · intro value member
    rw [same.nextValue]
    exact described.valuesBelow value (defined.mem_iff.mpr (List.mem_cons_of_mem _ member))

end Describes

end Dataflow.Index
