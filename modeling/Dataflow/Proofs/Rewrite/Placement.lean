import Dataflow.Proofs.Graph.Sorting
import Dataflow.Proofs.Rewrite.Changes
import Mathlib.Data.List.Basic
import Mathlib.Data.List.InsertIdx

/-!
Changes that move nodes: putting the body in another order, adding a node and removing one. The
names follow the nodes, and everything else about a node that stays is kept.
-/

namespace Dataflow.Index

-----------------------------------------------------------------------------------------
-- Another order
-----------------------------------------------------------------------------------------

namespace Places

variable {index : Index} {graph : Graph} {ids : List NodeId}

/-- The table holds as many nodes as the body. -/
theorem nodes_length (placed : index.Places graph ids)
    : index.nodes.length = ids.length := by
  have lengths := placed.nodeKeys.length_eq
  rwa [Table.keys, List.length_map] at lengths

/-- The node that the table has at a position is the one whose name is listed there. -/
theorem nodeAt?_eq (placed : index.Places graph ids) {position : Nat}
    (inside : position < ids.length)
    : index.nodeAt? position = ids[position]? := by
  have body : position < graph.body.length := placed.length ▸ inside
  have listed := List.getElem?_eq_getElem inside
  obtain ⟨version, known⟩ := placed.node listed (List.getElem?_eq_getElem body)
  rw [nodeAt?]
  generalize found : List.find? _ index.nodes = first
  cases first with
  | none =>
      have differs := List.find?_eq_none.mp found _ (Table.mem_of_get? known)
      simp at differs
  | some pair =>
      obtain ⟨id, entry⟩ := pair
      have here : entry.position = position := by simpa using List.find?_some found
      have entry := Table.get?_of_mem placed.nodeKeys_nodup (List.mem_of_find?_eq_some found)
      rw [← here]
      exact (placed.at_position entry).1.symm

/-- The names in the order of the positions. -/
theorem ordered_eq (placed : index.Places graph ids) : index.ordered = ids := by
  rw [ordered, placed.nodes_length]
  refine Eq.trans (List.filterMap_congr ?_) (Graph.filterMap_range_getElem? ids)
  intro position member
  exact placed.nodeAt?_eq (List.mem_range.mp member)

end Places

end Dataflow.Index

namespace Dataflow.Session

open Index

/-- New positions change neither the values nor the free numbers nor the names, by induction on
the order.
-/
theorem reposition_frame (ids : List NodeId) (index : Index) (start : Nat) (order : List Nat)
    : (reposition ids index start order).values = index.values
      ∧ (reposition ids index start order).nextNode = index.nextNode
      ∧ (reposition ids index start order).nextValue = index.nextValue
      ∧ Table.keys (reposition ids index start order).nodes = Table.keys index.nodes := by
  induction order generalizing index start with
  | nil => exact ⟨rfl, rfl, rfl, rfl⟩
  | cons source rest ih =>
      rw [reposition]
      cases ids[source]? with
      | none => exact ih index (start + 1)
      | some id =>
          obtain ⟨values, nextNode, nextValue, keys⟩ := ih (index.setPosition id start) (start + 1)
          exact ⟨values, nextNode, nextValue, keys.trans (Table.keys_modify ..)⟩

/-- A node that the order does not name keeps its entry, by induction on the order. -/
theorem get?_reposition_of_not_mem {ids : List NodeId} {index : Index} {start : Nat}
    {order : List Nat} {id : NodeId} (absent : ∀ source ∈ order, ids[source]? ≠ some id)
    : (reposition ids index start order).nodes.get? id = index.nodes.get? id := by
  induction order generalizing index start with
  | nil => rfl
  | cons source rest ih =>
      have later : ∀ source ∈ rest, ids[source]? ≠ some id :=
        fun source member => absent source (List.mem_cons_of_mem _ member)
      rw [reposition]
      cases listed : ids[source]? with
      | none => exact ih later
      | some other =>
          have differs : other ≠ id := by
            rintro rfl
            exact absent source List.mem_cons_self listed
          refine (ih later).trans ?_
          rw [setPosition, get?_modifyNode, if_neg differs]

/-- A node goes where the order names it, by induction on the order. -/
theorem get?_reposition {ids : List NodeId} {index : Index} {start place source : Nat}
    {order : List Nat} {id : NodeId} (names : ids.Nodup) (positions : order.Nodup)
    (placed : order[place]? = some source) (listed : ids[source]? = some id)
    : (reposition ids index start order).nodes.get? id
      = (index.nodes.get? id).map fun entry => { entry with position := start + place } := by
  induction order generalizing index start place with
  | nil => simp at placed
  | cons first rest ih =>
      obtain ⟨absent, positions⟩ := List.nodup_cons.mp positions
      have inside := (List.getElem?_eq_some_iff.mp listed).1
      rw [reposition]
      cases place with
      | zero =>
          obtain rfl : first = source := by simpa using placed
          rw [listed]
          dsimp only
          rw [get?_reposition_of_not_mem, setPosition, get?_modifyNode, if_pos rfl]
          · rfl
          · intro other member same
            have equal := (List.getElem?_inj inside names).mp (listed.trans same.symm)
            exact absent (equal ▸ member)
      | succ place =>
          have placed : rest[place]? = some source := by simpa using placed
          have shift : start + 1 + place = start + (place + 1) := by omega
          cases firstListed : ids[first]? with
          | none =>
              rw [← shift]
              exact ih positions placed
          | some other =>
              have differs : other ≠ id := by
                rintro rfl
                have equal := (List.getElem?_inj inside names).mp (listed.trans firstListed.symm)
                exact absent (equal ▸ List.mem_of_getElem? placed)
              have kept : (index.setPosition other start).nodes.get? id = index.nodes.get? id := by
                rw [setPosition, get?_modifyNode, if_neg differs]
              rw [← shift, ← kept]
              exact ih positions placed

end Dataflow.Session

namespace Dataflow.Index

variable {index : Index} {graph : Graph} {ids : List NodeId}

namespace Places

/-- What stands at a place of the new order stood at some position before. -/
theorem exists_placed {order : List Nat} {body : List Node}
    (length : ids.length = body.length) (all : order.Perm (List.range body.length))
    {place : Nat} {id : NodeId} {node : Node}
    (listed : (order.filterMap (ids[·]?))[place]? = some id)
    (found : (Graph.permute body order)[place]? = some node)
    : ∃ position, order[place]? = some position ∧ ids[position]? = some id
        ∧ body[position]? = some node := by
  have inside : ∀ position ∈ order, position < body.length :=
    fun position member => List.mem_range.mp (all.mem_iff.mp member)
  rw [Graph.getElem?_filterMap_getElem? (length ▸ inside)] at listed
  rw [Graph.permute, Graph.getElem?_filterMap_getElem? inside] at found
  obtain ⟨position, placed, listed⟩ := Option.bind_eq_some_iff.mp listed
  rw [placed] at found
  exact ⟨position, placed, listed, found⟩

/-- A body in another order defines the same values. -/
theorem defined_permute_perm {order : List Nat} (all : order.Perm (List.range graph.body.length))
    : (Graph.defined { graph with body := Graph.permute graph.body order }).Perm graph.defined :=
  ((Graph.filterMap_getElem?_perm all).map Node.value).append_left graph.inputs

/-- The tables follow the body into another order. -/
theorem permute (placed : index.Places graph ids) {order : List Nat}
    (all : order.Perm (List.range graph.body.length))
    : (Session.reposition ids index 0 order).Places
        { graph with body := Graph.permute graph.body order } (order.filterMap (ids[·]?)) := by
  obtain ⟨values, -, -, keys⟩ := Session.reposition_frame ids index 0 order
  have allIds : order.Perm (List.range ids.length) := placed.length ▸ all
  have idsPerm : (order.filterMap (ids[·]?)).Perm ids := Graph.filterMap_getElem?_perm allIds
  have bodyPerm : (Graph.permute graph.body order).Perm graph.body :=
    Graph.filterMap_getElem?_perm all
  have positions : order.Nodup := all.nodup_iff.mpr List.nodup_range
  have definedPerm := defined_permute_perm all
  refine ⟨?_, idsPerm.nodup_iff.mpr placed.idsDistinct, ?_, ?_,
    definedPerm.nodup_iff.mpr placed.valuesDistinct, ?_, placed.inputsTyped, ?_, ?_⟩
  · rw [idsPerm.length_eq, bodyPerm.length_eq, placed.length]
  · rw [keys]
    exact placed.nodeKeys.trans idsPerm.symm
  · intro place id node listed found
    obtain ⟨position, spot, listed, found⟩ := exists_placed placed.length all listed found
    obtain ⟨version, known⟩ := placed.node listed found
    refine ⟨version, ?_⟩
    rw [Session.get?_reposition placed.idsDistinct positions spot listed, known]
    simp
  · rw [values]
    exact placed.valueKeys.trans definedPerm.symm
  · intro value type member
    rw [values]
    exact placed.input member
  · intro place id node listed found
    obtain ⟨position, spot, listed, found⟩ := exists_placed placed.length all listed found
    rw [values]
    exact placed.produced listed found

end Places

/-- The description follows the body into another order. -/
theorem Describes.permute (described : index.Describes graph ids) {order : List Nat}
    (all : order.Perm (List.range graph.body.length))
    : (Session.reposition ids index 0 order).Describes
        { graph with body := Graph.permute graph.body order } (order.filterMap (ids[·]?)) := by
  obtain ⟨values, nextNode, nextValue, -⟩ := Session.reposition_frame ids index 0 order
  have allIds : order.Perm (List.range ids.length) := described.length ▸ all
  have idsPerm : (order.filterMap (ids[·]?)).Perm ids := Graph.filterMap_getElem?_perm allIds
  have bodyPerm : (Graph.permute graph.body order).Perm graph.body :=
    Graph.filterMap_getElem?_perm all
  have definedPerm := Places.defined_permute_perm all
  have readersEq
      : ∀ value, (Session.reposition ids index 0 order).readers value = index.readers value := by
    intro value
    rw [readers, readers, values]
  refine ⟨described.toPlaces.permute all, ?_, ?_, ?_, ?_, ?_, ?_⟩
  · intro place id node listed found value
    obtain ⟨position, -, listed, found⟩ :=
      Places.exists_placed described.length all listed found
    rw [readersEq]
    exact described.slots listed found value
  · intro value id member
    rw [readersEq] at member
    exact idsPerm.mem_iff.mpr (described.liveReaders member)
  · intro node member value read
    exact definedPerm.mem_iff.mpr
      (described.readsKnown (bodyPerm.mem_iff.mp member) value read)
  · exact fun value shown => definedPerm.mem_iff.mpr (described.outputsKnown value shown)
  · intro id member
    rw [nextNode]
    exact described.nodesBelow id (idsPerm.mem_iff.mp member)
  · intro value member
    rw [nextValue]
    exact described.valuesBelow value (definedPerm.mem_iff.mp member)

end Dataflow.Index
