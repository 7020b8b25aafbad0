import Dataflow.Proofs.Graph.WellTyped
import Dataflow.Proofs.Rewrite.Edits

/-!
What a session answers if its tables describe its graph: types and readers of values can be read off
the graph.
-/

namespace Dataflow

-----------------------------------------------------------------------------------------
-- Types
-----------------------------------------------------------------------------------------

theorem Graph.keys_types {graph : Graph} (typed : graph.inputs.length = graph.inputTypes.length)
    : Table.keys graph.types = graph.defined := by
  rw [types, Chained.keys_append_results, defined]
  exact congrArg (· ++ _) (List.map_fst_zip typed.le)

namespace Session

variable {session other : Session} {ids : List NodeId}

theorem type?_of_mem (described : session.Described ids) {value : ValueId} {type : ValueType}
    (declared : (value, type) ∈ session.graph.types)
    : session.index.type? value = some type := by
  rcases List.mem_append.mp declared with input | produced
  · obtain ⟨readers, found⟩ := described.input input
    rw [Index.type?, found]
    rfl
  · obtain ⟨node, member, same⟩ := List.mem_map.mp produced
    obtain ⟨rfl, rfl⟩ := Prod.mk.inj same
    obtain ⟨place, here⟩ := List.mem_iff_getElem?.mp member
    obtain ⟨id, listed⟩ := described.exists_id here
    obtain ⟨readers, found⟩ := described.produced listed here
    rw [Index.type?, found]
    rfl

/-- The tables hold the types that the graph declares. -/
theorem type?_eq_get? (described : session.Described ids) (value : ValueId)
    : session.index.type? value = session.graph.types.get? value := by
  cases declared : session.graph.types.get? value with
  | some type => exact type?_of_mem described (Table.mem_of_get? declared)
  | none =>
      rw [Table.get?_eq_none_iff, Graph.keys_types described.inputsTyped,
        ← described.get?_eq_none_iff] at declared
      rw [Index.type?, declared]
      rfl

theorem type?_eq_some_iff (described : session.Described ids) {value : ValueId} {type : ValueType}
    : session.index.type? value = some type ↔ (value, type) ∈ session.graph.types := by
  refine ⟨fun known => ?_, type?_of_mem described⟩
  rw [type?_eq_get? described] at known
  exact Table.mem_of_get? known

theorem isInput_iff (described : session.Described ids) {value : ValueId}
    : session.index.isInput value = true ↔ value ∈ session.graph.inputs := by
  rw [Index.isInput]
  constructor
  · intro input
    cases found : session.index.values.get? value with
    | none =>
        rw [found] at input
        cases input
    | some entry =>
        have known : value ∈ session.graph.defined := by
          rw [← described.has_iff, Table.has, found]
          rfl
        rcases List.mem_append.mp known with there | produced
        · exact there
        · obtain ⟨node, member, rfl⟩ := List.mem_map.mp produced
          obtain ⟨place, here⟩ := List.mem_iff_getElem?.mp member
          obtain ⟨id, listed⟩ := described.exists_id here
          obtain ⟨readers, entered⟩ := described.produced listed here
          rw [entered] at input
          cases input
  · intro member
    obtain ⟨place, inside, rfl⟩ := List.mem_iff_getElem.mp member
    have typed : place < session.graph.inputTypes.length := described.inputsTyped ▸ inside
    have pair
        : (session.graph.inputs[place], session.graph.inputTypes[place])
          ∈ session.graph.inputs.zip session.graph.inputTypes := by
      refine List.mem_iff_getElem?.mpr ⟨place, ?_⟩
      rw [List.getElem?_zip_eq_some]
      exact ⟨List.getElem?_eq_getElem inside, List.getElem?_eq_getElem typed⟩
    obtain ⟨readers, entered⟩ := described.input pair
    rw [entered]
    rfl

-----------------------------------------------------------------------------------------
-- Nodes
-----------------------------------------------------------------------------------------

theorem node?_eq_some_iff (described : session.Described ids) {id : NodeId} {node : Node}
    : session.node? id = some node
      ↔ ∃ place : Nat, ids[place]? = some id ∧ session.graph.body[place]? = some node := by
  constructor
  · intro known
    obtain ⟨place, -, listed, found⟩ := listed_of_node? described known
    exact ⟨place, listed, found⟩
  · rintro ⟨place, listed, found⟩
    exact (node?_of_listed described listed found).2

theorem node?_eq_none_iff (described : session.Described ids) {id : NodeId}
    : session.node? id = none ↔ id ∉ ids := by
  rw [mem_ids_iff described, Option.eq_none_iff_forall_ne_some, not_exists]

/-- The nodes of a session from whose body one node was taken. -/
theorem node?_of_erased (described : session.Described ids) {position : Nat} {id : NodeId}
    (listed : ids[position]? = some id) (afterDescribed : other.Described (ids.eraseIdx position))
    {change : Node → Node}
    (body : other.graph.body = (session.graph.body.eraseIdx position).map change) (name : NodeId)
    : other.node? name = if name = id then none else (session.node? name).map change := by
  have names := Index.Describes.eraseIdx_perm listed
  split_ifs with same
  · have distinct := names.nodup_iff.mp described.idsDistinct
    rw [node?_eq_none_iff afterDescribed, same]
    exact (List.nodup_cons.mp distinct).1
  · cases known : session.node? name with
    | none =>
        rw [node?_eq_none_iff described] at known
        rw [Option.map_none, node?_eq_none_iff afterDescribed]
        exact fun member => known (names.mem_iff.mpr (List.mem_cons_of_mem _ member))
    | some node =>
        have member := (mem_ids_iff described).mpr ⟨node, known⟩
        have left := (List.mem_cons.mp (names.mem_iff.mp member)).resolve_left same
        obtain ⟨node', there⟩ := (mem_ids_iff afterDescribed).mp left
        obtain ⟨place, listed', found'⟩ := (node?_eq_some_iff afterDescribed).mp there
        rw [body, List.getElem?_map] at found'
        obtain ⟨node'', stands, rfl⟩ := Option.map_eq_some_iff.mp found'
        obtain ⟨old, wasListed, stood, -⟩ := Index.Describes.eraseIdx_cases listed' stands
        have before := (node?_eq_some_iff described).mpr ⟨old, wasListed, stood⟩
        obtain rfl := Option.some.inj (known.symm.trans before)
        exact there

/-- The nodes of a session into whose body one node was put. -/
theorem node?_of_inserted (described : session.Described ids) {position : Nat} {id : NodeId}
    {node : Node} (inside : position ≤ session.graph.body.length)
    (afterDescribed : other.Described (ids.insertIdx position id))
    (body : other.graph.body = session.graph.body.insertIdx position node) (name : NodeId)
    : other.node? name = if name = id then some node else session.node? name := by
  have insideIds : position ≤ ids.length := described.length ▸ inside
  split_ifs with same
  · refine (node?_eq_some_iff afterDescribed).mpr ⟨position, ?_, ?_⟩
    · rw [List.getElem?_insertIdx_self, if_pos insideIds, same]
    · rw [body, List.getElem?_insertIdx_self, if_pos inside]
  · cases known : other.node? name with
    | none =>
        rw [node?_eq_none_iff afterDescribed, List.mem_insertIdx insideIds, not_or] at known
        exact ((node?_eq_none_iff described).mpr known.2).symm
    | some other =>
        obtain ⟨place, listed, found⟩ := (node?_eq_some_iff afterDescribed).mp known
        rw [body] at found
        rcases Index.Describes.insertIdx_cases described.length inside listed found with
          ⟨-, new, -⟩ | ⟨old, wasListed, stood, -⟩
        · exact absurd new same
        · exact ((node?_eq_some_iff described).mpr ⟨old, wasListed, stood⟩).symm

-----------------------------------------------------------------------------------------
-- Readers
-----------------------------------------------------------------------------------------

theorem mem_readers_iff (described : session.Described ids) {value : ValueId} {reader : NodeId}
    : reader ∈ session.index.readers value
      ↔ ∃ (place : Nat) (node : Node),
          ids[place]? = some reader
          ∧ session.graph.body[place]? = some node
          ∧ value ∈ node.reads := by
  constructor
  · intro member
    obtain ⟨place, node, listed, found⟩ := described.exists_node (described.liveReaders member)
    refine ⟨place, node, listed, found, List.count_pos_iff.mp ?_⟩
    rw [← described.slots listed found value]
    exact List.count_pos_iff.mpr member
  · intro ⟨place, node, listed, found, read⟩
    refine List.count_pos_iff.mp ?_
    rw [described.slots listed found value]
    exact List.count_pos_iff.mpr read

/-- The readers of a value, by name. -/
theorem mem_readers_iff_node? (described : session.Described ids) {value : ValueId}
    {reader : NodeId}
    : reader ∈ session.index.readers value
      ↔ ∃ node, session.node? reader = some node ∧ value ∈ node.reads := by
  simp only [mem_readers_iff described, node?_eq_some_iff described]
  exact ⟨fun ⟨place, node, listed, found, read⟩ => ⟨node, ⟨place, listed, found⟩, read⟩,
    fun ⟨node, ⟨place, listed, found⟩, read⟩ => ⟨place, node, listed, found, read⟩⟩

theorem readers_eq_nil_iff (described : session.Described ids) {value : ValueId}
    : session.index.readers value = [] ↔ ∀ node ∈ session.graph.body, value ∉ node.reads := by
  rw [List.eq_nil_iff_forall_not_mem]
  constructor
  · intro none node member read
    obtain ⟨place, found⟩ := List.mem_iff_getElem?.mp member
    obtain ⟨id, listed⟩ := described.exists_id found
    exact none id ((mem_readers_iff described).mpr ⟨place, node, listed, found, read⟩)
  · intro none reader member
    obtain ⟨place, node, -, found, read⟩ := (mem_readers_iff described).mp member
    exact none node (List.mem_of_getElem? found) read

/-- The position of the node that produces a value. -/
theorem position?_producer?_iff (described : session.Described ids) {value : ValueId}
    {position : Nat}
    : (session.index.producer? value).bind session.index.position? = some position
      ↔ ∃ node, session.graph.body[position]? = some node ∧ node.value = value := by
  constructor
  · intro placed
    obtain ⟨id, known, there⟩ := Option.bind_eq_some_iff.mp placed
    have listed := described.position?_eq_some_iff.mp there
    have inside : position < session.graph.body.length :=
      described.length ▸ (List.getElem?_eq_some_iff.mp listed).1
    have found := List.getElem?_eq_getElem inside
    have produced : session.producer? value = some session.graph.body[position] := by
      rw [producer?, known]
      exact (node?_of_listed described listed found).2
    obtain ⟨-, -, same⟩ := (producer?_eq_some_iff described).mp produced
    exact ⟨_, found, same⟩
  · rintro ⟨node, found, rfl⟩
    obtain ⟨id, listed⟩ := described.exists_id found
    obtain ⟨readers, entered⟩ := described.produced listed found
    rw [Index.producer?, entered]
    exact described.position?_eq_some_iff.mpr listed

/-- A value is read in front of where another one is produced. -/
theorem precedesProducer_iff (described : session.Described ids) {source target : ValueId}
    : session.precedesProducer target (session.index.distinctReaders source) = true
      ↔ ∃ (first second : Nat) (reader producer : Node),
          first < second
          ∧ session.graph.body[first]? = some reader
          ∧ source ∈ reader.reads
          ∧ session.graph.body[second]? = some producer
          ∧ producer.value = target := by
  rw [precedesProducer]
  constructor
  · intro precedes
    split at precedes
    · rename_i second placed
      obtain ⟨producer, there, named⟩ := (position?_producer?_iff described).mp placed
      obtain ⟨id, member, before⟩ := List.any_eq_true.mp precedes
      obtain ⟨first, reader, listed, here, read⟩ :=
        (mem_readers_iff described).mp (mem_distinctReaders.mp member)
      rw [described.position?_eq_some_iff.mpr listed] at before
      exact ⟨first, second, reader, producer, by simpa using before, here, read, there, named⟩
    · cases precedes
  · rintro ⟨first, second, reader, producer, before, here, read, there, named⟩
    rw [(position?_producer?_iff described).mpr ⟨producer, there, named⟩]
    obtain ⟨id, listed⟩ := described.exists_id here
    refine List.any_eq_true.mpr ⟨id, ?_, ?_⟩
    · exact mem_distinctReaders.mpr ((mem_readers_iff described).mpr ⟨first, reader, listed, here, read⟩)
    · rw [described.position?_eq_some_iff.mpr listed]
      simpa using before

/-- Sessions that list the same readers have the same distinct readers. -/
theorem distinctReaders_eq {value : ValueId}
    (same : ∀ reader, reader ∈ other.index.readers value ↔ reader ∈ session.index.readers value)
    : other.index.distinctReaders value = session.index.distinctReaders value := by
  rw [Index.distinctReaders, Index.distinctReaders]
  refine congrArg _ (increasing_eq fun number => ?_)
  rw [List.mem_map, List.mem_map]
  exact exists_congr fun reader => and_congr_left fun _ => same reader

end Session

end Dataflow
