import Dataflow.Proofs.Rewrite.Additions
import Dataflow.Proofs.Steps
import Mathlib.Data.List.Basic
import Mathlib.Data.List.Nodup
import Mathlib.Data.List.Range

/-!
Building tables. Tables can be built for the graphs that define every value once and read and show
only what they define, and they describe the graph with its positions as names.
-/

namespace Dataflow

/-- A graph that defines every value once, and that reads and shows only what it defines. -/
structure Graph.Closed (graph : Graph) : Prop where
  distinct : graph.defined.Nodup
  readsKnown : ∀ {node : Node}, node ∈ graph.body → ∀ value ∈ node.reads, value ∈ graph.defined
  outputsKnown : ∀ value ∈ graph.outputs, value ∈ graph.defined

/-- A graph that has tables defines what it needs. -/
theorem Index.Describes.closed {index : Index} {graph : Graph} {ids : List NodeId}
    (described : index.Describes graph ids)
    : graph.Closed :=
  ⟨described.valuesDistinct, described.readsKnown, described.outputsKnown⟩

namespace Index

-----------------------------------------------------------------------------------------
-- Values and nodes
-----------------------------------------------------------------------------------------

/-- The entries of inputs that nothing reads. -/
def inputEntries (inputs : List (ValueId × ValueType)) : Table ValueId ValueEntry :=
  inputs.map fun (value, type) => (value, ⟨type, none, []⟩)

/-- The entries of what the nodes of a body produce, if nothing reads it; `start` is the position
of the first node.
-/
def resultEntries (start : Nat) (body : List Node) : Table ValueId ValueEntry :=
  (body.zipIdx start).map fun (node, position) =>
    (node.value, ⟨node.type, some ⟨position⟩, []⟩)

/-- The entries of the nodes of a body; `start` is the position of the first node. -/
def nodeEntries (start : Nat) (body : List Node) : Table NodeId NodeEntry :=
  (body.zipIdx start).map fun (node, position) => (⟨position⟩, ⟨node.value, position, 0⟩)

/-- A new value is added behind the others, and only a new value is added. -/
theorem define_eq_ok_iff {index after : Index} {value : ValueId} {type : ValueType}
    {producer : Option NodeId}
    : index.define value type producer = .ok after
      ↔ value ∉ Table.keys index.values
        ∧ after = { index with values := index.values ++ [(value, ⟨type, producer, []⟩)] } := by
  rw [← Table.has_iff, define]
  by_cases known : index.values.has value = true
  · simp [known]
  · have new : value ∉ Table.keys index.values := Table.has_iff.not.mp known
    rw [if_neg known, Table.set_of_new _ new, Except.ok.injEq]
    exact ⟨fun same => ⟨known, same.symm⟩, fun both => both.2.symm⟩

/-- Inputs are added behind the values that are there, if all of them are new, by induction on the
inputs.
-/
theorem addInputs_eq_ok_iff {index after : Index} {inputs : List (ValueId × ValueType)}
    (distinct : (Table.keys index.values).Nodup)
    : index.addInputs inputs = .ok after
      ↔ (Table.keys index.values ++ inputs.map (·.1)).Nodup
        ∧ after = { index with values := index.values ++ inputEntries inputs } := by
  induction inputs generalizing index with
  | nil => simp [addInputs, inputEntries, distinct, eq_comm]
  | cons first rest ih =>
      obtain ⟨value, type⟩ := first
      rw [addInputs, Steps.bind_eq_ok_iff]
      simp only [define_eq_ok_iff]
      constructor
      · rintro ⟨next, ⟨new, rfl⟩, done⟩
        have grown : (Table.keys index.values ++ [value]).Nodup :=
          List.nodup_append.mpr ⟨distinct, by simp, by
            rintro old member _ single rfl
            exact new (List.mem_singleton.mp single ▸ member)⟩
        obtain ⟨all, rfl⟩ := (ih (by rw [Table.keys_append]; exact grown)).mp done
        rw [Table.keys_append] at all
        exact ⟨by simpa using all, by simp [inputEntries]⟩
      · rintro ⟨all, rfl⟩
        have grown : (Table.keys index.values ++ [value] ++ rest.map (·.1)).Nodup := by
          simpa using all
        have new : value ∉ Table.keys index.values := by
          intro member
          exact (List.nodup_append.mp (List.nodup_append.mp grown).1).2.2 _ member _
            (List.mem_singleton_self value) rfl
        refine ⟨_, ⟨new, rfl⟩, (ih ?_).mpr ⟨?_, ?_⟩⟩
        · rw [Table.keys_append]
          exact (List.nodup_append.mp grown).1
        · rw [Table.keys_append]
          exact grown
        · simp [inputEntries]

/-- Nodes are added behind the values and nodes that are there, if all their values are new, by
induction on the body.
-/
theorem addNodes_eq_ok_iff {index after : Index} {start : Nat} {body : List Node}
    (distinct : (Table.keys index.values).Nodup)
    (below : ∀ id ∈ Table.keys index.nodes, id.number < start)
    : index.addNodes start body = .ok after
      ↔ (Table.keys index.values ++ body.map (·.value)).Nodup
        ∧ after
          = { index with
              nodes := index.nodes ++ nodeEntries start body
              values := index.values ++ resultEntries start body } := by
  induction body generalizing index start with
  | nil => simp [addNodes, nodeEntries, resultEntries, distinct, eq_comm]
  | cons node rest ih =>
      have newNode : (⟨start⟩ : NodeId) ∉ Table.keys index.nodes :=
        fun member => Nat.lt_irrefl _ (below _ member)
      have belowNext
          : ∀ id ∈ Table.keys (index.nodes ++ [((⟨start⟩ : NodeId), (⟨node.value, start, 0⟩
              : NodeEntry))]), id.number < start + 1 := by
        intro id member
        rw [Table.keys_append] at member
        rcases List.mem_append.mp member with old | single
        · exact Nat.lt_succ_of_lt (below id old)
        · obtain rfl := List.mem_singleton.mp single
          exact Nat.lt_succ_self start
      rw [addNodes, Steps.bind_eq_ok_iff]
      simp only [define_eq_ok_iff]
      constructor
      · rintro ⟨next, ⟨new, rfl⟩, done⟩
        rw [Table.set_of_new _ newNode] at done
        have grown : (Table.keys index.values ++ [node.value]).Nodup :=
          List.nodup_append.mpr ⟨distinct, by simp, by
            rintro old member _ single rfl
            exact new (List.mem_singleton.mp single ▸ member)⟩
        obtain ⟨all, rfl⟩ := (ih (by rw [Table.keys_append]; exact grown) belowNext).mp done
        rw [Table.keys_append] at all
        exact ⟨by simpa using all, by simp [nodeEntries, resultEntries]⟩
      · rintro ⟨all, rfl⟩
        have grown : (Table.keys index.values ++ [node.value] ++ rest.map (·.value)).Nodup := by
          simpa using all
        have new : node.value ∉ Table.keys index.values := by
          intro member
          exact (List.nodup_append.mp (List.nodup_append.mp grown).1).2.2 _ member _
            (List.mem_singleton_self node.value) rfl
        refine ⟨_, ⟨new, rfl⟩, ?_⟩
        rw [Table.set_of_new _ newNode]
        refine (ih ?_ belowNext).mpr ⟨?_, ?_⟩
        · rw [Table.keys_append]
          exact (List.nodup_append.mp grown).1
        · rw [Table.keys_append]
          exact grown
        · simp [nodeEntries, resultEntries]

-----------------------------------------------------------------------------------------
-- Reads
-----------------------------------------------------------------------------------------

/-- Only known values can be read, by induction on the reads. -/
theorem known_of_addReads {index after : Index} {id : NodeId} {reads : List ValueId}
    (done : addReads id index reads = .ok after)
    : ∀ value ∈ reads, index.values.has value = true := by
  induction reads generalizing index with
  | nil => simp
  | cons first rest ih =>
      rw [addReads] at done
      split at done
      · rename_i here
        intro value member
        rcases List.mem_cons.mp member with rfl | later
        · exact here
        · have known := ih done value later
          rwa [(SameNames.addReader index first id).has_eq] at known
      · simp at done

/-- The reads of a body whose nodes read known values are added, once for each operand. Witness:
the tables with all readers added, by induction on the body.
-/
theorem addBodyReads_eq_ok (index : Index) (start : Nat) {body : List Node}
    (known : ∀ node ∈ body, ∀ value ∈ node.reads, index.values.has value = true)
    : ∃ after,
        index.addBodyReads start body = .ok after
        ∧ SameNames index after
        ∧ (∀ value id,
            (∀ position < body.length, id ≠ ⟨start + position⟩)
            → (after.readers value).count id = (index.readers value).count id)
        ∧ ∀ {position : Nat} {node : Node},
            body[position]? = some node
            → ∀ value,
                (after.readers value).count ⟨start + position⟩
                = (index.readers value).count ⟨start + position⟩ + node.reads.count value := by
  induction body generalizing index start with
  | nil => exact ⟨index, rfl, SameNames.refl index, by simp, by simp⟩
  | cons first rest ih =>
      obtain ⟨next, added, kept, counts⟩ :=
        addReads_eq_ok ⟨start⟩ index (known first List.mem_cons_self)
      obtain ⟨after, done, names, others, slots⟩ := ih next (start + 1) (by
        intro node member value read
        rw [kept.has_eq]
        exact known node (List.mem_cons_of_mem _ member) value read)
      refine ⟨after, ?_, kept.trans names, ?_, ?_⟩
      · rw [addBodyReads, added]
        exact done
      · intro value id outside
        have differs : id ≠ ⟨start⟩ := outside 0 (Nat.zero_lt_succ _)
        rw [others, counts, if_neg differs, Nat.add_zero]
        intro position inside same
        refine outside (position + 1) (Nat.succ_lt_succ inside) ?_
        rw [same, Nat.add_right_comm, Nat.add_assoc]
      · intro position node found value
        cases position with
        | zero =>
            obtain rfl : first = node := by simpa using found
            have outside
                : ∀ position < rest.length,
                    (⟨start + 0⟩ : NodeId) ≠ ⟨start + 1 + position⟩ := by
              intro position _ same
              have numbers := congrArg NodeId.number same
              dsimp only at numbers
              omega
            rw [others value _ outside, counts, Nat.add_zero, if_pos rfl]
        | succ position =>
            have shift : start + (position + 1) = start + 1 + position := by omega
            have differs : (⟨start + 1 + position⟩ : NodeId) ≠ ⟨start⟩ := by
              intro same
              have numbers := congrArg NodeId.number same
              dsimp only at numbers
              omega
            rw [shift, slots (by simpa using found), counts, if_neg differs, Nat.add_zero]

/-- The reads of a body can be added only if its nodes read known values, by induction on the body.
-/
theorem known_of_addBodyReads {index after : Index} {start : Nat} {body : List Node}
    (done : index.addBodyReads start body = .ok after)
    : ∀ node ∈ body, ∀ value ∈ node.reads, index.values.has value = true := by
  induction body generalizing index start with
  | nil => simp
  | cons first rest ih =>
      rw [addBodyReads, Steps.bind_eq_ok_iff] at done
      obtain ⟨next, added, done⟩ := done
      have here := known_of_addReads added
      intro node member value read
      rcases List.mem_cons.mp member with rfl | later
      · exact here value read
      · obtain ⟨same, reached, kept, -⟩ := addReads_eq_ok ⟨start⟩ index here
        obtain rfl := Except.ok.inj (added.symm.trans reached)
        have known := ih done node later value read
        rwa [kept.has_eq] at known

-----------------------------------------------------------------------------------------
-- Tables of a graph
-----------------------------------------------------------------------------------------

/-- The tables of a graph without the reads. -/
def unread (graph : Graph) : Index :=
  { nodes := nodeEntries 0 graph.body
    values :=
      inputEntries (graph.inputs.zip graph.inputTypes) ++ resultEntries 0 graph.body
    nextNode := 0
    nextValue := 0 }

/-- The names of the nodes in a new session: their positions. -/
def positionIds (count : Nat) : List NodeId := (List.range count).map NodeId.mk

/-- The name that is listed at a position. -/
theorem getElem?_positionIds {count position : Nat} {id : NodeId}
    (listed : (positionIds count)[position]? = some id)
    : id = ⟨position⟩ := by
  rw [positionIds, List.getElem?_map] at listed
  obtain ⟨number, found, rfl⟩ := Option.map_eq_some_iff.mp listed
  obtain ⟨inside, rfl⟩ := List.getElem?_eq_some_iff.mp found
  simp

/-- Different positions have different names. -/
theorem positionIds_nodup (count : Nat) : (positionIds count).Nodup :=
  List.Nodup.map (fun _ _ same => congrArg NodeId.number same) List.nodup_range

/-- The names in the table of a body are the positions. -/
theorem keys_nodeEntries (body : List Node)
    : Table.keys (nodeEntries 0 body) = positionIds body.length := by
  have positions : (body.zipIdx 0).map Prod.snd = List.range body.length := by
    rw [List.zipIdx_map_snd, List.range_eq_range']
  rw [positionIds, ← positions, Table.keys, nodeEntries, List.map_map, List.map_map]
  rfl

/-- The values in the table of some inputs are these inputs. -/
theorem keys_inputEntries {inputs : List ValueId} {types : List ValueType}
    (typed : inputs.length = types.length)
    : Table.keys (inputEntries (inputs.zip types)) = inputs := by
  rw [Table.keys, inputEntries, List.map_map]
  exact List.map_fst_zip typed.le

/-- The values in the table of a body are those that it produces. -/
theorem keys_resultEntries (start : Nat) (body : List Node)
    : Table.keys (resultEntries start body) = body.map (·.value) := by
  have nodes : (body.zipIdx start).map Prod.fst = body := List.zipIdx_map_fst start body
  rw [Table.keys, resultEntries, List.map_map]
  conv_rhs => rw [← nodes, List.map_map]
  rfl

/-- The values in the table of a graph are those that it defines. -/
theorem keys_unread {graph : Graph} (typed : graph.inputs.length = graph.inputTypes.length)
    : Table.keys (unread graph).values = graph.defined := by
  have split
      : Table.keys (unread graph).values
        = Table.keys (inputEntries (graph.inputs.zip graph.inputTypes))
          ++ Table.keys (resultEntries 0 graph.body) :=
    List.map_append
  rw [split, keys_inputEntries typed, keys_resultEntries]
  rfl

/-- The first two stages of building: all nodes are added iff no value is defined twice. -/
theorem addInputs_addNodes_eq_ok_iff {graph : Graph} {after : Index}
    (typed : graph.inputs.length = graph.inputTypes.length)
    : (addInputs ⟨[], [], 0, 0⟩ (graph.inputs.zip graph.inputTypes)
          >>= fun index => index.addNodes 0 graph.body) = .ok after
      ↔ graph.defined.Nodup ∧ after = unread graph := by
  have inputKeys := keys_inputEntries typed
  have empty : (Table.keys ([] : Table ValueId ValueEntry)).Nodup := List.nodup_nil
  have inputsAdded
      : ∀ {middle : Index},
          addInputs ⟨[], [], 0, 0⟩ (graph.inputs.zip graph.inputTypes) = .ok middle
          ↔ graph.inputs.Nodup
            ∧ middle = ⟨[], inputEntries (graph.inputs.zip graph.inputTypes), 0, 0⟩ := by
    intro middle
    refine (addInputs_eq_ok_iff (show (Table.keys (Index.mk [] [] 0 0).values).Nodup from
      empty)).trans ?_
    rw [List.map_fst_zip typed.le]
    rfl
  have nodesAdded
      : graph.inputs.Nodup
        → ((addNodes ⟨[], inputEntries (graph.inputs.zip graph.inputTypes), 0, 0⟩ 0 graph.body
              = .ok after)
          ↔ graph.defined.Nodup ∧ after = unread graph) := by
    intro distinct
    refine (addNodes_eq_ok_iff (by rw [inputKeys]; exact distinct) (by simp [Table.keys])).trans ?_
    rw [inputKeys]
    rfl
  rw [Steps.bind_eq_ok_iff]
  constructor
  · rintro ⟨middle, added, done⟩
    obtain ⟨distinct, rfl⟩ := inputsAdded.mp added
    exact (nodesAdded distinct).mp done
  · rintro ⟨distinct, rfl⟩
    have inputs := (List.nodup_append.mp distinct).1
    exact ⟨_, inputsAdded.mpr ⟨inputs, rfl⟩, (nodesAdded inputs).mpr ⟨distinct, rfl⟩⟩

/-- Without reads, the tables of a graph have its nodes and values in place. -/
theorem unread_places {graph : Graph} (distinct : graph.defined.Nodup)
    (typed : graph.inputs.length = graph.inputTypes.length)
    : (unread graph).Places graph (positionIds graph.body.length) := by
  have nodeKeys := keys_nodeEntries graph.body
  have valueKeys := keys_unread typed
  have idsDistinct := positionIds_nodup graph.body.length
  refine ⟨by simp [positionIds], idsDistinct, nodeKeys ▸ List.Perm.refl _, ?_, distinct,
    valueKeys ▸ List.Perm.refl _, typed, ?_, ?_⟩
  · intro position id node listed found
    obtain rfl := getElem?_positionIds listed
    refine ⟨0, Table.get?_of_mem (nodeKeys ▸ idsDistinct)
      (List.mem_map.mpr ⟨(node, position), ?_, rfl⟩)⟩
    exact List.mk_mem_zipIdx_iff_getElem?.mpr found
  · intro value type member
    refine ⟨[], Table.get?_of_mem (valueKeys ▸ distinct) (List.mem_append_left _ ?_)⟩
    exact List.mem_map.mpr ⟨(value, type), member, rfl⟩
  · intro position id node listed found
    obtain rfl := getElem?_positionIds listed
    refine ⟨[], Table.get?_of_mem (valueKeys ▸ distinct) (List.mem_append_right _ ?_)⟩
    exact List.mem_map.mpr ⟨(node, position), List.mk_mem_zipIdx_iff_getElem?.mpr found, rfl⟩

/-- Nothing is read in the tables without reads. -/
theorem readers_unread (graph : Graph) (value : ValueId) : (unread graph).readers value = [] := by
  cases found : (unread graph).values.get? value with
  | none => exact readers_of_none found
  | some entry =>
      rw [readers_of_get? found]
      rcases List.mem_append.mp (Table.mem_of_get? found) with input | result
      · obtain ⟨_, -, same⟩ := List.mem_map.mp input
        exact (congrArg (·.2.readers) same).symm
      · obtain ⟨_, -, same⟩ := List.mem_map.mp result
        exact (congrArg (·.2.readers) same).symm

/-- The first free number is above all values, by induction on the table. -/
theorem lt_firstFree {values : Table ValueId ValueEntry} {value : ValueId}
    (member : value ∈ Table.keys values)
    : value.number < firstFree values := by
  have grows
      : ∀ (values : Table ValueId ValueEntry) (next : Nat),
          next ≤ values.foldl (fun next entry => max next (entry.1.number + 1)) next
          ∧ ∀ value ∈ Table.keys values,
              value.number
              < values.foldl (fun next entry => max next (entry.1.number + 1)) next := by
    intro values
    induction values with
    | nil => simp [Table.keys]
    | cons first rest ih =>
        intro next
        obtain ⟨least, above⟩ := ih (max next (first.1.number + 1))
        refine ⟨(Nat.le_max_left _ _).trans least, ?_⟩
        intro value member
        rcases List.mem_cons.mp member with rfl | later
        · exact Nat.lt_of_lt_of_le (Nat.lt_of_succ_le (Nat.le_max_right _ _)) least
        · exact above value later
  exact (grows values 0).2 value member

/-- The tables of a graph that defines what it needs describe it. Witness: the tables without
reads, with the reads of all nodes added.
-/
theorem build_eq_ok {graph : Graph} (closed : graph.Closed)
    (typed : graph.inputs.length = graph.inputTypes.length)
    : ∃ index,
        build graph = .ok index
        ∧ index.Describes graph (positionIds graph.body.length)
        ∧ index.nextNode = graph.body.length := by
  have places := unread_places closed.distinct typed
  have nodesAdded := (addInputs_addNodes_eq_ok_iff typed).mpr ⟨closed.distinct, rfl⟩
  obtain ⟨after, readsAdded, kept, others, slots⟩ :=
    addBodyReads_eq_ok (unread graph) 0 fun node member value read =>
      places.has_iff.mpr (closed.readsKnown member value read)
  have shown : (graph.outputs.find? fun value => !after.values.has value) = none := by
    refine List.find?_eq_none.mpr ?_
    intro value output
    rw [kept.has_eq, places.has_iff.mpr (closed.outputsKnown value output)]
    simp
  refine ⟨{ after with nextNode := graph.body.length, nextValue := firstFree after.values }, ?_, ?_,
    rfl⟩
  · obtain ⟨middle, inputsAdded, nodesAdded⟩ := Steps.bind_eq_ok_iff.mp nodesAdded
    simp only [build, Steps.bind_eq_ok_iff]
    exact ⟨middle, inputsAdded, unread graph, nodesAdded, after, readsAdded, by rw [shown]⟩
  · have final := places.change kept rfl rfl rfl
    refine ⟨⟨final.length, final.idsDistinct, final.nodeKeys, final.node, final.valuesDistinct,
      final.valueKeys, final.inputsTyped, final.input, final.produced⟩, ?_, ?_,
      closed.readsKnown, closed.outputsKnown, ?_, ?_⟩
    · intro position id node listed found value
      obtain rfl := getElem?_positionIds listed
      have count := slots found value
      rw [readers_unread, List.count_nil, Nat.zero_add, Nat.zero_add] at count
      exact count
    · intro value id member
      by_contra absent
      have positive : 0 < (after.readers value).count id := List.count_pos_iff.mpr member
      rw [others value id, readers_unread, List.count_nil] at positive
      · exact Nat.lt_irrefl 0 positive
      · intro position inside same
        refine absent (List.mem_map.mpr ⟨position, List.mem_range.mpr inside, ?_⟩)
        rw [same, Nat.zero_add]
    · intro id member
      obtain ⟨position, inside, rfl⟩ := List.mem_map.mp member
      exact List.mem_range.mp inside
    · intro value member
      refine lt_firstFree ?_
      rw [kept.valueKeys, places.valueKeys.mem_iff]
      exact member

/-- Only a graph that defines what it needs has tables. -/
theorem closed_of_build {graph : Graph} {index : Index} (built : build graph = .ok index)
    (typed : graph.inputs.length = graph.inputTypes.length)
    : graph.Closed := by
  rw [build] at built
  simp only [Steps.bind_eq_ok_iff] at built
  obtain ⟨withInputs, inputsAdded, withNodes, nodesAdded, withReads, readsAdded, built⟩ := built
  obtain ⟨distinct, rfl⟩ := (addInputs_addNodes_eq_ok_iff typed).mp
    (Steps.bind_eq_ok_iff.mpr ⟨withInputs, inputsAdded, nodesAdded⟩)
  have places : (unread graph).Places graph (positionIds graph.body.length) :=
    unread_places distinct typed
  have known := known_of_addBodyReads readsAdded
  refine ⟨distinct, ?_, ?_⟩
  · intro node member value read
    exact places.has_iff.mp (known node member value read)
  · obtain ⟨after, reached, kept, -⟩ := addBodyReads_eq_ok (unread graph) 0 known
    obtain rfl := Except.ok.inj (readsAdded.symm.trans reached)
    intro value output
    refine places.has_iff.mp ?_
    rw [← kept.has_eq]
    by_contra missing
    have absent := List.find?_eq_none.mp (by
      split at built
      · simp at built
      · assumption) value output
    simp [missing] at absent

end Index

end Dataflow
