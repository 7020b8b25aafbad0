import Dataflow.Proofs.Rewrite.Building
import Dataflow.Proofs.Rewrite.Edits
import Mathlib.Data.List.Basic
import Mathlib.Data.List.Count
import Mathlib.Data.List.Perm.Basic

/-!
Sequences of edits. Whatever edits are tried in a session, and whether they succeed or fail, the
tables agree with the ones that are built anew from the graph, and a name keeps belonging to the
node with the same value until that node is erased.
-/

namespace Dataflow

-----------------------------------------------------------------------------------------
-- Agreement
-----------------------------------------------------------------------------------------

/-- Tables of a graph agree with others up to the names and versions of nodes and the order of
readers.
-/
structure Index.AgreesWith (index rebuilt : Index) (graph : Graph) : Prop where
  /-- Every node stands in the body, -/
  positionsInside
    : ∀ {id : NodeId} {position : Nat},
        index.position? id = some position → position < graph.body.length
  /-- exactly one node stands at each position, -/
  positionsNamed
    : ∀ position < graph.body.length, ∃! id, index.position? id = some position
  /-- and it is there under the value that it has in the table. -/
  values
    : ∀ {id : NodeId} {entry : NodeEntry},
        index.nodes.get? id = some entry
        → ∃ node, graph.body[entry.position]? = some node ∧ node.value = entry.value
  defined : ∀ value, index.values.has value = rebuilt.values.has value
  types : ∀ value, index.type? value = rebuilt.type? value
  inputs : ∀ value, index.isInput value = rebuilt.isInput value
  producers
    : ∀ value,
        (index.producer? value).map index.position?
        = (rebuilt.producer? value).map rebuilt.position?
  readers
    : ∀ value,
        ((index.readers value).map index.position?).Perm
          ((rebuilt.readers value).map rebuilt.position?)
  liveReaders : ∀ {value : ValueId} {id : NodeId}, id ∈ index.readers value → index.contains id
  /-- A node is a reader of a value once for each operand that reads it. -/
  slots
    : ∀ {id : NodeId} {position : Nat} {node : Node},
        index.position? id = some position
        → graph.body[position]? = some node
        → ∀ value, (index.readers value).count id = node.operands.count (.value value)

namespace Index.Describes

variable {index rebuilt : Index} {graph : Graph} {ids names : List NodeId}

/-- A node reads a value as often as its operands are that value. -/
theorem count_reads (node : Node) (value : ValueId)
    : node.reads.count value = node.operands.count (.value value) := by
  rw [Node.reads]
  induction node.operands with
  | nil => rfl
  | cons first rest ih =>
      cases first with
      | literal literal =>
          rw [List.filterMap_cons_none rfl, ih, List.count_cons_of_ne (by simp)]
      | value other =>
          change (other :: rest.filterMap Operand.value?).count value = _
          rw [List.count_cons, List.count_cons, ih]
          simp

/-- What is known about a value: nothing, the type of an input, or the type and the producer at
some position.
-/
theorem value_cases (described : index.Describes graph ids) (value : ValueId)
    : value ∉ graph.defined ∧ index.values.get? value = none
      ∨ (∃ type, (value, type) ∈ graph.inputs.zip graph.inputTypes)
      ∨ ∃ (position : Nat) (node : Node),
          graph.body[position]? = some node ∧ node.value = value := by
  by_cases known : value ∈ graph.defined
  · rcases Places.defined_cases known with ⟨place, input⟩ | produced
    · refine .inr (.inl ?_)
      obtain ⟨inside, rfl⟩ := List.getElem?_eq_some_iff.mp input
      have typed : place < graph.inputTypes.length := described.inputsTyped ▸ inside
      refine ⟨graph.inputTypes[place], List.mem_iff_getElem?.mpr ⟨place, ?_⟩⟩
      simp [inside, typed]
    · exact .inr (.inr produced)
  · exact .inl ⟨known, described.get?_eq_none_iff.mpr known⟩

/-- How often a position is among those of the readers of a value. -/
theorem count_reader_positions (described : index.Describes graph ids) (value : ValueId)
    {position : Nat} {node : Node} (found : graph.body[position]? = some node)
    : ((index.readers value).map index.position?).count (some position)
      = node.reads.count value := by
  obtain ⟨id, listed⟩ := described.exists_id found
  rw [← described.slots listed found value, List.count, List.countP_map, List.count]
  refine List.countP_congr ?_
  intro reader _
  simp only [Function.comp_apply, beq_iff_eq]
  rw [described.position?_eq_some_iff, listed]
  exact ⟨fun same => (Option.some.inj same).symm, fun same => same ▸ rfl⟩

/-- Readers stand in the body. -/
theorem exists_reader_position (described : index.Describes graph ids) {value : ValueId}
    {place : Option Nat} (member : place ∈ (index.readers value).map index.position?)
    : ∃ position node, place = some position ∧ graph.body[position]? = some node := by
  obtain ⟨id, read, rfl⟩ := List.mem_map.mp member
  obtain ⟨position, node, listed, found⟩ := described.exists_node (described.liveReaders read)
  exact ⟨position, node, described.position?_eq_some_iff.mpr listed, found⟩

/-- Two tables that describe one graph agree. -/
theorem agrees (described : index.Describes graph ids) (other : rebuilt.Describes graph names)
    : index.AgreesWith rebuilt graph := by
  have entries
      : ∀ value,
          index.values.get? value = none ∧ rebuilt.values.get? value = none
          ∨ (∃ type readers others,
              index.values.get? value = some ⟨type, none, readers⟩
              ∧ rebuilt.values.get? value = some ⟨type, none, others⟩)
          ∨ ∃ (position : Nat) (id name : NodeId) (type : ValueType) (readers others : List NodeId),
              ids[position]? = some id ∧ names[position]? = some name
              ∧ index.values.get? value = some ⟨type, some id, readers⟩
              ∧ rebuilt.values.get? value = some ⟨type, some name, others⟩ := by
    intro value
    rcases described.value_cases value with
      ⟨missing, absent⟩ | ⟨type, input⟩ | ⟨position, node, found, rfl⟩
    · exact .inl ⟨absent, other.get?_eq_none_iff.mpr missing⟩
    · obtain ⟨readers, entry⟩ := described.input input
      obtain ⟨others, rebuiltEntry⟩ := other.input input
      exact .inr (.inl ⟨type, readers, others, entry, rebuiltEntry⟩)
    · obtain ⟨id, listed⟩ := described.exists_id found
      obtain ⟨name, named⟩ := other.exists_id found
      obtain ⟨readers, entry⟩ := described.produced listed found
      obtain ⟨others, rebuiltEntry⟩ := other.produced named found
      exact .inr (.inr ⟨position, id, name, node.type, readers, others, listed, named, entry,
        rebuiltEntry⟩)
  refine ⟨?_, ?_, ?_, ?_, ?_, ?_, ?_, ?_, ?_, ?_⟩
  · intro id position placed
    have listed := described.position?_eq_some_iff.mp placed
    exact described.length ▸ (List.getElem?_eq_some_iff.mp listed).1
  · intro position inside
    obtain ⟨id, listed⟩ := described.exists_id (List.getElem?_eq_getElem inside)
    refine ⟨id, described.position?_eq_some_iff.mpr listed, ?_⟩
    intro second placed
    have same := described.position?_eq_some_iff.mp placed
    exact Option.some.inj (same.symm.trans listed)
  · intro id entry found
    exact (described.at_position found).2
  · intro value
    rw [Bool.eq_iff_iff, described.has_iff, other.has_iff]
  · intro value
    rcases entries value with ⟨first, second⟩ | ⟨_, _, _, first, second⟩
      | ⟨_, _, _, _, _, _, -, -, first, second⟩
    · rw [type?, type?, first, second]
    · rw [type?, type?, first, second]
      rfl
    · rw [type?, type?, first, second]
      rfl
  · intro value
    rcases entries value with ⟨first, second⟩ | ⟨_, _, _, first, second⟩
      | ⟨_, _, _, _, _, _, -, -, first, second⟩
    · rw [isInput, isInput, first, second]
    · rw [isInput, isInput, first, second]
    · rw [isInput, isInput, first, second]
      rfl
  · intro value
    rcases entries value with ⟨first, second⟩ | ⟨_, _, _, first, second⟩
      | ⟨position, id, name, _, _, _, listed, named, first, second⟩
    · rw [producer?, producer?, first, second]
      rfl
    · rw [producer?, producer?, first, second]
      rfl
    · rw [producer?, producer?, first, second]
      change some (index.position? id) = some (rebuilt.position? name)
      rw [described.position?_eq_some_iff.mpr listed, other.position?_eq_some_iff.mpr named]
  · intro value
    refine List.perm_iff_count.mpr ?_
    intro place
    by_cases inside : ∃ position node, place = some position ∧ graph.body[position]? = some node
    · obtain ⟨position, node, rfl, found⟩ := inside
      rw [described.count_reader_positions value found, other.count_reader_positions value found]
    · rw [List.count_eq_zero.mpr fun member => inside (described.exists_reader_position member),
        List.count_eq_zero.mpr fun member => inside (other.exists_reader_position member)]
  · intro value id read
    rw [contains, Table.has_iff, described.nodeKeys.mem_iff]
    exact described.liveReaders read
  · intro id position node placed found value
    rw [← count_reads]
    exact described.slots (described.position?_eq_some_iff.mp placed) found value

end Index.Describes

-----------------------------------------------------------------------------------------
-- Steps
-----------------------------------------------------------------------------------------

/-- The session behind an edit, whether the edit succeeds or fails. -/
def Session.behind {α : Type} : EStateM.Result GraphError Session α → Session
  | .ok _ session => session
  | .error _ session => session

/-- An edit with its arguments. -/
inductive EditStep where
  | replace (source target : ValueId)
  | erase (id : NodeId)
  | insertBefore (before : NodeId) (operation : Operation) (operands : List Operand)
  | insertConstant (before : NodeId) (literal : Literal)
  | setOperation (id : NodeId) (operation : Operation)
  | sort
  | bump (id : NodeId)

namespace EditStep

/-- The edit of a step. -/
def edit : EditStep → Edit Unit
  | .replace source target => Session.replace source target
  | .erase id => Session.erase id
  | .insertBefore before operation operands => do
    let _ ← Session.insertBefore before operation operands
  | .insertConstant before literal => do
    let _ ← Session.insertConstant before literal
  | .setOperation id operation => Session.setOperation id operation
  | .sort => Session.sort
  | .bump id => Session.bump id

/-- The session behind a step, whether the step succeeds or fails. -/
def after (step : EditStep) (session : Session) : Session := Session.behind (step.edit session)

/-- Whether a step erases a node: it asks for that, and it succeeds. -/
def erases (step : EditStep) (session : Session) (id : NodeId) : Bool :=
  match step, step.edit session with
  | .erase erased, .ok _ _ => erased = id
  | _, _ => false

/-- The session behind some steps. -/
def run (steps : List EditStep) (session : Session) : Session :=
  steps.foldl (fun session step => step.after session) session

/-- Whether one of some steps erases a node. -/
def erasesIn : List EditStep → Session → NodeId → Bool
  | [], _, _ => false
  | step :: rest, session, id => step.erases session id || erasesIn rest (step.after session) id

end EditStep

-----------------------------------------------------------------------------------------
-- What a step keeps
-----------------------------------------------------------------------------------------

namespace Session

variable {session next : Session} {ids names : List NodeId}

/-- The value under which a node is known. -/
def valueOf? (session : Session) (id : NodeId) : Option ValueId :=
  (session.node? id).map (·.value)

/-- What holds behind a step: the tables still describe the graph, no name is used again, and the
nodes that were not erased keep their values.
-/
structure Follows (session next : Session) (erased : NodeId → Prop) : Prop where
  described : ∃ ids, next.Described ids
  namesGrow : session.index.nextNode ≤ next.index.nextNode
  kept
    : ∀ {id : NodeId},
        id.number < session.index.nextNode
        → ¬ erased id
        → next.valueOf? id = session.valueOf? id
  gone
    : ∀ {id : NodeId},
        erased id → id.number < next.index.nextNode ∧ next.valueOf? id = none

/-- A change that erases no node. -/
abbrev FollowsInFull (session next : Session) : Prop := session.Follows next fun _ => False

/-- A session without a change follows itself. -/
theorem FollowsInFull.refl (described : session.Described ids) : session.FollowsInFull session :=
  ⟨⟨ids, described⟩, Nat.le_refl _, fun _ _ => rfl, False.elim⟩

/-- Changes that erase no node follow each other. -/
theorem FollowsInFull.trans {middle : Session} (first : session.FollowsInFull middle)
    (second : middle.FollowsInFull next)
    : session.FollowsInFull next := by
  refine ⟨second.described, first.namesGrow.trans second.namesGrow, ?_, False.elim⟩
  intro id below stays
  rw [second.kept (Nat.lt_of_lt_of_le below first.namesGrow) stays, first.kept below stays]

/-- A change that erases no node may be said to erase those of which there are none. -/
theorem FollowsInFull.follows (full : session.FollowsInFull next) {erased : NodeId → Prop}
    (none : ∀ id, ¬ erased id)
    : session.Follows next erased :=
  ⟨full.described, full.namesGrow, fun below _ => full.kept below id, fun gone =>
    absurd gone (none _)⟩

/-- A name that is not listed belongs to no value. -/
theorem valueOf?_of_not_mem (described : session.Described ids) {id : NodeId} (absent : id ∉ ids)
    : session.valueOf? id = none := by
  rw [valueOf?, Option.map_eq_none_iff, Option.eq_none_iff_forall_ne_some]
  intro node found
  exact absent ((mem_ids_iff described).mpr ⟨node, found⟩)

/-- A node keeps its value, if it stays and stood in the old body with the value that it has in the
new one.
-/
theorem valueOf?_eq (described : session.Described ids) (after : next.Described names)
    {id : NodeId} (members : id ∈ names ↔ id ∈ ids)
    (back
      : ∀ {position : Nat} {node : Node},
          names[position]? = some id
          → next.graph.body[position]? = some node
          → ∃ (place : Nat) (old : Node),
              ids[place]? = some id ∧ session.graph.body[place]? = some old
              ∧ old.value = node.value)
    : next.valueOf? id = session.valueOf? id := by
  by_cases member : id ∈ names
  · obtain ⟨position, node, listed, found⟩ := after.exists_node member
    obtain ⟨place, old, wasListed, stood, same⟩ := back listed found
    rw [valueOf?, valueOf?, (node?_of_listed after listed found).2,
      (node?_of_listed described wasListed stood).2, Option.map_some, Option.map_some, same]
  · rw [valueOf?_of_not_mem after member, valueOf?_of_not_mem described (members.not.mp member)]

/-- A change that keeps all names and all values of the body keeps the value of each node. -/
theorem FollowsInFull.of_values (described : session.Described ids) (after : next.Described ids)
    (names : next.index.nextNode = session.index.nextNode)
    (values : next.graph.body.map (·.value) = session.graph.body.map (·.value))
    : session.FollowsInFull next := by
  refine ⟨⟨ids, after⟩, names.ge, ?_, False.elim⟩
  intro id _ _
  refine valueOf?_eq described after Iff.rfl ?_
  intro position node listed found
  have there := congrArg (·[position]?) values
  simp only [List.getElem?_map, found, Option.map_some] at there
  obtain ⟨old, stood, same⟩ := Option.map_eq_some_iff.mp there.symm
  exact ⟨position, old, listed, stood, same⟩

/-- Sorting keeps the value of each node. -/
theorem sort_follows (described : session.Described ids)
    : session.FollowsInFull (behind (sort session)) := by
  rcases sort_cases described with ⟨error, -, failed⟩ | ⟨order, next, sorted, done, graph, after, same⟩
  · rw [failed]
    exact FollowsInFull.refl described
  · rw [done]
    have all := Graph.sortedPositions_perm sorted
    have names : (order.filterMap (ids[·]?)).Perm ids :=
      Graph.filterMap_getElem?_perm (described.length ▸ all)
    refine ⟨⟨_, after⟩, same.ge, ?_, False.elim⟩
    intro id _ _
    refine valueOf?_eq described after names.mem_iff ?_
    intro position node listed found
    change next.graph.body[position]? = some node at found
    rw [graph] at found
    obtain ⟨place, -, wasListed, stood⟩ :=
      Index.Places.exists_placed described.length all listed found
    exact ⟨place, node, wasListed, stood, rfl⟩

/-- Behind a replacement, the session is as it was, or all readers are redirected, or the outputs
are too; then the body may have been sorted.
-/
theorem replace_cases (described : session.Described ids) (source target : ValueId)
    : behind (replace source target session) = session
      ∨ ∃ middle,
          middle.graph
            = { session.graph with
                body := session.graph.body.map (redirectNode source target) }
          ∧ middle.Described ids
          ∧ Index.SameNames session.index middle.index
          ∧ (behind (replace source target session) = middle
            ∨ ∃ type outputs outputTypes,
                redirectOutputs source target type session.graph.outputs
                    session.graph.outputTypes
                  = some (outputs, outputTypes)
                ∧ Described ⟨{ middle.graph with outputs, outputTypes }, middle.index⟩ ids
                ∧ (behind (replace source target session)
                    = ⟨{ middle.graph with outputs, outputTypes }, middle.index⟩
                  ∨ behind (replace source target session)
                    = behind (sort ⟨{ middle.graph with outputs, outputTypes },
                        middle.index⟩))) := by
  by_cases same : source = target
  · exact .inl (by rw [replace, if_pos same]; rfl)
  rcases replace_unknown_or session same with
    ⟨value, failed⟩ | ⟨sourceType, targetType, knownSource, knownTarget⟩
  · exact .inl (by rw [failed]; rfl)
  obtain ⟨middle, changed, after, names, result⟩ :=
    replace_apply described same knownSource knownTarget
  rw [result]
  by_cases unfit : (!sourceType.compatibleWith targetType) = true
  · exact .inl (by rw [if_pos unfit]; rfl)
  rw [if_neg unfit]
  by_cases depends : session.dependsOn target source = true
  · exact .inl (by rw [if_pos depends]; rfl)
  rw [if_neg depends]
  refine .inr ⟨middle, changed, after, names, ?_⟩
  cases redirected : redirectOutputs source target targetType session.graph.outputs
      session.graph.outputTypes with
  | none => exact .inl rfl
  | some pair =>
      obtain ⟨outputs, outputTypes⟩ := pair
      have outputsKnown := known_of_redirectOutputs described changed
        (defined_of_type? described knownTarget) redirected
      refine .inr ⟨targetType, outputs, outputTypes, redirected,
        after.withOutputs outputTypes outputsKnown, ?_⟩
      dsimp only
      split_ifs
      · exact .inr rfl
      · exact .inl rfl

/-- Replacing a value keeps the value of each node. -/
theorem replace_follows (described : session.Described ids) (source target : ValueId)
    : session.FollowsInFull (behind (replace source target session)) := by
  rcases replace_cases described source target with same | ⟨middle, changed, after, names, ends⟩
  · rw [same]
    exact FollowsInFull.refl described
  have values : middle.graph.body.map (·.value) = session.graph.body.map (·.value) := by
    rw [changed]
    dsimp only
    rw [List.map_map]
    rfl
  rcases ends with same | ⟨type, outputs, outputTypes, -, shown, same | same⟩
  · rw [same]
    exact FollowsInFull.of_values described after names.nextNode values
  · rw [same]
    exact FollowsInFull.of_values described shown names.nextNode values
  · rw [same]
    exact (FollowsInFull.of_values described shown names.nextNode values).trans (sort_follows shown)

/-- Inserting a node keeps the value of each node. -/
theorem insertBefore_follows (described : session.Described ids) (before : NodeId)
    (operation : Operation) (operands : List Operand)
    : session.FollowsInFull (behind (insertBefore before operation operands session)) := by
  rcases insertBefore_cases described before operation operands with
    ⟨error, failed⟩ | ⟨position, types, type, next, listed, known, typed, graph, after, names, done⟩
  · rw [failed]
    exact FollowsInFull.refl described
  · rw [done]
    obtain ⟨inside, -⟩ := List.getElem?_eq_some_iff.mp listed
    have members := List.perm_insertIdx (⟨session.index.nextNode⟩ : NodeId) ids inside.le
    refine ⟨⟨_, after⟩, names ▸ Nat.le_succ _, ?_, False.elim⟩
    intro id below _
    have old : id ≠ ⟨session.index.nextNode⟩ := by
      rintro rfl
      exact Nat.lt_irrefl _ below
    refine valueOf?_eq described after ?_ ?_
    · rw [members.mem_iff, List.mem_cons]
      exact or_iff_right old
    · intro place node placed found
      change next.graph.body[place]? = some node at found
      rw [graph] at found
      rcases Index.Describes.insertIdx_cases described.length (described.length ▸ inside.le)
        placed found with ⟨-, new, -⟩ | ⟨was, wasListed, stood, -⟩
      · exact absurd new old
      · exact ⟨was, node, wasListed, stood, rfl⟩

/-- Erasing a node keeps the value of each other node. -/
theorem erase_follows (described : session.Described ids) (id : NodeId)
    : session.Follows (behind (erase id session)) fun other =>
        (EditStep.erase id).erases session other = true := by
  rcases erase_cases described id with
    ⟨error, failed⟩ | ⟨position, node, listed, found, unread, hidden, done⟩
  · rw [failed]
    refine (FollowsInFull.refl described).follows ?_
    intro other
    simp [EditStep.erases, EditStep.edit, failed]
  · have erased
        : ∀ other, (EditStep.erase id).erases session other = true ↔ id = other := by
      intro other
      simp [EditStep.erases, EditStep.edit, done]
    rw [done]
    obtain ⟨after, names⟩ := described.remove listed found unread hidden
    have members := Index.Describes.eraseIdx_perm listed
    obtain ⟨absent, -⟩ := List.nodup_cons.mp (members.nodup_iff.mp described.idsDistinct)
    refine ⟨⟨_, after⟩, names.ge, ?_, ?_⟩
    · intro other _ stays
      have differs : other ≠ id := fun same => stays ((erased other).mpr same.symm)
      refine valueOf?_eq described after ?_ ?_
      · rw [members.mem_iff, List.mem_cons]
        exact (or_iff_right differs).symm
      · intro place kept placed stands
        obtain ⟨old, wasListed, stood, -⟩ := Index.Describes.eraseIdx_cases placed stands
        exact ⟨old, kept, wasListed, stood, rfl⟩
    · intro other gone
      obtain rfl := (erased other).mp gone
      exact ⟨names ▸ described.nodesBelow id (List.mem_of_getElem? listed),
        valueOf?_of_not_mem after absent⟩

/-- Changing an operation keeps the value of each node. -/
theorem setOperation_follows (described : session.Described ids) (id : NodeId)
    (operation : Operation)
    : session.FollowsInFull (behind (setOperation id operation session)) := by
  rcases setOperation_cases described id operation with
    ⟨error, failed⟩ | ⟨position, node, types, type, listed, found, -, -, -, done⟩
  · rw [failed]
    exact FollowsInFull.refl described
  · rw [done]
    have after := (described.retype found operation type).bump id
    exact FollowsInFull.of_values described after rfl (Index.map_modify _ _ fun _ => rfl)

/-- Marking a node as changed keeps the value of each node. -/
theorem bump_follows (described : session.Described ids) (id : NodeId)
    : session.FollowsInFull (behind (bump id session)) :=
  FollowsInFull.of_values described (described.bump id) rfl rfl

end Session

-----------------------------------------------------------------------------------------
-- Runs
-----------------------------------------------------------------------------------------

namespace EditStep

variable {session : Session} {ids : List NodeId}

/-- A step that inserts a node leaves behind what the insertion does. -/
theorem behind_insertBefore (before : NodeId) (operation : Operation) (operands : List Operand)
    : Session.behind
          ((do let _ ← Session.insertBefore before operation operands : Edit Unit) session)
      = Session.behind (Session.insertBefore before operation operands session) := by
  cases done : Session.insertBefore before operation operands session with
  | ok value next => rw [Session.bind_of_ok done]; rfl
  | error error next => rw [Session.bind_of_error done]; rfl

/-- A step keeps the description and the values of all nodes that it does not erase, by cases on
the step.
-/
theorem after_follows (described : session.Described ids) (step : EditStep)
    : session.Follows (step.after session) fun id => step.erases session id = true := by
  cases step with
  | replace source target =>
      exact (Session.replace_follows described source target).follows fun _ => Bool.false_ne_true
  | erase id => exact Session.erase_follows described id
  | insertBefore before operation operands =>
      have follows := Session.insertBefore_follows described before operation operands
      rw [← behind_insertBefore] at follows
      exact follows.follows fun _ => Bool.false_ne_true
  | insertConstant before literal =>
      have follows := Session.insertBefore_follows described before (.constant literal) []
      rw [← behind_insertBefore] at follows
      exact follows.follows fun _ => Bool.false_ne_true
  | setOperation id operation =>
      exact (Session.setOperation_follows described id operation).follows fun _ =>
        Bool.false_ne_true
  | sort => exact (Session.sort_follows described).follows fun _ => Bool.false_ne_true
  | bump id => exact (Session.bump_follows described id).follows fun _ => Bool.false_ne_true

/-- Steps keep the description and the values of all nodes that none of them erases, and a node
that one of them erases does not come back, by induction on the steps.
-/
theorem run_follows (described : session.Described ids) (steps : List EditStep)
    : session.Follows (run steps session) fun id => erasesIn steps session id = true := by
  induction steps generalizing session ids with
  | nil => exact (Session.FollowsInFull.refl described).follows fun _ => Bool.false_ne_true
  | cons step rest ih =>
      have first := after_follows described step
      obtain ⟨names, after⟩ := first.described
      have later := ih after
      change session.Follows (run rest (step.after session)) _
      refine ⟨later.described, first.namesGrow.trans later.namesGrow, ?_, ?_⟩
      · intro id below stays
        rw [erasesIn, Bool.or_eq_true] at stays
        obtain ⟨here, there⟩ := not_or.mp stays
        rw [later.kept (Nat.lt_of_lt_of_le below first.namesGrow) there, first.kept below here]
      · intro id erased
        rw [erasesIn, Bool.or_eq_true] at erased
        by_cases again : erasesIn rest (step.after session) id = true
        · exact later.gone again
        · obtain ⟨below, none⟩ := first.gone (erased.resolve_right again)
          exact ⟨Nat.lt_of_lt_of_le below later.namesGrow, by rw [later.kept below again, none]⟩

/-- The session behind some steps and others is the one behind the others. -/
theorem run_append (earlier later : List EditStep) (session : Session)
    : run (earlier ++ later) session = run later (run earlier session) :=
  List.foldl_append

/-- A new session has tables that describe its graph, with the positions as names. -/
theorem described_of_start {graph : Graph} (started : Session.start graph = .ok session)
    (typed : graph.inputs.length = graph.inputTypes.length)
    : session.Described (Index.positionIds graph.body.length) := by
  obtain ⟨index, built, done⟩ := Steps.bind_eq_ok_iff.mp started
  obtain rfl := Except.ok.inj done
  obtain ⟨again, rebuilt, described, -⟩ :=
    Index.build_eq_ok (Index.closed_of_build built typed) typed
  obtain rfl := Except.ok.inj (built.symm.trans rebuilt)
  exact described

theorem exists_described_of_start {graph : Graph} (started : Session.start graph = .ok session)
    (typed : graph.inputs.length = graph.inputTypes.length)
    : ∃ ids, session.Described ids :=
  ⟨_, described_of_start started typed⟩

/-- Sessions can be started for the graphs of sessions. -/
theorem exists_start (described : session.Described ids)
    : ∃ fresh,
        Session.start session.graph = .ok fresh
        ∧ fresh.graph = session.graph
        ∧ fresh.Described (Index.positionIds session.graph.body.length) := by
  obtain ⟨index, built, again, -⟩ := Index.build_eq_ok described.closed described.inputsTyped
  exact ⟨⟨session.graph, index⟩, by rw [Session.start, built]; rfl, rfl, again⟩

/-- Whatever edits are tried in a session, and whether they succeed or fail, its tables agree with
those that are built anew from its graph. A node that exists behind some of the edits keeps its
name and its value until an edit erases it, and then the name stays unused.
-/
theorem run_agrees_with_build {graph : Graph} (started : Session.start graph = .ok session)
    (typed : graph.inputs.length = graph.inputTypes.length) (steps : List EditStep)
    : (∃ rebuilt,
          Index.build (run steps session).graph = .ok rebuilt
          ∧ (run steps session).index.AgreesWith rebuilt (run steps session).graph)
      ∧ ∀ {earlier later : List EditStep} {id : NodeId} {node : Node},
          steps = earlier ++ later
          → (run earlier session).node? id = some node
          → if erasesIn later (run earlier session) id then (run steps session).node? id = none
            else
              ∃ kept, (run steps session).node? id = some kept ∧ kept.value = node.value := by
  obtain ⟨ids, described⟩ := exists_described_of_start started typed
  constructor
  · obtain ⟨names, after⟩ := (run_follows described steps).described
    obtain ⟨rebuilt, built, again, -⟩ := Index.build_eq_ok after.closed after.inputsTyped
    exact ⟨rebuilt, built, after.agrees again⟩
  · rintro earlier later id node rfl found
    obtain ⟨names, middle⟩ := (run_follows described earlier).described
    have follows := run_follows middle later
    have below : id.number < (run earlier session).index.nextNode :=
      middle.nodesBelow id ((Session.mem_ids_iff middle).mpr ⟨node, found⟩)
    rw [run_append]
    split_ifs with erased
    · exact Option.map_eq_none_iff.mp (follows.gone erased).2
    · have kept := follows.kept below erased
      rw [Session.valueOf?, Session.valueOf?, found] at kept
      exact Option.map_eq_some_iff.mp kept

/-- A graph that negates its input twice. -/
def doubleNegation : Graph where
  name := "twice"
  inputTypes := [.tensor ⟨.si64, ⟨[.static 2]⟩⟩]
  inputs := [⟨0⟩]
  outputTypes := [.tensor ⟨.si64, ⟨[.static 2]⟩⟩]
  body :=
    [⟨⟨1⟩, .unary .neg, [.value ⟨0⟩], .tensor ⟨.si64, ⟨[.static 2]⟩⟩⟩,
      ⟨⟨2⟩, .unary .neg, [.value ⟨1⟩], .tensor ⟨.si64, ⟨[.static 2]⟩⟩⟩]
  outputs := [⟨2⟩]

/-- The session that edits `doubleNegation`. -/
def doubleNegationSession : Session where
  graph := doubleNegation
  index :=
    { nodes := [(⟨0⟩, ⟨⟨1⟩, 0, 0⟩), (⟨1⟩, ⟨⟨2⟩, 1, 0⟩)]
      values :=
        [(⟨0⟩, ⟨.tensor ⟨.si64, ⟨[.static 2]⟩⟩, none, [⟨0⟩]⟩),
          (⟨1⟩, ⟨.tensor ⟨.si64, ⟨[.static 2]⟩⟩, some ⟨0⟩, [⟨1⟩]⟩),
          (⟨2⟩, ⟨.tensor ⟨.si64, ⟨[.static 2]⟩⟩, some ⟨1⟩, []⟩)]
      nextNode := 2
      nextValue := 3 }

/-- The tables agree when the output of `doubleNegation` is replaced by its input and the nodes
are erased.
-/
theorem doubleNegation_agrees_with_build
    : Session.start doubleNegation = .ok doubleNegationSession
      ∧ doubleNegation.inputs.length = doubleNegation.inputTypes.length
      ∧ ∃ rebuilt,
          Index.build
              (run [.replace ⟨2⟩ ⟨0⟩, .erase ⟨1⟩, .erase ⟨0⟩] doubleNegationSession).graph
            = .ok rebuilt
          ∧ (run [.replace ⟨2⟩ ⟨0⟩, .erase ⟨1⟩, .erase ⟨0⟩] doubleNegationSession).index.AgreesWith
              rebuilt (run [.replace ⟨2⟩ ⟨0⟩, .erase ⟨1⟩, .erase ⟨0⟩] doubleNegationSession).graph :=
  have started : Session.start doubleNegation = .ok doubleNegationSession := rfl
  ⟨started, rfl, (run_agrees_with_build started rfl _).1⟩

end EditStep

end Dataflow
