import Dataflow.Proofs.Rewrite.Atomicity
import Mathlib.Data.Nat.ModEq

/-!
Versions of nodes. Every edit marks the nodes whose operation or operands it changes: a replacement
all readers that it redirects, a change of the operation this one node. The other edits change no
node, whatever they do to positions and names. So a node that has one version at two times of a
session computes the same at both, unless so many marks lie between them that the versions come
round again.
-/

namespace Dataflow

-----------------------------------------------------------------------------------------
-- Marks
-----------------------------------------------------------------------------------------

/-- Whether a replacement passes its checks, so that it redirects the readers. -/
def Session.redirects (session : Session) (source target : ValueId) : Bool :=
  match session.index.type? source, session.index.type? target with
  | some sourceType, some targetType =>
    source ≠ target && sourceType.compatibleWith targetType && !session.dependsOn target source
  | _, _ => false

namespace EditStep

/-- The nodes that a step marks as changed, whether it succeeds or fails. -/
def marks (step : EditStep) (session : Session) : List NodeId :=
  match step with
  | .replace source target =>
    if session.redirects source target then session.index.distinctReaders source else []
  | .setOperation id operation =>
    match Session.setOperation id operation session with
    | .ok _ _ => [id]
    | .error _ _ => []
  | .bump id => if session.index.contains id then [id] else []
  | .erase _ | .insertBefore .. | .insertConstant .. | .sort => []

/-- The nodes that some steps mark as changed, each one as often as it is marked. -/
def marksIn : List EditStep → Session → List NodeId
  | [], _ => []
  | step :: rest, session => step.marks session ++ marksIn rest (step.after session)

/-- The marks of some steps and others are those of the ones and those of the others behind them,
by induction on the first steps.
-/
theorem marksIn_append (earlier later : List EditStep) (session : Session)
    : marksIn (earlier ++ later) session
      = marksIn earlier session ++ marksIn later (run earlier session) := by
  induction earlier generalizing session with
  | nil => rfl
  | cons step rest ih =>
      rw [List.cons_append, marksIn, marksIn, ih, List.append_assoc]
      rfl

end EditStep

-----------------------------------------------------------------------------------------
-- Versions in the tables
-----------------------------------------------------------------------------------------

namespace Index

variable {index before middle after : Index} {graph : Graph} {ids : List NodeId}

/-- No name is used again, and the versions of the nodes that were there before and still are count
how often each of them is marked.
-/
structure CountsMarks (before after : Index) (marked : List NodeId) : Prop where
  namesGrow : before.nextNode ≤ after.nextNode
  versions
    : ∀ {id : NodeId} {later : Nat},
        id.number < before.nextNode
        → after.version? id = some later
        → ∃ earlier,
            before.version? id = some earlier
            ∧ later ≡ earlier + marked.count id [MOD versionLimit]

namespace CountsMarks

/-- Without marks, the nodes that were there before keep their versions. -/
theorem of_unmarked (namesGrow : before.nextNode ≤ after.nextNode)
    (same
      : ∀ {id : NodeId} {version : Nat},
          id.number < before.nextNode
          → after.version? id = some version
          → before.version? id = some version)
    : before.CountsMarks after [] :=
  ⟨namesGrow, fun below found => ⟨_, same below found, Nat.ModEq.refl _⟩⟩

/-- Tables with the same nodes have no marks between them. -/
theorem of_nodes (namesGrow : before.nextNode ≤ after.nextNode) (same : after.nodes = before.nodes)
    : before.CountsMarks after [] := by
  refine of_unmarked namesGrow fun _ found => ?_
  rwa [version?, ← same]

/-- Marks follow each other. -/
theorem trans {marked more : List NodeId} (first : before.CountsMarks middle marked)
    (second : middle.CountsMarks after more)
    : before.CountsMarks after (marked ++ more) := by
  refine ⟨first.namesGrow.trans second.namesGrow, ?_⟩
  intro id last below found
  obtain ⟨later, known, counted⟩ :=
    second.versions (Nat.lt_of_lt_of_le below first.namesGrow) found
  obtain ⟨earlier, known, started⟩ := first.versions below known
  refine ⟨earlier, known, ?_⟩
  rw [List.count_append, ← Nat.add_assoc]
  exact counted.trans (started.add_right _)

end CountsMarks

/-- Marking a node as changed raises its version. -/
theorem version?_bump (index : Index) (node other : NodeId)
    : (index.bump node).version? other
      = if node = other then (index.version? other).map fun version => (version + 1) % versionLimit
        else index.version? other := by
  rw [version?, bump, get?_modifyNode]
  split_ifs
  · rw [version?, Option.map_map, Option.map_map]
    rfl
  · rfl

/-- Marking a node as changed is one mark. -/
theorem CountsMarks.bump (index : Index) (id : NodeId)
    : index.CountsMarks (index.bump id) [id] := by
  refine ⟨Nat.le_refl _, ?_⟩
  intro other later _ found
  rw [version?_bump] at found
  by_cases same : id = other
  · rw [if_pos same] at found
    obtain ⟨earlier, known, rfl⟩ := Option.map_eq_some_iff.mp found
    refine ⟨earlier, known, ?_⟩
    rw [same, List.count_singleton_self]
    exact Nat.mod_modEq _ _
  · rw [if_neg same] at found
    refine ⟨later, found, ?_⟩
    rw [List.count_singleton, if_neg (by simpa using same)]
    exact Nat.ModEq.refl _

/-- Marking a node that does not exist is no mark. -/
theorem CountsMarks.bump_of_missing {id : NodeId} (missing : index.contains id = false)
    : index.CountsMarks (index.bump id) [] := by
  refine CountsMarks.of_unmarked (Nat.le_refl _) fun {other version} _ found => ?_
  rw [version?_bump] at found
  split_ifs at found with same
  · obtain ⟨earlier, known, -⟩ := Option.map_eq_some_iff.mp found
    obtain ⟨entry, present, -⟩ := Option.map_eq_some_iff.mp known
    rw [contains, Table.has, same, present] at missing
    cases missing
  · exact found

/-- Moving reads touches no node, by induction on their number. -/
theorem nodes_moveReads (index : Index) (reader : NodeId) (source target : ValueId) (count : Nat)
    : (index.moveReads reader source target count).nodes = index.nodes := by
  induction count generalizing index with
  | zero => rfl
  | succ count ih => exact ih _

/-- Adding reads touches no node, by induction on the reads. -/
theorem nodes_addReads {reader : NodeId} {reads : List ValueId}
    (added : addReads reader index reads = .ok after)
    : after.nodes = index.nodes := by
  induction reads generalizing index with
  | nil =>
      obtain rfl := Except.ok.inj added
      rfl
  | cons first rest ih =>
      rw [addReads] at added
      split_ifs at added
      exact (ih added).trans rfl

/-- Dropping reads touches no node, by induction on the reads. -/
theorem nodes_dropReads (id : NodeId) (index : Index) (reads : List ValueId)
    : (reads.foldl (fun index value => index.dropReader value id) index).nodes = index.nodes := by
  induction reads generalizing index with
  | nil => rfl
  | cons first rest ih => exact ih _

/-- Adding a node keeps the versions of the others. -/
theorem version?_insert (described : index.Describes graph ids) {position : Nat} {node : Node}
    (fresh : node.value = ⟨index.nextValue⟩)
    (known : ∀ value ∈ node.reads, value ∈ graph.defined)
    (inserted : index.insert position node = .ok after) {id : NodeId}
    (below : id.number < index.nextNode)
    : after.version? id = index.version? id := by
  rw [described.insert_eq position fresh known] at inserted
  have differs : (⟨index.nextNode⟩ : NodeId) ≠ id := by
    rintro rfl
    exact Nat.lt_irrefl _ below
  rw [version?, nodes_addReads inserted, described.get?_withNode, if_neg differs, Option.map_map,
    version?]
  refine Option.map_congr fun entry _ => ?_
  rw [Function.comp_apply, pastGap]
  split_ifs <;> rfl

/-- Removing a node keeps the versions of the others. -/
theorem version?_remove {id other : NodeId} {entry : NodeEntry} (node : Node)
    (found : index.nodes.get? id = some entry) (differs : id ≠ other)
    : (index.remove id node).version? other = index.version? other := by
  rw [version?, remove_eq node found, nodes_dropReads, withoutNode, get?_closeGap,
    Table.get?_erase_of_ne differs, Option.map_map, version?]
  refine Option.map_congr fun entry _ => ?_
  rw [Function.comp_apply, beforeGap]
  split_ifs <;> rfl

end Index

-----------------------------------------------------------------------------------------
-- What an edit keeps
-----------------------------------------------------------------------------------------

/-- What a node computes, and from what. -/
def Node.content (node : Node) : Operation × List Operand := (node.operation, node.operands)

namespace Session

open Index (CountsMarks)

variable {session middle next : Session} {ids names marked : List NodeId}

/-- What the node of some name computes, unless it was erased. -/
def content? (session : Session) (id : NodeId) : Option (Operation × List Operand) :=
  (session.node? id).map Node.content

/-- What holds behind a change that marks some nodes: the versions count the marks, and the nodes
that were there before, still are and are not marked compute what they did.
-/
structure Tracks (session next : Session) (marked : List NodeId) : Prop where
  counts : session.index.CountsMarks next.index marked
  unmarked
    : ∀ {id : NodeId} {content : Operation × List Operand},
        id.number < session.index.nextNode
        → id ∉ marked
        → next.content? id = some content
        → session.content? id = some content

namespace Tracks

/-- Nothing has to be marked if the tables and the body stay. -/
theorem of_same (index : next.index = session.index) (body : next.graph.body = session.graph.body)
    : session.Tracks next [] := by
  refine ⟨CountsMarks.of_nodes (by rw [index]) (by rw [index]), ?_⟩
  intro id content _ _ found
  rwa [content?, node?, index, body] at found

/-- Changes with their marks follow each other. -/
theorem trans {more : List NodeId} (first : session.Tracks middle marked)
    (second : middle.Tracks next more)
    : session.Tracks next (marked ++ more) := by
  refine ⟨first.counts.trans second.counts, ?_⟩
  intro id content below absent found
  obtain ⟨here, there⟩ := not_or.mp (List.mem_append.not.mp absent)
  have known := second.unmarked (Nat.lt_of_lt_of_le below first.counts.namesGrow) there found
  exact first.unmarked below here known

/-- A change that marks nothing adds no marks. -/
theorem trans_unmarked (first : session.Tracks middle marked) (second : middle.Tracks next [])
    : session.Tracks next marked :=
  List.append_nil marked ▸ first.trans second

/-- The nodes that are not marked compute what they did, if those of the new body stood in the old
one with the same content.
-/
theorem of_back (described : session.Described ids) (after : next.Described names)
    (counts : session.index.CountsMarks next.index marked)
    (back
      : ∀ {position : Nat} {id : NodeId} {node : Node},
          id.number < session.index.nextNode
          → id ∉ marked
          → names[position]? = some id
          → next.graph.body[position]? = some node
          → ∃ (place : Nat) (old : Node),
              ids[place]? = some id ∧ session.graph.body[place]? = some old
              ∧ old.content = node.content)
    : session.Tracks next marked := by
  refine ⟨counts, ?_⟩
  intro id content below absent found
  obtain ⟨node, here, rfl⟩ := Option.map_eq_some_iff.mp found
  obtain ⟨position, -, listed, stands⟩ := listed_of_node? after here
  obtain ⟨place, old, wasListed, stood, same⟩ := back below absent listed stands
  rw [content?, (node?_of_listed described wasListed stood).2, Option.map_some, same]

/-- A node that has the same version before and behind a change computes the same, if there are too
few marks for the versions to come round again.
-/
theorem content_eq (tracks : session.Tracks next marked) (few : marked.length < versionLimit)
    {id : NodeId} {content other : Operation × List Operand}
    (below : id.number < session.index.nextNode) (here : session.content? id = some content)
    (there : next.content? id = some other)
    (same : session.index.version? id = next.index.version? id)
    : content = other := by
  obtain ⟨node, found, -⟩ := Option.map_eq_some_iff.mp there
  obtain ⟨position, placed, -⟩ := Option.bind_eq_some_iff.mp found
  obtain ⟨entry, present, -⟩ := Option.map_eq_some_iff.mp placed
  have version : next.index.version? id = some entry.version := by
    rw [Index.version?, present, Option.map_some]
  obtain ⟨earlier, known, counted⟩ := tracks.counts.versions below version
  obtain rfl : entry.version = earlier := Option.some.inj (version.symm.trans (same.symm.trans known))
  -- The marks of the node are a multiple of the limit, and there are fewer of them.
  have multiple : marked.count id ≡ 0 [MOD versionLimit] :=
    (Nat.ModEq.add_left_cancel' entry.version counted).symm
  have zero : marked.count id = 0 :=
    Nat.ModEq.eq_of_lt_of_lt multiple (Nat.lt_of_le_of_lt List.count_le_length few) (by decide)
  have kept := tracks.unmarked below (List.count_eq_zero.mp zero) there
  exact Option.some.inj (here.symm.trans kept)

end Tracks

-----------------------------------------------------------------------------------------
-- Order
-----------------------------------------------------------------------------------------

/-- New positions keep all versions, by induction on the order. -/
theorem version?_reposition (nodes : List NodeId) (index : Index) (start : Nat) (order : List Nat)
    (id : NodeId)
    : (reposition nodes index start order).version? id = index.version? id := by
  induction order generalizing index start with
  | nil => rfl
  | cons source rest ih =>
      rw [reposition]
      cases nodes[source]? with
      | none => exact ih index (start + 1)
      | some moved =>
          rw [ih, Index.version?, Index.setPosition, Index.get?_modifyNode]
          split_ifs
          · rw [Option.map_map]
            rfl
          · rfl

/-- Sorting keeps all versions. -/
theorem version?_sort (session : Session) (id : NodeId)
    : (behind (sort session)).index.version? id = session.index.version? id := by
  have asked : (get : Edit Session) session = .ok session session := rfl
  rw [sort, bind_of_ok asked]
  cases session.graph.sortedPositions with
  | error error => rfl
  | ok order =>
      dsimp only
      split_ifs
      · rfl
      · exact version?_reposition ..

/-- Sorting has to mark nothing. -/
theorem sort_tracks (described : session.Described ids)
    : session.Tracks (behind (sort session)) [] := by
  rcases sort_cases described with ⟨error, -, failed⟩ | ⟨order, next, sorted, done, graph, after, same⟩
  · rw [failed]
    exact Tracks.of_same rfl rfl
  · have versions := version?_sort session
    rw [done] at versions ⊢
    have all := Graph.sortedPositions_perm sorted
    have counts : session.index.CountsMarks next.index [] :=
      CountsMarks.of_unmarked same.ge fun _ found => (versions _).symm.trans found
    refine Tracks.of_back described after counts ?_
    intro position id node _ _ listed found
    change next.graph.body[position]? = some node at found
    rw [graph] at found
    obtain ⟨place, -, wasListed, stood⟩ :=
      Index.Places.exists_placed described.length all listed found
    exact ⟨place, node, wasListed, stood, rfl⟩

-----------------------------------------------------------------------------------------
-- Replacing values
-----------------------------------------------------------------------------------------

variable {source target : ValueId}

/-- Redirecting some readers marks each of them once, by induction on the readers. -/
theorem redirectReaders_counts {readers : List NodeId} (described : session.Described ids)
    (live : ∀ id ∈ readers, id ∈ ids) (differ : source ≠ target)
    (known : target ∈ session.graph.defined)
    (done : readers.forM (redirectReader source target) session = .ok () next)
    : session.index.CountsMarks next.index readers := by
  induction readers generalizing session with
  | nil =>
      obtain ⟨-, rfl⟩ := EStateM.Result.ok.inj done
      exact CountsMarks.of_nodes (Nat.le_refl _) rfl
  | cons first rest ih =>
      obtain ⟨position, node, listed, found⟩ :=
        described.exists_node (live first List.mem_cons_self)
      change (redirectReader source target first
        >>= fun _ => rest.forM (redirectReader source target)) session = _ at done
      rw [bind_of_ok (redirectReader_eq described listed found known)] at done
      have redirected := (described.redirect listed found differ known).bump first
      have moved := Index.SameNames.moveReads session.index first source target
        (node.reads.count source)
      have read : session.index.CountsMarks _ [] :=
        CountsMarks.of_nodes moved.nextNode.ge (Index.nodes_moveReads ..)
      have kept
          : Graph.defined
              { session.graph with
                body := session.graph.body.modify position (redirectNode source target) }
            = session.graph.defined :=
        Index.defined_eq rfl (Index.map_result_modify _ _ fun _ => rfl)
      have later := ih redirected (fun id member => live id (List.mem_cons_of_mem _ member))
        (kept ▸ known) done
      exact (read.trans (CountsMarks.bump _ first)).trans later

/-- Redirecting all readers marks them, and no other node reads the value. -/
theorem redirectAll_tracks (described : session.Described ids) (differ : source ≠ target)
    (known : target ∈ session.graph.defined)
    (done
      : (session.index.distinctReaders source).forM (redirectReader source target) session
        = .ok () next)
    (after : next.Described ids)
    (changed
      : next.graph
        = { session.graph with
            body := session.graph.body.map (redirectNode source target) })
    : session.Tracks next (session.index.distinctReaders source) := by
  have live : ∀ id ∈ session.index.distinctReaders source, id ∈ ids :=
    fun id member => described.liveReaders (mem_distinctReaders.mp member)
  refine Tracks.of_back described after (redirectReaders_counts described live differ known done) ?_
  intro position id node _ absent listed found
  rw [changed] at found
  dsimp only at found
  rw [List.getElem?_map] at found
  obtain ⟨old, stood, rfl⟩ := Option.map_eq_some_iff.mp found
  have unread : (session.index.readers source).count id = 0 :=
    List.count_eq_zero.mpr (mem_distinctReaders.not.mp absent)
  rw [described.slots listed stood, List.count_eq_zero] at unread
  exact ⟨position, old, listed, stood, by rw [redirectNode_eq_self unread]⟩

/-- A replacement passes its checks if the two values differ and have compatible types, and the new
one does not depend on the old one.
-/
theorem redirects_iff
    : session.redirects source target = true
      ↔ ∃ sourceType targetType,
          session.index.type? source = some sourceType
          ∧ session.index.type? target = some targetType
          ∧ source ≠ target
          ∧ sourceType.compatibleWith targetType = true
          ∧ session.dependsOn target source = false := by
  rw [redirects]
  cases session.index.type? source <;> cases session.index.type? target <;> simp [and_assoc]

/-- A replacement that does not pass its checks changes nothing. -/
theorem behind_replace_of_refused (described : session.Described ids)
    (refused : session.redirects source target = false)
    : behind (replace source target session) = session := by
  by_cases same : source = target
  · rw [replace, if_pos same]
    rfl
  rcases replace_unknown_or session same with
    ⟨value, failed⟩ | ⟨sourceType, targetType, knownSource, knownTarget⟩
  · rw [failed]
    rfl
  obtain ⟨middle, -, -, -, result⟩ := replace_apply described same knownSource knownTarget
  rw [redirects, knownSource, knownTarget] at refused
  rw [result]
  cases fits : sourceType.compatibleWith targetType with
  | false => rfl
  | true =>
  cases depends : session.dependsOn target source with
  | true => rfl
  | false => simp [same, fits, depends] at refused

/-- A replacement marks the readers that it redirects, wherever it stops. -/
theorem replace_tracks (described : session.Described ids) (source target : ValueId)
    : session.Tracks (behind (replace source target session))
        ((EditStep.replace source target).marks session) := by
  rw [EditStep.marks]
  cases redirected : session.redirects source target with
  | false =>
      rw [behind_replace_of_refused described redirected]
      exact Tracks.of_same rfl rfl
  | true =>
      obtain ⟨sourceType, targetType, knownSource, knownTarget, differ, fits, independent⟩ :=
        redirects_iff.mp redirected
      have known := defined_of_type? described knownTarget
      obtain ⟨middle, done, changed, middleDescribed, -⟩ :=
        redirectAll_apply described differ known
      have tracks := redirectAll_tracks described differ known done middleDescribed changed
      rw [replace_eq differ knownSource knownTarget done changed, fits, independent, if_pos rfl]
      cases outputs : redirectOutputs source target targetType session.graph.outputs
          session.graph.outputTypes with
      | none => exact tracks
      | some pair =>
          have shown := middleDescribed.withOutputs pair.2
            (known_of_redirectOutputs described changed known outputs)
          have rewired := tracks.trans_unmarked
            (Tracks.of_same rfl rfl : middle.Tracks
              ⟨{ middle.graph with outputs := pair.1, outputTypes := pair.2 }, middle.index⟩ [])
          simp only [Bool.not_true, Bool.false_eq_true, if_false]
          split_ifs
          · exact rewired.trans_unmarked (sort_tracks shown)
          · exact rewired

-----------------------------------------------------------------------------------------
-- Single nodes
-----------------------------------------------------------------------------------------

/-- Erasing a node has to mark no other one. -/
theorem erase_tracks (described : session.Described ids) (id : NodeId)
    : session.Tracks (behind (erase id session)) [] := by
  rcases erase_cases described id with
    ⟨error, failed⟩ | ⟨position, node, listed, found, unread, hidden, done⟩
  · rw [failed]
    exact Tracks.of_same rfl rfl
  · rw [done]
    obtain ⟨after, names⟩ := described.remove listed found unread hidden
    obtain ⟨version, entry⟩ := described.node listed found
    have absent : id ∉ ids.eraseIdx position :=
      (List.nodup_cons.mp ((Index.Describes.eraseIdx_perm listed).nodup_iff.mp
        described.idsDistinct)).1
    have counts : session.index.CountsMarks (session.index.remove id node) [] := by
      refine CountsMarks.of_unmarked names.ge fun {other version} _ known => ?_
      obtain ⟨there, present, -⟩ := Option.map_eq_some_iff.mp known
      have differs : id ≠ other := by
        rintro rfl
        exact absent (List.mem_of_getElem? (after.at_position present).1)
      rwa [Index.version?_remove node entry differs] at known
    refine Tracks.of_back described after counts ?_
    intro place other kept _ _ placed stands
    obtain ⟨old, wasListed, stood, -⟩ := Index.Describes.eraseIdx_cases placed stands
    exact ⟨old, kept, wasListed, stood, rfl⟩

/-- Inserting a node has to mark nothing: the new node has a name of its own. -/
theorem insertBefore_tracks (described : session.Described ids) (before : NodeId)
    (operation : Operation) (operands : List Operand)
    : session.Tracks (behind (insertBefore before operation operands session)) [] := by
  rcases insertBefore_cases described before operation operands with
    ⟨error, failed⟩ | ⟨position, types, type, next, listed, known, typed, graph, after, names, done⟩
  · rw [failed]
    exact Tracks.of_same rfl rfl
  · rw [done]
    let node : Node := ⟨⟨session.index.nextValue⟩, operation, operands, type⟩
    have inside := (List.getElem?_eq_some_iff.mp listed).1.le
    have readsKnown : ∀ value ∈ node.reads, value ∈ session.graph.defined :=
      reads_known described known
    have fresh : node.value = ⟨session.index.nextValue⟩ := rfl
    obtain ⟨index, inserted, -⟩ :=
      described.insert (described.length ▸ inside) fresh readsKnown
    have again := insertBefore_eq described listed known typed inserted
    obtain ⟨-, rfl⟩ := EStateM.Result.ok.inj (again.symm.trans done)
    have counts : session.index.CountsMarks index [] :=
      CountsMarks.of_unmarked (names ▸ Nat.le_succ _) fun below found =>
        (Index.version?_insert described fresh readsKnown inserted below).symm.trans found
    refine Tracks.of_back described after counts ?_
    intro place id found below _ placed stands
    rcases Index.Describes.insertIdx_cases described.length (described.length ▸ inside) placed
      stands with ⟨-, rfl, -⟩ | ⟨old, wasListed, stood, -⟩
    · exact absurd below (Nat.lt_irrefl _)
    · exact ⟨old, found, wasListed, stood, rfl⟩

/-- Changing the operation of a node marks this node. -/
theorem setOperation_tracks (described : session.Described ids) (id : NodeId)
    (operation : Operation)
    : session.Tracks (behind (setOperation id operation session))
        ((EditStep.setOperation id operation).marks session) := by
  rw [EditStep.marks]
  rcases setOperation_cases described id operation with
    ⟨error, failed⟩ | ⟨position, node, types, type, listed, found, -, -, -, done⟩
  · rw [failed]
    exact Tracks.of_same rfl rfl
  · rw [done]
    have after := (described.retype found operation type).bump id
    have typed : session.index.CountsMarks (session.index.setType node.value type) [] :=
      CountsMarks.of_nodes (Nat.le_refl _) rfl
    refine Tracks.of_back described after (typed.trans (CountsMarks.bump _ id)) ?_
    intro place other changed _ absent placed stands
    dsimp only [behind] at stands
    have apart : position ≠ place := by
      rintro rfl
      exact absent (List.mem_singleton.mpr (Option.some.inj (placed.symm.trans listed)))
    rw [List.getElem?_modify] at stands
    obtain ⟨old, stood, rfl⟩ := Option.map_eq_some_iff.mp stands
    exact ⟨place, old, placed, stood, by rw [if_neg apart]⟩

/-- Marking a node as changed is one mark if the node exists. -/
theorem bump_tracks (described : session.Described ids) (id : NodeId)
    : session.Tracks (behind (bump id session)) ((EditStep.bump id).marks session) := by
  have after : Described ⟨session.graph, session.index.bump id⟩ ids := described.bump id
  rw [EditStep.marks]
  cases present : session.index.contains id with
  | false =>
      refine Tracks.of_back described after (CountsMarks.bump_of_missing present) ?_
      intro position other node _ _ listed found
      exact ⟨position, node, listed, found, rfl⟩
  | true =>
      refine Tracks.of_back described after (CountsMarks.bump _ id) ?_
      intro position other node _ _ listed found
      exact ⟨position, node, listed, found, rfl⟩

end Session

-----------------------------------------------------------------------------------------
-- Runs
-----------------------------------------------------------------------------------------

namespace EditStep

open Session (Blind)

variable {session : Session} {ids : List NodeId}

/-- What a step changes, it marks, by cases on the step. -/
theorem after_tracks (described : session.Described ids) (step : EditStep)
    : session.Tracks (step.after session) (step.marks session) := by
  cases step with
  | replace source target => exact Session.replace_tracks described source target
  | erase id => exact Session.erase_tracks described id
  | insertBefore before operation operands =>
      rw [after, edit, behind_insertBefore]
      exact Session.insertBefore_tracks described before operation operands
  | insertConstant before literal =>
      rw [after, edit, Session.insertConstant, behind_insertBefore]
      exact Session.insertBefore_tracks described before (.constant literal) []
  | setOperation id operation => exact Session.setOperation_tracks described id operation
  | sort => exact Session.sort_tracks described
  | bump id => exact Session.bump_tracks described id

/-- What some steps change, they mark, by induction on the steps. -/
theorem run_tracks (described : session.Described ids) (steps : List EditStep)
    : session.Tracks (run steps session) (marksIn steps session) := by
  induction steps generalizing session ids with
  | nil => exact Session.Tracks.of_same rfl rfl
  | cons step rest ih =>
      obtain ⟨names, next⟩ := (after_follows described step).described
      exact (after_tracks described step).trans (ih next)

/-- A node has one content at two times of a session if it has one version at both, and few marks
lie between them.
-/
theorem content_eq_of_append (described : session.Described ids) {earlier later : List EditStep}
    (few : (marksIn (earlier ++ later) session).length < versionLimit) {id : NodeId}
    {content other : Operation × List Operand}
    (here : (run earlier session).content? id = some content)
    (there : (run (earlier ++ later) session).content? id = some other)
    (same
      : (run earlier session).index.version? id
        = (run (earlier ++ later) session).index.version? id)
    : content = other := by
  obtain ⟨names, reached⟩ := (run_follows described earlier).described
  obtain ⟨node, found, -⟩ := Option.map_eq_some_iff.mp here
  have below : id.number < (run earlier session).index.nextNode :=
    reached.nodesBelow id ((Session.mem_ids_iff reached).mpr ⟨node, found⟩)
  rw [marksIn_append, List.length_append] at few
  rw [run_append] at there same
  exact (run_tracks reached later).content_eq (by omega) below here there same

-----------------------------------------------------------------------------------------
-- Inputs without a type
-----------------------------------------------------------------------------------------

variable {inputs : List ValueId} {types : List ValueType}

/-- A step marks the same if the graph has other inputs, by cases on the step. -/
theorem marks_withInputs (step : EditStep) (session : Session)
    : step.marks (session.withInputs inputs types) = step.marks session := by
  cases step with
  | replace source target =>
      rw [marks, marks, Session.redirects, Session.redirects, Session.dependsOn,
        Session.dependsOn, Session.sources_withInputs]
      rfl
  | setOperation id operation =>
      have blind : Blind inputs types (Session.setOperation id operation) session :=
        Session.blind_setOperation id operation session
      rw [marks, marks, blind]
      cases Session.setOperation id operation session <;> rfl
  | erase _ | insertBefore | insertConstant | sort | bump _ => rfl

/-- Steps mark the same if the graph has more inputs, by induction on the steps. -/
theorem marksIn_withInputs (described : session.Described ids)
    (more : session.graph.inputs ⊆ inputs) (types : List ValueType) (steps : List EditStep)
    : marksIn steps (session.withInputs inputs types) = marksIn steps session := by
  induction steps generalizing session ids with
  | nil => rfl
  | cons step rest ih =>
      obtain ⟨names, next⟩ := (after_follows described step).described
      have blind : Blind inputs types step.edit session := edit_blind described more step
      rw [marksIn, marksIn, marks_withInputs, after_withInputs blind,
        ih next ((inputs_after described step).symm ▸ more)]

/-- Every session that is started does, behind any steps, what a described one with other inputs
does. Witness: the session of the typed part of the graph.
-/
theorem exists_typed_session {graph : Graph} (started : Session.start graph = .ok session)
    : ∃ typed,
        (∃ ids, typed.Described ids)
        ∧ ∀ steps,
            marksIn steps session = marksIn steps typed
            ∧ run steps session
              = (run steps typed).withInputs graph.inputs graph.inputTypes := by
  obtain ⟨index, built, done⟩ := Steps.bind_eq_ok_iff.mp started
  obtain rfl := Except.ok.inj done
  have typedStarted : Session.start graph.typedPart = .ok ⟨graph.typedPart, index⟩ := by
    rw [Session.start, Index.build_typedPart, built]
    rfl
  have described := described_of_start typedStarted (by simp [Graph.typedPart])
  have more : graph.typedPart.inputs ⊆ graph.inputs := by
    intro value member
    obtain ⟨pair, listed, rfl⟩ := List.mem_map.mp member
    exact (List.of_mem_zip listed).1
  refine ⟨⟨graph.typedPart, index⟩, ⟨_, described⟩, fun steps => ⟨?_, ?_⟩⟩
  · exact marksIn_withInputs described more graph.inputTypes steps
  · exact (run_blind described more graph.inputTypes steps).2

/-- Versions witness changes. Whatever edits are tried in a session, and whether they succeed or
fail: a node that exists with the same version behind two beginnings of the edits has the same
operation and the same operands there, if the edits mark fewer nodes than there are versions.
-/
theorem versions_witness_changes {graph : Graph} (started : Session.start graph = .ok session)
    {steps : List EditStep} (few : (marksIn steps session).length < versionLimit)
    {first second : List EditStep} (early : first <+: steps) (late : second <+: steps)
    {id : NodeId} {node other : Node} (here : (run first session).node? id = some node)
    (there : (run second session).node? id = some other)
    (same : (run first session).index.version? id = (run second session).index.version? id)
    : node.operation = other.operation ∧ node.operands = other.operands := by
  obtain ⟨typed, ⟨ids, described⟩, alike⟩ := exists_typed_session started
  have fewOf {front : List EditStep} (part : front <+: steps)
      : (marksIn front typed).length < versionLimit := by
    obtain ⟨rest, rfl⟩ := part
    rw [(alike _).1, marksIn_append, List.length_append] at few
    omega
  have here : (run first typed).content? id = some node.content := by
    rw [(alike first).2] at here
    exact congrArg (Option.map Node.content) here
  have there : (run second typed).content? id = some other.content := by
    rw [(alike second).2] at there
    exact congrArg (Option.map Node.content) there
  rw [(alike first).2, (alike second).2] at same
  refine Prod.mk.inj (?_ : node.content = other.content)
  rcases List.prefix_or_prefix_of_prefix early late with ⟨rest, rfl⟩ | ⟨rest, rfl⟩
  · exact content_eq_of_append described (fewOf late) here there same
  · exact (content_eq_of_append described (fewOf early) there here same.symm).symm

/-- The second node of `lateNegation` is marked once when it reads what the third one produces; when
the first node is marked then, it keeps its version.
-/
theorem lateNegation_versions
    : Session.start lateNegation = .ok lateNegationSession
      ∧ (marksIn [.replace ⟨1⟩ ⟨3⟩, .bump ⟨0⟩] lateNegationSession).length < versionLimit
      ∧ ∃ node other,
          (run [.replace ⟨1⟩ ⟨3⟩] lateNegationSession).node? ⟨1⟩ = some node
          ∧ (run [.replace ⟨1⟩ ⟨3⟩, .bump ⟨0⟩] lateNegationSession).node? ⟨1⟩ = some other
          ∧ (run [.replace ⟨1⟩ ⟨3⟩] lateNegationSession).index.version? ⟨1⟩ = some 1
          ∧ (run [.replace ⟨1⟩ ⟨3⟩, .bump ⟨0⟩] lateNegationSession).index.version? ⟨1⟩ = some 1
          ∧ node.operation = other.operation
          ∧ node.operands = other.operands := by
  have started : Session.start lateNegation = .ok lateNegationSession := rfl
  have marked
      : marksIn [.replace ⟨1⟩ ⟨3⟩, .bump ⟨0⟩] lateNegationSession = [⟨1⟩, ⟨0⟩] := rfl
  have few : (marksIn [.replace ⟨1⟩ ⟨3⟩, .bump ⟨0⟩] lateNegationSession).length < versionLimit := by
    rw [marked]
    decide
  have early : [.replace ⟨1⟩ ⟨3⟩] <+: [EditStep.replace ⟨1⟩ ⟨3⟩, .bump ⟨0⟩] := ⟨[.bump ⟨0⟩], rfl⟩
  have here
      : (run [.replace ⟨1⟩ ⟨3⟩] lateNegationSession).node? ⟨1⟩
        = some ⟨⟨2⟩, .unary .neg, [.value ⟨3⟩], .tensor ⟨.si64, ⟨[.static 2]⟩⟩⟩ := rfl
  have there
      : (run [.replace ⟨1⟩ ⟨3⟩, .bump ⟨0⟩] lateNegationSession).node? ⟨1⟩
        = some ⟨⟨2⟩, .unary .neg, [.value ⟨3⟩], .tensor ⟨.si64, ⟨[.static 2]⟩⟩⟩ := rfl
  exact ⟨started, few, _, _, here, there, rfl, rfl,
    versions_witness_changes started few early (List.prefix_refl _) here there rfl⟩

end EditStep

end Dataflow
