import Dataflow.Proofs.Number.Increasing
import Dataflow.Proofs.Rewrite.Additions
import Dataflow.Proofs.Rewrite.Placement
import Dataflow.Proofs.Steps
import Mathlib.Data.List.Basic
import Mathlib.Data.List.Nodup

/-!
What each edit does to a session whose tables describe its graph. An edit either fails and leaves
the session as it was, or it changes the graph as stated and the tables describe the new graph.
Only `replace` can fail behind a change: when it has to sort a body with a cycle, or when an output
has no declared type.
-/

namespace Dataflow.Session

variable {session : Session} {ids : List NodeId}

/-- The tables of a session describe its graph. -/
abbrev Described (session : Session) (ids : List NodeId) : Prop :=
  session.index.Describes session.graph ids

-----------------------------------------------------------------------------------------
-- Questions
-----------------------------------------------------------------------------------------

/-- A step with a result is followed by the next one. -/
theorem bind_of_ok {ε α β : Type} {edit : EStateM ε Session α} {next : α → EStateM ε Session β}
    {before after : Session} {result : α} (done : edit before = .ok result after)
    : (edit >>= next) before = next result after := by
  change EStateM.bind edit next before = _
  rw [EStateM.bind, done]

/-- A step that fails is not followed by another one. -/
theorem bind_of_error {α β : Type} {edit : Edit α} {next : α → Edit β}
    {before after : Session} {error : GraphError} (failed : edit before = .error error after)
    : (edit >>= next) before = .error error after := by
  change EStateM.bind edit next before = _
  rw [EStateM.bind, failed]

/-- Asking for a node changes nothing. -/
theorem node_apply (id : NodeId) (session : Session)
    : node id session
      = match session.node? id with
        | some node => .ok node session
        | none => .error (.breach .erasedNode) session := by
  change (match session.node? id with
    | some node => (pure node : Edit Node)
    | none => throw (GraphError.breach .erasedNode)) session = _
  cases session.node? id <;> rfl

/-- Asking for a position changes nothing. -/
theorem position_apply (id : NodeId) (missing : GraphError) (session : Session)
    : position id missing session
      = match session.index.position? id with
        | some position => .ok position session
        | none => .error missing session := by
  change (match session.index.position? id with
    | some position => (pure position : Edit Nat)
    | none => throw missing) session = _
  cases session.index.position? id <;> rfl

/-- Asking for a type changes nothing. -/
theorem typeOf_apply (value : ValueId) (session : Session)
    : typeOf value session
      = match session.index.type? value with
        | some type => .ok type session
        | none => .error (.unknownValue value) session := by
  change (match session.index.type? value with
    | some type => (pure type : Edit ValueType)
    | none => throw (GraphError.unknownValue value)) session = _
  cases session.index.type? value <;> rfl

/-- Asking for the type of an operand changes nothing. -/
theorem operandType_apply (operand : Operand) (session : Session)
    : (∃ type, session.operandType? operand = some type
        ∧ operandType operand session = .ok type session)
      ∨ session.operandType? operand = none
        ∧ ∃ value, operandType operand session = .error (.unknownValue value) session := by
  cases operand with
  | literal literal => exact .inl ⟨_, rfl, rfl⟩
  | value value =>
      have asked := typeOf_apply value session
      cases found : session.index.type? value with
      | some type => exact .inl ⟨type, found, by rw [found] at asked; exact asked⟩
      | none => exact .inr ⟨found, value, by rw [found] at asked; exact asked⟩

/-- Asking for the types of operands changes nothing, by induction on the operands. -/
theorem operandTypes_apply (operands : List Operand) (session : Session)
    : (∃ types, operands.mapM session.operandType? = some types
        ∧ operands.mapM operandType session = .ok types session)
      ∨ operands.mapM session.operandType? = none
        ∧ ∃ value,
            operands.mapM operandType session = .error (.unknownValue value) session := by
  induction operands with
  | nil => exact .inl ⟨[], rfl, rfl⟩
  | cons first rest ih =>
      rw [List.mapM_cons, List.mapM_cons]
      rcases operandType_apply first session with ⟨type, known, asked⟩ | ⟨unknown, value, failed⟩
      · rw [bind_of_ok asked, known]
        rcases ih with ⟨types, all, done⟩ | ⟨missing, value, failed⟩
        · rw [bind_of_ok done, all]
          exact .inl ⟨type :: types, rfl, rfl⟩
        · rw [bind_of_error failed, missing]
          exact .inr ⟨rfl, value, rfl⟩
      · rw [bind_of_error failed, unknown]
        exact .inr ⟨rfl, value, rfl⟩

/-- Only what is defined has a type. -/
theorem defined_of_type? (described : session.Described ids) {value : ValueId} {type : ValueType}
    (known : session.index.type? value = some type)
    : value ∈ session.graph.defined := by
  obtain ⟨entry, found, -⟩ := Option.map_eq_some_iff.mp known
  refine described.has_iff.mp ?_
  rw [Table.has, found]
  rfl

/-- An operation without a type fails, and nothing is changed. -/
theorem resultType_apply (operation : Operation) (types : List ValueType) (session : Session)
    : resultType operation types session
      = match operation.resultType types with
        | .ok type => .ok type session
        | .error error => .error (.type error) session := by
  rw [resultType]
  cases operation.resultType types <;> rfl

/-- Only an existing node has a place in the body. -/
theorem listed_of_node? (described : session.Described ids) {id : NodeId} {node : Node}
    (found : session.node? id = some node)
    : ∃ position : Nat,
        session.index.position? id = some position
        ∧ ids[position]? = some id
        ∧ session.graph.body[position]? = some node := by
  obtain ⟨position, placed, here⟩ := Option.bind_eq_some_iff.mp found
  exact ⟨position, placed, described.position?_eq_some_iff.mp placed, here⟩

/-- The node at a position is found under the name that is listed there. -/
theorem node?_of_listed (described : session.Described ids) {position : Nat} {id : NodeId}
    {node : Node} (listed : ids[position]? = some id)
    (found : session.graph.body[position]? = some node)
    : session.index.position? id = some position ∧ session.node? id = some node := by
  have placed := described.position?_eq_some_iff.mpr listed
  exact ⟨placed, by rw [Session.node?, placed, Option.bind_some, found]⟩

/-- Where a name is listed, its node stands in the body. -/
theorem exists_node_of_listed (described : session.Described ids) {position : Nat} {id : NodeId}
    (listed : ids[position]? = some id)
    : ∃ node,
        session.graph.body[position]? = some node ∧ session.node? id = some node := by
  have inside : position < session.graph.body.length :=
    described.length ▸ (List.getElem?_eq_some_iff.mp listed).1
  have found := List.getElem?_eq_getElem inside
  exact ⟨_, found, (node?_of_listed described listed found).2⟩

/-- A name is listed iff it belongs to a node. -/
theorem mem_ids_iff (described : session.Described ids) {id : NodeId}
    : id ∈ ids ↔ ∃ node, session.node? id = some node := by
  constructor
  · intro member
    obtain ⟨position, node, listed, found⟩ := described.exists_node member
    exact ⟨node, (node?_of_listed described listed found).2⟩
  · rintro ⟨node, found⟩
    obtain ⟨position, -, listed, -⟩ := listed_of_node? described found
    exact List.mem_of_getElem? listed

/-- The producer of a value is the node of the body with this value. -/
theorem producer?_eq_some_iff (described : session.Described ids) {value : ValueId} {node : Node}
    : session.producer? value = some node
      ↔ ∃ position : Nat, session.graph.body[position]? = some node ∧ node.value = value := by
  have produced {position : Nat} {node : Node} (here : session.graph.body[position]? = some node)
      : session.producer? node.value = some node := by
    obtain ⟨id, listed⟩ := described.exists_id here
    obtain ⟨readers, entered⟩ := described.produced listed here
    rw [producer?, Index.producer?, entered]
    exact (node?_of_listed described listed here).2
  constructor
  · intro found
    obtain ⟨id, known, -⟩ := Option.bind_eq_some_iff.mp found
    obtain ⟨entry, there, producer⟩ := Option.bind_eq_some_iff.mp known
    have defined : value ∈ session.graph.defined := by
      refine described.has_iff.mp ?_
      rw [Table.has, there]
      rfl
    rcases Index.Places.defined_cases defined with ⟨position, listed⟩ | ⟨position, other, here, rfl⟩
    · have inside := (List.getElem?_eq_some_iff.mp listed).1
      have typed : position < session.graph.inputTypes.length := described.inputsTyped ▸ inside
      have pair
          : (value, session.graph.inputTypes[position])
            ∈ session.graph.inputs.zip session.graph.inputTypes := by
        refine List.mem_iff_getElem?.mpr ⟨position, ?_⟩
        rw [List.getElem?_zip_eq_some]
        exact ⟨listed, List.getElem?_eq_getElem typed⟩
      obtain ⟨readers, input⟩ := described.input pair
      obtain rfl := Option.some.inj (there.symm.trans input)
      cases producer
    · obtain rfl := Option.some.inj ((produced here).symm.trans found)
      exact ⟨position, here, rfl⟩
  · rintro ⟨position, here, rfl⟩
    exact produced here

/-- Operands with known types read defined values. -/
theorem reads_known (described : session.Described ids) {node : Node} {types : List ValueType}
    (known : node.operands.mapM session.operandType? = some types)
    : ∀ value ∈ node.reads, value ∈ session.graph.defined := by
  intro value read
  obtain ⟨operand, member, rfl⟩ : ∃ operand ∈ node.operands, operand = .value value := by
    obtain ⟨operand, member, same⟩ := List.mem_filterMap.mp read
    refine ⟨operand, member, ?_⟩
    cases operand with
    | value other => exact congrArg Operand.value (Option.some.inj same)
    | literal literal => simp [Operand.value?] at same
  by_contra missing
  have none := described.get?_eq_none_iff.mpr missing
  obtain ⟨type, -, found⟩ := Steps.exists_of_mapM_eq_some known member
  simp [operandType?, Index.type?, none] at found

-----------------------------------------------------------------------------------------
-- Order
-----------------------------------------------------------------------------------------

/-- Sorting puts the body in another order, or leaves the session as it was. -/
theorem sort_cases (described : session.Described ids)
    : (∃ error, session.graph.sortedPositions = .error error
        ∧ sort session = .error error session)
      ∨ ∃ order after,
          session.graph.sortedPositions = .ok order
          ∧ sort session = .ok () after
          ∧ after.graph
            = { session.graph with body := Graph.permute session.graph.body order }
          ∧ after.Described (order.filterMap (ids[·]?))
          ∧ after.index.nextNode = session.index.nextNode := by
  have asked : (get : Edit Session) session = .ok session session := rfl
  rw [sort, bind_of_ok asked]
  cases sorted : session.graph.sortedPositions with
  | error error => exact .inl ⟨error, rfl, rfl⟩
  | ok order =>
      have all := Graph.sortedPositions_perm sorted
      dsimp only
      by_cases same : order = List.range order.length
      · rw [if_pos same]
        have lengths : order.length = session.graph.body.length := by
          rw [all.length_eq, List.length_range]
        have body : Graph.permute session.graph.body order = session.graph.body := by
          rw [Graph.permute, same, lengths]
          exact Graph.filterMap_range_getElem? _
        have names : order.filterMap (ids[·]?) = ids := by
          rw [same, lengths, ← described.length]
          exact Graph.filterMap_range_getElem? _
        exact .inr ⟨order, session, rfl, rfl, by rw [body], names.symm ▸ described, rfl⟩
      · rw [if_neg same]
        have permuted := described.permute all
        rw [described.ordered_eq]
        exact .inr ⟨order, _, rfl, rfl, rfl, permuted, (reposition_frame ..).2.1⟩

-----------------------------------------------------------------------------------------
-- Replacing values
-----------------------------------------------------------------------------------------

/-- A node that does not read the old value is not changed by redirecting. -/
theorem redirectNode_eq_self {source target : ValueId} {node : Node}
    (unread : source ∉ node.reads)
    : redirectNode source target node = node := by
  have operands : node.operands.map (redirect source target) = node.operands := by
    refine (List.map_congr_left ?_).trans (List.map_id node.operands)
    intro operand member
    have differs : operand ≠ .value source := by
      rintro rfl
      exact unread (List.mem_filterMap.mpr ⟨_, member, rfl⟩)
    rw [redirect, if_neg differs, id]
  rw [redirectNode, operands]

/-- Redirecting a node again changes nothing. -/
theorem redirectNode_redirectNode {source target : ValueId} (node : Node)
    (differ : source ≠ target)
    : redirectNode source target (redirectNode source target node)
      = redirectNode source target node :=
  redirectNode_eq_self (not_mem_reads_redirectNode node differ)

/-- One operand is redirected if the new value is known. -/
theorem redirectRead_apply {source target : ValueId} {id : NodeId} {position place : Nat}
    (known : session.index.values.has target = true)
    : redirectRead source target id position place session
      = .ok ()
          ⟨{ session.graph with
              body := session.graph.body.modify position fun node =>
                { node with operands := node.operands.set place (.value target) } },
            session.index.moveRead id source target⟩ := by
  let after : Session :=
    ⟨{ session.graph with
        body := session.graph.body.modify position fun node =>
          { node with operands := node.operands.set place (.value target) } },
      session.index⟩
  have changed
      : modifyGraph
          (fun graph =>
            { graph with
              body := graph.body.modify position fun node =>
                { node with operands := node.operands.set place (.value target) } })
          session
        = .ok () after :=
    rfl
  have asked : (get : Edit Session) after = .ok after after := rfl
  rw [redirectRead, bind_of_ok changed, bind_of_ok asked]
  simp only [after, known, Bool.not_true, Bool.false_eq_true, if_false]
  rfl

/-- The operands of a node are redirected from some place on, by induction on those that are left.
-/
theorem redirectReads_apply {source target : ValueId} {id : NodeId} {position : Nat} {node : Node}
    (front : List Operand) {rest : List Operand} (known : session.index.values.has target = true)
    (found
      : session.graph.body[position]? = some { node with operands := front ++ rest })
    : redirectReads source target id position front.length rest session
      = .ok ()
          ⟨{ session.graph with
              body :=
                session.graph.body.set position
                  { node with operands := front ++ rest.map (redirect source target) } },
            session.index.moveReads id source target
              ((rest.filterMap Operand.value?).count source)⟩ := by
  induction rest generalizing front session with
  | nil =>
      obtain ⟨inside, same⟩ := List.getElem?_eq_some_iff.mp found
      rw [List.map_nil, ← same, List.set_getElem_self]
      rfl
  | cons operand rest ih =>
      rw [redirectReads]
      by_cases hit : operand = .value source
      · subst hit
        rw [if_pos rfl, bind_of_ok (redirectRead_apply known)]
        have next := @ih
          ⟨{ session.graph with
              body := session.graph.body.modify position fun node =>
                { node with operands := node.operands.set front.length (.value target) } },
            session.index.moveRead id source target⟩
          (front ++ [.value target])
          (by
            have moved : Index.SameNames session.index (session.index.moveRead id source target) :=
              (Index.SameNames.addReader ..).trans (Index.SameNames.dropReader ..)
            rw [moved.has_eq, known])
          (by simp [found])
        rw [List.length_append, List.length_singleton] at next
        have body (after : Node)
            : (session.graph.body.modify position fun node =>
                { node with operands := node.operands.set front.length (.value target) }).set
                  position after
              = session.graph.body.set position after := by
          rw [List.modify_eq_set_getElem?, found]
          exact List.set_set ..
        have operands
            : front ++ [Operand.value target] ++ rest.map (redirect source target)
              = front ++ (Operand.value source :: rest).map (redirect source target) := by
          simp [redirect]
        have reads
            : ((Operand.value source :: rest).filterMap Operand.value?).count source
              = (rest.filterMap Operand.value?).count source + 1 := by
          simp [Operand.value?]
        rw [reads, ← operands, ← body]
        exact next
      · rw [if_neg hit]
        have next := @ih session (front ++ [operand]) known (by simpa using found)
        rw [List.length_append, List.length_singleton] at next
        have operands
            : front ++ [operand] ++ rest.map (redirect source target)
              = front ++ (operand :: rest).map (redirect source target) := by
          simp [redirect, hit]
        have reads
            : ((operand :: rest).filterMap Operand.value?).count source
              = (rest.filterMap Operand.value?).count source := by
          cases operand with
          | literal literal => rfl
          | value other => simpa [Operand.value?, List.count_cons] using hit
        rw [reads, ← operands]
        exact next

/-- Redirecting a reader changes its operands, moves its reads and marks it as changed. -/
theorem redirectReader_eq (described : session.Described ids) {position : Nat} {id : NodeId}
    {node : Node} {source target : ValueId} (listed : ids[position]? = some id)
    (found : session.graph.body[position]? = some node) (known : target ∈ session.graph.defined)
    : redirectReader source target id session
      = .ok ()
          ⟨{ session.graph with
              body := session.graph.body.modify position (redirectNode source target) },
            (session.index.moveReads id source target (node.reads.count source)).bump id⟩ := by
  obtain ⟨placed, here⟩ := node?_of_listed described listed found
  have askPosition
      : Session.position id (.unknownValue source) session = .ok position session := by
    rw [position_apply, placed]
  have askNode : Session.node id session = .ok node session := by rw [node_apply, here]
  have redirected
      : redirectReads source target id position 0 node.operands session
        = .ok ()
            ⟨{ session.graph with
                body := session.graph.body.set position (redirectNode source target node) },
              session.index.moveReads id source target (node.reads.count source)⟩ :=
    redirectReads_apply [] (described.has_iff.mpr known) found
  have body
      : session.graph.body.set position (redirectNode source target node)
        = session.graph.body.modify position (redirectNode source target) := by
    rw [List.modify_eq_set_getElem?, found]
    rfl
  rw [redirectReader, bind_of_ok askPosition, bind_of_ok askNode, bind_of_ok redirected, ← body]
  rfl

/-- A reader of a value is redirected. Witness: the session with the operands of the node changed
and its reads moved.
-/
theorem redirectReader_apply (described : session.Described ids) {position : Nat} {id : NodeId}
    {node : Node} {source target : ValueId} (listed : ids[position]? = some id)
    (found : session.graph.body[position]? = some node) (differ : source ≠ target)
    (known : target ∈ session.graph.defined)
    : ∃ after,
        redirectReader source target id session = .ok () after
        ∧ after.graph
          = { session.graph with
              body := session.graph.body.modify position (redirectNode source target) }
        ∧ after.Described ids
        ∧ Index.SameNames session.index after.index := by
  have moved := (described.redirect listed found differ known).bump id
  have kept := (Index.SameNames.moveReads session.index id source target
    (node.reads.count source)).trans (Index.SameNames.bump _ id)
  exact ⟨_, redirectReader_eq described listed found known, rfl, moved, kept⟩

/-- Some nodes are redirected, by induction on their list. -/
theorem redirectReaders_apply {source target : ValueId} (differ : source ≠ target)
    {readers : List NodeId} (described : session.Described ids)
    (live : ∀ id ∈ readers, id ∈ ids) (known : target ∈ session.graph.defined)
    : ∃ after,
        readers.forM (redirectReader source target) session = .ok () after
        ∧ after.graph = { session.graph with body := after.graph.body }
        ∧ after.Described ids
        ∧ Index.SameNames session.index after.index
        ∧ ∀ {position : Nat} {id : NodeId} {node : Node},
            ids[position]? = some id
            → session.graph.body[position]? = some node
            → after.graph.body[position]?
              = some (if id ∈ readers then redirectNode source target node else node) := by
  induction readers generalizing session with
  | nil =>
      refine ⟨session, rfl, rfl, described, Index.SameNames.refl _, ?_⟩
      intro position id node _ found
      simpa using found
  | cons first rest ih =>
      obtain ⟨position, node, listed, found⟩ :=
        described.exists_node (live first List.mem_cons_self)
      obtain ⟨next, done, changed, nextDescribed, kept⟩ :=
        redirectReader_apply described listed found differ known
      have nextKnown : target ∈ next.graph.defined := by
        have same : next.graph.defined = session.graph.defined := by
          rw [changed]
          exact Index.defined_eq rfl (Index.map_result_modify _ _ fun _ => rfl)
        exact same ▸ known
      obtain ⟨after, rest_done, frame, afterDescribed, names, body⟩ :=
        ih nextDescribed (fun id member => live id (List.mem_cons_of_mem _ member)) nextKnown
      refine ⟨after, ?_, ?_, afterDescribed, kept.trans names, ?_⟩
      · exact (bind_of_ok done).trans rest_done
      · rw [frame, changed]
      · intro other id stands otherListed otherFound
        have there : next.graph.body[other]?
            = some (if id = first then redirectNode source target stands else stands) := by
          rw [changed]
          dsimp only
          rw [List.getElem?_modify, otherFound]
          by_cases same : position = other
          · subst same
            obtain rfl := Option.some.inj (listed.symm.trans otherListed)
            simp
          · have differs : id ≠ first := by
              rintro rfl
              have inside := (List.getElem?_eq_some_iff.mp listed).1
              exact same ((List.getElem?_inj inside described.idsDistinct).mp
                (listed.trans otherListed.symm))
            simp [same, differs]
        rw [body otherListed there]
        by_cases hit : id = first
        · simp [hit, redirectNode_redirectNode _ differ]
        · simp [hit]

/-- The distinct readers of a value are its readers. -/
theorem mem_distinctReaders {index : Index} {value : ValueId} {id : NodeId}
    : id ∈ index.distinctReaders value ↔ id ∈ index.readers value := by
  rw [Index.distinctReaders, List.mem_map]
  constructor
  · rintro ⟨number, member, rfl⟩
    obtain ⟨reader, read, rfl⟩ := List.mem_map.mp (mem_increasing.mp member)
    exact read
  · intro read
    exact ⟨id.number, mem_increasing.mpr (List.mem_map_of_mem read), rfl⟩

theorem nodup_distinctReaders (index : Index) (value : ValueId)
    : (index.distinctReaders value).Nodup := by
  have numbers := (pairwise_increasing ((index.readers value).map NodeId.number)).imp fun lt => lt.ne
  exact numbers.map NodeId.mk fun first second differ same => differ (NodeId.mk.inj same)

/-- All readers of a value are redirected. Witness: the session with the operands of all nodes
changed.
-/
theorem redirectAll_apply (described : session.Described ids) {source target : ValueId}
    (differ : source ≠ target) (known : target ∈ session.graph.defined)
    : ∃ after,
        (session.index.distinctReaders source).forM (redirectReader source target) session
          = .ok () after
        ∧ after.graph
          = { session.graph with
              body := session.graph.body.map (redirectNode source target) }
        ∧ after.Described ids
        ∧ Index.SameNames session.index after.index := by
  have live : ∀ id ∈ session.index.distinctReaders source, id ∈ ids :=
    fun id member => described.liveReaders (mem_distinctReaders.mp member)
  obtain ⟨after, done, frame, afterDescribed, names, body⟩ :=
    redirectReaders_apply differ described live known
  refine ⟨after, done, ?_, afterDescribed, names⟩
  have redirected : after.graph.body = session.graph.body.map (redirectNode source target) := by
    refine List.ext_getElem? ?_
    intro position
    rw [List.getElem?_map]
    cases found : session.graph.body[position]? with
    | none =>
        have outside : ids.length ≤ position := by
          rw [described.length]
          exact List.getElem?_eq_none_iff.mp found
        rw [List.getElem?_eq_none_iff.mpr (afterDescribed.length ▸ outside), Option.map_none]
    | some node =>
        obtain ⟨id, listed⟩ := described.exists_id found
        rw [body listed found, Option.map_some]
        split_ifs with reads
        · rfl
        · have count := described.slots listed found source
          rw [List.count_eq_zero.mpr (mem_distinctReaders.not.mp reads)] at count
          rw [redirectNode_eq_self (List.count_eq_zero.mp count.symm)]
  rw [frame, redirected]

/-- A replacement of another value is refused at once if one of the two has no type. -/
theorem replace_unknown_or (session : Session) {source target : ValueId} (differ : source ≠ target)
    : (∃ value, replace source target session = .error (.unknownValue value) session)
      ∨ ∃ sourceType targetType,
          session.index.type? source = some sourceType
          ∧ session.index.type? target = some targetType := by
  have askSource := typeOf_apply source session
  have askTarget := typeOf_apply target session
  cases knownSource : session.index.type? source with
  | none =>
      rw [knownSource] at askSource
      exact .inl ⟨source, by rw [replace, if_neg differ, bind_of_error askSource]⟩
  | some sourceType =>
      rw [knownSource] at askSource
      cases knownTarget : session.index.type? target with
      | none =>
          rw [knownTarget] at askTarget
          refine .inl ⟨target, ?_⟩
          rw [replace, if_neg differ, bind_of_ok askSource, bind_of_error askTarget]
      | some targetType => exact .inr ⟨sourceType, targetType, rfl, rfl⟩

/-- A value replaces another one of a compatible type that it does not depend on, where all readers
can be redirected.
-/
theorem replace_eq {middle : Session} {source target : ValueId} {sourceType targetType : ValueType}
    (differ : source ≠ target) (knownSource : session.index.type? source = some sourceType)
    (knownTarget : session.index.type? target = some targetType)
    (done
      : (session.index.distinctReaders source).forM (redirectReader source target) session
        = .ok () middle)
    (changed
      : middle.graph
        = { session.graph with
            body := session.graph.body.map (redirectNode source target) })
    : replace source target session
      = if !sourceType.compatibleWith targetType then
          .error (.incompatible source target) session
        else if session.dependsOn target source then .error (.cycle source target) session
        else
          match redirectOutputs source target targetType session.graph.outputs
              session.graph.outputTypes with
          | none => .error (.breach .untypedOutput) middle
          | some (outputs, outputTypes) =>
            let redirected : Session :=
              ⟨{ middle.graph with outputs, outputTypes }, middle.index⟩
            if session.precedesProducer target (session.index.distinctReaders source) then
              sort redirected
            else .ok () redirected := by
  have askSource : typeOf source session = .ok sourceType session := by
    rw [typeOf_apply, knownSource]
  have askTarget : typeOf target session = .ok targetType session := by
    rw [typeOf_apply, knownTarget]
  rw [replace, if_neg differ, bind_of_ok askSource, bind_of_ok askTarget]
  have frame : middle.graph.outputs = session.graph.outputs
      ∧ middle.graph.outputTypes = session.graph.outputTypes := by
    rw [changed]
    exact ⟨rfl, rfl⟩
  have asked : (get : Edit Session) session = .ok session session := rfl
  have askedMiddle : (get : Edit Session) middle = .ok middle middle := rfl
  by_cases fits : sourceType.compatibleWith targetType = true
  · simp only [fits, Bool.not_true, Bool.false_eq_true, if_false]
    rw [bind_of_ok asked]
    by_cases depends : session.dependsOn target source = true
    · simp only [depends, if_true]
      rfl
    · simp only [depends, Bool.false_eq_true, if_false]
      rw [bind_of_ok asked, bind_of_ok asked, bind_of_ok done, bind_of_ok askedMiddle, frame.1,
        frame.2]
      cases redirectOutputs source target targetType session.graph.outputs
          session.graph.outputTypes with
      | none => rfl
      | some pair =>
          obtain ⟨outputs, outputTypes⟩ := pair
          dsimp only
          split_ifs <;> rfl
  · simp only [fits, Bool.not_false, if_true]
    rfl

/-- A value replaces another one of a compatible type that it does not depend on. Witness: the
session with all readers redirected.
-/
theorem replace_apply (described : session.Described ids) {source target : ValueId}
    {sourceType targetType : ValueType} (differ : source ≠ target)
    (knownSource : session.index.type? source = some sourceType)
    (knownTarget : session.index.type? target = some targetType)
    : ∃ middle,
        middle.graph
          = { session.graph with
              body := session.graph.body.map (redirectNode source target) }
        ∧ middle.Described ids
        ∧ Index.SameNames session.index middle.index
        ∧ replace source target session
          = if !sourceType.compatibleWith targetType then
              .error (.incompatible source target) session
            else if session.dependsOn target source then .error (.cycle source target) session
            else
              match redirectOutputs source target targetType session.graph.outputs
                  session.graph.outputTypes with
              | none => .error (.breach .untypedOutput) middle
              | some (outputs, outputTypes) =>
                let redirected : Session :=
                  ⟨{ middle.graph with outputs, outputTypes }, middle.index⟩
                if session.precedesProducer target (session.index.distinctReaders source) then
                  sort redirected
                else .ok () redirected := by
  have known : target ∈ session.graph.defined := defined_of_type? described knownTarget
  obtain ⟨middle, done, changed, middleDescribed, names⟩ :=
    redirectAll_apply described differ known
  exact ⟨middle, changed, middleDescribed, names,
    replace_eq differ knownSource knownTarget done changed⟩

/-- Redirected outputs show the new value or were outputs before, by induction on the outputs. -/
theorem mem_redirectOutputs {source target value : ValueId} {type : ValueType}
    {outputs newOutputs : List ValueId} {types newTypes : List ValueType}
    (redirected : redirectOutputs source target type outputs types = some (newOutputs, newTypes))
    (member : value ∈ newOutputs)
    : value = target ∨ value ∈ outputs := by
  induction outputs generalizing types newOutputs newTypes with
  | nil =>
      rw [redirectOutputs, Option.some.injEq, Prod.mk.injEq] at redirected
      rw [← redirected.1] at member
      simp at member
  | cons first rest ih =>
      cases types with
      | nil =>
          rw [redirectOutputs] at redirected
          split_ifs at redirected with same
          obtain ⟨⟨others, _⟩, later, pair⟩ := Option.map_eq_some_iff.mp redirected
          obtain ⟨rfl, -⟩ := Prod.mk.inj pair
          rcases List.mem_cons.mp member with rfl | member
          · exact .inr List.mem_cons_self
          · exact (ih later member).imp_right (List.mem_cons_of_mem _)
      | cons declared types =>
          rw [redirectOutputs] at redirected
          obtain ⟨⟨others, _⟩, later, pair⟩ := Option.map_eq_some_iff.mp redirected
          dsimp only at pair
          split_ifs at pair with same
          · obtain ⟨rfl, -⟩ := Prod.mk.inj pair
            rcases List.mem_cons.mp member with rfl | member
            · exact .inl rfl
            · exact (ih later member).imp_right (List.mem_cons_of_mem _)
          · obtain ⟨rfl, -⟩ := Prod.mk.inj pair
            rcases List.mem_cons.mp member with rfl | member
            · exact .inr List.mem_cons_self
            · exact (ih later member).imp_right (List.mem_cons_of_mem _)

/-- Redirected outputs are defined, also by the redirected body. -/
theorem known_of_redirectOutputs (described : session.Described ids) {middle : Session}
    {source target : ValueId} {type : ValueType} {outputs : List ValueId}
    {outputTypes : List ValueType}
    (changed
      : middle.graph
        = { session.graph with
            body := session.graph.body.map (redirectNode source target) })
    (known : target ∈ session.graph.defined)
    (redirected
      : redirectOutputs source target type session.graph.outputs session.graph.outputTypes
        = some (outputs, outputTypes))
    : ∀ value ∈ outputs, value ∈ middle.graph.defined := by
  have same : middle.graph.defined = session.graph.defined := by
    rw [changed]
    exact Index.defined_eq rfl (by rw [List.map_map]; rfl)
  intro value member
  rw [same]
  rcases mem_redirectOutputs redirected member with rfl | old
  · exact known
  · exact described.outputsKnown value old

/-- Other outputs keep the description, if the graph defines them. -/
theorem Described.withOutputs (described : session.Described ids) {outputs : List ValueId}
    (outputTypes : List ValueType) (known : ∀ value ∈ outputs, value ∈ session.graph.defined)
    : Described ⟨{ session.graph with outputs, outputTypes }, session.index⟩ ids :=
  described.change (Index.SameNames.refl _) rfl rfl rfl described.slots described.liveReaders
    described.readsKnown known

-----------------------------------------------------------------------------------------
-- Single nodes
-----------------------------------------------------------------------------------------

/-- A node that nothing reads or shows is erased. -/
theorem erase_apply {position : Nat} {id : NodeId} {node : Node}
    (placed : session.index.position? id = some position)
    (found : session.node? id = some node)
    : erase id session
      = if !(session.index.readers node.value).isEmpty || session.isOutput node.value then
          .error (.stillUsed node.value) session
        else
          .ok () ⟨{ session.graph with body := session.graph.body.eraseIdx position },
            session.index.remove id node⟩ := by
  have askNode : Session.node id session = .ok node session := by rw [node_apply, found]
  have askPosition
      : Session.position id (.unknownValue node.value) session = .ok position session := by
    rw [position_apply, placed]
  have asked : (get : Edit Session) session = .ok session session := rfl
  rw [erase, bind_of_ok askNode, bind_of_ok asked]
  by_cases used
      : (!(session.index.readers node.value).isEmpty || session.isOutput node.value) = true
  · rw [if_pos used, if_pos used]
    rfl
  · rw [if_neg used, if_neg used]
    exact bind_of_ok askPosition

/-- Erasing either fails and changes nothing, or it removes the node from the graph. -/
theorem erase_cases (described : session.Described ids) (id : NodeId)
    : (∃ error, erase id session = .error error session)
      ∨ ∃ position node,
          ids[position]? = some id
          ∧ session.graph.body[position]? = some node
          ∧ session.index.readers node.value = []
          ∧ node.value ∉ session.graph.outputs
          ∧ erase id session
            = .ok () ⟨{ session.graph with body := session.graph.body.eraseIdx position },
                session.index.remove id node⟩ := by
  cases found : session.node? id with
  | none =>
      refine .inl ⟨.breach .erasedNode, ?_⟩
      have failed : Session.node id session = .error (.breach .erasedNode) session := by
        rw [node_apply, found]
      rw [erase, bind_of_error failed]
  | some node =>
      obtain ⟨position, placed, listed, here⟩ := listed_of_node? described found
      rw [erase_apply placed found]
      split_ifs with used
      · exact .inl ⟨_, rfl⟩
      · refine .inr ⟨position, node, listed, here, ?_, ?_, rfl⟩
        · cases readers : session.index.readers node.value with
          | nil => rfl
          | cons first rest => simp [readers] at used
        · intro shown
          refine used ?_
          simp [isOutput, shown]

/-- A node is inserted in front of another one as it is added to the tables. -/
theorem insertBefore_eq (described : session.Described ids) {position : Nat} {before : NodeId}
    {operation : Operation} {operands : List Operand} {types : List ValueType} {type : ValueType}
    {index : Index} (listed : ids[position]? = some before)
    (known : operands.mapM session.operandType? = some types)
    (inferred : operation.resultType types = .ok type)
    (inserted
      : session.index.insert position ⟨⟨session.index.nextValue⟩, operation, operands, type⟩
        = .ok index)
    : insertBefore before operation operands session
      = .ok ⟨session.index.nextValue⟩
          ⟨{ session.graph with
              body := session.graph.body.insertIdx position
                ⟨⟨session.index.nextValue⟩, operation, operands, type⟩ },
            index⟩ := by
  have askTypes : operands.mapM operandType session = .ok types session := by
    rcases operandTypes_apply operands session with ⟨_, found, asked⟩ | ⟨missing, -⟩
    · obtain rfl := Option.some.inj (known.symm.trans found)
      exact asked
    · cases known.symm.trans missing
  have askType : resultType operation types session = .ok type session := by
    rw [resultType_apply, inferred]
  have askPosition
      : Session.position before (.breach .erasedNode) session = .ok position session := by
    rw [position_apply, described.position?_eq_some_iff.mpr listed]
  have asked : (get : Edit Session) session = .ok session session := rfl
  rw [insertBefore, bind_of_ok askTypes, bind_of_ok askType, bind_of_ok askPosition,
    bind_of_ok asked]
  dsimp only
  rw [inserted]
  rfl

/-- A node is inserted in front of another one, if its operands are known and fit the operation. -/
theorem insertBefore_apply (described : session.Described ids) {position : Nat} {before : NodeId}
    {operation : Operation} {operands : List Operand} {types : List ValueType} {type : ValueType}
    (listed : ids[position]? = some before)
    (known : operands.mapM session.operandType? = some types)
    (inferred : operation.resultType types = .ok type)
    : ∃ after,
        after.graph
          = { session.graph with
              body := session.graph.body.insertIdx position
                ⟨⟨session.index.nextValue⟩, operation, operands, type⟩ }
        ∧ after.Described (ids.insertIdx position ⟨session.index.nextNode⟩)
        ∧ after.index.nextNode = session.index.nextNode + 1
        ∧ insertBefore before operation operands session
          = .ok ⟨session.index.nextValue⟩ after := by
  let node : Node := ⟨⟨session.index.nextValue⟩, operation, operands, type⟩
  have inside := (List.getElem?_eq_some_iff.mp listed).1
  have readsKnown : ∀ value ∈ node.reads, value ∈ session.graph.defined :=
    reads_known described known
  obtain ⟨index, inserted, afterDescribed, next⟩ :=
    described.insert (described.length ▸ inside.le) rfl readsKnown
  exact ⟨_, rfl, afterDescribed, next, insertBefore_eq described listed known inferred inserted⟩

/-- A node is inserted, or nothing is changed. -/
theorem insertBefore_cases (described : session.Described ids) (before : NodeId)
    (operation : Operation) (operands : List Operand)
    : (∃ error, insertBefore before operation operands session = .error error session)
      ∨ ∃ position types type after,
          ids[position]? = some before
          ∧ operands.mapM session.operandType? = some types
          ∧ operation.resultType types = .ok type
          ∧ after.graph
            = { session.graph with
                body := session.graph.body.insertIdx position
                  ⟨⟨session.index.nextValue⟩, operation, operands, type⟩ }
          ∧ after.Described (ids.insertIdx position ⟨session.index.nextNode⟩)
          ∧ after.index.nextNode = session.index.nextNode + 1
          ∧ insertBefore before operation operands session
            = .ok ⟨session.index.nextValue⟩ after := by
  rcases operandTypes_apply operands session with ⟨types, known, askTypes⟩ | ⟨-, value, failed⟩
  · have askType := resultType_apply operation types session
    cases typed : operation.resultType types with
    | error error =>
        rw [typed] at askType
        exact .inl ⟨_, by rw [insertBefore, bind_of_ok askTypes, bind_of_error askType]⟩
    | ok type =>
        rw [typed] at askType
        have askPosition := position_apply before (.breach .erasedNode) session
        cases placed : session.index.position? before with
        | none =>
            rw [placed] at askPosition
            refine .inl ⟨.breach .erasedNode, ?_⟩
            rw [insertBefore, bind_of_ok askTypes, bind_of_ok askType, bind_of_error askPosition]
        | some position =>
            have listed := described.position?_eq_some_iff.mp placed
            obtain ⟨after, inserted⟩ := insertBefore_apply described listed known typed
            exact .inr ⟨position, types, type, after, listed, known, typed, inserted⟩
  · exact .inl ⟨_, by rw [insertBefore, bind_of_error failed]⟩

/-- A node gets another operation, if the operands fit it. -/
theorem setOperation_apply (described : session.Described ids) {position : Nat} {id : NodeId}
    {node : Node} {operation : Operation} {types : List ValueType} {type : ValueType}
    (listed : ids[position]? = some id) (found : session.graph.body[position]? = some node)
    (known : node.operands.mapM session.operandType? = some types)
    (inferred : operation.resultType types = .ok type)
    : setOperation id operation session
      = if !node.type.compatibleWith type then
          .error (.incompatible node.value node.value) session
        else
          .ok () ⟨{ session.graph with
            body := session.graph.body.modify position fun node => { node with operation, type } },
            (session.index.setType node.value type).bump id⟩ := by
  obtain ⟨placed, here⟩ := node?_of_listed described listed found
  have asked : (get : Edit Session) session = .ok session session := rfl
  have askNode : Session.node id session = .ok node session := by rw [node_apply, here]
  have askType : resultType operation types session = .ok type session := by
    rw [resultType_apply, inferred]
  have askPosition
      : Session.position id (.unknownValue node.value) session = .ok position session := by
    rw [position_apply, placed]
  rw [setOperation, bind_of_ok askNode, bind_of_ok asked]
  dsimp only
  rw [known]
  dsimp only
  rw [bind_of_ok askType]
  by_cases fits : node.type.compatibleWith type = true
  · simp only [fits, Bool.not_true, Bool.false_eq_true, if_false]
    rw [bind_of_ok askPosition]
    rfl
  · simp only [fits, Bool.not_false, if_true]
    rfl

/-- A node gets another operation, if the operands fit it and the type stays compatible. -/
theorem setOperation_cases (described : session.Described ids) (id : NodeId)
    (operation : Operation)
    : (∃ error, setOperation id operation session = .error error session)
      ∨ ∃ position node types type,
          ids[position]? = some id
          ∧ session.graph.body[position]? = some node
          ∧ node.operands.mapM session.operandType? = some types
          ∧ operation.resultType types = .ok type
          ∧ node.type.compatibleWith type = true
          ∧ setOperation id operation session
            = .ok () ⟨{ session.graph with
                body := session.graph.body.modify position fun node =>
                  { node with operation, type } },
                (session.index.setType node.value type).bump id⟩ := by
  have asked : (get : Edit Session) session = .ok session session := rfl
  have askNode := node_apply id session
  cases found : session.node? id with
  | none =>
      rw [found] at askNode
      exact .inl ⟨_, bind_of_error askNode⟩
  | some node =>
      obtain ⟨position, -, listed, here⟩ := listed_of_node? described found
      rw [found] at askNode
      cases known : node.operands.mapM session.operandType? with
      | none =>
          refine .inl ⟨.unknownValue node.value, ?_⟩
          rw [setOperation, bind_of_ok askNode, bind_of_ok asked]
          dsimp only
          rw [known]
          rfl
      | some types =>
          cases typed : operation.resultType types with
          | error error =>
              have askType := resultType_apply operation types session
              rw [typed] at askType
              refine .inl ⟨.type error, ?_⟩
              rw [setOperation, bind_of_ok askNode, bind_of_ok asked]
              dsimp only
              rw [known]
              exact bind_of_error askType
          | ok type =>
              have done := setOperation_apply described listed here known typed
              by_cases fits : node.type.compatibleWith type = true
              · rw [fits, Bool.not_true, if_neg Bool.false_ne_true] at done
                exact .inr ⟨position, node, types, type, listed, here, known, typed, fits, done⟩
              · rw [Bool.not_eq_true] at fits
                rw [fits, Bool.not_false, if_pos rfl] at done
                exact .inl ⟨_, done⟩

end Dataflow.Session
