import Dataflow.Proofs.Rewrite.Answers
import Dataflow.Proofs.Rewrite.EditSequences
import Dataflow.Proofs.Rewrite.Retyping
import Dataflow.Rewrite.Rule

/-!
Edits of well-typed graphs that cannot fail. A value that is declared in front of a node and has its
type takes its place, and a node that follows what is declared in front of a place is inserted
there. Neither touches the body in front of that place.
-/

namespace Dataflow

-----------------------------------------------------------------------------------------
-- Compatible types
-----------------------------------------------------------------------------------------

theorem Dimension.meet_self (dim : Dimension) : dim.meet dim = some dim := by
  cases dim with
  | static size => rw [meet, if_pos rfl]
  | unknown => rfl

theorem TensorType.compatibleWith_self (type : TensorType) : type.compatibleWith type = true := by
  rw [compatibleWith, agreeOn, decide_eq_true rfl, decide_eq_true rfl, Bool.true_and, Bool.true_and]
  induction type.shape.dims with
  | nil => rfl
  | cons dim dims ih => simpa [Dimension.meet_self] using ih

namespace ValueType

mutual

theorem compatibleWith_self : ∀ (type : ValueType), type.compatibleWith type = true
  | .tensor type => type.compatibleWith_self
  | .list element => element.compatibleWith_self
  | .tuple parts => compatibleParts_self parts

theorem compatibleParts_self : ∀ (parts : List ValueType), compatibleParts parts parts = true
  | [] => rfl
  | part :: parts => by
    rw [compatibleParts, compatibleWith_self part, compatibleParts_self parts, Bool.and_self]

end

end ValueType

/-- Graphs with the same name, the same inputs and the same types of outputs. -/
structure Graph.SameInterface (before after : Graph) : Prop where
  name : after.name = before.name
  inputs : after.inputs = before.inputs
  inputTypes : after.inputTypes = before.inputTypes
  outputTypes : after.outputTypes = before.outputTypes

theorem Graph.SameInterface.refl (graph : Graph) : graph.SameInterface graph :=
  ⟨rfl, rfl, rfl, rfl⟩

theorem Graph.SameInterface.trans {first second third : Graph} (left : first.SameInterface second)
    (right : second.SameInterface third)
    : first.SameInterface third :=
  ⟨right.name.trans left.name, right.inputs.trans left.inputs,
    right.inputTypes.trans left.inputTypes, right.outputTypes.trans left.outputTypes⟩

namespace Session

variable {narrow : Prop} {session : Session} {ids : List NodeId} {position : Nat} {id : NodeId}
  {node : Node}

/-- The tables of a session describe its graph, which is well typed. -/
structure Holds (narrow : Prop) (session : Session) (ids : List NodeId) : Prop where
  described : session.Described ids
  typed : session.graph.WellTyped narrow

/-- A session can be started for every graph in order. -/
theorem exists_start_of_ordered {graph : Graph} (ordered : graph.Ordered)
    (inputsTyped : graph.inputs.length = graph.inputTypes.length)
    : ∃ session,
        Session.start graph = .ok session
        ∧ session.graph = graph
        ∧ session.Described (Index.positionIds graph.body.length) := by
  have closed : graph.Closed := by
    refine ⟨ordered.distinct, fun {node} member value read => ?_, ordered.outputs⟩
    obtain ⟨position, found⟩ := List.mem_iff_getElem?.mp member
    exact Graph.mem_defined_of_before (ordered.reads found value read)
  obtain ⟨index, built, described, -⟩ := Index.build_eq_ok closed inputsTyped
  exact ⟨⟨graph, index⟩, by rw [Session.start, built]; rfl, rfl, described⟩

/-- A session can be started for a graph that is well typed. -/
theorem exists_start_of_wellTyped {graph : Graph} (typed : graph.WellTyped narrow)
    : ∃ session,
        Session.start graph = .ok session
        ∧ session.graph = graph
        ∧ session.Holds narrow (Index.positionIds graph.body.length) := by
  obtain ⟨session, started, rfl, described⟩ :=
    exists_start_of_ordered typed.ordered typed.inputsTyped
  exact ⟨session, started, rfl, described, typed⟩

-----------------------------------------------------------------------------------------
-- Questions
-----------------------------------------------------------------------------------------

theorem operandType?_of_declaredBy (described : session.Described ids) {operand : Operand}
    {type : ValueType} (declared : operand.DeclaredBy session.graph.types type)
    : session.operandType? operand = some type := by
  cases operand with
  | literal content => exact congrArg some declared.symm
  | value value => exact type?_of_mem described declared

theorem operandTypes?_of_declaredBy (described : session.Described ids) {operands : List Operand}
    {types : List ValueType}
    (declared : List.Forall₂ (Operand.DeclaredBy session.graph.types) operands types)
    : operands.mapM session.operandType? = some types := by
  rw [Steps.mapM_eq_some_iff]
  induction declared with
  | nil => rfl
  | cons here _ ih => rw [List.map_cons, List.map_cons, operandType?_of_declaredBy described here, ih]

/-- What the producer of a value reads is defined in front of everything behind the value. -/
theorem readsOf_subset (described : session.Described ids) (ordered : session.graph.Ordered)
    {value : ValueId} (before : value ∈ session.graph.definedBefore position)
    : session.readsOf value ⊆ session.graph.definedBefore position := by
  intro read member
  rw [readsOf] at member
  cases produced : session.producer? value with
  | none => simp [produced] at member
  | some node =>
      rw [produced] at member
      obtain ⟨place, here, rfl⟩ := (producer?_eq_some_iff described).mp produced
      exact Graph.definedBefore_mono (ordered.position_lt here before).le
        (ordered.reads here read member)

theorem mem_addNew {values : List ValueId} {value other : ValueId}
    : other ∈ addNew values value ↔ other ∈ values ∨ other = value := by
  rw [addNew]
  split_ifs with known
  · refine ⟨.inl, fun either => either.elim id ?_⟩
    rintro rfl
    simpa using known
  · simp

theorem mem_foldl_addNew {values more : List ValueId} {value : ValueId}
    : value ∈ more.foldl addNew values ↔ value ∈ values ∨ value ∈ more := by
  induction more generalizing values with
  | nil => simp
  | cons first rest ih => rw [List.foldl_cons, ih, mem_addNew, List.mem_cons, or_assoc]

/-- Everything that values are computed from stands in front of them, by induction on the rounds. -/
theorem sources_subset (described : session.Described ids) (ordered : session.graph.Ordered)
    {rounds : Nat} {values : List ValueId}
    (before : values ⊆ session.graph.definedBefore position)
    : session.sources rounds values ⊆ session.graph.definedBefore position := by
  induction rounds generalizing values with
  | zero => exact before
  | succ rounds ih =>
      refine ih fun value member => ?_
      rcases mem_foldl_addNew.mp member with old | read
      · exact before old
      · obtain ⟨reader, there, read⟩ := List.mem_flatMap.mp read
        exact readsOf_subset described ordered (before there) read

/-- A value in front of a node does not depend on it. -/
theorem dependsOn_eq_false (described : session.Described ids) (ordered : session.graph.Ordered)
    (found : session.graph.body[position]? = some node) {target : ValueId}
    (before : target ∈ session.graph.definedBefore position)
    : session.dependsOn target node.value = false := by
  rw [dependsOn, Bool.eq_false_iff]
  intro contained
  have reached : node.value ∈ session.sources session.graph.body.length [target] := by
    simpa using contained
  exact Graph.value_not_before ordered.distinct found
    (sources_subset described ordered (by simpa using before) reached)

/-- All readers of a node stand behind it, and so behind everything in front of it. -/
theorem precedesProducer_eq_false (described : session.Described ids)
    (ordered : session.graph.Ordered) (found : session.graph.body[position]? = some node)
    {target : ValueId} (before : target ∈ session.graph.definedBefore position)
    : session.precedesProducer target (session.index.distinctReaders node.value) = false := by
  rw [Bool.eq_false_iff, Ne, precedesProducer_iff described]
  rintro ⟨first, second, reader, producer, lt, here, read, there, rfl⟩
  have front := ordered.position_lt there before
  have behind := ordered.position_lt found (ordered.reads here _ read)
  omega

-----------------------------------------------------------------------------------------
-- Replacing
-----------------------------------------------------------------------------------------

/-- Outputs keep their types if a value of the same type is shown. -/
theorem redirectOutputs_eq {types : Types} {source target : ValueId} {type : ValueType}
    {outputs : List ValueId} {outputTypes : List ValueType}
    (declared : List.Forall₂ (fun id type => (id, type) ∈ types) outputs outputTypes)
    (unique : ∀ other, (source, other) ∈ types → other = type)
    : redirectOutputs source target type outputs outputTypes
      = some (outputs.map fun id => if id = source then target else id, outputTypes) := by
  induction declared with
  | nil => rfl
  | @cons output declared outputs outputTypes here _ ih =>
      rw [redirectOutputs, ih, Option.map_some, List.map_cons]
      split_ifs with same
      · rw [unique declared (same ▸ here)]
      · rfl

/-- Behind an edit the graph is well typed and has the same interface, and nothing has changed in
front of a place.
-/
structure Advances (narrow : Prop) (place : Nat) (session : Session) (ids : List NodeId)
    (after : Session) (names : List NodeId) : Prop where
  holds : after.Holds narrow names
  interface : session.graph.SameInterface after.graph
  body : after.graph.body.take place = session.graph.body.take place
  names : names.take place = ids.take place

theorem Advances.refl (holds : session.Holds narrow ids) (place : Nat)
    : session.Advances narrow place ids session ids :=
  ⟨holds, .refl _, rfl, rfl⟩

theorem Advances.trans {place later : Nat} {middle after : Session} {between names : List NodeId}
    (first : session.Advances narrow place ids middle between)
    (second : middle.Advances narrow later between after names) (le : place ≤ later)
    : session.Advances narrow place ids after names where
  holds := second.holds
  interface := first.interface.trans second.interface
  body := by
    have same := congrArg (List.take place) second.body
    rw [List.take_take, List.take_take, Nat.min_eq_left le] at same
    exact same.trans first.body
  names := by
    have same := congrArg (List.take place) second.names
    rw [List.take_take, List.take_take, Nat.min_eq_left le] at same
    exact same.trans first.names

theorem Advances.mono {place later : Nat} {after : Session} {names : List NodeId}
    (advances : session.Advances narrow later ids after names)
    (start : session.Holds narrow ids) (le : place ≤ later)
    : session.Advances narrow place ids after names :=
  (Advances.refl start place).trans advances le

theorem Advances.typesBefore {place : Nat} {after : Session} {names : List NodeId}
    (advances : session.Advances narrow place ids after names)
    : after.graph.typesBefore place = session.graph.typesBefore place := by
  rw [Graph.typesBefore, Graph.typesBefore, advances.body, advances.interface.inputs,
    advances.interface.inputTypes]

theorem Holds.declaredBefore_iff (holds : session.Holds narrow ids) {value : ValueId}
    {type : ValueType} (declared : (value, type) ∈ session.graph.types)
    : (value, type) ∈ session.graph.typesBefore position
      ↔ value ∈ session.graph.definedBefore position := by
  rw [← holds.typed.keys_typesBefore]
  refine ⟨fun member => List.mem_map_of_mem member, fun member => ?_⟩
  obtain ⟨⟨_, other⟩, there, rfl⟩ := List.mem_map.mp member
  rwa [holds.typed.type_unique declared (Graph.typesBefore_subset _ _ there)]

/-- A node that nothing reads or shows is erased. -/
theorem erase_of_unused (described : session.Described ids) (listed : ids[position]? = some id)
    (found : session.graph.body[position]? = some node)
    (unread : ∀ other ∈ session.graph.body, node.value ∉ other.reads)
    (hidden : node.value ∉ session.graph.outputs)
    : ∃ after,
        erase id session = .ok () after
        ∧ after.Described (ids.eraseIdx position)
        ∧ after.graph
          = { session.graph with body := session.graph.body.eraseIdx position } := by
  have located := node?_of_listed described listed found
  have unread := (readers_eq_nil_iff described).mpr unread
  have erased := erase_apply located.1 located.2
  rw [if_neg (by simp [isOutput, unread, hidden])] at erased
  exact ⟨_, erased, (described.remove listed found unread hidden).1, rfl⟩

/-- A value of the same type that is defined in front of a node takes its place, if outputs that show
the node can be redirected.
-/
theorem replaceNode_of_before (described : session.Described ids)
    (ordered : session.graph.Ordered) (listed : ids[position]? = some id)
    (found : session.graph.body[position]? = some node) {new : ValueId}
    (declared : (new, node.type) ∈ session.graph.types)
    (before : new ∈ session.graph.definedBefore position) {outputTypes : List ValueType}
    (outputs
      : redirectOutputs node.value new node.type session.graph.outputs session.graph.outputTypes
        = some (session.graph.outputs.map fun id => if id = node.value then new else id, outputTypes))
    : ∃ after,
        replaceNode id node.value new session = .ok () after
        ∧ after.Described (ids.eraseIdx position)
        ∧ after.graph
          = { session.graph with
              body := (session.graph.body.eraseIdx position).map (redirectNode node.value new)
              outputs := session.graph.outputs.map fun id => if id = node.value then new else id
              outputTypes } := by
  have nodeDeclared : node.result ∈ session.graph.types :=
    Graph.result_mem_types (List.mem_of_getElem? found)
  have differ : node.value ≠ new := fun same =>
    Graph.value_not_before ordered.distinct found (same ▸ before)
  obtain ⟨middle, changed, middleDescribed, names, replaced⟩ :=
    replace_apply described differ (type?_of_mem described nodeDeclared)
      (type?_of_mem described declared)
  rw [ValueType.compatibleWith_self, dependsOn_eq_false described ordered found before,
    precedesProducer_eq_false described ordered found before, outputs] at replaced
  simp only [Bool.not_true, Bool.false_eq_true, if_false] at replaced
  -- All uses of the old value are gone, so its node can be erased.
  have known := defined_of_type? described (type?_of_mem described declared)
  have redirected := middleDescribed.withOutputs outputTypes
    (known_of_redirectOutputs described changed known outputs)
  have here : (session.graph.body.map (redirectNode node.value new))[position]?
      = some (redirectNode node.value new node) := by
    rw [List.getElem?_map, found]
    rfl
  rw [changed] at redirected replaced
  have unread (other : Node) (member : other ∈ session.graph.body.map (redirectNode node.value new))
      : node.value ∉ other.reads := by
    obtain ⟨reader, -, rfl⟩ := List.mem_map.mp member
    exact not_mem_reads_redirectNode reader differ
  obtain ⟨after, erased, removed, graph⟩ := erase_of_unused redirected listed here unread
    (not_mem_map_redirected session.graph.outputs differ)
  refine ⟨after, (bind_of_ok replaced).trans erased, removed, graph.trans ?_⟩
  dsimp only
  rw [List.eraseIdx_map]

/-- A value that is declared in front of a node and has its type takes its place. -/
theorem Holds.replaceNode (holds : session.Holds narrow ids) (listed : ids[position]? = some id)
    (found : session.graph.body[position]? = some node) {new : ValueId}
    (declared : (new, node.type) ∈ session.graph.typesBefore position)
    : ∃ after,
        replaceNode id node.value new session = .ok () after
        ∧ after.graph
          = { session.graph with
              body := (session.graph.body.eraseIdx position).map (redirectNode node.value new)
              outputs := session.graph.outputs.map fun id => if id = node.value then new else id }
        ∧ session.Advances narrow position ids after (ids.eraseIdx position) := by
  have nodeDeclared : node.result ∈ session.graph.types :=
    Graph.result_mem_types (List.mem_of_getElem? found)
  have newDeclared := Graph.typesBefore_subset _ _ declared
  have before := (holds.declaredBefore_iff newDeclared).mp declared
  have outputs := @redirectOutputs_eq _ _ new _ _ _ holds.typed.outputs
    fun other known => holds.typed.type_unique known nodeDeclared
  obtain ⟨after, replaced, removed, graph⟩ :=
    replaceNode_of_before holds.described holds.typed.ordered listed found newDeclared before outputs
  refine ⟨after, replaced, graph, ⟨⟨removed, graph ▸ holds.typed.replace found declared⟩,
    graph ▸ ⟨rfl, rfl, rfl, rfl⟩, ?_, ?_⟩⟩
  · rw [graph]
    dsimp only
    rw [← List.map_take, List.take_eraseIdx_eq_take_of_le _ _ _ le_rfl,
      holds.typed.ordered.redirect_take found]
  · rw [List.take_eraseIdx_eq_take_of_le _ _ _ le_rfl]

/-- A value of a type that is not compatible is refused. -/
theorem Holds.replaceNode_of_clash (holds : session.Holds narrow ids)
    (found : session.graph.body[position]? = some node) {new : ValueId} {type : ValueType}
    (declared : (new, type) ∈ session.graph.types) (clash : ¬node.type.compatibleWith type = true)
    : ∃ error, Session.replaceNode id node.value new session = .error error session := by
  have described := holds.described
  have nodeDeclared : node.result ∈ session.graph.types :=
    Graph.result_mem_types (List.mem_of_getElem? found)
  have differ : node.value ≠ new := by
    rintro rfl
    rw [holds.typed.type_unique declared nodeDeclared] at clash
    exact clash node.type.compatibleWith_self
  obtain ⟨_, -, -, -, replaced⟩ := replace_apply described differ
    (type?_of_mem described nodeDeclared) (type?_of_mem described declared)
  rw [Bool.eq_false_iff.mpr clash, Bool.not_false, if_pos rfl] at replaced
  exact ⟨_, bind_of_error replaced⟩

-----------------------------------------------------------------------------------------
-- Single nodes
-----------------------------------------------------------------------------------------

/-- A node that nothing reads or shows is erased. -/
theorem Holds.erase (holds : session.Holds narrow ids) (listed : ids[position]? = some id)
    (found : session.graph.body[position]? = some node)
    (unread : session.index.readers node.value = []) (hidden : session.isOutput node.value = false)
    : ∃ after,
        erase id session = .ok () after
        ∧ after.graph = { session.graph with body := session.graph.body.eraseIdx position }
        ∧ session.Advances narrow position ids after (ids.eraseIdx position) := by
  have described := holds.described
  obtain ⟨placed, here⟩ := node?_of_listed described listed found
  have unshown : node.value ∉ session.graph.outputs := by simpa [isOutput] using hidden
  have erased := erase_apply placed here
  rw [if_neg (by simp [unread, hidden])] at erased
  refine ⟨_, erased, rfl, ⟨(described.remove listed found unread unshown).1, ?_⟩,
    ⟨rfl, rfl, rfl, rfl⟩, ?_, ?_⟩
  · exact holds.typed.erase found ((readers_eq_nil_iff described).mp unread) unshown
  · exact List.take_eraseIdx_eq_take_of_le _ _ _ le_rfl
  · exact List.take_eraseIdx_eq_take_of_le _ _ _ le_rfl

/-- A node gets another operation of the same type. -/
theorem Holds.setOperation (holds : session.Holds narrow ids) (listed : ids[position]? = some id)
    (found : session.graph.body[position]? = some node) {operation : Operation}
    (follows
      : operation.Follows narrow (session.graph.typesBefore position) node.operands node.type)
    : ∃ after,
        Session.setOperation id operation session = .ok () after
        ∧ after.graph
          = { session.graph with body := session.graph.body.set position { node with operation } }
        ∧ session.Advances narrow position ids after ids := by
  have described := holds.described
  have ⟨types, declared, inferred, _⟩ := follows
  have known := operandTypes?_of_declaredBy described
    (declared.imp fun _ _ here => here.mono (Graph.typesBefore_subset _ _))
  have done := setOperation_apply described listed found known inferred
  rw [node.type.compatibleWith_self, Bool.not_true, if_neg Bool.false_ne_true] at done
  have modified
      : (session.graph.body.modify position fun other =>
          { other with operation, type := node.type })
        = session.graph.body.set position { node with operation } := by
    rw [List.modify_eq_set_getElem?, found]
    rfl
  refine ⟨_, done, ?_, ⟨(described.retype found operation node.type).bump id, ?_⟩,
    ⟨rfl, rfl, rfl, rfl⟩, ?_, rfl⟩
  · dsimp only
    rw [modified]
  · dsimp only
    rw [modified]
    exact holds.typed.change found rfl ⟨(holds.typed.follows_at found).fresh, follows⟩
  · dsimp only
    rw [modified, List.take_set_of_le le_rfl]

-----------------------------------------------------------------------------------------
-- Inserting
-----------------------------------------------------------------------------------------

/-- A node that follows what is declared in front of another one is inserted there. -/
theorem Holds.insertBefore (holds : session.Holds narrow ids) (listed : ids[position]? = some id)
    {operation : Operation} {operands : List Operand} {type : ValueType}
    (follows : operation.Follows narrow (session.graph.typesBefore position) operands type)
    : ∃ after,
        insertBefore id operation operands session = .ok ⟨session.index.nextValue⟩ after
        ∧ after.graph
          = { session.graph with
              body := session.graph.body.insertIdx position
                ⟨⟨session.index.nextValue⟩, operation, operands, type⟩ }
        ∧ session.Advances narrow position ids after
            (ids.insertIdx position ⟨session.index.nextNode⟩) := by
  obtain ⟨types, declared, inferred, narrowly⟩ := follows
  have described := holds.described
  have known := operandTypes?_of_declaredBy described
    (declared.imp fun _ _ here => here.mono (Graph.typesBefore_subset _ _))
  have inside := (List.getElem?_eq_some_iff.mp listed).1.le
  have fresh : (⟨session.index.nextValue⟩ : ValueId) ∉ session.graph.defined := fun member =>
    Nat.lt_irrefl _ (described.valuesBelow _ member)
  obtain ⟨after, changed, afterDescribed, -, done⟩ :=
    insertBefore_apply described listed known inferred
  have follows
      : Node.Follows narrow (session.graph.typesBefore position)
          ⟨⟨session.index.nextValue⟩, operation, operands, type⟩ := by
    refine ⟨fun member => fresh ?_, types, declared, inferred, narrowly⟩
    rw [holds.typed.keys_typesBefore] at member
    exact Graph.mem_defined_of_before member
  refine ⟨after, done, changed, ⟨afterDescribed, ?_⟩, ?_, ?_, ?_⟩
  · rw [changed]
    exact holds.typed.insert (described.length ▸ inside) follows fresh
  · rw [changed]
    exact ⟨rfl, rfl, rfl, rfl⟩
  · rw [changed]
    exact List.take_insertIdx_eq_take_of_le _ _ _ _ le_rfl
  · exact List.take_insertIdx_eq_take_of_le _ _ _ _ le_rfl

/-- A node has been inserted in front of another one: the session stands at the other one again, and
the new value is declared in front of it.
-/
structure Inserted (narrow : Prop) (session : Session) (ids : List NodeId) (position : Nat)
    (id : NodeId) (node : Node) (type : ValueType) (after : Session) (names : List NodeId) : Prop
    where
  advances : session.Advances narrow position ids after names
  listed : names[position + 1]? = some id
  found : after.graph.body[position + 1]? = some node
  declared : (⟨session.index.nextValue⟩, type) ∈ after.graph.typesBefore (position + 1)

theorem Holds.inserted (holds : session.Holds narrow ids) (listed : ids[position]? = some id)
    (found : session.graph.body[position]? = some node) {operation : Operation}
    {operands : List Operand} {type : ValueType}
    (follows : operation.Follows narrow (session.graph.typesBefore position) operands type)
    : ∃ after names,
        Session.insertBefore id operation operands session = .ok ⟨session.index.nextValue⟩ after
        ∧ after.graph
          = { session.graph with
              body := session.graph.body.insertIdx position
                ⟨⟨session.index.nextValue⟩, operation, operands, type⟩ }
        ∧ session.Inserted narrow ids position id node type after names := by
  obtain ⟨after, done, changed, advances⟩ := holds.insertBefore listed follows
  have bodyInside := (List.getElem?_eq_some_iff.mp found).1
  have shifted {α : Type} {list : List α} {entry : α} (new : α) (there : list[position]? = some entry)
      : (list.insertIdx position new)[position + 1]? = some entry := by
    rw [List.getElem?_insertIdx_of_gt (Nat.lt_succ_self _)]
    exact there
  refine ⟨after, _, done, changed, advances, shifted _ listed, ?_, ?_⟩
  · rw [changed]
    exact shifted _ found
  · have new : after.graph.body[position]?
        = some ⟨⟨session.index.nextValue⟩, operation, operands, type⟩ := by
      rw [changed]
      exact List.getElem?_insertIdx_self.trans (if_pos bodyInside.le)
    rw [Graph.typesBefore_succ new]
    exact List.mem_append_right _ List.mem_cons_self

end Session

end Dataflow
