import Dataflow.Proofs.Rewrite.Replacement

/-!
Failed edits. Some edits change the graph or the tables and may still meet an error later: a
replacement may have to sort, and an insertion takes its numbers before it knows that it succeeds.
In sessions that are reached from a body in order, none of these late errors occurs, so an edit that
reports an error has changed nothing.
-/

namespace Dataflow

namespace Session

variable {session : Session} {ids : List NodeId}

-----------------------------------------------------------------------------------------
-- Sessions without a cycle
-----------------------------------------------------------------------------------------

/-- The tables of a session describe its graph, and no value is computed from itself. -/
structure Sortable (session : Session) (ids : List NodeId) : Prop where
  described : session.Described ids
  acyclic : session.graph.Acyclic

/-- An edit keeps a session sortable, and if it reports an error, it has changed nothing. That an
output has no declared type is not reported: there, the program stops.
-/
def Atomic {α : Type} (session : Session) (result : EStateM.Result GraphError Session α) : Prop :=
  (∃ names, (behind result).Sortable names)
  ∧ ∀ {error : GraphError} {after : Session},
      result = .error error after
      → error ≠ .breach .untypedOutput
      → after = session

/-- An edit that changes nothing is atomic. -/
theorem Sortable.atomic_error {α : Type} (sortable : session.Sortable ids) (error : GraphError)
    : session.Atomic (.error error session : EStateM.Result GraphError Session α) := by
  refine ⟨⟨ids, sortable⟩, ?_⟩
  intro _ after same _
  exact (EStateM.Result.error.inj same).2.symm

/-- An edit that succeeds is atomic if it keeps the session sortable. -/
theorem Sortable.atomic_ok {α : Type} {after : Session} {names : List NodeId}
    (sortable : after.Sortable names) (result : α)
    : session.Atomic (.ok result after) :=
  ⟨⟨names, sortable⟩, nofun⟩

/-- Sorting succeeds. -/
theorem Sortable.sort (sortable : session.Sortable ids)
    : ∃ after names, Session.sort session = .ok () after ∧ after.Sortable names := by
  obtain ⟨after, names, done, described, ordered, -⟩ :=
    sort_of_acyclic sortable.described sortable.acyclic
  exact ⟨after, names, done, described, ordered.acyclic⟩

/-- A replacement is refused before it changes anything, or it succeeds: the session that it has to
sort is sortable. Only an output without a declared type stops it in between.
-/
theorem Sortable.replace (sortable : session.Sortable ids) (source target : ValueId)
    : session.Atomic (Session.replace source target session) := by
  have described := sortable.described
  by_cases same : source = target
  · rw [Session.replace, if_pos same]
    exact sortable.atomic_ok ()
  rcases replace_unknown_or session same with
    ⟨value, failed⟩ | ⟨sourceType, targetType, knownSource, knownTarget⟩
  · rw [failed]
    exact sortable.atomic_error _
  obtain ⟨middle, changed, middleDescribed, -, replaced⟩ :=
    replace_apply described same knownSource knownTarget
  rw [replaced]
  cases sourceType.compatibleWith targetType with
  | false => exact sortable.atomic_error _
  | true =>
  cases depends : session.dependsOn target source with
  | true => exact sortable.atomic_error _
  | false =>
  have acyclic : middle.graph.Acyclic := by
    rw [changed]
    exact sortable.acyclic.redirect (not_path_of_dependsOn described sortable.acyclic depends)
  cases redirected : redirectOutputs source target targetType session.graph.outputs
      session.graph.outputTypes with
  | none =>
      refine ⟨⟨ids, middleDescribed, acyclic⟩, ?_⟩
      intro error after stopped reported
      obtain ⟨rfl, -⟩ := EStateM.Result.error.inj stopped
      exact absurd rfl reported
  | some pair =>
  obtain ⟨outputs, outputTypes⟩ := pair
  dsimp only
  have shown := known_of_redirectOutputs described changed
    (defined_of_type? described knownTarget) redirected
  have next : Sortable ⟨{ middle.graph with outputs, outputTypes }, middle.index⟩ ids :=
    ⟨middleDescribed.withOutputs outputTypes shown, acyclic⟩
  simp only [Bool.not_true, Bool.false_eq_true, if_false]
  split_ifs
  · obtain ⟨after, names, done, kept⟩ := next.sort
    rw [done]
    exact kept.atomic_ok ()
  · exact next.atomic_ok ()

/-- A node is erased, or nothing is changed. -/
theorem Sortable.erase (sortable : session.Sortable ids) (id : NodeId)
    : session.Atomic (Session.erase id session) := by
  rcases erase_cases sortable.described id with
    ⟨error, failed⟩ | ⟨position, node, listed, found, unread, hidden, done⟩
  · rw [failed]
    exact sortable.atomic_error _
  · rw [done]
    have acyclic
        : Graph.Acyclic { session.graph with body := session.graph.body.eraseIdx position } :=
      sortable.acyclic.of_nodes fun other member =>
        ⟨other, List.mem_of_mem_eraseIdx member, rfl, rfl⟩
    exact Sortable.atomic_ok
      ⟨(sortable.described.remove listed found unread hidden).1, acyclic⟩ ()

/-- A node is inserted, or nothing is changed: the operands are known when the numbers are taken. -/
theorem Sortable.insertBefore (sortable : session.Sortable ids) (before : NodeId)
    (operation : Operation) (operands : List Operand)
    : session.Atomic (Session.insertBefore before operation operands session) := by
  have described := sortable.described
  rcases insertBefore_cases described before operation operands with
    ⟨error, failed⟩ | ⟨position, types, type, after, listed, known, -, graph, names, -, done⟩
  · rw [failed]
    exact sortable.atomic_error _
  · rw [done]
    have inside := (List.getElem?_eq_some_iff.mp listed).1.le
    have acyclic : after.graph.Acyclic := by
      rw [graph]
      exact sortable.acyclic.insertIdx (fun _ member => described.readsKnown member)
        (described.length ▸ inside) described.nextValue_not_mem (reads_known described known)
    exact Sortable.atomic_ok ⟨names, acyclic⟩ _

/-- A node gets another operation, or nothing is changed. -/
theorem Sortable.setOperation (sortable : session.Sortable ids) (id : NodeId)
    (operation : Operation)
    : session.Atomic (Session.setOperation id operation session) := by
  rcases setOperation_cases sortable.described id operation with
    ⟨error, failed⟩ | ⟨position, node, types, type, listed, found, -, -, -, done⟩
  · rw [failed]
    exact sortable.atomic_error _
  · rw [done]
    have acyclic
        : Graph.Acyclic
            { session.graph with
              body := session.graph.body.modify position fun node =>
                { node with operation, type } } := by
      refine sortable.acyclic.of_nodes fun changed member => ?_
      obtain ⟨place, stood⟩ := List.mem_iff_getElem?.mp member
      dsimp only at stood
      rw [List.getElem?_modify] at stood
      obtain ⟨old, there, rfl⟩ := Option.map_eq_some_iff.mp stood
      refine ⟨old, List.mem_of_getElem? there, ?_, ?_⟩ <;> split_ifs <;> rfl
    exact Sortable.atomic_ok
      ⟨(sortable.described.retype found operation type).bump id, acyclic⟩ ()

-----------------------------------------------------------------------------------------
-- Other inputs
-----------------------------------------------------------------------------------------

variable {inputs : List ValueId} {types : List ValueType} {α β : Type}

/-- The session of the graph with other inputs. -/
def withInputs (inputs : List ValueId) (types : List ValueType) (session : Session) : Session :=
  { session with graph := { session.graph with inputs, inputTypes := types } }

/-- Changes the session behind an edit. -/
def onBehind (change : Session → Session)
    : EStateM.Result GraphError Session α → EStateM.Result GraphError Session α
  | .ok result session => .ok result (change session)
  | .error error session => .error error (change session)

/-- An edit of some session does the same if the graph has other inputs. -/
def Blind (inputs : List ValueId) (types : List ValueType) (edit : Edit α) (session : Session)
    : Prop :=
  edit (session.withInputs inputs types) = onBehind (withInputs inputs types) (edit session)

/-- Edits do the same one after the other. -/
theorem Blind.bind {edit : Edit α} {next : α → Edit β} (first : Blind inputs types edit session)
    (rest
      : ∀ {result : α} {after : Session},
          edit session = .ok result after → Blind inputs types (next result) after)
    : Blind inputs types (edit >>= next) session := by
  rw [Blind] at first ⊢
  cases done : edit session with
  | ok result after =>
      rw [done] at first
      rw [bind_of_ok done, bind_of_ok first]
      exact rest done
  | error error after =>
      rw [done] at first
      rw [bind_of_error done, bind_of_error first]
      rfl

/-- What is asked about a session may not depend on the inputs. -/
theorem Blind.ask {next : Session → Edit β}
    (same : next (session.withInputs inputs types) = next session)
    (rest : Blind inputs types (next session) session)
    : Blind inputs types (get >>= next) session := by
  have asked (session : Session) : (get : Edit Session) session = .ok session session := rfl
  rw [Blind, bind_of_ok (asked _), bind_of_ok (asked session), same]
  exact rest

theorem blind_typeOf (value : ValueId) (session : Session)
    : Blind inputs types (typeOf value) session :=
  Blind.ask rfl (by cases session.index.type? value <;> rfl)

theorem blind_node (id : NodeId) (session : Session) : Blind inputs types (node id) session :=
  Blind.ask rfl (by cases session.node? id <;> rfl)

theorem blind_position (id : NodeId) (missing : GraphError) (session : Session)
    : Blind inputs types (position id missing) session :=
  Blind.ask rfl (by cases session.index.position? id <;> rfl)

theorem blind_redirectRead (source target : ValueId) (id : NodeId) (position place : Nat)
    (session : Session)
    : Blind inputs types (redirectRead source target id position place) session := by
  refine Blind.bind rfl fun _ => Blind.ask rfl ?_
  split_ifs <;> rfl

theorem blind_redirectReads (source target : ValueId) (id : NodeId) (position place : Nat)
    (operands : List Operand) (session : Session)
    : Blind inputs types (redirectReads source target id position place operands) session := by
  induction operands generalizing place session with
  | nil => rfl
  | cons operand rest ih =>
      rw [redirectReads]
      split_ifs
      · exact Blind.bind (blind_redirectRead ..) fun _ => ih ..
      · exact ih ..

theorem blind_redirectReader (source target : ValueId) (id : NodeId) (session : Session)
    : Blind inputs types (redirectReader source target id) session :=
  Blind.bind (blind_position ..) fun _ =>
    Blind.bind (blind_node ..) fun _ => Blind.bind (blind_redirectReads ..) fun _ => rfl

theorem blind_redirectReaders (source target : ValueId) (readers : List NodeId) (session : Session)
    : Blind inputs types (readers.forM (redirectReader source target)) session := by
  induction readers generalizing session with
  | nil => rfl
  | cons first rest ih => exact Blind.bind (blind_redirectReader ..) fun _ => ih _

theorem blind_operandTypes (operands : List Operand) (session : Session)
    : Blind inputs types (operands.mapM operandType) session := by
  induction operands generalizing session with
  | nil => rfl
  | cons first rest ih =>
      rw [List.mapM_cons]
      refine Blind.bind ?_ fun _ => Blind.bind (ih _) fun _ => rfl
      cases first with
      | value value => exact blind_typeOf value session
      | literal literal => rfl

theorem blind_resultType (operation : Operation) (operands : List ValueType) (session : Session)
    : Blind inputs types (resultType operation operands) session := by
  rw [resultType]
  cases operation.resultType operands <;> rfl

theorem blind_erase (id : NodeId) (session : Session)
    : Blind inputs types (erase id) session := by
  refine Blind.bind (blind_node ..) fun _ => Blind.ask rfl ?_
  split_ifs
  · rfl
  · exact Blind.bind (blind_position ..) fun _ => rfl

theorem blind_insertBefore (before : NodeId) (operation : Operation) (operands : List Operand)
    (session : Session)
    : Blind inputs types (insertBefore before operation operands) session := by
  refine Blind.bind (blind_operandTypes ..) fun _ => ?_
  refine Blind.bind (blind_resultType ..) fun _ => ?_
  refine Blind.bind (blind_position ..) fun _ => Blind.ask rfl ?_
  dsimp only
  split <;> rfl

theorem blind_setOperation (id : NodeId) (operation : Operation) (session : Session)
    : Blind inputs types (setOperation id operation) session := by
  refine Blind.bind (blind_node ..) fun _ => Blind.ask rfl ?_
  split
  · rfl
  · refine Blind.bind (blind_resultType ..) fun _ => ?_
    split_ifs
    · rfl
    · exact Blind.bind (blind_position ..) fun _ => rfl

/-- A described body is sorted the same with more inputs. -/
theorem blind_sort (described : session.Described ids) (more : session.graph.inputs ⊆ inputs)
    : Blind inputs types sort session := by
  have known : session.graph.unknownOperand? = none :=
    Graph.unknownOperand?_eq_none_iff.mpr fun _ member => described.readsKnown member
  have others : (session.withInputs inputs types).graph.unknownOperand? = none := by
    refine Graph.unknownOperand?_eq_none_iff.mpr fun node member value read => ?_
    exact List.mem_append.mpr
      ((List.mem_append.mp (described.readsKnown member value read)).imp_left (more ·))
  have same
      : (session.withInputs inputs types).graph.sortedPositions = session.graph.sortedPositions := by
    rw [Graph.sortedPositions, Graph.sortedPositions, known, others]
    rfl
  refine Blind.ask ?_ ?_
  · rw [same]
    rfl
  · split
    · rfl
    · split_ifs <;> rfl

theorem sources_withInputs (session : Session) (rounds : Nat) (values : List ValueId)
    : (session.withInputs inputs types).sources rounds values = session.sources rounds values := by
  induction rounds generalizing values with
  | zero => rfl
  | succ rounds ih => exact ih _

/-- Asking for a type gives the one in the tables, and changes nothing. -/
theorem typeOf_eq_ok {value : ValueId} {type : ValueType} {after : Session}
    (asked : typeOf value session = .ok type after)
    : session = after ∧ session.index.type? value = some type := by
  rw [typeOf_apply] at asked
  cases known : session.index.type? value with
  | none =>
      rw [known] at asked
      cases asked
  | some found =>
      rw [known] at asked
      obtain ⟨rfl, rfl⟩ := EStateM.Result.ok.inj asked
      exact ⟨rfl, rfl⟩

/-- A replacement in a described session does the same with more inputs. -/
theorem blind_replace (described : session.Described ids) (more : session.graph.inputs ⊆ inputs)
    (source target : ValueId)
    : Blind inputs types (replace source target) session := by
  rw [replace]
  split_ifs with same
  · rfl
  refine Blind.bind (blind_typeOf ..) fun {sourceType _} askedSource => ?_
  obtain ⟨rfl, -⟩ := typeOf_eq_ok askedSource
  refine Blind.bind (blind_typeOf ..) fun {targetType _} askedTarget => ?_
  obtain ⟨rfl, knownTarget⟩ := typeOf_eq_ok askedTarget
  split_ifs
  · rfl
  refine Blind.ask ?_ ?_
  · rw [dependsOn, sources_withInputs]
    rfl
  split_ifs
  · rfl
  refine Blind.ask rfl (Blind.ask rfl ?_)
  refine Blind.bind (blind_redirectReaders ..) fun done => Blind.ask rfl ?_
  have known := defined_of_type? described knownTarget
  obtain ⟨middle, again, changed, middleDescribed, -⟩ := redirectAll_apply described same known
  obtain ⟨-, rfl⟩ := EStateM.Result.ok.inj (again.symm.trans done)
  dsimp only
  cases redirected : redirectOutputs source target targetType _ _ with
  | none => rfl
  | some pair =>
      refine Blind.bind rfl fun {_ last} rewired => ?_
      obtain ⟨-, rfl⟩ := EStateM.Result.ok.inj rewired
      have inputsKept : middle.graph.inputs = session.graph.inputs := by rw [changed]
      have outputsKept : middle.graph.outputs = session.graph.outputs := by rw [changed]
      have typesKept : middle.graph.outputTypes = session.graph.outputTypes := by rw [changed]
      rw [outputsKept, typesKept] at redirected
      have shown := known_of_redirectOutputs described changed known redirected
      split_ifs
      · refine blind_sort (middleDescribed.withOutputs pair.2 shown) ?_
        exact fun _ member => more (inputsKept ▸ member)
      · rfl

end Session

-----------------------------------------------------------------------------------------
-- Runs
-----------------------------------------------------------------------------------------

namespace EditStep

open Session (Blind bind_of_ok bind_of_error)

variable {session : Session} {ids : List NodeId} {inputs : List ValueId} {types : List ValueType}

/-- A step that drops the result of an insertion is atomic as the insertion is. -/
theorem atomic_of_insertBefore {before : NodeId} {operation : Operation} {operands : List Operand}
    (atomic : session.Atomic (Session.insertBefore before operation operands session))
    : session.Atomic
        ((do let _ ← Session.insertBefore before operation operands : Edit Unit) session) := by
  cases done : Session.insertBefore before operation operands session with
  | ok value after =>
      rw [done] at atomic
      rw [bind_of_ok done]
      exact ⟨atomic.1, nofun⟩
  | error error after =>
      rw [done] at atomic
      rw [bind_of_error done]
      exact ⟨atomic.1, fun same => atomic.2 (by cases same; rfl)⟩

/-- Every step is atomic, by cases on the step. -/
theorem edit_atomic (sortable : session.Sortable ids) (step : EditStep)
    : session.Atomic (step.edit session) := by
  cases step with
  | replace source target => exact sortable.replace source target
  | erase id => exact sortable.erase id
  | insertBefore before operation operands =>
      exact atomic_of_insertBefore (sortable.insertBefore before operation operands)
  | insertConstant before literal =>
      exact atomic_of_insertBefore (sortable.insertBefore before (.constant literal) [])
  | setOperation id operation => exact sortable.setOperation id operation
  | sort =>
      obtain ⟨after, names, done, kept⟩ := sortable.sort
      rw [edit, done]
      exact kept.atomic_ok ()
  | bump id =>
      have described : Session.Described ⟨session.graph, session.index.bump id⟩ ids :=
        sortable.described.bump id
      exact Session.Sortable.atomic_ok ⟨described, sortable.acyclic⟩ ()

/-- Every step does the same with more inputs, by cases on the step. -/
theorem edit_blind (described : session.Described ids) (more : session.graph.inputs ⊆ inputs)
    (step : EditStep)
    : Blind inputs types step.edit session := by
  cases step with
  | replace source target => exact Session.blind_replace described more source target
  | erase id => exact Session.blind_erase id session
  | insertBefore before operation operands =>
      exact Blind.bind (Session.blind_insertBefore ..) fun _ => rfl
  | insertConstant before literal =>
      exact Blind.bind (Session.blind_insertBefore ..) fun _ => rfl
  | setOperation id operation => exact Session.blind_setOperation id operation session
  | sort => exact Session.blind_sort described more
  | bump id => rfl

/-- A step that does the same with more inputs leaves the same session behind, up to the inputs. -/
theorem after_withInputs {step : EditStep} (blind : Blind inputs types step.edit session)
    : step.after (session.withInputs inputs types)
      = (step.after session).withInputs inputs types := by
  rw [after, after, blind]
  cases step.edit session <;> rfl

/-- A step keeps the inputs: it does the same if the graph is given the inputs that it has. -/
theorem inputs_after (described : session.Described ids) (step : EditStep)
    : (step.after session).graph.inputs = session.graph.inputs := by
  have blind : Blind session.graph.inputs session.graph.inputTypes step.edit session :=
    edit_blind described (List.Subset.refl _) step
  exact congrArg (fun session => session.graph.inputs) (after_withInputs blind)

/-- Steps keep the inputs and do the same with more inputs, by induction on the steps. -/
theorem run_blind (described : session.Described ids) (more : session.graph.inputs ⊆ inputs)
    (types : List ValueType) (steps : List EditStep)
    : (run steps session).graph.inputs = session.graph.inputs
      ∧ run steps (session.withInputs inputs types)
        = (run steps session).withInputs inputs types := by
  induction steps generalizing session ids with
  | nil => exact ⟨rfl, rfl⟩
  | cons step rest ih =>
      obtain ⟨names, next⟩ := (after_follows described step).described
      have same := inputs_after described step
      obtain ⟨inputsKept, equal⟩ := ih next (same ▸ more)
      refine ⟨inputsKept.trans same, ?_⟩
      have blind : Blind inputs types step.edit session := edit_blind described more step
      change run rest (step.after _) = _
      rw [after_withInputs blind]
      exact equal

/-- Steps keep a session sortable, by induction on the steps. -/
theorem run_sortable (sortable : session.Sortable ids) (steps : List EditStep)
    : ∃ names, (run steps session).Sortable names := by
  induction steps generalizing session ids with
  | nil => exact ⟨ids, sortable⟩
  | cons step rest ih =>
      obtain ⟨names, kept⟩ := (edit_atomic sortable step).1
      exact ih kept

/-- Steps keep a session sortable and do the same with more inputs. -/
theorem run_withInputs (sortable : session.Sortable ids) (more : session.graph.inputs ⊆ inputs)
    (types : List ValueType) (steps : List EditStep)
    : (∃ names, (run steps session).Sortable names)
      ∧ (run steps session).graph.inputs = session.graph.inputs
      ∧ run steps (session.withInputs inputs types)
        = (run steps session).withInputs inputs types :=
  ⟨run_sortable sortable steps, run_blind sortable.described more types steps⟩

end EditStep

/-- The graph without the inputs that have no declared type, and without the types of no input. -/
def Graph.typedPart (graph : Graph) : Graph :=
  { graph with
    inputs := (graph.inputs.zip graph.inputTypes).map (·.1)
    inputTypes := (graph.inputs.zip graph.inputTypes).map (·.2) }

/-- The tables of a graph are those of its typed part. -/
theorem Index.build_typedPart (graph : Graph) : build graph.typedPart = build graph := by
  have zipped
      : graph.typedPart.inputs.zip graph.typedPart.inputTypes
        = graph.inputs.zip graph.inputTypes :=
    (List.zip_of_prod rfl rfl).symm
  rw [build, build, zipped]
  rfl

namespace EditStep

variable {session : Session}

end EditStep

end Dataflow
