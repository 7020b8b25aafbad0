import Dataflow.Proofs.Rewrite.Acyclic
import Dataflow.Proofs.Rewrite.EditSequences
import Dataflow.Proofs.Rewrite.TypedEdits

/-!
Replacing values in bodies in order. The search for what a value is computed from finds all of it, so
it rules out exactly the replacements that would make a cycle, and the body is sorted iff a read
would come in front of the node that produces the new value. Every edit leaves the body in order then,
as long as inserted nodes read what is defined in front of them.
-/

namespace Dataflow

/-- The second graph reads and shows `target`, with its type, wherever the first one reads and shows
`source`. Everything else is the same, up to the order of the body, and that is the same too unless
a reader of `source` stood in front of the node that produces `target`.
-/
structure Graph.Rewired (source target : ValueId) (type : ValueType) (before after : Graph)
    : Prop where
  name : after.name = before.name
  inputs : after.inputs = before.inputs
  inputTypes : after.inputTypes = before.inputTypes
  outputs : after.outputs = before.outputs.map fun value => if value = source then target else value
  outputTypes
    : after.outputTypes
      = List.zipWith (fun value declared => if value = source then type else declared)
          before.outputs before.outputTypes
  body : after.body.Perm (before.body.map (Session.redirectNode source target))
  order
    : after.body = before.body.map (Session.redirectNode source target)
      ∨ ∃ (first second : Nat) (reader producer : Node),
          first < second
          ∧ before.body[first]? = some reader
          ∧ source ∈ reader.reads
          ∧ before.body[second]? = some producer
          ∧ producer.value = target
  unread : ∀ node ∈ after.body, source ∉ node.reads
  hidden : source ∉ after.outputs

namespace Session

variable {session : Session} {ids : List NodeId} {value source target : ValueId}

/-- The tables of a session describe its graph, its body is in order, and every output has one
declared type.
-/
structure InOrder (session : Session) (ids : List NodeId) : Prop where
  described : session.Described ids
  ordered : session.graph.Ordered
  outputsTyped : session.graph.outputs.length = session.graph.outputTypes.length

/-- A session verifies itself if its body is in order. -/
theorem InOrder.verify (inOrder : session.InOrder ids) : session.verify = true := by
  obtain ⟨index, built, -⟩ :=
    Index.build_eq_ok inOrder.described.closed inOrder.described.inputsTyped
  rw [Session.verify, built, Graph.checkOrder_eq_ok_iff.mpr inOrder.ordered]
  rfl

/-- Only the session of a body in order verifies itself. -/
theorem ordered_of_verify (verified : session.verify = true) : session.graph.Ordered := by
  rw [Session.verify, Bool.and_eq_true] at verified
  rw [← Graph.checkOrder_eq_ok_iff]
  cases checked : session.graph.checkOrder with
  | ok _ => rfl
  | error error => simp [checked, Except.toBool] at verified

-----------------------------------------------------------------------------------------
-- What a value is computed from
-----------------------------------------------------------------------------------------

/-- One more round adds what the producers of the values so far read, by induction on the rounds. -/
theorem mem_sources_succ {rounds : Nat} {values : List ValueId}
    : value ∈ session.sources (rounds + 1) values
      ↔ value ∈ session.sources rounds values
        ∨ ∃ reader ∈ session.sources rounds values, value ∈ session.readsOf reader := by
  induction rounds generalizing values with
  | zero => rw [sources, sources, sources, mem_foldl_addNew, List.mem_flatMap]
  | succ rounds ih =>
      rw [sources, ih]
      rfl

theorem sources_mono {rounds later : Nat} {values : List ValueId} (le : rounds ≤ later)
    (member : value ∈ session.sources rounds values)
    : value ∈ session.sources later values := by
  induction le with
  | refl => exact member
  | step _ ih => exact mem_sources_succ.mpr (.inl ih)

theorem readsOf_value (described : session.Described ids) {node : Node}
    (member : node ∈ session.graph.body)
    : session.readsOf node.value = node.reads := by
  obtain ⟨position, found⟩ := List.mem_iff_getElem?.mp member
  rw [readsOf, (producer?_eq_some_iff described).mpr ⟨position, found, rfl⟩]
  rfl

theorem exists_of_mem_readsOf (described : session.Described ids) {reader : ValueId}
    (read : value ∈ session.readsOf reader)
    : ∃ node ∈ session.graph.body, node.value = reader ∧ value ∈ node.reads := by
  rw [readsOf] at read
  cases produced : session.producer? reader with
  | none =>
      rw [produced] at read
      exact absurd read List.not_mem_nil
  | some node =>
      rw [produced] at read
      obtain ⟨position, found, same⟩ := (producer?_eq_some_iff described).mp produced
      exact ⟨node, List.mem_of_getElem? found, same, read⟩

/-- Everything that is found is read on the way from the target, by induction on the rounds. -/
theorem path_of_mem_sources (described : session.Described ids) {rounds : Nat}
    (found : value ∈ session.sources rounds [target])
    : Relation.ReflTransGen session.graph.ReadsFrom target value := by
  induction rounds generalizing value with
  | zero =>
      obtain rfl := List.mem_singleton.mp found
      exact .refl
  | succ rounds ih =>
      rcases mem_sources_succ.mp found with old | ⟨reader, there, read⟩
      · exact ih old
      · exact (ih there).tail (exists_of_mem_readsOf described read)

/-- What is read on the way from the target is found before the heights are used up: each round goes
down. By induction on the way.
-/
theorem exists_round (described : session.Described ids) {height : ValueId → Nat}
    (falls
      : ∀ node ∈ session.graph.body, ∀ value ∈ node.reads, height value < height node.value)
    (path : Relation.ReflTransGen session.graph.ReadsFrom target value)
    : ∃ round,
        value ∈ session.sources round [target] ∧ round + height value ≤ height target := by
  induction path with
  | refl => exact ⟨0, List.mem_singleton_self _, (Nat.zero_add _).le⟩
  | tail _ step ih =>
      obtain ⟨round, known, bound⟩ := ih
      obtain ⟨node, member, rfl, reads⟩ := step
      have lower := falls node member _ reads
      have read := readsOf_value described member ▸ reads
      exact ⟨round + 1, mem_sources_succ.mpr (.inr ⟨_, known, read⟩), by omega⟩

/-- Without a cycle, the number of nodes is enough rounds to find everything that a value is computed
from.
-/
theorem dependsOn_iff (described : session.Described ids) (acyclic : session.graph.Acyclic)
    : session.dependsOn target source = true
      ↔ Relation.ReflTransGen session.graph.ReadsFrom target source := by
  rw [dependsOn, List.contains_iff_mem]
  refine ⟨path_of_mem_sources described, fun path => ?_⟩
  obtain ⟨height, bounded, falls⟩ := acyclic.exists_height described.closed
  obtain ⟨round, known, bound⟩ := exists_round described falls path
  have top := bounded target
  exact sources_mono (by omega) known

theorem not_path_of_dependsOn (described : session.Described ids)
    (acyclic : session.graph.Acyclic)
    (independent : session.dependsOn target source = false)
    : ¬Relation.ReflTransGen session.graph.ReadsFrom target source := by
  rw [← dependsOn_iff described acyclic, independent]
  exact Bool.false_ne_true

-----------------------------------------------------------------------------------------
-- Where the new value stands
-----------------------------------------------------------------------------------------

/-- If no reader stands before the producer of the new value, the redirected body is in order. -/
theorem InOrder.ordered_redirect (inOrder : session.InOrder ids)
    (known : target ∈ session.graph.defined)
    (independent : session.dependsOn target source = false)
    (behind : session.precedesProducer target (session.index.distinctReaders source) = false)
    : Graph.Ordered
        { session.graph with body := session.graph.body.map (redirectNode source target) } := by
  have described := inOrder.described
  have values (position : Nat)
      : Graph.definedBefore
          { session.graph with body := session.graph.body.map (redirectNode source target) }
          position
        = session.graph.definedBefore position := by
    simp only [Graph.definedBefore, ← List.map_take, List.map_map]
    rfl
  have same
      : Graph.defined
          { session.graph with body := session.graph.body.map (redirectNode source target) }
        = session.graph.defined :=
    Index.defined_eq rfl (by rw [List.map_map]; rfl)
  refine ⟨same ▸ inOrder.ordered.distinct, ?_, fun value output =>
    same ▸ inOrder.ordered.outputs value output⟩
  intro position redirected found value read
  dsimp only at found
  rw [List.getElem?_map] at found
  obtain ⟨node, stood, rfl⟩ := Option.map_eq_some_iff.mp found
  rw [values]
  rw [reads_redirectNode] at read
  obtain ⟨old, was, rfl⟩ := List.mem_map.mp read
  split_ifs with hit
  · subst hit
    rcases Index.Places.defined_cases known with ⟨place, input⟩ | ⟨place, producer, there, rfl⟩
    · exact Graph.mem_definedBefore.mpr (.inl (List.mem_of_getElem? input))
    · -- The reader stands behind the producer, and it is not the producer itself.
      rw [Bool.eq_false_iff, Ne, precedesProducer_iff described] at behind
      have front : ¬position < place := fun lt =>
        behind ⟨position, place, node, producer, lt, stood, was, there, rfl⟩
      have apart : place ≠ position := by
        rintro rfl
        obtain rfl := Option.some.inj (there.symm.trans stood)
        exact not_path_of_dependsOn described inOrder.ordered.acyclic independent
          (.single ⟨producer, List.mem_of_getElem? there, rfl, was⟩)
      exact Graph.mem_definedBefore.mpr (.inr ⟨place, producer, by omega, there, rfl⟩)
  · exact inOrder.ordered.reads stood old was

/-- Outputs with a declared type each are redirected, by induction on the outputs. -/
theorem redirectOutputs_of_length (source target : ValueId) (type : ValueType)
    {outputs : List ValueId} {types : List ValueType} (typed : outputs.length = types.length)
    : redirectOutputs source target type outputs types
      = some
          (outputs.map fun value => if value = source then target else value,
            List.zipWith (fun value declared => if value = source then type else declared)
              outputs types) := by
  induction outputs generalizing types with
  | nil =>
      cases types with
      | nil => rfl
      | cons _ _ => cases typed
  | cons output outputs ih =>
      cases types with
      | nil => cases typed
      | cons declared types =>
          rw [redirectOutputs, ih (Nat.succ.inj typed), Option.map_some]
          dsimp only
          rw [List.map_cons, List.zipWith_cons_cons]
          split_ifs <;> rfl

-----------------------------------------------------------------------------------------
-- Replacing
-----------------------------------------------------------------------------------------

/-- A body without a cycle is put in order. -/
theorem sort_of_acyclic (described : session.Described ids) (acyclic : session.graph.Acyclic)
    : ∃ after names,
        sort session = .ok () after
        ∧ after.Described names
        ∧ after.graph.Ordered
        ∧ after.graph = { session.graph with body := after.graph.body }
        ∧ after.graph.body.Perm session.graph.body := by
  rcases sort_cases described with ⟨error, failed, -⟩ | ⟨order, after, sorted, done, graph, names, -⟩
  · obtain ⟨order, sorted⟩ := acyclic.exists_sortedPositions described.closed
    cases failed.symm.trans sorted
  · refine ⟨after, _, done, names, ?_, ?_, ?_⟩
    · rw [graph]
      exact described.closed.ordered_permute sorted
    · rw [graph]
    · rw [graph]
      exact Graph.filterMap_getElem?_perm (Graph.sortedPositions_perm sorted)

/-- Redirected nodes in some order and redirected outputs make a rewired graph. -/
theorem rewired_of_perm {graph : Graph} {body : List Node} {type : ValueType}
    (differ : source ≠ target) (perm : body.Perm (graph.body.map (redirectNode source target)))
    (order
      : body = graph.body.map (redirectNode source target)
        ∨ ∃ (first second : Nat) (reader producer : Node),
            first < second
            ∧ graph.body[first]? = some reader
            ∧ source ∈ reader.reads
            ∧ graph.body[second]? = some producer
            ∧ producer.value = target)
    : Graph.Rewired source target type graph
        { graph with
          body
          outputs := graph.outputs.map fun value => if value = source then target else value
          outputTypes :=
            List.zipWith (fun value declared => if value = source then type else declared)
              graph.outputs graph.outputTypes } := by
  refine ⟨rfl, rfl, rfl, rfl, rfl, perm, order, fun node member => ?_,
    not_mem_map_redirected graph.outputs differ⟩
  obtain ⟨old, -, rfl⟩ := List.mem_map.mp (perm.mem_iff.mp member)
  exact not_mem_reads_redirectNode old differ

/-- What a replacement does, by the questions that it asks. -/
theorem InOrder.replace_cases (inOrder : session.InOrder ids) (differ : source ≠ target)
    {sourceType targetType : ValueType} (knownSource : session.index.type? source = some sourceType)
    (knownTarget : session.index.type? target = some targetType)
    : sourceType.compatibleWith targetType = false
        ∧ Session.replace source target session = .error (.incompatible source target) session
      ∨ sourceType.compatibleWith targetType = true
        ∧ (Relation.TransGen session.graph.ReadsFrom target source
            ∧ Session.replace source target session = .error (.cycle source target) session
          ∨ ¬Relation.TransGen session.graph.ReadsFrom target source
            ∧ ∃ after names,
                Session.replace source target session = .ok () after
                ∧ after.InOrder names
                ∧ Graph.Rewired source target targetType session.graph after.graph) := by
  have described := inOrder.described
  have acyclic := inOrder.ordered.acyclic
  have path
      : Relation.TransGen session.graph.ReadsFrom target source
        ↔ session.dependsOn target source = true := by
    rw [dependsOn_iff described acyclic, Relation.reflTransGen_iff_eq_or_transGen,
      or_iff_right differ]
  obtain ⟨middle, changed, middleDescribed, -, replaced⟩ :=
    replace_apply described differ knownSource knownTarget
  rw [replaced, path]
  cases fits : sourceType.compatibleWith targetType with
  | false => exact .inl ⟨rfl, rfl⟩
  | true =>
  refine .inr ⟨rfl, ?_⟩
  cases depends : session.dependsOn target source with
  | true => exact .inl ⟨rfl, rfl⟩
  | false =>
  refine .inr ⟨Bool.false_ne_true, ?_⟩
  have known : target ∈ session.graph.defined := defined_of_type? described knownTarget
  have redirected :=
    redirectOutputs_of_length source target targetType inOrder.outputsTyped
  have shown := known_of_redirectOutputs described changed known redirected
  have redescribed := middleDescribed.withOutputs
    (List.zipWith (fun value declared => if value = source then targetType else declared)
      session.graph.outputs session.graph.outputTypes) shown
  rw [redirected]
  dsimp only
  rw [changed] at redescribed shown ⊢
  have outputsTyped := inOrder.outputsTyped
  cases reorder : session.precedesProducer target (session.index.distinctReaders source) with
  | true =>
      rw [if_pos rfl]
      obtain ⟨after, names, done, kept, ordered, frame, perm⟩ := sort_of_acyclic redescribed
        (acyclic.redirect (not_path_of_dependsOn described acyclic depends))
      refine ⟨after, names, done, ⟨kept, ordered, ?_⟩, ?_⟩
      · rw [frame]
        simp [outputsTyped]
      · rw [frame]
        exact rewired_of_perm differ perm (.inr ((precedesProducer_iff described).mp reorder))
  | false =>
      rw [if_neg Bool.false_ne_true]
      have ordered := inOrder.ordered_redirect known depends reorder
      refine ⟨_, ids, rfl, ⟨redescribed, ⟨ordered.distinct, ordered.reads, shown⟩, ?_⟩, ?_⟩
      · simp [outputsTyped]
      · exact rewired_of_perm differ (.refl _) (.inl rfl)

/-- What a replacement does: it is refused, and nothing is changed, or its readers read the new
value, and the body is in order.
-/
theorem InOrder.replace (inOrder : session.InOrder ids) (source target : ValueId)
    : (∃ error,
        Session.replace source target session = .error error session
        ∧ ∀ value, error ≠ .cyclic value)
      ∨ ∃ after names,
          Session.replace source target session = .ok () after
          ∧ after.InOrder names
          ∧ after.graph.body.Perm (session.graph.body.map (redirectNode source target)) := by
  by_cases same : source = target
  · subst same
    refine .inr ⟨session, ids, by rw [Session.replace, if_pos rfl]; rfl, inOrder, ?_⟩
    have unchanged : session.graph.body.map (redirectNode source source) = session.graph.body := by
      refine (List.map_congr_left fun node _ => ?_).trans (List.map_id _)
      have operands : redirect source source = id := by
        funext operand
        rw [redirect]
        split_ifs with hit
        · exact hit.symm
        · rfl
      rw [redirectNode, operands, List.map_id]
      rfl
    rw [unchanged]
  rcases replace_unknown_or session same with
    ⟨value, failed⟩ | ⟨sourceType, targetType, knownSource, knownTarget⟩
  · exact .inl ⟨_, failed, by simp⟩
  rcases inOrder.replace_cases same knownSource knownTarget with
    ⟨-, failed⟩ | ⟨-, ⟨-, failed⟩ | ⟨-, after, names, done, kept, rewired⟩⟩
  · exact .inl ⟨_, failed, by simp⟩
  · exact .inl ⟨_, failed, by simp⟩
  · exact .inr ⟨after, names, done, kept, rewired.body⟩

end Session

-----------------------------------------------------------------------------------------
-- Runs
-----------------------------------------------------------------------------------------

namespace EditStep

variable {session : Session}

/-- In a session that verifies itself, a value replaces another one iff their types are compatible and
it does not read the other one, directly or through other values. What it is refused for is the
first of the two that fails, and then nothing is changed. Otherwise every operand and every output
that was `source` is `target`, the types of such outputs follow, and nothing else is changed but
the order of the body, and that only if a reader of `source` stood in front of the producer of
`target`. Nothing reads or shows `source` any more, in the graph as in the tables.
-/
theorem run_replace {graph : Graph} (started : Session.start graph = .ok session)
    (inputsTyped : graph.inputs.length = graph.inputTypes.length) {steps : List EditStep}
    {before : Session} (reached : run steps session = before) (verified : before.verify = true)
    (outputsTyped : before.graph.outputs.length = before.graph.outputTypes.length)
    {source target : ValueId} (differ : source ≠ target)
    (sourceDefined : source ∈ before.graph.defined) (targetDefined : target ∈ before.graph.defined)
    : ∃ sourceType targetType,
        (source, sourceType) ∈ before.graph.types
        ∧ (target, targetType) ∈ before.graph.types
        ∧ (Session.replace source target before = .error (.incompatible source target) before
          ↔ sourceType.compatibleWith targetType = false)
        ∧ (Session.replace source target before = .error (.cycle source target) before
          ↔ sourceType.compatibleWith targetType = true
            ∧ Relation.TransGen before.graph.ReadsFrom target source)
        ∧ ((∃ after, Session.replace source target before = .ok () after)
          ↔ sourceType.compatibleWith targetType = true
            ∧ ¬Relation.TransGen before.graph.ReadsFrom target source)
        ∧ ∀ after,
            Session.replace source target before = .ok () after
            → Graph.Rewired source target targetType before.graph after.graph
              ∧ after.index.readers source = [] := by
  subst reached
  obtain ⟨names, described⟩ := exists_described_of_start started inputsTyped
  obtain ⟨ids, described⟩ := (run_follows described steps).described
  have inOrder : (run steps session).InOrder ids :=
    ⟨described, Session.ordered_of_verify verified, outputsTyped⟩
  have typed {value : ValueId} (known : value ∈ (run steps session).graph.defined)
      : ∃ type, (value, type) ∈ (run steps session).graph.types := by
    rw [← Graph.keys_types described.inputsTyped] at known
    obtain ⟨⟨_, type⟩, member, rfl⟩ := List.mem_map.mp known
    exact ⟨type, member⟩
  obtain ⟨sourceType, sourceTyped⟩ := typed sourceDefined
  obtain ⟨targetType, targetTyped⟩ := typed targetDefined
  refine ⟨sourceType, targetType, sourceTyped, targetTyped, ?_⟩
  rcases inOrder.replace_cases differ (Session.type?_of_mem described sourceTyped)
      (Session.type?_of_mem described targetTyped) with
    ⟨unfit, failed⟩ | ⟨fits, ⟨path, failed⟩ | ⟨free, after, order, done, kept, rewired⟩⟩
  · simp [failed, unfit]
  · simp [failed, fits, path]
  · rw [done]
    refine ⟨by simp [fits], by simp [free], by simp [fits, free], ?_⟩
    intro other same
    obtain ⟨-, rfl⟩ := EStateM.Result.ok.inj same
    exact ⟨rewired, (Session.readers_eq_nil_iff kept.described).mpr rewired.unread⟩

/-- A graph that negates its input once, then this result, and then the input again. -/
def lateNegation : Graph where
  name := "late"
  inputTypes := [.tensor ⟨.si64, ⟨[.static 2]⟩⟩]
  inputs := [⟨0⟩]
  outputTypes := [.tensor ⟨.si64, ⟨[.static 2]⟩⟩, .tensor ⟨.si64, ⟨[.static 2]⟩⟩]
  body :=
    [⟨⟨1⟩, .unary .neg, [.value ⟨0⟩], .tensor ⟨.si64, ⟨[.static 2]⟩⟩⟩,
      ⟨⟨2⟩, .unary .neg, [.value ⟨1⟩], .tensor ⟨.si64, ⟨[.static 2]⟩⟩⟩,
      ⟨⟨3⟩, .unary .neg, [.value ⟨0⟩], .tensor ⟨.si64, ⟨[.static 2]⟩⟩⟩]
  outputs := [⟨2⟩, ⟨3⟩]

/-- The session that edits `lateNegation`. -/
def lateNegationSession : Session where
  graph := lateNegation
  index :=
    { nodes := [(⟨0⟩, ⟨⟨1⟩, 0, 0⟩), (⟨1⟩, ⟨⟨2⟩, 1, 0⟩), (⟨2⟩, ⟨⟨3⟩, 2, 0⟩)]
      values :=
        [(⟨0⟩, ⟨.tensor ⟨.si64, ⟨[.static 2]⟩⟩, none, [⟨0⟩, ⟨2⟩]⟩),
          (⟨1⟩, ⟨.tensor ⟨.si64, ⟨[.static 2]⟩⟩, some ⟨0⟩, [⟨1⟩]⟩),
          (⟨2⟩, ⟨.tensor ⟨.si64, ⟨[.static 2]⟩⟩, some ⟨1⟩, []⟩),
          (⟨3⟩, ⟨.tensor ⟨.si64, ⟨[.static 2]⟩⟩, some ⟨2⟩, []⟩)]
      nextNode := 3
      nextValue := 4 }

/-- The second node of `lateNegation` may read what the third one produces. -/
theorem lateNegation_replace
    : Session.start lateNegation = .ok lateNegationSession
      ∧ lateNegation.inputs.length = lateNegation.inputTypes.length
      ∧ lateNegationSession.verify = true
      ∧ lateNegation.outputs.length = lateNegation.outputTypes.length
      ∧ ⟨1⟩ ∈ lateNegation.defined
      ∧ ⟨3⟩ ∈ lateNegation.defined
      ∧ ∃ type after,
          Session.replace ⟨1⟩ ⟨3⟩ lateNegationSession = .ok () after
          ∧ Graph.Rewired ⟨1⟩ ⟨3⟩ type lateNegation after.graph
          ∧ after.index.readers ⟨1⟩ = [] := by
  have started : Session.start lateNegation = .ok lateNegationSession := rfl
  have first : ⟨1⟩ ∈ lateNegation.defined := by decide
  have third : ⟨3⟩ ∈ lateNegation.defined := by decide
  have reached : run [] lateNegationSession = lateNegationSession := rfl
  obtain ⟨_, type, -, -, -, -, -, replaced⟩ :=
    run_replace started rfl reached rfl rfl (by decide) first third
  exact ⟨started, rfl, rfl, rfl, first, third, type, _, rfl, replaced _ rfl⟩

end EditStep

namespace Session

variable {session : Session} {ids : List NodeId}

-----------------------------------------------------------------------------------------
-- Edits
-----------------------------------------------------------------------------------------

/-- An inserted node is in order if it reads what is defined in front of it. -/
theorem InOrder.insertBefore (inOrder : session.InOrder ids) {before : NodeId}
    {operation : Operation} {operands : List Operand}
    (placed
      : ∀ position,
          session.index.position? before = some position
          → ∀ value, .value value ∈ operands → value ∈ session.graph.definedBefore position)
    : ∃ names, (behind (insertBefore before operation operands session)).InOrder names := by
  have described := inOrder.described
  rcases insertBefore_cases described before operation operands with
    ⟨error, failed⟩ | ⟨position, types, type, after, listed, -, -, graph, names, -, done⟩
  · rw [failed]
    exact ⟨ids, inOrder⟩
  · rw [done]
    have inside := (List.getElem?_eq_some_iff.mp listed).1.le
    have fresh : (⟨session.index.nextValue⟩ : ValueId) ∉ session.graph.defined := fun member =>
      Nat.lt_irrefl _ (described.valuesBelow _ member)
    refine ⟨_, names, ?_, ?_⟩
    · change after.graph.Ordered
      rw [graph]
      refine inOrder.ordered.insertIdx (described.length ▸ inside) fresh fun value read => ?_
      obtain ⟨operand, member, same⟩ := List.mem_filterMap.mp read
      cases operand with
      | literal literal => cases same
      | value other =>
          obtain rfl := Option.some.inj same
          exact placed position (described.position?_eq_some_iff.mpr listed) _ member
    · change after.graph.outputs.length = after.graph.outputTypes.length
      rw [graph]
      exact inOrder.outputsTyped

/-- The rest of the body stays in order when a node is erased. -/
theorem InOrder.erase (inOrder : session.InOrder ids) (id : NodeId)
    : ∃ names, (behind (erase id session)).InOrder names := by
  rcases erase_cases inOrder.described id with
    ⟨error, failed⟩ | ⟨position, node, listed, found, unread, hidden, done⟩
  · rw [failed]
    exact ⟨ids, inOrder⟩
  · rw [done]
    have unused := (readers_eq_nil_iff inOrder.described).mp unread
    exact ⟨_, (inOrder.described.remove listed found unread hidden).1,
      inOrder.ordered.eraseIdx found unused hidden, inOrder.outputsTyped⟩

/-- The body stays in order when a node gets another operation. -/
theorem InOrder.setOperation (inOrder : session.InOrder ids) (id : NodeId) (operation : Operation)
    : ∃ names, (behind (setOperation id operation session)).InOrder names := by
  rcases setOperation_cases inOrder.described id operation with
    ⟨error, failed⟩ | ⟨position, node, types, type, listed, found, -, -, -, done⟩
  · rw [failed]
    exact ⟨ids, inOrder⟩
  · rw [done]
    exact ⟨ids, (inOrder.described.retype found operation type).bump id,
      inOrder.ordered.of_same (Index.map_modify _ _ fun _ => rfl)
        (Index.map_modify _ _ fun _ => rfl), inOrder.outputsTyped⟩

end Session

-----------------------------------------------------------------------------------------
-- Runs
-----------------------------------------------------------------------------------------

namespace EditStep

variable {session : Session} {ids : List NodeId}

/-- What a step inserts reads only what is defined in front of the place where it is inserted. -/
def ReadsInFront (session : Session) : EditStep → Prop
  | .insertBefore before _ operands =>
    ∀ position,
      session.index.position? before = some position
      → ∀ value, .value value ∈ operands → value ∈ session.graph.definedBefore position
  | _ => True

/-- Everything that some steps insert reads only what is defined in front of it then. -/
def AllReadInFront : Session → List EditStep → Prop
  | _, [] => True
  | session, step :: rest => step.ReadsInFront session ∧ AllReadInFront (step.after session) rest

/-- A step keeps the body in order, by cases on the step. -/
theorem after_inOrder (inOrder : session.InOrder ids) {step : EditStep}
    (front : step.ReadsInFront session)
    : ∃ names, (step.after session).InOrder names := by
  cases step with
  | replace source target =>
      rcases inOrder.replace source target with ⟨error, failed, -⟩ | ⟨after, names, done, kept, -⟩
      · exact ⟨ids, by rw [after, edit, failed]; exact inOrder⟩
      · exact ⟨names, by rw [EditStep.after, edit, done]; exact kept⟩
  | erase id => exact inOrder.erase id
  | insertBefore before operation operands =>
      rw [after, edit, behind_insertBefore]
      exact inOrder.insertBefore front
  | insertConstant before literal =>
      rw [after, edit, Session.insertConstant, behind_insertBefore]
      exact inOrder.insertBefore fun _ _ value read => absurd read List.not_mem_nil
  | setOperation id operation => exact inOrder.setOperation id operation
  | sort =>
      obtain ⟨after, names, done, described, ordered, frame, -⟩ :=
        Session.sort_of_acyclic inOrder.described inOrder.ordered.acyclic
      refine ⟨names, ?_⟩
      rw [EditStep.after, edit, done]
      refine ⟨described, ordered, ?_⟩
      change after.graph.outputs.length = after.graph.outputTypes.length
      rw [frame]
      exact inOrder.outputsTyped
  | bump id => exact ⟨ids, inOrder.described.bump id, inOrder.ordered, inOrder.outputsTyped⟩

/-- Steps keep the body in order, by induction on the steps. -/
theorem run_inOrder (inOrder : session.InOrder ids) {earlier later : List EditStep}
    (front : AllReadInFront session (earlier ++ later))
    : ∃ names, (run earlier session).InOrder names := by
  induction earlier generalizing session ids with
  | nil => exact ⟨ids, inOrder⟩
  | cons step rest ih =>
      obtain ⟨names, next⟩ := after_inOrder inOrder front.1
      exact ih next front.2

/-- Whatever edits are tried in a session of a body in order, and whether they succeed or fail, the
session verifies itself behind each of them, as long as they insert nodes behind what these read. A
replacement, in particular, is refused and changes nothing, or it puts the redirected nodes in an
order in which every value is defined before it is read; it never finds a cycle while it sorts.
-/
theorem run_verify {graph : Graph} (started : Session.start graph = .ok session)
    (verified : session.verify = true)
    (inputsTyped : graph.inputs.length = graph.inputTypes.length)
    (outputsTyped : graph.outputs.length = graph.outputTypes.length)
    {earlier later : List EditStep} (front : AllReadInFront session (earlier ++ later))
    : (run earlier session).verify = true
      ∧ ∀ source target,
          (∃ error,
            Session.replace source target (run earlier session)
              = .error error (run earlier session)
            ∧ ∀ value, error ≠ .cyclic value)
          ∨ ∃ after,
              Session.replace source target (run earlier session) = .ok () after
              ∧ after.graph.checkOrder = .ok ()
              ∧ after.graph.body.Perm
                  ((run earlier session).graph.body.map (Session.redirectNode source target)) := by
  obtain ⟨ids, described⟩ := exists_described_of_start started inputsTyped
  have same : session.graph = graph := by
    obtain ⟨index, -, done⟩ := Steps.bind_eq_ok_iff.mp started
    obtain rfl := Except.ok.inj done
    rfl
  have start : session.InOrder ids :=
    ⟨described, Session.ordered_of_verify verified, same ▸ outputsTyped⟩
  obtain ⟨names, reached⟩ := run_inOrder start front
  refine ⟨reached.verify, fun source target => ?_⟩
  rcases reached.replace source target with refused | ⟨after, order, done, kept, nodes⟩
  · exact .inl refused
  · exact .inr ⟨after, done, Graph.checkOrder_eq_ok_iff.mpr kept.ordered, nodes⟩

/-- The second node of `lateNegation` may read what the third one produces, and another node in
front of it may do so too.
-/
theorem lateNegation_verify
    : Session.start lateNegation = .ok lateNegationSession
      ∧ lateNegationSession.verify = true
      ∧ lateNegation.inputs.length = lateNegation.inputTypes.length
      ∧ lateNegation.outputs.length = lateNegation.outputTypes.length
      ∧ AllReadInFront lateNegationSession
          [.replace ⟨1⟩ ⟨3⟩, .insertBefore ⟨1⟩ (.unary .neg) [.value ⟨3⟩]]
      ∧ (run [.replace ⟨1⟩ ⟨3⟩, .insertBefore ⟨1⟩ (.unary .neg) [.value ⟨3⟩]]
          lateNegationSession).verify
        = true := by
  have placed
      : (after (.replace ⟨1⟩ ⟨3⟩) lateNegationSession).index.position? ⟨1⟩ = some 2 := rfl
  have third
      : ⟨3⟩ ∈ (after (.replace ⟨1⟩ ⟨3⟩) lateNegationSession).graph.definedBefore 2 := by decide
  have front
      : AllReadInFront lateNegationSession
          ([.replace ⟨1⟩ ⟨3⟩, .insertBefore ⟨1⟩ (.unary .neg) [.value ⟨3⟩]] ++ []) := by
    refine ⟨trivial, ?_, trivial⟩
    intro position found value read
    obtain rfl := Option.some.inj (placed.symm.trans found)
    obtain rfl : value = ⟨3⟩ := by simpa using read
    exact third
  have started : Session.start lateNegation = .ok lateNegationSession := rfl
  exact ⟨started, rfl, rfl, rfl, front, (run_verify started rfl rfl rfl front).1⟩

end EditStep

end Dataflow
