import Dataflow.Proofs.Rewrite.Preservation
import Dataflow.Proofs.Rewrite.Rules.Typing

/-!
Retiring a tuple of which one part is read. The projections go one by one, and with each of them a
reader of the tuple, so nothing reads the tuple in the end and it can be erased.
-/

namespace Dataflow

variable {narrow : Prop} {position : Nat} {index place : Nat} {tuple fused node : Node}

/-- A node behind a tuple projects a part of it. In front of the tuple stands a node of the type of
this part.
-/
structure Graph.Projects (graph : Graph) (position : Nat) (tuple fused : Node) (index place : Nat)
    (node : Node) : Prop where
  there : graph.body[position]? = some tuple
  front : fused ∈ graph.body.take position
  behind : position < place
  found : graph.body[place]? = some node
  operation : node.operation = .tupleElement index
  operands : node.operands = [.value tuple.value]
  type : fused.type = node.type

/-- A node takes the place of the projections of a tuple, one after the other, and then the tuple is
erased.
-/
inductive Graph.Retired (narrow : Prop) (position : Nat) (tuple fused : Node) (index : Nat)
    : Graph → Graph → Prop
  | erase {graph : Graph} (found : graph.body[position]? = some tuple)
    (unread : ∀ other ∈ graph.body, tuple.value ∉ other.reads) (hidden : tuple.value ∉ graph.outputs)
    : Retired narrow position tuple fused index graph (graph.erased position)
  | replace {graph after : Graph} {place : Nat} {node : Node} (typed : graph.WellTyped narrow)
    (projects : graph.Projects position tuple fused index place node)
    (later
      : Retired narrow position tuple fused index (graph.replaced place node.value fused.value) after)
    : Retired narrow position tuple fused index graph after

namespace Session

variable {session after : Session} {ids : List NodeId} {id : NodeId}

theorem mem_reads_redirectNode_iff {source target value : ValueId} (other : value ≠ source)
    (old : value ≠ target)
    : value ∈ (redirectNode source target node).reads ↔ value ∈ node.reads := by
  rw [reads_redirectNode, List.mem_map]
  constructor
  · rintro ⟨read, member, rfl⟩
    split_ifs at old with same
    · exact absurd rfl old
    · rwa [if_neg same]
  · exact fun member => ⟨value, member, if_neg other⟩

-----------------------------------------------------------------------------------------
-- Tuples that are read
-----------------------------------------------------------------------------------------

/-- The readers of a tuple are the nodes `pending`, which project one part of it. A node of the type
of this part stands in front of the tuple.
-/
structure Retires (narrow : Prop) (session : Session) (ids : List NodeId) (position : Nat)
    (id : NodeId) (tuple : Node) (index : Nat) (fused : Node) (pending : List NodeId) : Prop where
  holds : session.Holds narrow ids
  listed : ids[position]? = some id
  found : session.graph.body[position]? = some tuple
  part : ∃ parts, tuple.type = .tuple parts ∧ parts[index]? = some fused.type
  front : fused ∈ session.graph.body.take position
  hidden : tuple.value ∉ session.graph.outputs
  distinct : pending.Nodup
  readers : ∀ reader, reader ∈ session.index.readers tuple.value ↔ reader ∈ pending
  projects
    : ∀ reader ∈ pending,
        ∃ node, session.node? reader = some node ∧ node.operation = .tupleElement index

variable {reader : NodeId} {pending : List NodeId}

theorem Retires.declared (retires : session.Retires narrow ids position id tuple index fused pending)
    : (fused.value, fused.type) ∈ session.graph.typesBefore position :=
  List.mem_append_right _ (List.mem_map_of_mem retires.front)

theorem Retires.ne (retires : session.Retires narrow ids position id tuple index fused pending)
    : tuple.value ≠ fused.value := by
  intro same
  refine Graph.value_not_before retires.holds.typed.distinct retires.found ?_
  rw [← retires.holds.typed.keys_typesBefore, same]
  exact List.mem_map_of_mem retires.declared

/-- A projection of a tuple stands behind it and has the type of the part. -/
theorem Retires.exists_projection
    (retires : session.Retires narrow ids position id tuple index fused (reader :: pending))
    : ∃ (place : Nat) (node : Node),
        ids[place]? = some reader ∧ session.graph.Projects position tuple fused index place node := by
  have described := retires.holds.described
  obtain ⟨node, known, projects⟩ := retires.projects reader List.mem_cons_self
  obtain ⟨_, same, read⟩ := (mem_readers_iff_node? described).mp
    ((retires.readers reader).mpr List.mem_cons_self)
  obtain rfl := Option.some.inj (known.symm.trans same)
  obtain ⟨place, listed, found⟩ := (node?_eq_some_iff described).mp known
  have behind := retires.holds.typed.ordered.position_lt retires.found
    (retires.holds.typed.ordered.reads found _ read)
  obtain ⟨parts, tupleType, there⟩ := retires.part
  obtain ⟨types, declared, inferred, -⟩ := (retires.holds.typed.follows_at found).inferred
  rw [projects] at inferred
  obtain ⟨others, rfl, part⟩ := Typing.tupleElement_eq_ok_iff.mp
    (Operation.resultType_eq_ok_iff.mp inferred)
  -- The tuple is the only operand, so it is the one whose part is taken.
  obtain ⟨operand, _, here, none, operands⟩ := List.forall₂_cons_right_iff.mp declared
  obtain rfl := List.forall₂_nil_right_iff.mp none
  rw [Node.reads, operands] at read
  cases operand with
  | literal content => cases read
  | value base =>
      obtain rfl : tuple.value = base := List.mem_singleton.mp read
      have unique := retires.holds.type_unique here
        (Graph.result_mem_types (List.mem_of_getElem? retires.found))
      obtain rfl := ValueType.tuple.inj (unique.trans tupleType)
      exact ⟨place, node, listed, retires.found, retires.front, behind, found, projects, operands,
        Option.some.inj (there.symm.trans part)⟩

-----------------------------------------------------------------------------------------
-- Retiring
-----------------------------------------------------------------------------------------

/-- One projection less reads the tuple. -/
theorem Retires.step
    (retires : session.Retires narrow ids position id tuple index fused (reader :: pending))
    : ∃ after names place node,
        Rules.retireProjection fused.value reader session = .ok () after
        ∧ session.graph.Projects position tuple fused index place node
        ∧ after.graph = session.graph.replaced place node.value fused.value
        ∧ session.Advances narrow (position + 1) ids after names
        ∧ after.Retires narrow names position id tuple index fused pending := by
  obtain ⟨place, node, listed, projection⟩ := retires.exists_projection
  have described := retires.holds.described
  have declared := retires.declared
  rw [projection.type] at declared
  obtain ⟨after, replaced, changed, advances⟩ := retires.holds.replaceNode listed projection.found
    (Graph.typesBefore_mono _ (Nat.le_of_lt projection.behind) declared)
  have asked : Session.node reader session = .ok node session := by
    rw [node_apply, (node?_of_listed described listed projection.found).2]
  have advances := advances.mono retires.holds projection.behind
  have nodes := node?_of_erased described listed advances.holds.described
    (by rw [changed] : after.graph.body = _)
  have differs : tuple.value ≠ node.value := fun same => projection.behind.ne
    (Graph.position_unique retires.holds.typed.distinct retires.found projection.found same)
  obtain ⟨once, distinct⟩ := List.nodup_cons.mp retires.distinct
  refine ⟨after, _, place, node, (bind_of_ok asked).trans replaced, projection, changed, advances, ?_⟩
  have kept {α : Type} {before behind : List α} {entry : α}
      (same : behind.take (position + 1) = before.take (position + 1))
      (there : before[position]? = some entry)
      : behind[position]? = some entry := by
    rw [← List.getElem?_take_of_lt (Nat.lt_succ_self position), same,
      List.getElem?_take_of_lt (Nat.lt_succ_self position), there]
  refine ⟨advances.holds, kept advances.names retires.listed, kept advances.body retires.found,
    retires.part, ?_, ?_, distinct, fun other => ?_, fun other member => ?_⟩
  · rw [(advances.mono retires.holds (Nat.le_succ _)).body]
    exact retires.front
  · rw [changed]
    intro shown
    obtain ⟨output, member, same⟩ := List.mem_map.mp shown
    split_ifs at same with hit
    · exact retires.ne same.symm
    · exact retires.hidden (same ▸ member)
  · rw [mem_readers_iff_node? advances.holds.described, nodes other]
    have before := (mem_readers_iff_node? described).symm.trans
      ((retires.readers other).trans List.mem_cons)
    split_ifs with same
    · simp only [false_and, exists_false, false_iff]
      exact same ▸ once
    · rw [or_iff_right same] at before
      rw [← before]
      simp only [Option.map_eq_some_iff, exists_exists_and_eq_and,
        mem_reads_redirectNode_iff differs retires.ne]
  · obtain ⟨old, known, projects⟩ := retires.projects other (List.mem_cons_of_mem _ member)
    refine ⟨redirectNode node.value fused.value old, ?_, projects⟩
    have differs : other ≠ reader := fun same => once (same ▸ member)
    rw [nodes other, if_neg differs, known]
    rfl

/-- By induction on the projections. A tuple that nothing reads any more is erased. -/
theorem Retires.finish (retires : session.Retires narrow ids position id tuple index fused pending)
    : ∃ after names,
        (pending.forM (Rules.retireProjection fused.value) >>= fun _ => Session.erase id) session
          = .ok () after
        ∧ session.Advances narrow position ids after names
        ∧ session.graph.Retired narrow position tuple fused index after.graph := by
  induction pending generalizing session ids with
  | nil =>
      have unread : session.index.readers tuple.value = [] :=
        List.eq_nil_iff_forall_not_mem.mpr fun reader member =>
          List.not_mem_nil ((retires.readers reader).mp member)
      obtain ⟨after, done, changed, advances⟩ := retires.holds.erase retires.listed retires.found
        unread (by simpa [isOutput] using retires.hidden)
      refine ⟨after, _, done, advances, ?_⟩
      rw [changed]
      exact .erase retires.found ((readers_eq_nil_iff retires.holds.described).mp unread)
        retires.hidden
  | cons first rest ih =>
      obtain ⟨middle, between, place, node, done, projection, changed, advances, left⟩ := retires.step
      obtain ⟨after, names, later, further, retired⟩ := ih left
      refine ⟨after, names, ?_,
        (advances.mono retires.holds (Nat.le_succ _)).trans further le_rfl,
        .replace retires.holds.typed projection (changed ▸ retired)⟩
      rw [List.forM_eq_forM, List.forM_cons, bind_assoc]
      exact (bind_of_ok done).trans later

/-- A node in front of a tuple does not read it, so the readers of the tuple stay. -/
theorem Holds.retires_of_inserted (holds : session.Holds narrow ids)
    (listed : ids[position]? = some id) (found : session.graph.body[position]? = some tuple)
    {operation : Operation} {operands : List Operand} {parts : List ValueType} {part : ValueType}
    (tupleType : tuple.type = .tuple parts) (there : parts[index]? = some part)
    (follows : operation.Follows narrow (session.graph.typesBefore position) operands part)
    (hidden : session.isOutput tuple.value = false)
    (projects
      : ∀ reader ∈ session.index.distinctReaders tuple.value,
          ∃ node, session.node? reader = some node ∧ node.operation = .tupleElement index)
    : ∃ after names,
        Session.insertBefore id operation operands session = .ok ⟨session.index.nextValue⟩ after
        ∧ after.graph
          = session.graph.inserted position ⟨⟨session.index.nextValue⟩, operation, operands, part⟩
        ∧ session.Advances narrow position ids after names
        ∧ after.Retires narrow names (position + 1) id tuple index
            ⟨⟨session.index.nextValue⟩, operation, operands, part⟩
            (session.index.distinctReaders tuple.value) := by
  have described := holds.described
  obtain ⟨after, done, changed, advances⟩ := holds.insertBefore listed follows
  obtain ⟨_, names, done', -, inserted⟩ := holds.inserted listed found follows
  obtain ⟨-, rfl⟩ := EStateM.Result.ok.inj (done.symm.trans done')
  have inside := (List.getElem?_eq_some_iff.mp found).1.le
  have nodes := node?_of_inserted described inside advances.holds.described
    (by rw [changed] : after.graph.body = _)
  have fresh : session.node? ⟨session.index.nextNode⟩ = none :=
    (node?_eq_none_iff described).mpr fun member => Nat.lt_irrefl _ (described.nodesBelow _ member)
  have unread : tuple.value ∉ operands.filterMap Operand.value? := by
    intro read
    obtain ⟨types, declared, -⟩ := follows
    obtain ⟨type, -, here⟩ := exists_declared_of_read declared read
    refine Graph.value_not_before holds.typed.distinct found ?_
    rw [← holds.typed.keys_typesBefore]
    exact List.mem_map_of_mem here
  refine ⟨after, names, done, changed, inserted.advances, inserted.advances.holds, inserted.listed,
    inserted.found, ⟨parts, tupleType, there⟩, ?_, ?_, ?_, fun reader => ?_, fun reader member => ?_⟩
  · rw [changed, Graph.take_insertIdx inside]
    exact List.mem_append_right _ List.mem_cons_self
  · rw [changed]
    simpa [isOutput] using hidden
  · exact nodup_distinctReaders _ _
  · rw [mem_distinctReaders, mem_readers_iff_node? described,
      mem_readers_iff_node? inserted.advances.holds.described, nodes reader]
    split_ifs with same
    · rw [same, fresh]
      constructor
      · rintro ⟨_, new, read⟩
        obtain rfl := Option.some.inj new
        exact absurd read unread
      · rintro ⟨_, ⟨⟩, _⟩
    · exact Iff.rfl
  · obtain ⟨node, known, projects⟩ := projects reader member
    refine ⟨node, ?_, projects⟩
    have old : reader ≠ ⟨session.index.nextNode⟩ := by
      rintro rfl
      cases fresh.symm.trans known
    rw [nodes reader, if_neg old, known]

/-- A node with the type of the part that is read takes the place of a tuple and its projections. -/
theorem Holds.retireTuple (holds : session.Holds narrow ids) (listed : ids[position]? = some id)
    (found : session.graph.body[position]? = some tuple) {projections : List NodeId}
    (known : Rules.projections? session tuple.value index = some projections)
    {operation : Operation} {input : ValueId} {parts : List ValueType} {part : ValueType}
    (tupleType : tuple.type = .tuple parts) (there : parts[index]? = some part)
    (follows
      : operation.Follows narrow (session.graph.typesBefore position) [.value input] part)
    : ∃ after names,
        Rules.retireTuple id projections operation input session = .ok () after
        ∧ session.Advances narrow position ids after names
        ∧ (session.graph.inserted position
              ⟨⟨session.index.nextValue⟩, operation, [.value input], part⟩).Retired narrow
            (position + 1) tuple ⟨⟨session.index.nextValue⟩, operation, [.value input], part⟩ index
            after.graph := by
  obtain ⟨hidden, rfl, projects⟩ := Rules.projections?_eq_some known
  obtain ⟨middle, _, done, changed, first, retires⟩ :=
    holds.retires_of_inserted listed found tupleType there follows hidden projects
  obtain ⟨after, _, retired, second, graph⟩ := retires.finish
  exact ⟨after, _, (bind_of_ok done).trans retired, first.trans second (Nat.le_succ _),
    changed ▸ graph⟩

end Session

end Dataflow
