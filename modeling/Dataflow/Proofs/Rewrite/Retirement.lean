import Dataflow.Proofs.Rewrite.Reports
import Dataflow.Proofs.Rewrite.Rules.Tables

/-!
Values that are gone. The only new value that an edit defines is a fresh one, so a value that no node
produces any more never comes back. A node that is erased takes its value away for good.
-/

namespace Dataflow

namespace Session

variable {session next : Session} {ids : List NodeId} {id : NodeId} {value : ValueId}

-----------------------------------------------------------------------------------------
-- Fresh values
-----------------------------------------------------------------------------------------

/-- The numbers of values grow, and what is defined anew has a number that was free before. -/
structure Ages (session next : Session) : Prop where
  numbers : session.index.nextValue ≤ next.index.nextValue
  defined
    : ∀ value ∈ next.graph.defined,
        value ∈ session.graph.defined ∨ session.index.nextValue ≤ value.number

theorem Ages.refl (session : Session) : session.Ages session := ⟨Nat.le_refl _, fun _ => .inl⟩

/-- Changes follow each other: what the second one defines anew was free before the first one. -/
theorem Ages.trans {middle : Session} (first : session.Ages middle) (second : middle.Ages next)
    : session.Ages next := by
  refine ⟨first.numbers.trans second.numbers, fun value member => ?_⟩
  rcases second.defined value member with old | new
  · exact first.defined value old
  · exact .inr (first.numbers.trans new)

/-- A change that defines no other values. -/
theorem Ages.of_subset (numbers : next.index.nextValue = session.index.nextValue)
    (inputs : next.graph.inputs = session.graph.inputs)
    (values : next.graph.body.map (·.value) ⊆ session.graph.body.map (·.value))
    : session.Ages next := by
  refine ⟨numbers.ge, fun value member => .inl ?_⟩
  rw [Graph.defined, inputs] at member
  exact (List.mem_append.mp member).elim (List.mem_append_left _) fun produced =>
    List.mem_append_right _ (values produced)

theorem nextValue_remove (index : Index) (id : NodeId) (node : Node)
    : (index.remove id node).nextValue = index.nextValue := by
  have dropped (values : List ValueId) (index : Index)
      : (values.foldl (fun index value => index.dropReader value id) index).nextValue
        = index.nextValue := by
    induction values generalizing index with
    | nil => rfl
    | cons first rest ih => exact ih _
  rw [Index.remove]
  split
  · rfl
  · exact dropped _ _

theorem ages_sort (session : Session) : session.Ages (behind (sort session)) := by
  rw [sort, bind_of_ok (show (get : Edit Session) session = .ok session session from rfl)]
  cases sorted : session.graph.sortedPositions with
  | error error => exact .refl session
  | ok order =>
      dsimp only
      split_ifs
      · exact .refl session
      · refine .of_subset (reposition_frame ..).2.2.1 rfl (List.Perm.subset ?_)
        exact (Graph.filterMap_getElem?_perm (Graph.sortedPositions_perm sorted)).map _

theorem ages_replace (described : session.Described ids) (source target : ValueId)
    : session.Ages (behind (replace source target session)) := by
  rcases replace_cases described source target with same | ⟨middle, changed, _, names, ends⟩
  · rw [same]
    exact .refl session
  have redirected (graph : Graph) (inputs : graph.inputs = middle.graph.inputs)
      (body : graph.body = middle.graph.body)
      : session.Ages ⟨graph, middle.index⟩ := by
    refine .of_subset names.nextValue ?_ ?_
    · exact inputs.trans (by rw [changed])
    · rw [body, changed, List.map_map]
      exact List.Subset.refl _
  rcases ends with same | ⟨_, outputs, outputTypes, -, -, same | same⟩
  · rw [same]
    exact redirected middle.graph rfl rfl
  · rw [same]
    exact redirected _ rfl rfl
  · rw [same]
    exact (redirected { middle.graph with outputs, outputTypes } rfl rfl).trans (ages_sort _)

theorem ages_insertBefore (described : session.Described ids) (before : NodeId)
    (operation : Operation) (operands : List Operand)
    : session.Ages (behind (insertBefore before operation operands session)) := by
  rcases insertBefore_cases described before operation operands with
    ⟨_, failed⟩ | ⟨position, _, type, next, listed, -, -, graph, after, -, done⟩
  · exact failed ▸ .refl session
  have inside : position ≤ session.graph.body.length :=
    described.length ▸ (List.getElem?_eq_some_iff.mp listed).1.le
  have values := Index.Describes.defined_insertIdx_perm
    ⟨⟨session.index.nextValue⟩, operation, operands, type⟩ inside
  rw [← graph] at values
  rw [done]
  refine ⟨(after.valuesBelow _ (values.mem_iff.mpr List.mem_cons_self)).le, fun value member => ?_⟩
  rcases List.mem_cons.mp (values.mem_iff.mp member) with rfl | old
  · exact .inr (Nat.le_refl _)
  · exact .inl old

theorem ages_erase (described : session.Described ids) (id : NodeId)
    : session.Ages (behind (erase id session)) := by
  rcases erase_cases described id with ⟨_, failed⟩ | ⟨_, node, -, -, -, -, done⟩
  · exact failed ▸ .refl session
  · rw [done]
    exact .of_subset (nextValue_remove ..) rfl (List.map_subset _ (List.eraseIdx_sublist ..).subset)

theorem ages_setOperation (described : session.Described ids) (id : NodeId) (operation : Operation)
    : session.Ages (behind (setOperation id operation session)) := by
  rcases setOperation_cases described id operation with
    ⟨_, failed⟩ | ⟨_, node, _, type, -, -, -, -, -, done⟩
  · exact failed ▸ .refl session
  · rw [done]
    have values (body : List Node) (position : Nat)
        : (body.modify position fun node => { node with operation, type }).map (·.value)
          = body.map (·.value) :=
      Index.map_modify body position fun _ => rfl
    exact .of_subset rfl rfl fun value member => values _ _ ▸ member

/-- What is defined behind a step, by cases on the step. -/
theorem ages_after (described : session.Described ids) (step : EditStep)
    : session.Ages (step.after session) := by
  cases step with
  | replace source target => exact ages_replace described source target
  | erase id => exact ages_erase described id
  | insertBefore before operation operands =>
      rw [EditStep.after, EditStep.edit, EditStep.behind_insertBefore]
      exact ages_insertBefore described before operation operands
  | insertConstant before literal =>
      rw [EditStep.after, EditStep.edit, insertConstant, EditStep.behind_insertBefore]
      exact ages_insertBefore described before (.constant literal) []
  | setOperation id operation => exact ages_setOperation described id operation
  | sort => exact ages_sort session
  | bump id => exact .of_subset rfl rfl (List.Subset.refl _)

-----------------------------------------------------------------------------------------
-- Values that are gone
-----------------------------------------------------------------------------------------

/-- A value was in use and is not defined any more. -/
structure Lost (value : ValueId) (session : Session) : Prop where
  tracked : session.Tracked
  undefined : value ∉ session.graph.defined
  used : value.number < session.index.nextValue

theorem persists_lost (value : ValueId) : Persists (Lost value) := by
  rintro session step ⟨⟨_, described⟩, undefined, used⟩
  have ages := ages_after described step
  refine ⟨persists_tracked _ step ⟨_, described⟩, fun member => ?_, used.trans_le ages.numbers⟩
  exact (ages.defined value member).elim undefined used.not_ge

/-- A name belongs to a value, unless its node was erased. -/
structure Owns (id : NodeId) (value : ValueId) (session : Session) : Prop where
  tracked : session.Tracked
  used : id.number < session.index.nextNode
  only : ∀ other, session.valueOf? id = some other → other = value

theorem persists_owns (id : NodeId) (value : ValueId) : Persists (Owns id value) := by
  rintro session step ⟨⟨_, described⟩, used, only⟩
  have follows := EditStep.after_follows described step
  refine ⟨follows.described, used.trans_le follows.namesGrow, fun other known => ?_⟩
  by_cases erased : step.erases session id = true
  · cases (follows.gone erased).2.symm.trans known
  · exact only other ((follows.kept used erased).symm.trans known)

theorem owns_of_node? (described : session.Described ids) {node : Node}
    (found : session.node? id = some node)
    : Owns id node.value session where
  tracked := ⟨ids, described⟩
  used := described.nodesBelow id ((mem_ids_iff described).mpr ⟨node, found⟩)
  only other known := by
    rw [valueOf?, found] at known
    exact (Option.some.inj known).symm

/-- A node that is erased takes its value away. -/
theorem Owns.erase (owns : Owns id value session) : Ends (Lost value) (erase id session) := by
  obtain ⟨_, described⟩ := owns.tracked
  rcases erase_cases described id with
    ⟨_, failed⟩ | ⟨position, node, listed, found, unread, hidden, done⟩
  · rw [failed]
    trivial
  have known : session.valueOf? id = some node.value := by
    rw [valueOf?, (node?_of_listed described listed found).2, Option.map_some]
  obtain rfl := owns.only node.value known
  rw [done]
  have values := Index.Describes.defined_eraseIdx_perm found
  refine ⟨⟨_, (described.remove listed found unread hidden).1⟩, ?_, ?_⟩
  · exact (List.nodup_cons.mp (values.nodup_iff.mp described.valuesDistinct)).1
  · rw [nextValue_remove]
    exact described.valuesBelow _ (Graph.value_mem_defined (List.mem_of_getElem? found))

theorem Owns.replaceNode (owns : Owns id value session) (old new : ValueId)
    : Ends (Lost value) (replaceNode id old new session) :=
  .bind (.of_behind (persists_owns id value _ (.replace old new) owns)) fun _ _ owns => owns.erase

theorem Owns.substitute (owns : Owns id value session) (old : ValueId) (operation : Operation)
    (operands : List Operand)
    : Ends (Lost value) (substitute id old operation operands session) := by
  have persists := persists_owns id value
  exact .bind (persists.insertBefore owns id operation operands) fun new _ owns =>
    owns.replaceNode old new

theorem Owns.retireTuple (owns : Owns id value session) (projections : List NodeId)
    (operation : Operation) (input : ValueId)
    : Ends (Lost value) (Rules.retireTuple id projections operation input session) := by
  have persists := persists_owns id value
  refine .bind (persists.insertBefore owns id operation _) fun new _ owns => ?_
  exact .bind (Rules.leaves_retireProjections persists owns new projections) fun _ _ owns =>
    owns.erase

end Session

open Session

-----------------------------------------------------------------------------------------
-- Rules
-----------------------------------------------------------------------------------------

/-- All rules of the library that do not promote anything retire the node where they succeed. -/
theorem Rules.plan_retires {rule : Rule}
    (stock : rule ∈ Catalog.canonicalRules ++ Catalog.loweringRules) {session : Session}
    {id : NodeId} {node : Node} {plan : Rewriting Unit} (tracked : session.Tracked)
    (found : session.node? id = some node) (planned : rule.plan session id = some plan)
    : Ends (Lost node.value) (plan session) := by
  obtain ⟨_, described⟩ := tracked
  have owns := owns_of_node? described found
  have persists := persists_owns id node.value
  simp only [Catalog.canonicalRules, Catalog.loweringRules, List.cons_append, List.nil_append,
    List.mem_cons, List.not_mem_nil, or_false] at stock
  rcases stock with rfl | rfl | rfl | rfl | rfl | rfl | rfl | rfl | rfl | rfl | rfl | rfl
  · obtain ⟨_, _, _, _, _, _, _, _, _, rfl⟩ := plan_eliminateIdentityShuffle.mp planned
    exact (owns.replaceNode ..).lift
  · obtain ⟨_, _, _, _, _, _, _, _, _, _, _, _, _, _, rfl⟩ := plan_collapseShuffleChain.mp planned
    split_ifs
    · exact (owns.replaceNode ..).lift
    · exact (owns.substitute ..).lift
  · obtain ⟨_, _, _, _, _, _, _, rfl⟩ := plan_eliminateDoubleNegation.mp planned
    exact (owns.replaceNode ..).lift
  · obtain ⟨_, _, _, _, _, _, _, _, rfl⟩ := plan_maxAndArgMaxToReduce.mp planned
    exact (owns.retireTuple ..).lift
  · obtain ⟨_, _, _, _, _, _, _, _, rfl⟩ := plan_maxAndArgMaxToArgMax.mp planned
    exact (owns.retireTuple ..).lift
  · obtain ⟨_, _, _, _, _, _, _, _, _, _, _, _, _, _, _, rfl⟩ := plan_localMaxToMin.mp planned
    exact (owns.substitute ..).lift
  · obtain ⟨_, _, _, _, _, _, _, _, _, _, _, rfl⟩ := plan_reduceOfNegation.mp planned
    exact .bind (persists.insertBefore owns ..).lift fun _ _ owns =>
      (owns.substitute ..).lift
  · obtain ⟨_, _, _, _, _, _, _, _, _, _, _, _, _, _, _, _, _, _, rfl⟩ :=
      plan_shuffleOfAlloc.mp planned
    exact (owns.substitute ..).lift
  · obtain ⟨_, _, _, _, _, _, _, _, _, _, _, _, _, _, _, rfl⟩ := plan_allocOfShuffle.mp planned
    exact (owns.substitute ..).lift
  · obtain ⟨_, _, _, _, _, _, _, _, _, _, _, _, _, rfl⟩ := plan_reshapeOfShuffle.mp planned
    exact (owns.substitute ..).lift
  · obtain ⟨_, _, _, _, _, _, _, _, _, _, _, chosen⟩ := plan_shuffleOfReshape.mp planned
    split at chosen
    · obtain rfl := Option.some.inj chosen
      trivial
    · obtain rfl := Option.some.inj chosen
      exact (owns.substitute ..).lift
  · obtain ⟨_, _, _, _, _, _, _, _, _, _, _, _, _, _, _, _, _, _, _, _, _, rfl⟩ :=
      plan_shuffleOfSubtensor.mp planned
    exact (owns.substitute ..).lift

end Dataflow
