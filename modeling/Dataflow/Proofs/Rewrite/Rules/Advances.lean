import Dataflow.Proofs.Rewrite.Rules.Tuples

/-!
What the plans of the rules do to well-typed graphs. Each of them puts a value of the same type in
the place of a node, so the graph stays well typed and nothing changes in front of the node. None of
them fails, the rule for parts of tensors apart; where that one fails, it has only added a node.
-/

namespace Dataflow

namespace Session

variable {narrow : Prop} {session : Session} {ids : List NodeId}
  {position : Nat} {id : NodeId} {node : Node}

/-- A session that is left by edits at a place. -/
def Advanced (narrow : Prop) (place : Nat) (session : Session) (ids : List NodeId)
    (after : Session) : Prop :=
  ∃ names, session.Advances narrow place ids after names

theorem leaves_of_advances {mayFail : Prop} {edit : Edit Unit}
    (advances : ∃ after names, edit session = .ok () after
      ∧ session.Advances narrow position ids after names)
    : Leaves (session.Advanced narrow position ids) mayFail
        ((liftM edit : Rewriting Unit) session) := by
  obtain ⟨after, names, done, advances⟩ := advances
  rw [Rewriting.lift_of_ok done]
  exact ⟨names, advances⟩

/-- A new node of the same type takes the place of a node. -/
theorem Holds.substituted (holds : session.Holds narrow ids) (listed : ids[position]? = some id)
    (found : session.graph.body[position]? = some node) {operation : Operation}
    {operands : List Operand}
    (follows : operation.Follows narrow (session.graph.typesBefore position) operands node.type)
    : ∃ after names,
        Session.substitute id node.value operation operands session = .ok () after
        ∧ after.graph
          = session.graph.substituted position node.value
              ⟨⟨session.index.nextValue⟩, operation, operands, node.type⟩
        ∧ session.Advances narrow position ids after names := by
  obtain ⟨middle, _, done, changed, inserted⟩ := holds.inserted listed found follows
  obtain ⟨after, replaced, final, second⟩ :=
    inserted.advances.holds.replaceNode inserted.listed inserted.found inserted.declared
  refine ⟨after, _, (bind_of_ok done).trans replaced, ?_,
    inserted.advances.trans second (Nat.le_succ _)⟩
  rw [final, changed]
  rfl

theorem Holds.substitute (holds : session.Holds narrow ids) (listed : ids[position]? = some id)
    (found : session.graph.body[position]? = some node) {operation : Operation}
    {operands : List Operand}
    (follows : operation.Follows narrow (session.graph.typesBefore position) operands node.type)
    : ∃ after names,
        Session.substitute id node.value operation operands session = .ok () after
        ∧ session.Advances narrow position ids after names := by
  obtain ⟨after, names, done, -, advances⟩ := holds.substituted listed found follows
  exact ⟨after, names, done, advances⟩

/-- A new node takes the place of a node if its type can be inferred and is compatible. If it is not
compatible, then the new node is left behind.
-/
theorem Holds.substitute_cases (holds : session.Holds narrow ids)
    (listed : ids[position]? = some id) (found : session.graph.body[position]? = some node)
    {operation : Operation} {operands : List Operand} {types : List ValueType}
    (declared
      : List.Forall₂ (Operand.DeclaredBy (session.graph.typesBefore position)) operands types)
    (narrowly : narrow → operation.IsNarrow types)
    (clash
      : ∀ type, operation.resultType types = .ok type → node.type.compatibleWith type = true
        → node.type = type)
    : (∃ error, Session.substitute id node.value operation operands session = .error error session)
      ∨ ∃ type middle names,
          operation.resultType types = .ok type
          ∧ session.Inserted narrow ids position id node type middle names
          ∧ middle.graph
            = session.graph.inserted position ⟨⟨session.index.nextValue⟩, operation, operands, type⟩
          ∧ ((∃ error,
                Session.substitute id node.value operation operands session = .error error middle)
              ∨ ∃ after last,
                  Session.substitute id node.value operation operands session = .ok () after
                  ∧ node.type = type
                  ∧ after.graph
                    = middle.graph.replaced (position + 1) node.value ⟨session.index.nextValue⟩
                  ∧ middle.Advances narrow (position + 1) names after last) := by
  cases inferred : operation.resultType types with
  | ok type =>
      have follows
          : operation.Follows narrow (session.graph.typesBefore position) operands type :=
        ⟨types, declared, inferred, narrowly⟩
      obtain ⟨middle, names, done, changed, inserted⟩ := holds.inserted listed found follows
      rw [Session.substitute, bind_of_ok done]
      refine .inr ⟨type, middle, names, rfl, inserted, changed, ?_⟩
      by_cases compatible : node.type.compatibleWith type = true
      · have declared := inserted.declared
        rw [← clash type inferred compatible] at declared
        obtain ⟨after, replaced, changed, second⟩ :=
          inserted.advances.holds.replaceNode inserted.listed inserted.found declared
        exact .inr ⟨after, _, replaced, clash type inferred compatible, changed, second⟩
      · exact .inl (inserted.advances.holds.replaceNode_of_clash inserted.found
          (Graph.typesBefore_subset _ _ inserted.declared) compatible)
  | error error =>
      have known := operandTypes?_of_declaredBy holds.described
        (declared.imp fun _ _ here => here.mono (Graph.typesBefore_subset _ _))
      rcases insertBefore_cases holds.described id operation operands with
        ⟨_, failed⟩ | ⟨_, _, type, _, _, known', inferred', _⟩
      · rw [Session.substitute, bind_of_error failed]
        exact .inl ⟨_, rfl⟩
      · obtain rfl := Option.some.inj (known.symm.trans known')
        cases inferred.symm.trans inferred'

theorem Holds.leaves_substitute_of_clash (holds : session.Holds narrow ids) (wide : ¬narrow)
    (listed : ids[position]? = some id) (found : session.graph.body[position]? = some node)
    {operation : Operation} {operands : List Operand} {types : List ValueType}
    (declared
      : List.Forall₂ (Operand.DeclaredBy (session.graph.typesBefore position)) operands types)
    (clash
      : ∀ type, operation.resultType types = .ok type → node.type.compatibleWith type = true
        → node.type = type)
    : Leaves (session.Advanced narrow position ids) (¬narrow)
        (Session.substitute id node.value operation operands session) := by
  rcases holds.substitute_cases listed found declared (fun small => absurd small wide) clash with
    ⟨_, failed⟩ | ⟨type, middle, names, -, inserted, -, ⟨_, failed⟩ | ⟨after, last, done, -, -, second⟩⟩
  · rw [failed]
    exact ⟨⟨ids, .refl holds _⟩, wide⟩
  · rw [failed]
    exact ⟨⟨names, inserted.advances⟩, wide⟩
  · rw [done]
    exact ⟨_, inserted.advances.trans second (Nat.le_succ _)⟩

end Session

/-- The plans of a rule leave well-typed graphs behind and change nothing in front of the node. They
only fail where axes may be wide.
-/
def Rule.Advances (narrow : Prop) (rule : Rule) : Prop :=
  ∀ {session : Session} {ids : List NodeId} {id : NodeId} {plan : Rewriting Unit},
    session.Holds narrow ids
    → rule.plan session id = some plan
    → ∃ position : Nat,
        ids[position]? = some id
        ∧ Session.Leaves (session.Advanced narrow position ids) (¬narrow) (plan session)

open Session

namespace Rules

variable {narrow : Prop}

-----------------------------------------------------------------------------------------
-- Negations
-----------------------------------------------------------------------------------------

theorem eliminateDoubleNegation_advances : eliminateDoubleNegation.Advances narrow := by
  intro session ids id plan holds planned
  obtain ⟨outer, inner, base, known, negation, reads, negates, rfl⟩ :=
    plan_eliminateDoubleNegation.mp planned
  obtain ⟨position, -, listed, found⟩ := listed_of_node? holds.described known
  obtain ⟨after, done, -, advances⟩ := holds.replaceNode listed found
    (declared_of_doubleNegation holds found negation reads negates)
  exact ⟨position, listed, leaves_of_advances ⟨after, _, done, advances⟩⟩

theorem localMaxToMin_advances : localMaxToMin.Advances narrow := by
  intro session ids id plan holds planned
  obtain ⟨outer, reduced, middle, reduction, dual, inner, base, known, negation, reads, produced,
    reduces, -, readsInner, negates, rfl⟩ := plan_localMaxToMin.mp planned
  obtain ⟨position, -, listed, found⟩ := listed_of_node? holds.described known
  have follows := follows_of_localMaxToMin holds found dual negation reads produced reduces
    readsInner negates
  exact ⟨position, listed, leaves_of_advances (holds.substitute listed found follows)⟩

/-- The reduction is inserted first, and its negation takes the place of the node. -/
theorem reduceOfNegation_advances : reduceOfNegation.Advances narrow := by
  intro session ids id plan holds planned
  obtain ⟨outer, reduction, dual, inner, base, known, reduces, -, reads, -, negates, rfl⟩ :=
    plan_reduceOfNegation.mp planned
  obtain ⟨position, -, listed, found⟩ := listed_of_node? holds.described known
  have follows := (holds.typed.follows_at found).inferred
  rw [reduces] at follows
  obtain ⟨middle, names, done, -, inserted⟩ := holds.inserted listed found
    (follows_of_reduction holds dual follows reads negates)
  have negation := follows.negation inserted.declared
  refine ⟨position, listed, (Leaves.lift ?_).bind fun reduced after first _ => ?_⟩
  · rw [done]
    exact ⟨names, inserted.advances⟩
  · obtain ⟨rfl, rfl⟩ := EStateM.Result.ok.inj ((Rewriting.lift_of_ok done).symm.trans first)
    exact (leaves_of_advances
      (inserted.advances.holds.substitute inserted.listed inserted.found negation)).mono
      fun _ ⟨last, second⟩ => ⟨last, inserted.advances.trans second (Nat.le_succ _)⟩

-----------------------------------------------------------------------------------------
-- Pairs of largest elements and indices
-----------------------------------------------------------------------------------------

theorem maxAndArgMaxToReduce_advances : maxAndArgMaxToReduce.Advances narrow := by
  intro session ids id plan holds planned
  obtain ⟨node, axis, projections, input, known, searches, projected, reads, rfl⟩ :=
    plan_maxAndArgMaxToReduce.mp planned
  obtain ⟨position, -, listed, found⟩ := listed_of_node? holds.described known
  obtain ⟨_, largest, places, -, -, same, follows, -⟩ :=
    follows_of_maxAndArgMax holds found searches reads
  obtain ⟨after, names, done, advances, -⟩ :=
    holds.retireTuple listed found projected same rfl follows
  exact ⟨position, listed, leaves_of_advances ⟨after, names, done, advances⟩⟩

theorem maxAndArgMaxToArgMax_advances : maxAndArgMaxToArgMax.Advances narrow := by
  intro session ids id plan holds planned
  obtain ⟨node, axis, projections, input, known, searches, projected, reads, rfl⟩ :=
    plan_maxAndArgMaxToArgMax.mp planned
  obtain ⟨position, -, listed, found⟩ := listed_of_node? holds.described known
  obtain ⟨_, largest, places, -, -, same, -, follows⟩ :=
    follows_of_maxAndArgMax holds found searches reads
  obtain ⟨after, names, done, advances, -⟩ :=
    holds.retireTuple listed found projected same rfl follows
  exact ⟨position, listed, leaves_of_advances ⟨after, names, done, advances⟩⟩

-----------------------------------------------------------------------------------------
-- Shuffles
-----------------------------------------------------------------------------------------

theorem eliminateIdentityShuffle_advances : eliminateIdentityShuffle.Advances narrow := by
  intro session ids id plan holds planned
  obtain ⟨node, order, source, rank, known, shuffles, reads, ranked, identity, rfl⟩ :=
    plan_eliminateIdentityShuffle.mp planned
  obtain ⟨position, -, listed, found⟩ := listed_of_node? holds.described known
  obtain ⟨after, done, -, advances⟩ := holds.replaceNode listed found
    (declared_of_identityShuffle holds found shuffles reads ranked identity)
  exact ⟨position, listed, leaves_of_advances ⟨after, _, done, advances⟩⟩

theorem collapseShuffleChain_advances : collapseShuffleChain.Advances narrow := by
  intro session ids id plan holds planned
  obtain ⟨outer, outerOrder, middle, inner, innerOrder, base, order, known, shuffles, reads,
    produced, shufflesInner, readsInner, composed, rfl⟩ := plan_collapseShuffleChain.mp planned
  obtain ⟨position, -, listed, found⟩ := listed_of_node? holds.described known
  obtain ⟨tensor, dims, declared, shapes, same⟩ := exists_shapes_of_chain holds found shuffles reads
    produced shufflesInner readsInner composed
  split_ifs with identity
  · obtain ⟨rank, ranked, identity⟩ : ∃ rank, session.rank? base = some rank
        ∧ order.isIdentity rank = true := by
      cases ranked : session.rank? base with
      | none => simp [ranked] at identity
      | some rank => exact ⟨rank, rfl, by simpa [ranked] using identity⟩
    have declared := declared_of_identity holds declared shapes ranked identity
    rw [← same] at declared
    obtain ⟨after, done, -, advances⟩ := holds.replaceNode listed found declared
    exact ⟨position, listed, leaves_of_advances ⟨after, _, done, advances⟩⟩
  · refine ⟨position, listed, leaves_of_advances (holds.substitute listed found ?_)⟩
    rw [same]
    exact .of_infer (.cons declared .nil)
      (Typing.shuffle_eq_ok_iff.mpr ⟨tensor, dims, rfl, shapes, rfl⟩) nofun

theorem shuffleOfAlloc_advances : shuffleOfAlloc.Advances narrow := by
  intro session ids id plan holds planned
  obtain ⟨outer, order, filled, inner, extents, filler, type, shape, known, shuffles, reads,
    produced, fills, first, knownFiller, fits, inFront, composed, rfl⟩ :=
    plan_shuffleOfAlloc.mp planned
  obtain ⟨position, -, listed, found⟩ := listed_of_node? holds.described known
  have all := eq_of_beq (Bool.and_eq_true_iff.mp fits).2
  have follows := follows_of_shuffleOfAlloc holds found shuffles reads produced fills first
    knownFiller all inFront composed
  exact ⟨position, listed, leaves_of_advances (holds.substitute listed found follows)⟩

theorem allocOfShuffle_advances : allocOfShuffle.Advances narrow := by
  intro session ids id plan holds planned
  obtain ⟨outer, extents, shuffled, inner, order, base, rank, known, fills, reads, produced,
    shuffles, readsInner, ranked, padding, rfl⟩ := plan_allocOfShuffle.mp planned
  obtain ⟨position, -, listed, found⟩ := listed_of_node? holds.described known
  have follows := follows_of_allocOfShuffle holds found fills reads produced shuffles readsInner
    ranked padding
  exact ⟨position, listed, leaves_of_advances (holds.substitute listed found follows)⟩

theorem reshapeOfShuffle_advances : reshapeOfShuffle.Advances narrow := by
  intro session ids id plan holds planned
  obtain ⟨outer, extents, shuffled, inner, order, base, known, reshapes, reads, produced, shuffles,
    ordered, readsInner, rfl⟩ := plan_reshapeOfShuffle.mp planned
  obtain ⟨position, -, listed, found⟩ := listed_of_node? holds.described known
  have follows := follows_of_reshapeOfShuffle holds found reshapes reads produced shuffles ordered
    readsInner
  exact ⟨position, listed, leaves_of_advances (holds.substitute listed found follows)⟩

theorem shuffleOfReshape_advances : shuffleOfReshape.Advances narrow := by
  intro session ids id plan holds planned
  obtain ⟨outer, order, reshaped, inner, extents, known, shuffles, ordered, reads, produced,
    reshapes, chosen⟩ := plan_shuffleOfReshape.mp planned
  obtain ⟨position, -, listed, found⟩ := listed_of_node? holds.described known
  obtain ⟨shape, composed, follows⟩ :=
    follows_of_shuffleOfReshape holds found shuffles ordered reads produced reshapes
  rw [composed] at chosen
  obtain rfl := Option.some.inj chosen
  exact ⟨position, listed, leaves_of_advances (holds.substitute listed found follows)⟩

/-- The only rule that may fail. -/
theorem shuffleOfSubtensor_advances : shuffleOfSubtensor.Advances narrow := by
  intro session ids id plan holds planned
  obtain ⟨outer, order, sliced, inner, entries, rank, source, type, folded, known, shuffles, fits,
    reads, produced, slices, ranked, -, first, knownSource, folds, rfl⟩ :=
    plan_shuffleOfSubtensor.mp planned
  obtain ⟨position, -, listed, found⟩ := listed_of_node? holds.described known
  obtain ⟨follows, types, declared, clash⟩ :=
    follows_of_shuffleOfSubtensor holds found shuffles fits reads produced slices ranked first
      knownSource folds
  by_cases small : narrow
  · exact ⟨position, listed, leaves_of_advances (holds.substitute listed found (follows small))⟩
  · refine ⟨position, listed, Leaves.lift ?_⟩
    refine holds.leaves_substitute_of_clash small listed found declared fun type inferred => ?_
    exact clash type (Operation.resultType_eq_ok_iff.mp inferred)

-----------------------------------------------------------------------------------------
-- Lists
-----------------------------------------------------------------------------------------

/-- A mutation has the same type in place as on a copy. -/
theorem promoteListMutation_advances : promoteListMutation.Advances narrow := by
  intro session ids id plan holds planned
  obtain ⟨node, mutation, list, known, mutates, -, -, rfl⟩ := plan_promoteListMutation.mp planned
  obtain ⟨position, -, listed, found⟩ := listed_of_node? holds.described known
  have follows := (holds.typed.follows_at found).inferred
  rw [mutates] at follows
  obtain ⟨types, declared, inferred, -⟩ := follows
  obtain ⟨after, done, -, advances⟩ := holds.setOperation listed found
    (.of_infer declared (Operation.resultType_eq_ok_iff.mp inferred) nofun
      : (Operation.listMutation mutation true).Follows _ _ _ _)
  exact ⟨position, listed, leaves_of_advances ⟨after, _, done, advances⟩⟩

theorem advances_of_stock {rule : Rule}
    (stock : rule ∈ Catalog.canonicalRules ++ Catalog.loweringRules ++ [promoteListMutation])
    : rule.Advances narrow := by
  simp only [Catalog.canonicalRules, Catalog.loweringRules, List.cons_append, List.nil_append,
    List.mem_cons, List.not_mem_nil, or_false] at stock
  rcases stock with rfl | rfl | rfl | rfl | rfl | rfl | rfl | rfl | rfl | rfl | rfl | rfl | rfl
  · exact eliminateIdentityShuffle_advances
  · exact collapseShuffleChain_advances
  · exact eliminateDoubleNegation_advances
  · exact maxAndArgMaxToReduce_advances
  · exact maxAndArgMaxToArgMax_advances
  · exact localMaxToMin_advances
  · exact reduceOfNegation_advances
  · exact shuffleOfAlloc_advances
  · exact allocOfShuffle_advances
  · exact reshapeOfShuffle_advances
  · exact shuffleOfReshape_advances
  · exact shuffleOfSubtensor_advances
  · exact promoteListMutation_advances

end Rules

end Dataflow
