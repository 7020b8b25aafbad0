import Dataflow.Proofs.Rewrite.Lowering
import Dataflow.Proofs.Rewrite.Rules.Advances
import Dataflow.Proofs.Rewrite.Rules.Fusions

/-!
The rules for shapes and for largest elements leave lowered graphs behind. Each of them puts a node in
front of another one that does the work of this one and of the one that it reads. If their types are
not compatible, then the new node stays, and it makes something wherever the two do.
-/

namespace Dataflow

open Backend (reference)

variable {narrow : Prop} {backend : Backend} {given : List Value} {original : Graph}
  {session : Session} {ids : List NodeId} {position : Nat} {id : NodeId} {plan : Rewriting Unit}

/-- The session stands at a well-typed graph that another one is lowered to. -/
def Session.Lowered (narrow : Prop) (backend : Backend) (given : List Value) (original : Graph)
    (session : Session) : Prop :=
  ∃ ids, session.Holds narrow ids ∧ original.Lowers backend given session.graph

theorem Node.operands_eq_cons (node : Node) {value : ValueId} (reads : node.input? 0 = some value)
    : node.operands = .value value :: node.operands.drop 1 := by
  cases listed : node.operands with
  | nil => simp [Node.input?, listed] at reads
  | cons first rest =>
      rw [Node.input?, listed] at reads
      cases first with
      | literal literal => cases reads
      | value id =>
          obtain rfl := Option.some.inj reads
          rfl

theorem Graph.typesBefore_inserted {graph : Graph} (inside : position ≤ graph.body.length)
    (node : Node)
    : (graph.inserted position node).typesBefore (position + 1)
      = graph.typesBefore position ++ [node.result] := by
  rw [typesBefore, inserted, take_insertIdx inside, List.map_append, ← List.append_assoc]
  rfl

-----------------------------------------------------------------------------------------
-- Substituted nodes
-----------------------------------------------------------------------------------------

namespace Session.Holds

variable {outer inner : Node} {operation : Operation} {operands others : List Operand}
  {types : List ValueType} (holds : session.Holds narrow ids)

include holds

/-- A new node may come in front of another one if it makes something wherever the graph has results.
-/
theorem lowers_inserted {type : ValueType}
    (declared
      : List.Forall₂ (Operand.DeclaredBy (session.graph.typesBefore position)) operands types)
    (plain : operation.IsPlain)
    (makes
      : ∀ (i : Interpretation) (results : List Value), i.Accounts backend session.graph given results
          → ∃ value, i.Makes backend operation operands value)
    : session.graph.Lowers backend given
        (session.graph.inserted position ⟨⟨session.index.nextValue⟩, operation, operands, type⟩) := by
  refine holds.typed.lowers_inserted ?_ (fun read member => ?_) plain makes
  · exact fun member => Nat.lt_irrefl _ (holds.described.valuesBelow _ member)
  · obtain ⟨type, -, here⟩ := exists_declared_of_read declared member
    have before : read ∈ session.graph.definedBefore position := by
      rw [← holds.typed.keys_typesBefore]
      exact List.mem_map_of_mem here
    exact Graph.mem_defined_of_before before

variable (lowered : original.Lowers backend given session.graph) (faithful : backend.Faithful)

include lowered faithful

/-- A node that does the work of two is put in the place of the second one. -/
theorem leaves_fused (listed : ids[position]? = some id)
    (found : session.graph.body[position]? = some outer)
    (front : inner ∈ session.graph.body.take position)
    (reads : outer.operands = .value inner.value :: others)
    (declared
      : List.Forall₂ (Operand.DeclaredBy (session.graph.typesBefore position)) operands types)
    (narrowly : narrow → operation.IsNarrow types) (plain : operation.IsPlain)
    (clash
      : ∀ type, operation.resultType types = .ok type → outer.type.compatibleWith type = true
        → outer.type = type)
    (fuses
      : ∀ type, operation.resultType types = .ok type
        → Node.Fuses backend (session.graph.typesBefore position) inner
            ⟨⟨session.index.nextValue⟩, operation, operands, type⟩ outer.operation others)
    : Leaves (Session.Lowered narrow backend given original) True
        (Session.substitute id outer.value operation operands session) := by
  rcases holds.substitute_cases listed found declared narrowly clash with
    ⟨_, failed⟩ | ⟨type, middle, names, inferred, inserted, changed, left⟩
  · rw [failed]
    exact ⟨⟨ids, holds, lowered⟩, trivial⟩
  · have fuses := fuses type inferred
    have inside := (List.getElem?_eq_some_iff.mp found).1.le
    have middling : session.graph.Lowers backend given middle.graph := by
      rw [changed]
      refine holds.lowers_inserted declared plain fun i results accounts => ?_
      have made := accounts.nodes outer (List.mem_of_getElem? found)
      rw [reads] at made
      refine ⟨_, fuses.makes (fun id _ type here => ?_)
        (accounts.nodes inner (List.mem_of_mem_take front)) made⟩
      exact accounts.hasType faithful holds.typed id type (Graph.typesBefore_subset _ _ here)
    rcases left with ⟨_, failed⟩ | ⟨after, last, done, same, replaced, second⟩
    · rw [failed]
      exact ⟨⟨names, inserted.advances.holds, lowered.trans middling⟩, trivial⟩
    · rw [done]
      refine ⟨last, second.holds, lowered.trans (middling.trans ?_)⟩
      have body : middle.graph.body.take (position + 1)
          = session.graph.body.take position
            ++ [⟨⟨session.index.nextValue⟩, operation, operands, type⟩] := by
        rw [changed]
        exact Graph.take_insertIdx inside _
      have fusion
          : middle.graph.Fusion narrow backend (position + 1) outer inner
              ⟨⟨session.index.nextValue⟩, operation, operands, type⟩ := by
        refine ⟨inserted.advances.holds.typed, inserted.found, ?_, ?_, same.symm, others, reads, ?_⟩
        · rw [body]
          exact List.mem_append_left _ front
        · rw [body]
          exact List.mem_append_right _ List.mem_cons_self
        · refine fuses.mono ?_
          rw [changed, Graph.typesBefore_inserted inside]
          exact List.subset_append_left _ _
      rw [replaced]
      exact fusion.lowers faithful

end Session.Holds

-----------------------------------------------------------------------------------------
-- Shapes
-----------------------------------------------------------------------------------------

namespace Rules

open Session

section

variable {outer inner : Node} {operation : Operation} {order : ShuffleOrder} {value base : ValueId}
  {types : List ValueType} (holds : session.Holds narrow ids)
  (lowered : original.Lowers reference.bounded given session.graph)
  (listed : ids[position]? = some id) (found : session.graph.body[position]? = some outer)
  (reads : outer.input? 0 = some value) (produced : session.producer? value = some inner)

include holds lowered listed found reads produced

/-- A shuffle and what it reads are done at once. -/
theorem lowered_of_shuffled (shuffles : outer.operation = .shuffle order)
    (declared
      : List.Forall₂ (Operand.DeclaredBy (session.graph.typesBefore position)) inner.operands types)
    (narrowly : narrow → operation.IsNarrow types) (plain : operation.IsPlain)
    (unasked : Finiteness.isAskedBy inner.operation = false)
    (unasked' : Finiteness.isAskedBy operation = false)
    (clash
      : ∀ type, Typing.infer operation types = .ok type → outer.type.compatibleWith type = true
        → outer.type = type)
    (fuses
      : ∀ type, Typing.infer operation types = .ok type
        → reference.bounded.Fuses inner.operation (.shuffle order) operation types [])
    : Leaves (Session.Lowered narrow reference.bounded given original) True
        ((liftM (Session.substitute id outer.value operation inner.operands) : Rewriting Unit)
          session) := by
  have follows := (holds.typed.follows_at found).inferred
  rw [shuffles] at follows
  obtain ⟨operands, made, dims, here, -⟩ := follows.operands_of_shuffle reads
  obtain ⟨front, rfl⟩ := holds.mem_front_of_producer here produced
  refine (holds.leaves_fused lowered Backend.bounded_reference_faithful listed found front operands
    declared narrowly plain (fun type done => ?_) fun type done => ?_).lift
  · exact clash type (Operation.resultType_eq_ok_iff.mp done)
  · refine ⟨unasked, by rw [shuffles]; rfl, unasked', (List.append_nil _).symm, .inl rfl, types, [],
      declared, .nil, ?_⟩
    rw [shuffles]
    exact fuses type (Operation.resultType_eq_ok_iff.mp done)

/-- An operation is done without the shuffle that it reads. -/
theorem lowered_of_unshuffled (shuffles : inner.operation = .shuffle order)
    (readsInner : inner.input? 0 = some base) (same : outer.operation = operation)
    (plain : operation.IsPlain) (unasked : Finiteness.isAskedBy operation = false)
    (whole : ∀ entries, operation ≠ .subtensor entries)
    (infers
      : ∀ {source shuffled : TensorType} {rest : List ValueType},
          (base, .tensor source) ∈ session.graph.typesBefore position
          → Typing.shuffle order [.tensor source] = .ok (.tensor shuffled)
          → Typing.infer operation (.tensor shuffled :: rest) = .ok outer.type
          → Typing.infer operation (.tensor source :: rest) = .ok outer.type
            ∧ reference.bounded.Fuses (.shuffle order) operation operation [.tensor source] rest)
    : Leaves (Session.Lowered narrow reference.bounded given original) True
        ((liftM (Session.substitute id outer.value operation
            (.value base :: outer.operands.drop 1)) : Rewriting Unit)
          session) := by
  obtain ⟨source, shuffled, rest, here, everything, inferred, inferred'⟩ :=
    exists_unshuffled holds found same reads produced shuffles readsInner
  obtain ⟨typed, fuses⟩ := infers here inferred inferred'
  have follows := (holds.typed.follows_at found).inferred
  obtain ⟨_, _, declared, -⟩ := follows.input reads
  obtain ⟨front, rfl⟩ := holds.mem_front_of_producer declared produced
  have follows := holds.of_producer declared produced
  rw [shuffles] at follows
  obtain ⟨operands, -⟩ := follows.operands_of_shuffle readsInner
  refine (holds.leaves_fused lowered Backend.bounded_reference_faithful listed found front
    (outer.operands_eq_cons reads) everything
    (fun _ entries same => absurd same (whole entries)) plain (fun type done _ => ?_)
    fun type done => ?_).lift
  · exact Except.ok.inj (typed.symm.trans (Operation.resultType_eq_ok_iff.mp done))
  · refine ⟨by rw [shuffles]; rfl, by rwa [same], unasked, by rw [operands]; rfl,
      .inr ⟨.inr ⟨order, shuffles⟩, base, readsInner⟩, [.tensor source], rest, ?_, ?_, ?_⟩
    · rw [operands]
      exact .cons here .nil
    · exact (List.forall₂_cons.mp everything).2
    · rw [shuffles, same]
      exact fuses

end

variable (holds : session.Holds narrow ids)
  (lowered : original.Lowers reference.bounded given session.graph)

include holds lowered

theorem lowered_shuffleOfAlloc (planned : shuffleOfAlloc.plan session id = some plan)
    : Leaves (Session.Lowered narrow reference.bounded given original) True (plan session) := by
  obtain ⟨outer, order, value, inner, extents, filler, source, shape, known, shuffles, reads,
    produced, fills, first, knownFiller, fits, inFront, composed, rfl⟩ :=
    plan_shuffleOfAlloc.mp planned
  obtain ⟨position, -, listed, found⟩ := listed_of_node? holds.described known
  have all := eq_of_beq (Bool.and_eq_true_iff.mp fits).2
  obtain ⟨filled, types, -, shuffled, everything, inferred, -⟩ :=
    exists_shuffled holds found shuffles reads produced
  obtain ⟨rest, rfl⟩ := holds.exists_source everything first knownFiller
  rw [fills] at inferred
  have typed := Typing.alloc_of_shuffle inferred all inFront composed shuffled
  refine lowered_of_shuffled holds lowered listed found reads produced shuffles everything
    nofun ⟨rfl, nofun⟩ (by rw [fills]; rfl) rfl
    (fun type done _ => Except.ok.inj (typed.symm.trans done)) fun type done => ?_
  rw [fills]
  exact fuses_shuffleOfAlloc inferred all inFront composed shuffled

theorem lowered_allocOfShuffle (planned : allocOfShuffle.plan session id = some plan)
    : Leaves (Session.Lowered narrow reference.bounded given original) True (plan session) := by
  obtain ⟨outer, extents, value, inner, order, base, rank, known, fills, reads, produced, shuffles,
    readsInner, ranked, padding, rfl⟩ := plan_allocOfShuffle.mp planned
  obtain ⟨position, -, listed, found⟩ := listed_of_node? holds.described known
  refine lowered_of_unshuffled holds lowered listed found reads produced shuffles readsInner fills
    ⟨rfl, nofun⟩ rfl nofun fun here inferred filled => ?_
  obtain ⟨_, same, rfl⟩ := holds.of_rank? here ranked
  obtain rfl := ValueType.tensor.inj same
  exact ⟨Typing.alloc_of_padded inferred padding filled,
    fuses_allocOfShuffle inferred padding filled⟩

theorem lowered_reshapeOfShuffle (planned : reshapeOfShuffle.plan session id = some plan)
    : Leaves (Session.Lowered narrow reference.bounded given original) True (plan session) := by
  obtain ⟨outer, extents, value, inner, order, base, known, reshapes, reads, produced, shuffles,
    ordered, readsInner, rfl⟩ := plan_reshapeOfShuffle.mp planned
  obtain ⟨position, -, listed, found⟩ := listed_of_node? holds.described known
  exact lowered_of_unshuffled holds lowered listed found reads produced shuffles readsInner reshapes
    ⟨rfl, nofun⟩ rfl nofun fun _ inferred reshaped =>
    ⟨Typing.reshape_of_shuffled ordered inferred reshaped,
      fuses_reshapeOfShuffle ordered inferred reshaped⟩

theorem lowered_shuffleOfReshape (planned : shuffleOfReshape.plan session id = some plan)
    : Leaves (Session.Lowered narrow reference.bounded given original) True (plan session) := by
  obtain ⟨outer, order, value, inner, extents, known, shuffles, ordered, reads, produced, reshapes,
    chosen⟩ := plan_shuffleOfReshape.mp planned
  obtain ⟨position, -, listed, found⟩ := listed_of_node? holds.described known
  obtain ⟨shape, composed, -⟩ :=
    follows_of_shuffleOfReshape holds found shuffles ordered reads produced reshapes
  rw [composed] at chosen
  obtain rfl := Option.some.inj chosen
  obtain ⟨reshaped, types, -, shuffled, everything, inferred, -⟩ :=
    exists_shuffled holds found shuffles reads produced
  rw [reshapes] at inferred
  have inferred : Typing.reshape extents types = .ok (.tensor reshaped) := inferred
  obtain ⟨tensor, first, -⟩ := Steps.bind_eq_ok_iff.mp inferred
  obtain ⟨rest, rfl⟩ := Typing.tensorAt_zero_eq_ok_iff.mp first
  have typed := Typing.shuffle_of_reshape ordered inferred composed shuffled
  refine lowered_of_shuffled holds lowered listed found reads produced shuffles everything
    nofun ⟨rfl, nofun⟩ (by rw [reshapes]; rfl) rfl
    (fun type done _ => Except.ok.inj (typed.symm.trans done)) fun type done => ?_
  rw [reshapes]
  exact fuses_shuffleOfReshape ordered inferred composed shuffled

theorem lowered_shuffleOfSubtensor (planned : shuffleOfSubtensor.plan session id = some plan)
    : Leaves (Session.Lowered narrow reference.bounded given original) True (plan session) := by
  obtain ⟨outer, order, value, inner, entries, rank, source, type, folded, known, shuffles, fits,
    reads, produced, slices, ranked, -, first, knownSource, folds, rfl⟩ :=
    plan_shuffleOfSubtensor.mp planned
  obtain ⟨position, -, listed, found⟩ := listed_of_node? holds.described known
  obtain ⟨plain, ordered⟩ := Bool.and_eq_true_iff.mp fits
  rw [Bool.not_eq_true'] at plain
  obtain ⟨sliced, types, declared, shuffled, everything, inferred, narrowly⟩ :=
    exists_shuffled holds found shuffles reads produced
  obtain ⟨_, same, rfl⟩ := holds.of_rank? declared ranked
  obtain rfl := ValueType.tensor.inj same
  obtain ⟨rest, rfl⟩ := holds.exists_source everything first knownSource
  rw [slices] at inferred narrowly
  refine lowered_of_shuffled holds lowered listed found reads produced shuffles everything
    (fun small _ _ => narrowly small entries rfl) ⟨rfl, nofun⟩
    (by rw [slices]; rfl) rfl
    (fun type done => Typing.subtensor_clash plain ordered inferred shuffled folds done)
    fun type done => ?_
  rw [slices]
  exact fuses_shuffleOfSubtensor plain ordered inferred shuffled folds done

end Rules

-----------------------------------------------------------------------------------------
-- Largest elements
-----------------------------------------------------------------------------------------

/-- A node that does the work of a tuple and of its projections takes their place. By induction on the
projections.
-/
theorem Graph.Retired.lowers {graph after : Graph} {tuple fused : Node} {index : Nat} {known : Types}
    (retired : graph.Retired narrow position tuple fused index after) (faithful : backend.Faithful)
    (fuses : Node.Fuses backend known tuple fused (.tupleElement index) [])
    (subset : known ⊆ graph.typesBefore position)
    : graph.Lowers backend given after := by
  induction retired with
  | erase found unread hidden => exact lowers_erased found unread hidden
  | @replace graph after place node typed projects later ih =>
      have inside {other : Node} (front : other ∈ graph.body.take position)
          : other ∈ graph.body.take place :=
        List.take_subset_take_left _ projects.behind.le front
      have fusion : graph.Fusion narrow backend place node tuple fused := by
        refine ⟨typed, projects.found, ?_, inside projects.front, projects.type, [],
          projects.operands, ?_⟩
        · exact List.mem_of_getElem? ((List.getElem?_take_of_lt projects.behind).trans projects.there)
        · rw [projects.operation]
          exact fuses.mono (List.Subset.trans subset (typesBefore_mono _ projects.behind.le))
      have same : (graph.replaced place node.value fused.value).body.take position
          = graph.body.take position := by
        have le := Nat.min_eq_left projects.behind.le
        rw [← le, ← List.take_take, fusion.take_body, List.take_take]
      refine (fusion.lowers faithful).trans (ih ?_)
      rw [typesBefore, same]
      exact subset

namespace Rules

open Session

section

variable {tuple : Node} {index : Nat} {axis : Int} {input : ValueId} {projections : List NodeId}
  {operation : Operation} {parts : List ValueType} {part : ValueType}
  (holds : session.Holds narrow ids) (lowered : original.Lowers reference.bounded given session.graph)

include holds lowered

theorem lowered_of_searched (listed : ids[position]? = some id)
    (found : session.graph.body[position]? = some tuple)
    (searches : tuple.operation = .maxAndArgMax axis) (reads : tuple.input? 0 = some input)
    (projected : projections? session tuple.value index = some projections)
    (type : tuple.type = .tuple parts) (there : parts[index]? = some part)
    (follows
      : operation.Follows narrow (session.graph.typesBefore position) [.value input] part)
    (plain : operation.IsPlain) (unasked : Finiteness.isAskedBy operation = false)
    (fuses
      : ∀ source : TensorType, Typing.maxAndArgMax axis [.tensor source] = .ok tuple.type
          → reference.bounded.Fuses (.maxAndArgMax axis) (.tupleElement index) operation
              [.tensor source] [])
    : Leaves (Session.Lowered narrow reference.bounded given original) True
        ((liftM (retireTuple id projections operation input) : Rewriting Unit) session) := by
  obtain ⟨after, names, done, advances, retired⟩ :=
    holds.retireTuple listed found projected type there follows
  rw [Rewriting.lift_of_ok done]
  have inside := (List.getElem?_eq_some_iff.mp found).1.le
  obtain ⟨_, declared, inferred, -⟩ := (holds.typed.follows_at found).inferred
  rw [searches, Operation.resultType_eq_ok_iff] at inferred
  obtain ⟨source, _, _, rfl, -⟩ := Typing.maxAndArgMax_eq_ok inferred
  obtain ⟨operands, here⟩ := Operation.Follows.operands_of_single declared reads
  have fuses
      : Node.Fuses reference.bounded (session.graph.typesBefore position) tuple
          ⟨⟨session.index.nextValue⟩, operation, [.value input], part⟩ (.tupleElement index) [] := by
    refine ⟨by rw [searches]; rfl, rfl, unasked, by rw [operands]; rfl, .inl rfl, [.tensor source],
      [], declared, .nil, ?_⟩
    rw [searches]
    exact fuses source inferred
  have inserted
      : session.graph.Lowers reference.bounded given
          (session.graph.inserted position
            ⟨⟨session.index.nextValue⟩, operation, [.value input], part⟩) := by
    refine holds.lowers_inserted (.cons here .nil) plain fun i results accounts => ?_
    have typed := accounts.hasType Backend.bounded_reference_faithful holds.typed
    have fits := typed _ _ (Graph.result_mem_types (List.mem_of_getElem? found))
    rw [type] at fits
    obtain ⟨value, taken⟩ := exists_part there fits
    exact ⟨value, fuses.makes (fun id _ type here => typed id type (Graph.typesBefore_subset _ _ here))
      (accounts.nodes tuple (List.mem_of_getElem? found))
      ((Interpretation.makes_iff rfl).mpr ⟨[i tuple.value], rfl, taken⟩)⟩
  refine ⟨names, advances.holds, lowered.trans (inserted.trans ?_)⟩
  refine retired.lowers Backend.bounded_reference_faithful fuses ?_
  rw [Graph.typesBefore_inserted inside]
  exact List.subset_append_left _ _

end

variable (holds : session.Holds narrow ids)
  (lowered : original.Lowers reference.bounded given session.graph)

include holds lowered

theorem lowered_maxAndArgMaxToReduce (integers : original.SearchesIntegers)
    (planned : maxAndArgMaxToReduce.plan session id = some plan)
    : Leaves (Session.Lowered narrow reference.bounded given original) True (plan session) := by
  obtain ⟨tuple, axis, projections, input, known, searches, projected, reads, rfl⟩ :=
    plan_maxAndArgMaxToReduce.mp planned
  obtain ⟨position, -, listed, found⟩ := listed_of_node? holds.described known
  obtain ⟨_, largest, places, -, -, type, follows, -⟩ :=
    follows_of_maxAndArgMax holds found searches reads
  refine lowered_of_searched holds lowered listed found searches reads projected type rfl follows
    ⟨rfl, nofun⟩ rfl fun source inferred => ?_
  obtain ⟨-, _, _, _, -, same⟩ := exists_searched inferred
  have integer := lowered.searchesIntegers integers tuple (List.mem_of_getElem? found) searches same
  exact fuses_maxAndArgMaxToReduce inferred integer

theorem lowered_maxAndArgMaxToArgMax (planned : maxAndArgMaxToArgMax.plan session id = some plan)
    : Leaves (Session.Lowered narrow reference.bounded given original) True (plan session) := by
  obtain ⟨tuple, axis, projections, input, known, searches, projected, reads, rfl⟩ :=
    plan_maxAndArgMaxToArgMax.mp planned
  obtain ⟨position, -, listed, found⟩ := listed_of_node? holds.described known
  obtain ⟨_, largest, places, -, -, type, -, follows⟩ :=
    follows_of_maxAndArgMax holds found searches reads
  exact lowered_of_searched holds lowered listed found searches reads projected type rfl follows
    ⟨rfl, nofun⟩ rfl fun _ => fuses_maxAndArgMaxToArgMax

end Rules

-----------------------------------------------------------------------------------------
-- Sweeps
-----------------------------------------------------------------------------------------

/-- The rules that fold shapes, and those that split pairs of largest elements and their places. -/
def Catalog.foldingRules : List Rule :=
  [Rules.shuffleOfAlloc, Rules.allocOfShuffle, Rules.reshapeOfShuffle, Rules.shuffleOfReshape,
    Rules.shuffleOfSubtensor, Rules.maxAndArgMaxToReduce, Rules.maxAndArgMaxToArgMax]

theorem Catalog.stock_of_folding {rule : Rule} (folding : rule ∈ foldingRules)
    : rule ∈ canonicalRules ++ loweringRules ++ [Rules.promoteListMutation] := by
  simp only [foldingRules, canonicalRules, loweringRules, List.mem_cons, List.mem_append,
    List.not_mem_nil, or_false] at folding ⊢
  tauto

/-- Each rewrite leaves a lowered graph behind, also one that fails. Reductions of pairs must be those
of integers.
-/
theorem Rules.keeps_lowered {rule : Rule} (folding : rule ∈ Catalog.foldingRules)
    (integers : rule = maxAndArgMaxToReduce → original.SearchesIntegers)
    : rule.Keeps (Session.Lowered narrow reference.bounded given original) (¬narrow) := by
  intro session id plan ⟨ids, holds, lowered⟩ planned
  obtain ⟨position, -, left⟩ :=
    advances_of_stock (Catalog.stock_of_folding folding) holds planned
  refine Session.Leaves.of_mayFail ?_ left
  simp only [Catalog.foldingRules, List.mem_cons, List.not_mem_nil, or_false] at folding
  rcases folding with rfl | rfl | rfl | rfl | rfl | rfl | rfl
  · exact lowered_shuffleOfAlloc holds lowered planned
  · exact lowered_allocOfShuffle holds lowered planned
  · exact lowered_reshapeOfShuffle holds lowered planned
  · exact lowered_shuffleOfReshape holds lowered planned
  · exact lowered_shuffleOfSubtensor holds lowered planned
  · exact lowered_maxAndArgMaxToReduce holds lowered (integers rfl) planned
  · exact lowered_maxAndArgMaxToArgMax holds lowered planned

/-- Dropping a dead node does, too. -/
theorem dropsKeep_lowered {mayFail : Prop}
    : DropsKeep (Session.Lowered narrow backend given original) mayFail := by
  intro session id node ⟨ids, holds, lowered⟩ known hidden unread
  obtain ⟨position, -, listed, found⟩ := Session.listed_of_node? holds.described known
  obtain ⟨after, done, changed, advances⟩ := holds.erase listed found unread hidden
  rw [done]
  refine ⟨_, advances.holds, lowered.trans ?_⟩
  rw [changed]
  exact Graph.lowers_erased found ((Session.readers_eq_nil_iff holds.described).mp unread)
    (by simpa [Session.isOutput] using hidden)

end Dataflow
