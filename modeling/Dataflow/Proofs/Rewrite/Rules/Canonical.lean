import Dataflow.Proofs.Rewrite.Liveness
import Dataflow.Proofs.Rewrite.Rules.Advances

/-!
The canonical rules keep what a graph computes. A shuffle into the order of the axes, two shuffles in
a row and two negations in a row make what the nodes make that take their place. The nodes that are
left behind are total.
-/

namespace Dataflow

variable {narrow : Prop} {backend : Backend} {given : List Value} {session : Session}
  {ids : List NodeId} {position : Nat} {id : NodeId} {plan : Rewriting Unit}

/-- The session behind a step that succeeds describes a graph in which everything is kept. -/
def Session.Preserved (narrow : Prop) (backend : Backend) (given : List Value) (session : Session)
    (result : EStateM.Result RuleError Session Unit) : Prop :=
  ∃ after names,
    result = .ok () after
    ∧ after.Holds narrow names
    ∧ session.graph.Kept backend given after.graph

namespace Session.Holds

variable {node inner : Node} {value new : ValueId} {type : ValueType} {i : Interpretation}
  (holds : session.Holds narrow ids)

include holds

/-- The producer of a value in front of a position makes it there. -/
theorem makes_of_producer (accounts : i.Accounts backend (session.graph.front position) given [])
    (before : (value, type) ∈ session.graph.typesBefore position)
    (produced : session.producer? value = some inner)
    : i.Makes backend inner.operation inner.operands (i value) := by
  obtain ⟨member, rfl⟩ := holds.mem_front_of_producer before produced
  exact accounts.nodes inner member

/-- If a total node produces what a node reads, then the node reads a total node. -/
theorem exists_total {outer : Node} {base : ValueId} (operands : outer.operands = [.value value])
    (produced : session.producer? value = some inner) (operandsInner : inner.operands = [.value base])
    (total : inner.operation = .unary .neg ∨ ∃ order, inner.operation = .shuffle order)
    : ∀ read ∈ outer.reads,
        ∃ inner ∈ session.graph.body,
          inner.value = read ∧ inner.IsTotal ∧ ∀ source ∈ inner.reads, source = base := by
  intro read reads
  obtain ⟨place, here, same⟩ := (producer?_eq_some_iff holds.described).mp produced
  rw [Node.reads, operands] at reads
  obtain rfl : read = value := List.mem_singleton.mp reads
  refine ⟨inner, List.mem_of_getElem? here, same, ⟨total, base, ?_⟩, fun source reads => ?_⟩
  · rw [Node.input?, operandsInner]
    rfl
  · rw [Node.reads, operandsInner] at reads
    exact List.mem_singleton.mp reads

/-- A value that is what a node makes takes its place. -/
theorem preserved_replaceNode (listed : ids[position]? = some id)
    (found : session.graph.body[position]? = some node)
    (declared : (new, node.type) ∈ session.graph.typesBefore position)
    (makes
      : ∀ i : Interpretation, i.Accounts backend (session.graph.front position) given []
          → i.Makes backend node.operation node.operands (i new))
    (through
      : ∀ read ∈ node.reads,
          read = new
            ∨ ∃ inner ∈ session.graph.body,
                inner.value = read ∧ inner.IsTotal ∧ ∀ source ∈ inner.reads, source = new)
    : session.Preserved narrow backend given
        ((liftM (Session.replaceNode id node.value new) : Rewriting Unit) session) := by
  obtain ⟨after, done, changed, advances⟩ := holds.replaceNode listed found declared
  refine ⟨after, _, Rewriting.lift_of_ok done, advances.holds, ?_⟩
  rw [changed]
  refine holds.typed.kept_replaced found makes fun live read reads => ?_
  rcases through read reads with rfl | ⟨inner, member, same, total, sources⟩
  · exact .inl (by rwa [ite_self])
  · refine .inr ⟨inner, member, same, total, fun source reads => ?_⟩
    rw [sources source reads, ite_self]
    exact live

/-- A total node takes the place of another one that makes whatever it makes. -/
theorem preserved_substitute (faithful : backend.Faithful) (listed : ids[position]? = some id)
    (found : session.graph.body[position]? = some node) {operation : Operation} {base : ValueId}
    (total : operation = .unary .neg ∨ ∃ order, operation = .shuffle order)
    (follows
      : operation.Follows narrow (session.graph.typesBefore position) [.value base] node.type)
    (makes
      : ∀ i : Interpretation, i.Accounts backend (session.graph.front position) given []
          → ∀ value, i.Makes backend operation [.value base] value
          → i.Makes backend node.operation node.operands value)
    (through
      : ∀ read ∈ node.reads,
          ∃ inner ∈ session.graph.body,
            inner.value = read ∧ inner.IsTotal ∧ ∀ source ∈ inner.reads, source = base)
    : session.Preserved narrow backend given
        ((liftM (Session.substitute id node.value operation [.value base]) : Rewriting Unit) session) := by
  obtain ⟨after, names, done, substituted, advances⟩ := holds.substituted listed found follows
  refine ⟨after, names, Rewriting.lift_of_ok done, advances.holds, ?_⟩
  have fresh : (⟨session.index.nextValue⟩ : ValueId) ∉ session.graph.defined := fun member =>
    Nat.lt_irrefl _ (holds.described.valuesBelow _ member)
  rw [substituted]
  refine @Graph.WellTyped.kept_substituted _ _ _ _ _ _ holds.typed faithful found
    ⟨⟨session.index.nextValue⟩, operation, [.value base], node.type⟩ fresh ⟨total, base, rfl⟩
    ⟨fun member => fresh ?_, follows⟩ makes fun read reads => ?_
  · rw [holds.typed.keys_typesBefore] at member
    exact Graph.mem_defined_of_before member
  · obtain ⟨inner, member, same, cannot, sources⟩ := through read reads
    refine ⟨inner, member, same, cannot, fun source reads => ?_⟩
    rw [sources source reads]
    exact List.mem_cons_self

end Session.Holds

-----------------------------------------------------------------------------------------
-- Negated and shuffled values
-----------------------------------------------------------------------------------------

namespace Rules

open Interpretation Session

section

variable (faithful : backend.Faithful) {i : Interpretation} {base middle : ValueId}
  {inner outer order : ShuffleOrder} {type type' : TensorType} {dims dims' : List Dimension}
  {value : Value}

include faithful

/-- The negation of a negated value is the value, if it is stored as it is. -/
theorem makes_of_neg_neg (typed : (i base).HasType (.tensor type))
    (numeric : type.dtype.isNumeric = true) (exact : (i base).canonical = i base)
    (between : i.Makes backend (.unary .neg) [.value base] (i middle))
    : i.Makes backend (.unary .neg) [.value middle] (i base) := by
  obtain ⟨content, here, fits⟩ := typed.exists_tensor
  have there := (makes_neg_iff faithful here).mp between
  rw [here, Value.canonical, Value.tensor.injEq] at exact
  rw [makes_neg_iff faithful there, here, Elementwise.negated_negated (fits.dtype ▸ numeric), exact]

/-- A shuffle that keeps all axes in their places makes its operand. -/
theorem makes_of_isIdentity (typed : (i base).HasType (.tensor type))
    (shapes : order.Shapes type.shape.dims dims) (identity : order.isIdentity type.rank = true)
    : i.Makes backend (.shuffle order) [.value base] (i base) := by
  obtain ⟨content, same, fits⟩ := typed.exists_tensor
  obtain ⟨result, shuffled⟩ := Movement.exists_shuffles fits shapes
  obtain rfl : order = .identity content.sizes.length := by
    rw [fits.rank]
    exact of_decide_eq_true identity
  obtain rfl := shuffled.eq_of_identity fits.valid
  exact (makes_shuffle_iff faithful shapes.distinct same).mpr ⟨result, shuffled, same⟩

/-- The outer shuffle makes of what the inner one makes whatever the composed one makes. -/
theorem makes_of_compose (composed : compose inner outer = some order)
    (shapes : inner.Shapes type.shape.dims dims) (shapes' : outer.Shapes type'.shape.dims dims')
    (typed : (i base).HasType (.tensor type)) (typed' : (i middle).HasType (.tensor type'))
    (between : i.Makes backend (.shuffle inner) [.value base] (i middle))
    (made : i.Makes backend (.shuffle order) [.value base] value)
    : i.Makes backend (.shuffle outer) [.value middle] value := by
  have distinct := ShuffleOrder.nodup_kept_compose composed shapes.distinct shapes'.distinct
  obtain ⟨content, here, fits⟩ := typed.exists_tensor
  obtain ⟨moved, there, fits'⟩ := typed'.exists_tensor
  obtain ⟨_, first, same⟩ := (makes_shuffle_iff faithful shapes.distinct here).mp between
  obtain rfl := Value.tensor.inj (there.symm.trans same)
  obtain ⟨result, once, rfl⟩ := (makes_shuffle_iff faithful distinct here).mp made
  obtain ⟨last, second⟩ := Movement.exists_shuffles fits' shapes'
  have twice := first.trans composed shapes.distinct shapes'.distinct second
  obtain rfl := twice.unique distinct once
  exact (makes_shuffle_iff faithful shapes'.distinct there).mpr ⟨_, second, rfl⟩

end

-----------------------------------------------------------------------------------------
-- Rules
-----------------------------------------------------------------------------------------

variable (faithful : backend.Faithful) (holds : session.Holds narrow ids)

include faithful holds

theorem preserved_eliminateDoubleNegation (stored : session.graph.IsExact)
    (givenStored : ∀ value ∈ given, value.canonical = value)
    (planned : eliminateDoubleNegation.plan session id = some plan)
    : session.Preserved narrow backend given (plan session) := by
  obtain ⟨outer, middle, base, known, negation, reads, negates, rfl⟩ :=
    plan_eliminateDoubleNegation.mp planned
  obtain ⟨position, -, listed, found⟩ := listed_of_node? holds.described known
  obtain ⟨inner, produced, negationInner, readsInner⟩ := negated?_eq_some_iff.mp negates
  have follows := (holds.typed.follows_at found).inferred
  rw [negation] at follows
  obtain ⟨operands, -⟩ := follows.operands_of_neg reads
  have declared := follows.negated reads
  have front := holds.of_producer declared produced
  rw [negationInner] at front
  obtain ⟨operandsInner, tensor, here, numeric⟩ := front.operands_of_neg readsInner
  refine holds.preserved_replaceNode listed found
    (declared_of_doubleNegation holds found negation reads negates) (fun i accounts => ?_) ?_
  · have typed := accounts.hasType faithful (holds.typed.front position) base _ here
    have exact := accounts.canonical faithful (holds.typed.front position)
      (stored.front position) givenStored base _ here
    have between := holds.makes_of_producer accounts declared produced
    rw [negationInner, operandsInner] at between
    rw [negation, operands]
    exact makes_of_neg_neg faithful typed numeric exact between
  · exact fun read member => .inr
      (holds.exists_total operands produced operandsInner (.inl negationInner) read member)

theorem preserved_eliminateIdentityShuffle
    (planned : eliminateIdentityShuffle.plan session id = some plan)
    : session.Preserved narrow backend given (plan session) := by
  obtain ⟨node, order, source, rank, known, shuffles, reads, ranked, identity, rfl⟩ :=
    plan_eliminateIdentityShuffle.mp planned
  obtain ⟨position, -, listed, found⟩ := listed_of_node? holds.described known
  have follows := (holds.typed.follows_at found).inferred
  rw [shuffles] at follows
  obtain ⟨operands, tensor, dims, here, shapes⟩ := follows.operands_of_shuffle reads
  refine holds.preserved_replaceNode listed found
    (declared_of_identityShuffle holds found shuffles reads ranked identity)
    (fun i accounts => ?_) fun read member => .inl ?_
  · obtain ⟨_, same, rfl⟩ := holds.of_rank? here ranked
    obtain rfl := ValueType.tensor.inj same
    rw [shuffles, operands]
    exact makes_of_isIdentity faithful
      (accounts.hasType faithful (holds.typed.front position) source _ here) shapes identity
  · rw [Node.reads, operands] at member
    exact List.mem_singleton.mp member

theorem preserved_collapseShuffleChain (planned : collapseShuffleChain.plan session id = some plan)
    : session.Preserved narrow backend given (plan session) := by
  obtain ⟨outer, outerOrder, middle, inner, innerOrder, base, order, known, shuffles, reads,
    produced, shufflesInner, readsInner, composed, rfl⟩ := plan_collapseShuffleChain.mp planned
  obtain ⟨position, -, listed, found⟩ := listed_of_node? holds.described known
  obtain ⟨tensor, dims, declared, shapes, same⟩ := exists_shapes_of_chain holds found shuffles reads
    produced shufflesInner readsInner composed
  have follows := (holds.typed.follows_at found).inferred
  rw [shuffles] at follows
  obtain ⟨operands, outerTensor, outerDims, here, outerShapes⟩ := follows.operands_of_shuffle reads
  have front := holds.of_producer here produced
  rw [shufflesInner] at front
  obtain ⟨operandsInner, innerTensor, innerDims, hereInner, innerShapes⟩ :=
    front.operands_of_shuffle readsInner
  have total := holds.exists_total operands produced operandsInner (.inr ⟨_, shufflesInner⟩)
  have makes (i : Interpretation)
      (accounts : i.Accounts backend (session.graph.front position) given []) (value : Value)
      (made : i.Makes backend (.shuffle order) [.value base] value)
      : i.Makes backend outer.operation outer.operands value := by
    have typed := accounts.hasType faithful (holds.typed.front position)
    have between := holds.makes_of_producer accounts here produced
    rw [shufflesInner, operandsInner] at between
    rw [shuffles, operands]
    exact makes_of_compose faithful composed innerShapes outerShapes (typed base _ hereInner)
      (typed middle _ here) between made
  split_ifs with identity
  · obtain ⟨rank, ranked, identity⟩ := (Option.any_eq_true _ _).mp identity
    have declared' := declared_of_identity holds declared shapes ranked identity
    rw [← same] at declared'
    obtain ⟨_, same, rfl⟩ := holds.of_rank? declared ranked
    obtain rfl := ValueType.tensor.inj same
    refine holds.preserved_replaceNode listed found declared' (fun i accounts => ?_)
      fun read member => .inr (total read member)
    exact makes i accounts _ (makes_of_isIdentity faithful
      (accounts.hasType faithful (holds.typed.front position) base _ declared) shapes identity)
  · refine holds.preserved_substitute faithful listed found (.inr ⟨order, rfl⟩) ?_ makes total
    rw [same]
    exact .of_infer (.cons declared .nil)
      (Typing.shuffle_eq_ok_iff.mpr ⟨tensor, dims, rfl, shapes, rfl⟩) nofun

theorem preserved_of_canonical {rule : Rule} (canonical : rule ∈ Catalog.canonicalRules)
    (stored
      : rule = eliminateDoubleNegation
        → session.graph.IsExact ∧ ∀ value ∈ given, value.canonical = value)
    (planned : rule.plan session id = some plan)
    : session.Preserved narrow backend given (plan session) := by
  simp only [Catalog.canonicalRules, List.mem_cons, List.not_mem_nil, or_false] at canonical
  rcases canonical with rfl | rfl | rfl
  · exact preserved_eliminateIdentityShuffle faithful holds planned
  · exact preserved_collapseShuffleChain faithful holds planned
  · obtain ⟨exact, givenStored⟩ := stored rfl
    exact preserved_eliminateDoubleNegation faithful holds exact givenStored planned

end Rules

end Dataflow
