import Dataflow.Pass.Catalog
import Dataflow.Proofs.Steps
import Mathlib.Data.Option.Basic

/-!
When the rules of the library apply, and with which plan. Everything else that is shown of a rule
starts here.
-/

namespace Dataflow.Rules

variable {session : Session} {id : NodeId} {plan : Rewriting Unit} {operation : Operation}

-----------------------------------------------------------------------------------------
-- Operations
-----------------------------------------------------------------------------------------

theorem reduction?_eq_some_iff {reduction : Reduction}
    : reduction? operation = some reduction ↔ operation = .reduce reduction := by
  cases operation <;> simp [reduction?]

theorem maxAndArgMaxAxis?_eq_some_iff {axis : Int}
    : maxAndArgMaxAxis? operation = some axis ↔ operation = .maxAndArgMax axis := by
  cases operation <;> simp [maxAndArgMaxAxis?]

theorem shuffleOrder?_eq_some_iff {order : ShuffleOrder}
    : shuffleOrder? operation = some order ↔ operation = .shuffle order := by
  cases operation <;> simp [shuffleOrder?]

theorem allocExtents?_eq_some_iff {extents : List ExtentSource}
    : allocExtents? operation = some extents ↔ operation = .alloc extents := by
  cases operation <;> simp [allocExtents?]

theorem reshapeExtents?_eq_some_iff {extents : List ReshapeExtent}
    : reshapeExtents? operation = some extents ↔ operation = .reshape extents := by
  cases operation <;> simp [reshapeExtents?]

theorem indexEntries?_eq_some_iff {entries : List IndexEntry}
    : indexEntries? operation = some entries ↔ operation = .subtensor entries := by
  cases operation <;> simp [indexEntries?]

theorem copyingMutation?_eq_some_iff {mutation : ListMutation}
    : copyingMutation? operation = some mutation
      ↔ operation = .listMutation mutation false := by
  rw [copyingMutation?.eq_def]
  split <;> simp_all

theorem tensor?_eq_some_iff {type : ValueType} {tensor : TensorType}
    : type.tensor? = some tensor ↔ type = .tensor tensor := by
  cases type <;> simp [ValueType.tensor?]

theorem exists_tensor?_iff {found : Option ValueType} {holds : TensorType → Prop}
    : (∃ type, found = some type ∧ ∃ tensor, type.tensor? = some tensor ∧ holds tensor)
      ↔ ∃ tensor, found = some (.tensor tensor) ∧ holds tensor := by
  simp only [tensor?_eq_some_iff]
  constructor
  · rintro ⟨_, known, tensor, rfl, here⟩
    exact ⟨tensor, known, here⟩
  · rintro ⟨tensor, known, here⟩
    exact ⟨_, known, tensor, rfl, here⟩

theorem negated?_eq_some_iff {value base : ValueId}
    : negated? session value = some base
      ↔ ∃ node,
          session.producer? value = some node
          ∧ node.operation = .unary .neg
          ∧ node.input? 0 = some base := by
  simp only [negated?, bind, Option.bind_eq_some_iff, Option.guard_eq_some', exists_and_left,
    exists_const]

theorem rank?_eq_some_iff {value : ValueId} {rank : Nat}
    : session.rank? value = some rank
      ↔ ∃ tensor, session.index.type? value = some (.tensor tensor) ∧ tensor.rank = rank := by
  rw [Session.rank?, Option.map_bind, Option.bind_eq_some_iff]
  simp only [Function.comp_apply, Option.map_eq_some_iff]
  exact exists_tensor?_iff

-----------------------------------------------------------------------------------------
-- Negations
-----------------------------------------------------------------------------------------

theorem plan_eliminateDoubleNegation
    : eliminateDoubleNegation.plan session id = some plan
      ↔ ∃ outer inner base,
          session.node? id = some outer
          ∧ outer.operation = .unary .neg
          ∧ outer.input? 0 = some inner
          ∧ negated? session inner = some base
          ∧ liftM (Session.replaceNode id outer.value base) = plan := by
  simp only [eliminateDoubleNegation, bind, Option.bind_eq_some_iff, Option.guard_eq_some',
    exists_and_left, exists_const, Option.some.injEq]

theorem plan_reduceOfNegation
    : reduceOfNegation.plan session id = some plan
      ↔ ∃ outer reduction dual inner base,
          session.node? id = some outer
          ∧ outer.operation = .reduce reduction
          ∧ reduction.kind.negatedDual = some dual
          ∧ outer.input? 0 = some inner
          ∧ session.useCount inner = 1
          ∧ negated? session inner = some base
          ∧ (do
              let reduced ←
                Session.insertBefore id (.reduce { reduction with kind := dual }) [.value base]
              Session.substitute id outer.value (.unary .neg) [.value reduced])
            = plan := by
  simp only [reduceOfNegation, bind, Option.bind_eq_some_iff, Option.guard_eq_some',
    exists_and_left, exists_const, Option.some.injEq, reduction?_eq_some_iff]

theorem plan_localMaxToMin
    : localMaxToMin.plan session id = some plan
      ↔ ∃ outer reduced middle reduction dual inner base,
          session.node? id = some outer
          ∧ outer.operation = .unary .neg
          ∧ outer.input? 0 = some reduced
          ∧ session.producer? reduced = some middle
          ∧ middle.operation = .reduce reduction
          ∧ reduction.kind.negatedDual = some dual
          ∧ middle.input? 0 = some inner
          ∧ negated? session inner = some base
          ∧ liftM (Session.substitute id outer.value (.reduce { reduction with kind := dual })
              [.value base])
            = plan := by
  simp only [localMaxToMin, bind, Option.bind_eq_some_iff, Option.guard_eq_some',
    exists_and_left, exists_const, Option.some.injEq, reduction?_eq_some_iff]

-----------------------------------------------------------------------------------------
-- Pairs of largest elements and indices
-----------------------------------------------------------------------------------------

theorem projection?_eq_some_iff {index : Nat} {projection : NodeId}
    : projection? session index id = some projection
      ↔ projection = id
        ∧ ∃ node, session.node? id = some node ∧ node.operation = .tupleElement index := by
  simp only [projection?, bind, Option.bind_eq_some_iff, Option.guard_eq_some', exists_and_left,
    exists_const, Option.some.injEq]
  exact ⟨fun ⟨node, known, projects, same⟩ => ⟨same.symm, node, known, projects⟩,
    fun ⟨same, node, known, projects⟩ => ⟨node, known, projects, same.symm⟩⟩

/-- The projections of a tuple are its readers, and all of them read the part. -/
theorem projections?_eq_some {tuple : ValueId} {index : Nat} {projections : List NodeId}
    (known : projections? session tuple index = some projections)
    : session.isOutput tuple = false
      ∧ projections = session.index.distinctReaders tuple
      ∧ ∀ reader ∈ projections,
          ∃ node, session.node? reader = some node ∧ node.operation = .tupleElement index := by
  simp only [projections?, bind, Option.bind_eq_some_iff, Option.guard_eq_some', exists_and_left,
    exists_const, Bool.not_eq_true'] at known
  obtain ⟨hidden, -, all⟩ := known
  rw [Steps.mapM_eq_some_iff] at all
  refine ⟨hidden, ?_⟩
  generalize session.index.distinctReaders tuple = readers at all
  induction readers generalizing projections with
  | nil =>
      obtain rfl := List.map_eq_nil_iff.mp (all.symm.trans List.map_nil)
      exact ⟨rfl, nofun⟩
  | cons first rest ih =>
      obtain ⟨here, others, rfl, same, later⟩ :=
        List.map_eq_cons_iff.mp (all.symm.trans List.map_cons)
      obtain ⟨rfl, node⟩ := projection?_eq_some_iff.mp same.symm
      obtain ⟨rfl, nodes⟩ := ih later.symm
      exact ⟨rfl, List.forall_mem_cons.mpr ⟨node, nodes⟩⟩

theorem plan_maxAndArgMaxToReduce
    : maxAndArgMaxToReduce.plan session id = some plan
      ↔ ∃ node axis projections input,
          session.node? id = some node
          ∧ node.operation = .maxAndArgMax axis
          ∧ projections? session node.value 0 = some projections
          ∧ node.input? 0 = some input
          ∧ liftM (retireTuple id projections (.reduce ⟨.max, [axis], false⟩) input) = plan := by
  simp only [maxAndArgMaxToReduce, bind, Option.bind_eq_some_iff, exists_and_left,
    Option.some.injEq, maxAndArgMaxAxis?_eq_some_iff]

theorem plan_maxAndArgMaxToArgMax
    : maxAndArgMaxToArgMax.plan session id = some plan
      ↔ ∃ node axis projections input,
          session.node? id = some node
          ∧ node.operation = .maxAndArgMax axis
          ∧ projections? session node.value 1 = some projections
          ∧ node.input? 0 = some input
          ∧ liftM (retireTuple id projections (.argMax axis false) input) = plan := by
  simp only [maxAndArgMaxToArgMax, bind, Option.bind_eq_some_iff, exists_and_left,
    Option.some.injEq, maxAndArgMaxAxis?_eq_some_iff]

-----------------------------------------------------------------------------------------
-- Shuffles
-----------------------------------------------------------------------------------------

theorem plan_eliminateIdentityShuffle
    : eliminateIdentityShuffle.plan session id = some plan
      ↔ ∃ node order source rank,
          session.node? id = some node
          ∧ node.operation = .shuffle order
          ∧ node.input? 0 = some source
          ∧ session.rank? source = some rank
          ∧ order.isIdentity rank = true
          ∧ liftM (Session.replaceNode id node.value source) = plan := by
  simp only [eliminateIdentityShuffle, bind, Option.bind_eq_some_iff, Option.guard_eq_some',
    exists_and_left, exists_const, Option.some.injEq, shuffleOrder?_eq_some_iff]

theorem plan_collapseShuffleChain
    : collapseShuffleChain.plan session id = some plan
      ↔ ∃ outer outerOrder middle inner innerOrder base order,
          session.node? id = some outer
          ∧ outer.operation = .shuffle outerOrder
          ∧ outer.input? 0 = some middle
          ∧ session.producer? middle = some inner
          ∧ inner.operation = .shuffle innerOrder
          ∧ inner.input? 0 = some base
          ∧ compose innerOrder outerOrder = some order
          ∧ (if (session.rank? base).any order.isIdentity then
              liftM (Session.replaceNode id outer.value base)
            else liftM (Session.substitute id outer.value (.shuffle order) [.value base]))
            = plan := by
  simp only [collapseShuffleChain, bind, Option.bind_eq_some_iff, exists_and_left,
    Option.some.injEq, shuffleOrder?_eq_some_iff, ← apply_ite some]

theorem plan_shuffleOfAlloc
    : shuffleOfAlloc.plan session id = some plan
      ↔ ∃ outer order filled inner extents filler type shape,
          session.node? id = some outer
          ∧ outer.operation = .shuffle order
          ∧ outer.input? 0 = some filled
          ∧ session.producer? filled = some inner
          ∧ inner.operation = .alloc extents
          ∧ inner.operands.head? = some filler
          ∧ session.operandType? filler = some (.tensor type)
          ∧ (order.insertsAxes && order.kept == List.range extents.length) = true
          ∧ insertsInFront order (extents.length - type.rank) = true
          ∧ order.mapM (shuffledExtent extents) = some shape
          ∧ liftM (Session.substitute id outer.value (.alloc shape) inner.operands) = plan := by
  simp only [shuffleOfAlloc, bind, Option.bind_eq_some_iff, Option.guard_eq_some',
    exists_and_left, exists_const, Option.some.injEq, shuffleOrder?_eq_some_iff,
    allocExtents?_eq_some_iff, exists_tensor?_iff]

theorem plan_allocOfShuffle
    : allocOfShuffle.plan session id = some plan
      ↔ ∃ outer extents shuffled inner order base rank,
          session.node? id = some outer
          ∧ outer.operation = .alloc extents
          ∧ outer.input? 0 = some shuffled
          ∧ session.producer? shuffled = some inner
          ∧ inner.operation = .shuffle order
          ∧ inner.input? 0 = some base
          ∧ session.rank? base = some rank
          ∧ isLeftPadding order rank = true
          ∧ liftM (Session.substitute id outer.value (.alloc extents)
              (.value base :: outer.operands.drop 1))
            = plan := by
  simp only [allocOfShuffle, bind, Option.bind_eq_some_iff, Option.guard_eq_some',
    exists_and_left, exists_const, Option.some.injEq, shuffleOrder?_eq_some_iff,
    allocExtents?_eq_some_iff]

theorem plan_reshapeOfShuffle
    : reshapeOfShuffle.plan session id = some plan
      ↔ ∃ outer extents shuffled inner order base,
          session.node? id = some outer
          ∧ outer.operation = .reshape extents
          ∧ outer.input? 0 = some shuffled
          ∧ session.producer? shuffled = some inner
          ∧ inner.operation = .shuffle order
          ∧ order.preservesOrder = true
          ∧ inner.input? 0 = some base
          ∧ liftM (Session.substitute id outer.value (.reshape extents)
              (.value base :: outer.operands.drop 1))
            = plan := by
  simp only [reshapeOfShuffle, bind, Option.bind_eq_some_iff, Option.guard_eq_some',
    exists_and_left, exists_const, Option.some.injEq, shuffleOrder?_eq_some_iff,
    reshapeExtents?_eq_some_iff]

theorem plan_shuffleOfReshape
    : shuffleOfReshape.plan session id = some plan
      ↔ ∃ outer order reshaped inner extents,
          session.node? id = some outer
          ∧ outer.operation = .shuffle order
          ∧ order.preservesOrder = true
          ∧ outer.input? 0 = some reshaped
          ∧ session.producer? reshaped = some inner
          ∧ inner.operation = .reshape extents
          ∧ (match order.mapM (shuffledReshapeExtent extents) with
            | none => some (throw (.graph (.breach .missingAxis)))
            | some shape =>
              some (liftM (Session.substitute id outer.value (.reshape shape) inner.operands)))
            = some plan := by
  simp only [shuffleOfReshape, bind, Option.bind_eq_some_iff, Option.guard_eq_some',
    exists_and_left, exists_const, shuffleOrder?_eq_some_iff, reshapeExtents?_eq_some_iff]
  all_goals rfl

theorem plan_shuffleOfSubtensor
    : shuffleOfSubtensor.plan session id = some plan
      ↔ ∃ outer order sliced inner entries rank source type folded,
          session.node? id = some outer
          ∧ outer.operation = .shuffle order
          ∧ (!order.insertsAxes && order.preservesOrder) = true
          ∧ outer.input? 0 = some sliced
          ∧ session.producer? sliced = some inner
          ∧ inner.operation = .subtensor entries
          ∧ session.rank? sliced = some rank
          ∧ (!(order.dropped rank).isEmpty) = true
          ∧ inner.operands.head? = some source
          ∧ session.operandType? source = some (.tensor type)
          ∧ foldDropped (order.dropped rank) 0 type.shape.dims entries = some folded
          ∧ liftM (Session.substitute id outer.value (.subtensor folded) inner.operands)
            = plan := by
  simp only [shuffleOfSubtensor, bind, Option.bind_eq_some_iff, Option.guard_eq_some',
    exists_and_left, exists_const, Option.some.injEq, shuffleOrder?_eq_some_iff,
    indexEntries?_eq_some_iff, exists_tensor?_iff]

-----------------------------------------------------------------------------------------
-- Lists
-----------------------------------------------------------------------------------------

theorem plan_promoteListMutation
    : promoteListMutation.plan session id = some plan
      ↔ ∃ node mutation list,
          session.node? id = some node
          ∧ node.operation = .listMutation mutation false
          ∧ node.input? 0 = some list
          ∧ (isPrivate session list && !(node.operands.drop 1).contains (.value list)) = true
          ∧ liftM (Session.setOperation id (.listMutation mutation true)) = plan := by
  simp only [promoteListMutation, bind, Option.bind_eq_some_iff, Option.guard_eq_some',
    exists_and_left, exists_const, Option.some.injEq, copyingMutation?_eq_some_iff]

end Dataflow.Rules
