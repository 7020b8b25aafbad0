import Dataflow.Proofs.Rewrite.Rules.Inversion
import Dataflow.Proofs.Rewrite.Sweeps
import Dataflow.Proofs.Rewrite.TypedEdits
import Dataflow.Proofs.Typing.Fillings
import Dataflow.Proofs.Typing.Parts
import Dataflow.Proofs.Typing.Reshapes

/-!
Rules and types. What a rule puts in the place of a node has the type of the node and reads what is
declared in front of it, so graphs stay well typed and the rules do not fail. Only the rule for parts
of tensors may, on axes that are too long for signed words.
-/

namespace Dataflow

-----------------------------------------------------------------------------------------
-- Operations
-----------------------------------------------------------------------------------------

namespace Operation.Follows

variable {narrow : Prop} {known : Types} {operation : Operation} {operands : List Operand}
  {type : ValueType}

/-- The first operand is declared, and the type is inferred from its type and those of the others. -/
theorem head (follows : operation.Follows narrow known operands type) {operand : Operand}
    (reads : operands.head? = some operand)
    : ∃ first rest,
        operand.DeclaredBy known first
        ∧ List.Forall₂ (Operand.DeclaredBy known) operands (first :: rest)
        ∧ List.Forall₂ (Operand.DeclaredBy known) (operands.drop 1) rest
        ∧ Typing.infer operation (first :: rest) = .ok type
        ∧ (narrow → operation.IsNarrow (first :: rest)) := by
  obtain ⟨types, declared, inferred, narrowly⟩ := follows
  cases declared with
  | nil => cases reads
  | cons here later =>
      obtain rfl := Option.some.inj reads
      exact ⟨_, _, here, .cons here later, later, resultType_eq_ok_iff.mp inferred, narrowly⟩

/-- The same if a value is read there. -/
theorem input (follows : operation.Follows narrow known operands type) {value : ValueId}
    (reads : operands[0]?.bind Operand.value? = some value)
    : ∃ first rest,
        (value, first) ∈ known
        ∧ List.Forall₂ (Operand.DeclaredBy known) (operands.drop 1) rest
        ∧ Typing.infer operation (first :: rest) = .ok type := by
  obtain ⟨operand, here, same⟩ := Option.bind_eq_some_iff.mp reads
  obtain ⟨first, rest, declared, -, later, inferred, -⟩ :=
    follows.head (List.head?_eq_getElem?.trans here)
  cases operand with
  | literal content => cases same
  | value id =>
      obtain rfl := Option.some.inj same
      exact ⟨first, rest, declared, later, inferred⟩

/-- The tensor that is shuffled. -/
theorem shuffled {order : ShuffleOrder}
    (follows : (Operation.shuffle order).Follows narrow known operands type) {value : ValueId}
    (reads : operands[0]?.bind Operand.value? = some value)
    : ∃ tensor, (value, .tensor tensor) ∈ known ∧ Typing.shuffle order [.tensor tensor] = .ok type := by
  obtain ⟨first, rest, declared, -, inferred⟩ := follows.input reads
  have inferred : Typing.shuffle order (first :: rest) = .ok type := inferred
  obtain ⟨tensor, _, same, -⟩ := Typing.shuffle_eq_ok_iff.mp inferred
  obtain ⟨rfl, rfl⟩ := List.cons.inj same
  exact ⟨tensor, declared, inferred⟩

/-- A number that is negated has the type of the result. -/
theorem negated (follows : (Operation.unary .neg).Follows narrow known operands type)
    {value : ValueId} (reads : operands[0]?.bind Operand.value? = some value)
    : (value, type) ∈ known := by
  obtain ⟨first, rest, declared, -, inferred⟩ := follows.input reads
  obtain ⟨tensor, same, -, rfl⟩ := Typing.unary_neg_eq_ok_iff.mp inferred
  obtain ⟨rfl, -⟩ := List.cons.inj same
  exact declared

/-- The tensor whose largest elements are looked for. -/
theorem searched {axis : Int}
    (follows : (Operation.maxAndArgMax axis).Follows narrow known operands type) {value : ValueId}
    (reads : operands[0]?.bind Operand.value? = some value)
    : ∃ tensor,
        (value, .tensor tensor) ∈ known ∧ Typing.maxAndArgMax axis [.tensor tensor] = .ok type := by
  obtain ⟨first, rest, declared, -, inferred⟩ := follows.input reads
  have inferred : Typing.maxAndArgMax axis (first :: rest) = .ok type := inferred
  obtain ⟨tensor, _, _, same, -⟩ := Typing.maxAndArgMax_eq_ok inferred
  obtain ⟨rfl, rfl⟩ := List.cons.inj same
  exact ⟨tensor, declared, inferred⟩

/-- The negation of what a reduction makes has its type. -/
theorem negation {reduction : Reduction} {others : Types} {value : ValueId}
    (follows : (Operation.reduce reduction).Follows narrow known operands type)
    (declared : (value, type) ∈ others)
    : (Operation.unary .neg).Follows narrow others [.value value] type := by
  obtain ⟨types, -, inferred, -⟩ := follows
  obtain ⟨tensor, axes, -, number, -, same⟩ :=
    Typing.reduce_eq_ok_iff.mp (resultType_eq_ok_iff.mp inferred)
  refine ⟨[type], .cons declared .nil, resultType_eq_ok_iff.mpr ?_, fun _ _ => nofun⟩
  exact Typing.unary_neg_eq_ok_iff.mpr ⟨_, congrArg ([·]) same, number, same⟩

theorem of_infer {types : List ValueType}
    (declared : List.Forall₂ (Operand.DeclaredBy known) operands types)
    (inferred : Typing.infer operation types = .ok type)
    (whole : ∀ entries, operation ≠ .subtensor entries)
    : operation.Follows narrow known operands type :=
  ⟨types, declared, resultType_eq_ok_iff.mpr inferred, fun _ entries same =>
    absurd same (whole entries)⟩

end Operation.Follows

namespace Session

variable {narrow : Prop} {session : Session} {ids : List NodeId} {position : Nat} {id : NodeId}
  {node outer inner : Node} {value base : ValueId} {type : ValueType}

-----------------------------------------------------------------------------------------
-- Values in front of a node
-----------------------------------------------------------------------------------------

theorem Holds.type_unique (holds : session.Holds narrow ids) {other : ValueType}
    (first : (value, type) ∈ session.graph.typesBefore position)
    (second : (value, other) ∈ session.graph.types)
    : type = other :=
  holds.typed.type_unique (Graph.typesBefore_subset _ _ first) second

/-- The producer of a value in front of a node stands there, too. -/
theorem Holds.mem_front_of_producer (holds : session.Holds narrow ids)
    (before : (value, type) ∈ session.graph.typesBefore position)
    (known : session.producer? value = some inner)
    : inner ∈ session.graph.body.take position ∧ inner.value = value := by
  obtain ⟨place, here, rfl⟩ := (producer?_eq_some_iff holds.described).mp known
  have defined : inner.value ∈ session.graph.definedBefore position := by
    rw [← holds.typed.keys_typesBefore]
    exact List.mem_map_of_mem before
  have front := holds.typed.ordered.position_lt here defined
  exact ⟨List.mem_of_getElem? ((List.getElem?_take_of_lt front).trans here), rfl⟩

/-- It follows what is declared there. -/
theorem Holds.of_producer (holds : session.Holds narrow ids)
    (before : (value, type) ∈ session.graph.typesBefore position)
    (known : session.producer? value = some inner)
    : inner.operation.Follows narrow (session.graph.typesBefore position) inner.operands type := by
  obtain ⟨member, rfl⟩ := holds.mem_front_of_producer before known
  obtain ⟨place, here⟩ := List.mem_iff_getElem?.mp member
  rw [List.getElem?_take] at here
  split_ifs at here with front
  obtain rfl := holds.type_unique before (Graph.result_mem_types (List.mem_of_getElem? here))
  exact (holds.typed.follows_at here).inferred.mono (Graph.typesBefore_mono _ front.le)

theorem Holds.of_rank? (holds : session.Holds narrow ids)
    (before : (value, type) ∈ session.graph.typesBefore position) {rank : Nat}
    (known : session.rank? value = some rank)
    : ∃ tensor, type = .tensor tensor ∧ tensor.rank = rank := by
  obtain ⟨tensor, declared, same⟩ := Rules.rank?_eq_some_iff.mp known
  exact ⟨tensor, holds.type_unique before ((type?_eq_some_iff holds.described).mp declared), same⟩

theorem Holds.of_operandType? (holds : session.Holds narrow ids) {operand : Operand}
    (declared : operand.DeclaredBy (session.graph.typesBefore position) type) {other : ValueType}
    (known : session.operandType? operand = some other)
    : other = type := by
  have here := declared.mono (Graph.typesBefore_subset _ _)
  exact Option.some.inj (known.symm.trans (operandType?_of_declaredBy holds.described here))

/-- The type of the first operand is the first one. -/
theorem Holds.exists_source (holds : session.Holds narrow ids) {operands : List Operand}
    {types : List ValueType} {source : Operand} {tensor : TensorType}
    (declared
      : List.Forall₂ (Operand.DeclaredBy (session.graph.typesBefore position)) operands types)
    (first : operands.head? = some source)
    (known : session.operandType? source = some (.tensor tensor))
    : ∃ rest, types = .tensor tensor :: rest := by
  cases declared with
  | nil => cases first
  | cons here later =>
      obtain rfl := Option.some.inj first
      obtain rfl := holds.of_operandType? here known
      exact ⟨_, rfl⟩

/-- A value and the value that it negates have one type. -/
theorem Holds.of_negated? (holds : session.Holds narrow ids)
    (before : (value, type) ∈ session.graph.typesBefore position)
    (negates : Rules.negated? session value = some base)
    : (base, type) ∈ session.graph.typesBefore position := by
  obtain ⟨inner, produced, negation, reads⟩ := Rules.negated?_eq_some_iff.mp negates
  have front := holds.of_producer before produced
  rw [negation] at front
  exact front.negated reads

end Session

-----------------------------------------------------------------------------------------
-- Replacements
-----------------------------------------------------------------------------------------

namespace Rules

open Session

variable {narrow : Prop} {session : Session} {ids : List NodeId} {position : Nat}
  {outer inner : Node} {value base : ValueId} {type : ValueType} {order : ShuffleOrder}
  (holds : session.Holds narrow ids) (found : session.graph.body[position]? = some outer)

include holds

/-- The dual reduction of the number that is negated has the same type. -/
theorem follows_of_reduction {reduction : Reduction} {operands : List Operand} (kind : ReduceKind)
    (follows
      : (Operation.reduce reduction).Follows narrow (session.graph.typesBefore position) operands
          type)
    (reads : operands[0]?.bind Operand.value? = some value)
    (negates : negated? session value = some base)
    : (Operation.reduce { reduction with kind }).Follows narrow
        (session.graph.typesBefore position) [.value base] type := by
  obtain ⟨first, rest, declared, -, inferred⟩ := follows.input reads
  have inferred : Typing.reduce reduction (first :: rest) = .ok type := inferred
  obtain ⟨tensor, axes, same, number, combined, rfl⟩ := Typing.reduce_eq_ok_iff.mp inferred
  obtain ⟨rfl, rfl⟩ := List.cons.inj same
  exact .of_infer (.cons (holds.of_negated? declared negates) .nil) inferred nofun

/-- What is shuffled has the type of the result if all axes stay in their places. -/
theorem declared_of_identity {tensor : TensorType} {dims : List Dimension} {rank : Nat}
    (declared : (value, .tensor tensor) ∈ session.graph.typesBefore position)
    (shapes : order.Shapes tensor.shape.dims dims) (known : session.rank? value = some rank)
    (identity : order.isIdentity rank = true)
    : (value, .tensor ⟨tensor.dtype, ⟨dims⟩⟩) ∈ session.graph.typesBefore position := by
  obtain ⟨_, same, rfl⟩ := holds.of_rank? declared known
  obtain rfl := ValueType.tensor.inj same
  obtain rfl : order = .identity tensor.shape.dims.length := of_decide_eq_true identity
  obtain rfl := shapes.eq_of_identity
  exact declared

include found

theorem declared_of_doubleNegation (negation : outer.operation = .unary .neg)
    (reads : outer.input? 0 = some value) (negates : negated? session value = some base)
    : (base, outer.type) ∈ session.graph.typesBefore position := by
  have follows := (holds.typed.follows_at found).inferred
  rw [negation] at follows
  exact holds.of_negated? (follows.negated reads) negates

theorem follows_of_localMaxToMin {reduction : Reduction} {reduced : ValueId} (kind : ReduceKind)
    (negation : outer.operation = .unary .neg) (reads : outer.input? 0 = some reduced)
    (produced : session.producer? reduced = some inner)
    (reduces : inner.operation = .reduce reduction) (readsInner : inner.input? 0 = some value)
    (negates : negated? session value = some base)
    : (Operation.reduce { reduction with kind }).Follows narrow
        (session.graph.typesBefore position) [.value base] outer.type := by
  have follows := (holds.typed.follows_at found).inferred
  rw [negation] at follows
  have front := holds.of_producer (follows.negated reads) produced
  rw [reduces] at front
  exact follows_of_reduction holds kind front readsInner negates

theorem declared_of_identityShuffle (shuffles : outer.operation = .shuffle order)
    (reads : outer.input? 0 = some value) {rank : Nat} (known : session.rank? value = some rank)
    (identity : order.isIdentity rank = true)
    : (value, outer.type) ∈ session.graph.typesBefore position := by
  have follows := (holds.typed.follows_at found).inferred
  rw [shuffles] at follows
  obtain ⟨tensor, declared, inferred⟩ := follows.shuffled reads
  obtain ⟨_, dims, same, shapes, result⟩ := Typing.shuffle_eq_ok_iff.mp inferred
  obtain rfl := ValueType.tensor.inj (List.head_eq_of_cons_eq same)
  rw [result]
  exact declared_of_identity holds declared shapes known identity

/-- The two shuffles of a chain, in front of the outer one. -/
theorem exists_shapes_of_chain {outerOrder innerOrder : ShuffleOrder}
    (shuffles : outer.operation = .shuffle outerOrder) (reads : outer.input? 0 = some value)
    (produced : session.producer? value = some inner)
    (shufflesInner : inner.operation = .shuffle innerOrder) (readsInner : inner.input? 0 = some base)
    (composed : compose innerOrder outerOrder = some order)
    : ∃ tensor dims,
        (base, .tensor tensor) ∈ session.graph.typesBefore position
        ∧ order.Shapes tensor.shape.dims dims
        ∧ outer.type = .tensor ⟨tensor.dtype, ⟨dims⟩⟩ := by
  have follows := (holds.typed.follows_at found).inferred
  rw [shuffles] at follows
  obtain ⟨middle, declared, second⟩ := follows.shuffled reads
  have front := holds.of_producer declared produced
  rw [shufflesInner] at front
  obtain ⟨tensor, declared', first⟩ := front.shuffled readsInner
  obtain ⟨_, dims, same, shapes, same'⟩ := Typing.shuffle_eq_ok_iff.mp first
  obtain rfl := ValueType.tensor.inj (List.head_eq_of_cons_eq same)
  obtain rfl := ValueType.tensor.inj same'
  obtain ⟨_, result, same, shapes', done⟩ := Typing.shuffle_eq_ok_iff.mp second
  obtain rfl := ValueType.tensor.inj (List.head_eq_of_cons_eq same)
  exact ⟨tensor, result, declared', shapes.trans composed shapes', done⟩

/-- Either part of the largest elements and their places has an operation of its own. -/
theorem follows_of_maxAndArgMax {axis : Int} (searches : outer.operation = .maxAndArgMax axis)
    (reads : outer.input? 0 = some value)
    : ∃ tensor largest places,
        (value, .tensor tensor) ∈ session.graph.typesBefore position
        ∧ Typing.maxAndArgMax axis [.tensor tensor] = .ok outer.type
        ∧ outer.type = .tuple [largest, places]
        ∧ (Operation.reduce ⟨.max, [axis], false⟩).Follows narrow
            (session.graph.typesBefore position) [.value value] largest
        ∧ (Operation.argMax axis false).Follows narrow (session.graph.typesBefore position)
            [.value value] places := by
  have follows := (holds.typed.follows_at found).inferred
  rw [searches] at follows
  obtain ⟨tensor, declared, inferred⟩ := follows.searched reads
  obtain ⟨_, largest, places, -, same, reduced, searched⟩ := Typing.maxAndArgMax_eq_ok inferred
  exact ⟨tensor, largest, places, declared, inferred, same,
    .of_infer (.cons declared .nil) reduced nofun, .of_infer (.cons declared .nil) searched nofun⟩

/-- What a shuffle reads is made in front of it. -/
theorem exists_shuffled (shuffles : outer.operation = .shuffle order)
    (reads : outer.input? 0 = some value) (produced : session.producer? value = some inner)
    : ∃ made types,
        (value, .tensor made) ∈ session.graph.typesBefore position
        ∧ Typing.shuffle order [.tensor made] = .ok outer.type
        ∧ List.Forall₂ (Operand.DeclaredBy (session.graph.typesBefore position)) inner.operands types
        ∧ Typing.infer inner.operation types = .ok (.tensor made)
        ∧ (narrow → inner.operation.IsNarrow types) := by
  have follows := (holds.typed.follows_at found).inferred
  rw [shuffles] at follows
  obtain ⟨made, declared, shuffled⟩ := follows.shuffled reads
  obtain ⟨types, everything, inferred, narrowly⟩ := holds.of_producer declared produced
  exact ⟨made, types, declared, shuffled, everything, Operation.resultType_eq_ok_iff.mp inferred,
    narrowly⟩

theorem follows_of_shuffleOfAlloc {extents shape : List ExtentSource} {filler : Operand}
    {tensor : TensorType} (shuffles : outer.operation = .shuffle order)
    (reads : outer.input? 0 = some value) (produced : session.producer? value = some inner)
    (fills : inner.operation = .alloc extents) (first : inner.operands.head? = some filler)
    (known : session.operandType? filler = some (.tensor tensor))
    (all : order.kept = List.range extents.length)
    (inFront : insertsInFront order (extents.length - tensor.rank) = true)
    (composed : order.mapM (shuffledExtent extents) = some shape)
    : (Operation.alloc shape).Follows narrow (session.graph.typesBefore position) inner.operands
        outer.type := by
  obtain ⟨filled, types, -, shuffled, everything, inferred, -⟩ :=
    exists_shuffled holds found shuffles reads produced
  obtain ⟨rest, rfl⟩ := holds.exists_source everything first known
  rw [fills] at inferred
  exact .of_infer everything (Typing.alloc_of_shuffle inferred all inFront composed shuffled) nofun

/-- What an operation reads first may be a tensor in front of a shuffle. -/
theorem exists_unshuffled {operation : Operation} (same : outer.operation = operation)
    (reads : outer.input? 0 = some value) (produced : session.producer? value = some inner)
    (shuffles : inner.operation = .shuffle order) (readsInner : inner.input? 0 = some base)
    : ∃ tensor shuffled rest,
        (base, .tensor tensor) ∈ session.graph.typesBefore position
        ∧ List.Forall₂ (Operand.DeclaredBy (session.graph.typesBefore position))
            (.value base :: outer.operands.drop 1) (.tensor tensor :: rest)
        ∧ Typing.shuffle order [.tensor tensor] = .ok (.tensor shuffled)
        ∧ Typing.infer operation (.tensor shuffled :: rest) = .ok outer.type := by
  have follows := (holds.typed.follows_at found).inferred
  rw [same] at follows
  obtain ⟨first, rest, declared, later, inferred⟩ := follows.input reads
  have front := holds.of_producer declared produced
  rw [shuffles] at front
  obtain ⟨tensor, declared', shuffled⟩ := front.shuffled readsInner
  obtain ⟨_, dims, -, -, rfl⟩ := Typing.shuffle_eq_ok_iff.mp shuffled
  exact ⟨tensor, _, rest, declared', .cons declared' later, shuffled, inferred⟩

theorem follows_of_allocOfShuffle {extents : List ExtentSource} {rank : Nat}
    (fills : outer.operation = .alloc extents) (reads : outer.input? 0 = some value)
    (produced : session.producer? value = some inner) (shuffles : inner.operation = .shuffle order)
    (readsInner : inner.input? 0 = some base) (known : session.rank? base = some rank)
    (padding : isLeftPadding order rank = true)
    : (Operation.alloc extents).Follows narrow (session.graph.typesBefore position)
        (.value base :: outer.operands.drop 1) outer.type := by
  obtain ⟨tensor, _, rest, declared, everything, shuffled, inferred⟩ :=
    exists_unshuffled holds found fills reads produced shuffles readsInner
  obtain ⟨_, same, rfl⟩ := holds.of_rank? declared known
  obtain rfl := ValueType.tensor.inj same
  exact .of_infer everything (Typing.alloc_of_padded shuffled padding inferred) nofun

theorem follows_of_reshapeOfShuffle {extents : List ReshapeExtent}
    (reshapes : outer.operation = .reshape extents) (reads : outer.input? 0 = some value)
    (produced : session.producer? value = some inner) (shuffles : inner.operation = .shuffle order)
    (ordered : order.preservesOrder = true) (readsInner : inner.input? 0 = some base)
    : (Operation.reshape extents).Follows narrow (session.graph.typesBefore position)
        (.value base :: outer.operands.drop 1) outer.type := by
  obtain ⟨tensor, _, rest, declared, everything, shuffled, inferred⟩ :=
    exists_unshuffled holds found reshapes reads produced shuffles readsInner
  exact .of_infer everything (Typing.reshape_of_shuffled ordered shuffled inferred) nofun

/-- The order names extents of the reshape, so there is a new shape. -/
theorem follows_of_shuffleOfReshape {extents : List ReshapeExtent}
    (shuffles : outer.operation = .shuffle order) (ordered : order.preservesOrder = true)
    (reads : outer.input? 0 = some value) (produced : session.producer? value = some inner)
    (reshapes : inner.operation = .reshape extents)
    : ∃ shape,
        order.mapM (shuffledReshapeExtent extents) = some shape
        ∧ (Operation.reshape shape).Follows narrow (session.graph.typesBefore position)
            inner.operands outer.type := by
  obtain ⟨reshaped, types, -, shuffled, everything, inferred, -⟩ :=
    exists_shuffled holds found shuffles reads produced
  rw [reshapes] at inferred
  have inferred : Typing.reshape extents types = .ok (.tensor reshaped) := inferred
  obtain ⟨tensor, first, -⟩ := Steps.bind_eq_ok_iff.mp inferred
  obtain ⟨rest, rfl⟩ := Typing.tensorAt_zero_eq_ok_iff.mp first
  obtain ⟨-, -, -, dim, -, same⟩ := Typing.reshape_eq_ok_iff.mp inferred
  obtain ⟨_, dims, same', shapes, -⟩ := Typing.shuffle_eq_ok_iff.mp shuffled
  obtain rfl := ValueType.tensor.inj (List.head_eq_of_cons_eq same')
  obtain rfl := ValueType.tensor.inj same
  obtain ⟨shape, composed⟩ := Typing.exists_shuffledReshapeExtents shapes
  exact ⟨shape, composed, .of_infer everything
    (Typing.shuffle_of_reshape ordered inferred composed shuffled) nofun⟩

/-- Folded entries select from the same tensor. The type is the one that was there if axes are
narrow, and otherwise the same or one that is not compatible.
-/
theorem follows_of_shuffleOfSubtensor {entries folded : List IndexEntry} {rank : Nat}
    {source : Operand} {tensor : TensorType} (shuffles : outer.operation = .shuffle order)
    (fits : (!order.insertsAxes && order.preservesOrder) = true)
    (reads : outer.input? 0 = some value) (produced : session.producer? value = some inner)
    (slices : inner.operation = .subtensor entries) (known : session.rank? value = some rank)
    (first : inner.operands.head? = some source)
    (knownSource : session.operandType? source = some (.tensor tensor))
    (folds : foldDropped (order.dropped rank) 0 tensor.shape.dims entries = some folded)
    : (narrow
        → (Operation.subtensor folded).Follows narrow (session.graph.typesBefore position)
            inner.operands outer.type)
      ∧ ∃ types,
          List.Forall₂ (Operand.DeclaredBy (session.graph.typesBefore position)) inner.operands
            types
          ∧ ∀ other, Typing.subtensor folded types = .ok other
            → outer.type.compatibleWith other = true → outer.type = other := by
  obtain ⟨plain, ordered⟩ := Bool.and_eq_true_iff.mp fits
  rw [Bool.not_eq_true'] at plain
  obtain ⟨sliced, types, declared, shuffled, everything, inferred, narrowly⟩ :=
    exists_shuffled holds found shuffles reads produced
  obtain ⟨_, same, rfl⟩ := holds.of_rank? declared known
  obtain rfl := ValueType.tensor.inj same
  obtain ⟨rest, rfl⟩ := holds.exists_source everything first knownSource
  rw [slices] at inferred narrowly
  refine ⟨fun small => ?_, _, everything, fun other done compatible =>
    Typing.subtensor_clash plain ordered inferred shuffled folds done compatible⟩
  have sizes := narrowly small entries rfl tensor rfl
  have inferred' := Typing.subtensor_of_shuffle plain ordered inferred shuffled folds sizes
  refine ⟨_, everything, Operation.resultType_eq_ok_iff.mpr inferred', fun _ _ _ type same => ?_⟩
  obtain rfl := ValueType.tensor.inj (Option.some.inj same)
  exact sizes

end Rules

end Dataflow
