import Dataflow.Proofs.Rewrite.Lowering
import Dataflow.Proofs.Rewrite.Rules.Advances
import Dataflow.Proofs.Tensor.Negation

/-!
Reductions of negated integers. The rules for them exchange a value for another one: the extreme of
negated integers for the opposite extreme, negated, and the other way round. The two are the same
iff the least integer of the type does not stand among others in any lane that is reduced.
-/

namespace Dataflow

open Backend (reference)
open Elementwise (negated)

variable {narrow : Prop} {given : List Value} {graph grown : Graph} {node : Node}
  {base id new : ValueId} {content : Tensor} {value old fresh : Value} {position place : Nat}

-----------------------------------------------------------------------------------------
-- Nodes of one operand
-----------------------------------------------------------------------------------------

namespace Graph

theorem Computes.of_front (computes : (graph.front position).Computes reference given id value)
    : graph.Computes reference given id value :=
  computes.mono rfl (List.take_subset ..)

theorem Computes.valid (computes : graph.Computes reference given id (.tensor content))
    (typed : graph.WellTyped narrow)
    (givenTyped : List.Forall₂ Value.HasType given graph.inputTypes)
    : content.Valid := by
  have defined := computes.mem_defined
  rw [← typed.keys_types] at defined
  obtain ⟨⟨_, type⟩, declared, rfl⟩ := List.mem_map.mp defined
  exact (computes.hasType Backend.reference_faithful typed givenTyped declared).valid

theorem Computes.of_single (computes : graph.Computes reference given base (.tensor content))
    (member : node ∈ graph.body) (operands : node.operands = [.value base])
    (makes
      : ∀ {i : Interpretation}, i base = .tensor content
          → i.Makes reference node.operation [.value base] value)
    : graph.Computes reference given node.value value := by
  refine @Computes.node _ _ _ node value (fun _ => .tensor content) member ?_ ?_
  · intro read reads
    rw [Node.reads, operands] at reads
    rwa [List.mem_singleton.mp reads]
  · rw [operands]
    exact makes rfl

/-- A node negates a value. -/
structure Negates (graph : Graph) (node : Node) (base : ValueId) : Prop where
  member : node ∈ graph.body
  operation : node.operation = .unary .neg
  operands : node.operands = [.value base]

theorem Negates.of_front (negates : (graph.front position).Negates node base)
    : graph.Negates node base :=
  ⟨List.mem_of_mem_take negates.member, negates.operation, negates.operands⟩

theorem Negates.computes (negates : graph.Negates node base)
    (computes : graph.Computes reference given base (.tensor content))
    : graph.Computes reference given node.value (.tensor (negated content)) := by
  refine computes.of_single negates.member negates.operands fun reads => ?_
  rw [negates.operation]
  exact (Interpretation.makes_neg_iff Backend.reference_faithful reads).mpr rfl

/-- A node reduces a value. -/
structure Reduces (graph : Graph) (node : Node) (reduction : Reduction) (base : ValueId) : Prop where
  member : node ∈ graph.body
  operation : node.operation = .reduce reduction
  operands : node.operands = [.value base]

theorem Reduces.of_front {reduction : Reduction}
    (reduces : (graph.front position).Reduces node reduction base)
    : graph.Reduces node reduction base :=
  ⟨List.mem_of_mem_take reduces.member, reduces.operation, reduces.operands⟩

theorem Reduces.computes {reduction : Reduction} {result : Tensor}
    (reduces : graph.Reduces node reduction base)
    (computes : graph.Computes reference given base (.tensor content))
    (reduced : Reduce.reduce reduction content = .ok result)
    : graph.Computes reference given node.value (.tensor result) := by
  refine computes.of_single reduces.member reduces.operands fun reads => ?_
  rw [reduces.operation]
  exact (Interpretation.makes_reduce_iff reads).mpr ⟨result, reduced, rfl⟩

-----------------------------------------------------------------------------------------
-- New nodes
-----------------------------------------------------------------------------------------

/-- A new node of one operand may come at a position: what it reads is computed in front, and it makes
something of it.
-/
structure Addition (narrow : Prop) (given : List Value) (graph : Graph) (position : Nat)
    (node : Node) (value : Value) : Prop where
  typed : graph.WellTyped narrow
  inside : position ≤ graph.body.length
  follows : node.Follows narrow (graph.typesBefore position)
  fresh : node.value ∉ graph.defined
  makes
    : ∃ base content,
        (graph.front position).Computes reference given base (.tensor content)
        ∧ node.operands = [.value base]
        ∧ ∀ {i : Interpretation}, i base = .tensor content
            → i.Makes reference node.operation [.value base] value

namespace Addition

variable (addition : graph.Addition narrow given position node value)

include addition

theorem wellTyped : (graph.inserted position node).WellTyped narrow :=
  addition.typed.insert addition.inside addition.follows addition.fresh

theorem body_front
    : ((graph.inserted position node).front (position + 1)).body
      = (graph.front position).body ++ [node] :=
  take_insertIdx addition.inside node

/-- What is computed in front is computed in front of the next node. -/
theorem computes_front {id : ValueId} {other : Value}
    (computes : (graph.front position).Computes reference given id other)
    : ((graph.inserted position node).front (position + 1)).Computes reference given id other := by
  refine computes.mono rfl ?_
  rw [addition.body_front]
  exact List.subset_append_left ..

/-- The new value is computed there, too. -/
theorem computes
    : ((graph.inserted position node).front (position + 1)).Computes reference given node.value
        value := by
  obtain ⟨base, content, computes, operands, makes⟩ := addition.makes
  refine (addition.computes_front computes).of_single ?_ operands makes
  rw [addition.body_front]
  exact List.mem_append_right _ List.mem_cons_self

theorem agrees : graph.Agrees reference given (graph.inserted position node) := by
  obtain ⟨base, content, computes, operands, makes⟩ := addition.makes
  refine addition.typed.agrees_inserted addition.fresh (fun read reads => ?_) fun i accounts => ?_
  · rw [Node.reads, operands] at reads
    rw [List.mem_singleton.mp reads]
    exact computes.of_front.mem_defined
  · rw [operands]
    exact ⟨value, makes
      (computes.eq_of_solves (addition.typed.front position).ordered accounts.toSolves)⟩

end Addition

-----------------------------------------------------------------------------------------
-- Exchanged values
-----------------------------------------------------------------------------------------

/-- A value takes the place of a node: all other nodes and the outputs have it instead. -/
structure Exchanges (before after : Graph) (node : Node) (new : ValueId) : Prop where
  inputs : after.inputs = before.inputs
  nodes
    : ∀ other ∈ before.body, other.value ≠ node.value
        → Session.redirectNode node.value new other ∈ after.body
  outputs : after.outputs = before.outputs.map fun id => if id = node.value then new else id

/-- A graph has more nodes than another one, and a node of both stands at a place. -/
structure Grows (graph grown : Graph) (place : Nat) (node : Node) : Prop where
  inputs : grown.inputs = graph.inputs
  outputs : grown.outputs = graph.outputs
  body : graph.body ⊆ grown.body
  found : grown.body[place]? = some node

theorem Grows.refl (found : graph.body[position]? = some node) : graph.Grows graph position node :=
  ⟨rfl, rfl, List.Subset.refl _, found⟩

theorem Grows.inserted (grows : graph.Grows grown place node) (added : Node)
    : graph.Grows (grown.inserted place added) (place + 1) node :=
  ⟨grows.inputs, grows.outputs, fun _ member => List.subset_insertIdx _ _ _ (grows.body member),
    getElem?_inserted_succ grows.found added⟩

theorem Grows.exchanges (grows : graph.Grows grown place node) (new : ValueId)
    : graph.Exchanges (grown.replaced place node.value new) node new where
  inputs := grows.inputs
  nodes other member differs := by
    refine List.mem_map_of_mem (((mem_body_iff grows.found).mp (grows.body member)).resolve_left ?_)
    rintro rfl
    exact differs rfl
  outputs := congrArg (List.map _) grows.outputs

/-- A node can be exchanged for a value of a graph with more nodes in front of it, in which each of the
two is computed.
-/
structure Exchange (narrow : Prop) (given : List Value) (graph grown : Graph) (place : Nat)
    (node : Node) (new : ValueId) (old fresh : Value) : Prop where
  typed : graph.WellTyped narrow
  grownTyped : grown.WellTyped narrow
  found : grown.body[place]? = some node
  /-- With more nodes in front, the graph has the same results. -/
  agrees : graph.Agrees reference given grown
  computes : graph.Computes reference given node.value old
  computesNew : (grown.front place).Computes reference given new fresh
  /-- What is in front of the node determines what it makes. -/
  makes
    : ∀ i : Interpretation, i.Accounts reference (grown.front place) given []
        → i.Makes reference node.operation node.operands old

/-- A node of one operand may be exchanged for a new one. -/
theorem Addition.exchange {added : Node} {content : Tensor}
    (addition : graph.Addition narrow given position added fresh)
    (found : graph.body[position]? = some node)
    (computes : (graph.front position).Computes reference given base (.tensor content))
    (operands : node.operands = [.value base])
    (makes
      : ∀ {i : Interpretation}, i base = .tensor content
          → i.Makes reference node.operation [.value base] old)
    : graph.Exchange narrow given (graph.inserted position added) (position + 1) node added.value old
        fresh where
  typed := addition.typed
  grownTyped := addition.wellTyped
  found := getElem?_inserted_succ found added
  agrees := addition.agrees
  computes := computes.of_front.of_single (List.mem_of_getElem? found) operands makes
  computesNew := addition.computes
  makes i accounts := by
    rw [operands]
    exact makes ((addition.computes_front computes).eq_of_solves
      (addition.wellTyped.front (position + 1)).ordered accounts.toSolves)

namespace Exchange

/-- Another new node may come before. -/
theorem of_addition {added : Node}
    (exchange
      : (graph.inserted position added).Exchange narrow given grown place node new old fresh)
    (addition : graph.Addition narrow given position added value)
    (computes : graph.Computes reference given node.value old)
    : graph.Exchange narrow given grown place node new old fresh where
  typed := addition.typed
  grownTyped := exchange.grownTyped
  found := exchange.found
  agrees := addition.agrees.trans exchange.agrees
  computes := computes
  computesNew := exchange.computesNew
  makes := exchange.makes

variable (exchange : graph.Exchange narrow given grown place node new old fresh)

include exchange

/-- The value that takes the place of the node is computed as it was in front of the node. -/
theorem computes_replaced
    : (grown.replaced place node.value new).Computes reference given new fresh := by
  refine exchange.computesNew.mono rfl ?_
  rw [← front_replaced exchange.grownTyped exchange.found new]
  exact List.take_subset ..

/-- If the other value is the same, then the graph has the same results. -/
theorem agrees_replaced (same : old = fresh)
    : graph.Agrees reference given (grown.replaced place node.value new) := by
  refine exchange.agrees.trans (exchange.grownTyped.agrees_replaced exchange.found ?_)
  intro i accounts
  have here := exchange.computesNew.eq_of_solves (exchange.grownTyped.front place).ordered
    accounts.toSolves
  rw [here, ← same]
  exact exchange.makes i accounts

/-- If the graph shows the node, then it has the same results only if the other value is the same. -/
theorem eq_of_agrees (exchanges : graph.Exchanges (grown.replaced place node.value new) node new)
    (left : (grown.replaced place node.value new).WellTyped narrow)
    (shown : node.value ∈ graph.outputs) {results : List Value}
    (yields : graph.Yields reference given results)
    (agrees : graph.Agrees reference given (grown.replaced place node.value new))
    : old = fresh := by
  obtain ⟨j, after⟩ := (agrees results).mp yields
  obtain ⟨i, before⟩ := yields
  have same := before.results.trans after.results.symm
  rw [exchanges.outputs, List.map_map] at same
  have here := List.map_inj_left.mp same node.value shown
  rw [Function.comp_apply, if_pos rfl] at here
  rw [← exchange.computes.eq_of_solves exchange.typed.ordered before.toSolves, here,
    exchange.computes_replaced.eq_of_solves left.ordered after.toSolves]

end Exchange

end Graph

-----------------------------------------------------------------------------------------
-- Rules
-----------------------------------------------------------------------------------------

/-- A node reduces the negation of a value, or it negates such a reduction. -/
def Graph.ReducesNegation (graph : Graph) (node : Node) (reduction : Reduction) (base : ValueId)
    : Prop :=
  ∃ reduced inner : Node,
    graph.Negates inner base
    ∧ graph.Reduces reduced reduction inner.value
    ∧ (reduced = node ∨ graph.Negates node reduced.value)

/-- A node is exchanged for a value. Of integers, the two values are the same iff the least integer of
the type does not stand among others in any lane. Then the graph has the same results, and only then
if it shows the node and has results at all.
-/
structure Session.ExchangesExtremes (session after : Session) (outer : Node) (reduction : Reduction)
    (base new : ValueId) : Prop where
  exchanges : session.graph.Exchanges after.graph outer new
  values
    : ∀ {given : List Value} {x : Tensor} {axes : List Nat},
        List.Forall₂ Value.HasType given session.graph.inputTypes
        → session.graph.Computes reference given base (.tensor x)
        → x.dtype.isInteger = true
        → Reduce.combinedAxes reduction x.sizes = .ok axes
        → ∃ old fresh,
            session.graph.Computes reference given outer.value old
            ∧ after.graph.Computes reference given new fresh
            ∧ (old = fresh
              ↔ ∀ position < RowMajor.count (Reduce.keptSizes axes 0 x.sizes),
                  Reduce.Unmixed axes x position)
            ∧ (old = fresh → session.graph.Agrees reference given after.graph)
            ∧ (outer.value ∈ session.graph.outputs
              → (∃ results, session.graph.Yields reference given results)
              → session.graph.Agrees reference given after.graph
              → old = fresh)

namespace Rules

open Session

variable {session : Session} {ids : List NodeId} {plan : Rewriting Unit} {type : ValueType}
  {reduction : Reduction} {dual : ReduceKind}

/-- In front of a position, a node negates what a value is the negation of. -/
theorem exists_negates (holds : session.Holds narrow ids)
    (declared : (id, type) ∈ session.graph.typesBefore position)
    (negates : negated? session id = some base)
    : ∃ inner,
        inner.value = id
        ∧ (session.graph.front position).Negates inner base
        ∧ base ∈ session.graph.definedBefore position := by
  obtain ⟨inner, produced, negation, reads⟩ := negated?_eq_some_iff.mp negates
  obtain ⟨member, same⟩ := holds.mem_front_of_producer declared produced
  have follows := holds.of_producer declared produced
  rw [negation] at follows
  obtain ⟨operands, tensor, here, -⟩ := follows.operands_of_neg reads
  refine ⟨inner, same, ⟨member, negation, operands⟩, ?_⟩
  rw [← holds.typed.keys_typesBefore]
  exact List.mem_map_of_mem here

/-- A new node of one operand may come in front of a node, with the next number. -/
theorem addition_of_follows (holds : session.Holds narrow ids)
    (found : session.graph.body[position]? = some node) {operation : Operation}
    (follows : operation.Follows narrow (session.graph.typesBefore position) [.value base] type)
    (computes : (session.graph.front position).Computes reference given base (.tensor content))
    (makes
      : ∀ {i : Interpretation}, i base = .tensor content
          → i.Makes reference operation [.value base] value)
    : session.graph.Addition narrow given position
        ⟨⟨session.index.nextValue⟩, operation, [.value base], type⟩ value where
  typed := holds.typed
  inside := (List.getElem?_eq_some_iff.mp found).1.le
  follows := by
    refine ⟨fun member => holds.described.nextValue_not_mem ?_, follows⟩
    rw [holds.typed.keys_typesBefore] at member
    exact Graph.mem_defined_of_before member
  fresh := holds.described.nextValue_not_mem
  makes := ⟨base, content, computes, rfl, makes⟩

/-- A rule that exchanges a node exchanges extremes if the values are the same iff the least integer
does not stand among others in any lane.
-/
theorem exchangesExtremes {after : Session} {names : List NodeId}
    (holds : session.Holds narrow ids) (left : after.Holds narrow names)
    (grows : session.graph.Grows grown place node)
    (replaced : after.graph = grown.replaced place node.value new)
    (exchange
      : ∀ {given : List Value} {x : Tensor} {axes : List Nat},
          session.graph.Computes reference given base (.tensor x)
          → x.dtype.isInteger = true
          → x.Valid
          → Reduce.combinedAxes reduction x.sizes = .ok axes
          → ∃ old fresh : Tensor,
              session.graph.Exchange narrow given grown place node new (.tensor old) (.tensor fresh)
              ∧ (old = fresh
                ↔ ∀ position < RowMajor.count (Reduce.keptSizes axes 0 x.sizes),
                    Reduce.Unmixed axes x position))
    : session.ExchangesExtremes after node reduction base new where
  exchanges := replaced ▸ grows.exchanges new
  values {given x axes} typed computes integer resolved := by
    obtain ⟨old, fresh, exchange, same⟩ :=
      exchange computes integer (computes.valid holds.typed typed) resolved
    have left := left.typed
    rw [replaced] at left ⊢
    refine ⟨_, _, exchange.computes, exchange.computes_replaced, ?_, exchange.agrees_replaced,
      fun shown ⟨_, yields⟩ => exchange.eq_of_agrees (grows.exchanges new) left shown yields⟩
    rw [Value.tensor.injEq, same]

theorem exchanges_localMaxToMin (holds : session.Holds narrow ids) {name : NodeId}
    (planned : localMaxToMin.plan session name = some plan)
    : ∃ outer reduction dual base new after,
        session.node? name = some outer
        ∧ session.graph.ReducesNegation outer reduction base
        ∧ reduction.kind.negatedDual = some dual
        ∧ plan session = .ok () after
        ∧ session.ExchangesExtremes after outer reduction base new := by
  obtain ⟨outer, _, reduced, reduction, dual, _, base, located, negation, reads, produced, reduces,
    known, readsInner, negates, rfl⟩ := plan_localMaxToMin.mp planned
  obtain ⟨position, -, listed, found⟩ := listed_of_node? holds.described located
  have follows := (holds.typed.follows_at found).inferred
  rw [negation] at follows
  obtain ⟨operands, _, declared, -⟩ := follows.operands_of_neg reads
  obtain ⟨reducedFront, rfl⟩ := holds.mem_front_of_producer declared produced
  have followsReduced := holds.of_producer declared produced
  rw [reduces] at followsReduced
  obtain ⟨operandsReduced, _, declaredInner⟩ := followsReduced.operands_of_reduce readsInner
  obtain ⟨inner, rfl, negatesInner, before⟩ := exists_negates holds declaredInner negates
  have reducesInner : (session.graph.front position).Reduces reduced reduction inner.value :=
    ⟨reducedFront, reduces, operandsReduced⟩
  have dualFollows :=
    follows_of_localMaxToMin holds found dual negation reads produced reduces readsInner negates
  obtain ⟨after, names, done, substituted, advances⟩ := holds.substituted listed found dualFollows
  refine ⟨outer, reduction, dual, base, _, after, located, ?_, known, Rewriting.lift_of_ok done,
    exchangesExtremes holds advances.holds ((Graph.Grows.refl found).inserted _) substituted ?_⟩
  · exact ⟨reduced, inner, negatesInner.of_front, reducesInner.of_front,
      .inr ⟨List.mem_of_getElem? found, negation, operands⟩⟩
  · intro given x axes computes integer valid resolved
    obtain ⟨occupied, turned, straight⟩ := Reduce.reduce_negated_eq_ok known resolved
    have front := computes.front holds.typed.ordered before
    have addition := addition_of_follows holds found dualFollows front fun reads =>
      (Interpretation.makes_reduce_iff reads).mpr ⟨_, straight, rfl⟩
    have exchange := addition.exchange found
      (reducesInner.computes (negatesInner.computes front) turned) operands fun reads => by
        rw [negation]
        exact (Interpretation.makes_neg_iff Backend.reference_faithful reads).mpr rfl
    exact ⟨_, _, exchange,
      Reduce.negated_combined_negated_iff known integer valid occupied reduction.keepAxes⟩

theorem exchanges_reduceOfNegation (holds : session.Holds narrow ids) {name : NodeId}
    (planned : reduceOfNegation.plan session name = some plan)
    : ∃ outer reduction dual base new after,
        session.node? name = some outer
        ∧ session.graph.ReducesNegation outer reduction base
        ∧ reduction.kind.negatedDual = some dual
        ∧ plan session = .ok () after
        ∧ session.ExchangesExtremes after outer reduction base new := by
  obtain ⟨outer, reduction, dual, _, base, located, reduces, known, reads, -, negates, rfl⟩ :=
    plan_reduceOfNegation.mp planned
  obtain ⟨position, -, listed, found⟩ := listed_of_node? holds.described located
  have follows := (holds.typed.follows_at found).inferred
  rw [reduces] at follows
  obtain ⟨operands, _, declared⟩ := follows.operands_of_reduce reads
  obtain ⟨inner, rfl, negatesInner, before⟩ := exists_negates holds declared negates
  have dualFollows := follows_of_reduction holds dual follows reads negates
  obtain ⟨middle, _, done, changed, inserted⟩ := holds.inserted listed found dualFollows
  obtain ⟨_, index⟩ := middle
  dsimp only at changed
  subst changed
  have negation := follows.negation inserted.declared
  obtain ⟨after, names, done', substituted, advances⟩ :=
    inserted.advances.holds.substituted inserted.listed inserted.found negation
  refine ⟨outer, reduction, dual, base, _, after, located, ?_, known, ?_,
    exchangesExtremes holds advances.holds (((Graph.Grows.refl found).inserted _).inserted _)
      substituted ?_⟩
  · exact ⟨outer, inner, negatesInner.of_front, ⟨List.mem_of_getElem? found, reduces, operands⟩,
      .inl rfl⟩
  · exact (bind_of_ok (Rewriting.lift_of_ok done)).trans (Rewriting.lift_of_ok done')
  · intro given x axes computes integer valid resolved
    obtain ⟨occupied, turned, straight⟩ := Reduce.reduce_negated_eq_ok known resolved
    have front := computes.front holds.typed.ordered before
    have first := addition_of_follows holds found dualFollows front fun reads =>
      (Interpretation.makes_reduce_iff reads).mpr ⟨_, straight, rfl⟩
    have second := addition_of_follows inserted.advances.holds inserted.found negation first.computes
      fun reads => (Interpretation.makes_neg_iff Backend.reference_faithful reads).mpr rfl
    have negated := negatesInner.computes front
    have makes {i : Interpretation} (reads : i inner.value = .tensor (Elementwise.negated x))
        : i.Makes reference outer.operation [.value inner.value]
            (.tensor (Reduce.combined reduction.kind axes reduction.keepAxes
              (Elementwise.negated x))) := by
      rw [reduces]
      exact (Interpretation.makes_reduce_iff reads).mpr ⟨_, turned, rfl⟩
    have exchange := second.exchange inserted.found (first.computes_front negated) operands makes
    exact ⟨_, _, exchange.of_addition first
        (negated.of_front.of_single (List.mem_of_getElem? found) operands makes),
      Reduce.combined_negated_iff known integer valid occupied reduction.keepAxes⟩

/-- Reductions of negated integers, exactly. Position by position, the kernels make an extreme of
negated integers that is the opposite extreme, negated, and the other way round, iff the least
integer of the type is not in the lane or is all of it. The two rules that rely on this exchange a
value for the same one iff that holds of all lanes.
-/
theorem extremes_of_negations
    : (∀ {reduction : Reduction} {dual : ReduceKind} {x : Tensor} {axes : List Nat},
          reduction.kind.negatedDual = some dual
          → x.dtype.isInteger = true
          → x.Valid
          → Reduce.combinedAxes reduction x.sizes = .ok axes
          → ∃ negative reduced turned straight back : Tensor,
              Elementwise.unary .neg x = .ok negative
              ∧ Reduce.reduce reduction negative = .ok reduced
              ∧ Elementwise.unary .neg reduced = .ok turned
              ∧ Reduce.reduce { reduction with kind := dual } x = .ok straight
              ∧ Elementwise.unary .neg straight = .ok back
              ∧ (∀ result ∈ [reduced, turned, straight, back],
                  result.Valid
                  ∧ result.dtype = x.dtype
                  ∧ result.sizes = Reduce.resultSizes axes reduction.keepAxes x.sizes)
              ∧ ∀ position < RowMajor.count straight.sizes,
                  (reduced.elements.toInts[position]? = back.elements.toInts[position]?
                    ↔ Reduce.Unmixed axes x position)
                  ∧ (turned.elements.toInts[position]? = straight.elements.toInts[position]?
                    ↔ Reduce.Unmixed axes x position))
      ∧ ∀ {narrow : Prop} {rule : Rule} {session : Session} {ids : List NodeId} {name : NodeId}
          {plan : Rewriting Unit},
          rule = reduceOfNegation ∨ rule = localMaxToMin
          → session.Holds narrow ids
          → rule.plan session name = some plan
          → ∃ outer reduction dual base new after,
              session.node? name = some outer
              ∧ session.graph.ReducesNegation outer reduction base
              ∧ reduction.kind.negatedDual = some dual
              ∧ plan session = .ok () after
              ∧ session.ExchangesExtremes after outer reduction base new := by
  refine ⟨Reduce.exists_reduced_negated, ?_⟩
  intro narrow rule session ids name plan which holds planned
  rcases which with rfl | rfl
  · exact exchanges_reduceOfNegation holds planned
  · exact exchanges_localMaxToMin holds planned

/-- The calls that build a graph that negates the largest of negated numbers. -/
def negatedLargestCalls : List Builder.Call :=
  [.input (.tensor ⟨.si32, ⟨[.static 2]⟩⟩), .node (.unary .neg) [.value ⟨0⟩],
    .node (.reduce ⟨.max, [0], false⟩) [.value ⟨1⟩], .node (.unary .neg) [.value ⟨2⟩]]

/-- A graph that negates the largest of negated numbers. -/
def negatedLargest : Graph where
  name := "largest"
  inputTypes := [.tensor ⟨.si32, ⟨[.static 2]⟩⟩]
  inputs := [⟨0⟩]
  outputTypes := [.tensor ⟨.si32, ⟨[]⟩⟩]
  body :=
    [⟨⟨1⟩, .unary .neg, [.value ⟨0⟩], .tensor ⟨.si32, ⟨[.static 2]⟩⟩⟩,
      ⟨⟨2⟩, .reduce ⟨.max, [0], false⟩, [.value ⟨1⟩], .tensor ⟨.si32, ⟨[]⟩⟩⟩,
      ⟨⟨3⟩, .unary .neg, [.value ⟨2⟩], .tensor ⟨.si32, ⟨[]⟩⟩⟩]
  outputs := [⟨3⟩]

/-- The session that edits `negatedLargest`. -/
def negatedLargestSession : Session where
  graph := negatedLargest
  index :=
    { nodes := [(⟨0⟩, ⟨⟨1⟩, 0, 0⟩), (⟨1⟩, ⟨⟨2⟩, 1, 0⟩), (⟨2⟩, ⟨⟨3⟩, 2, 0⟩)]
      values :=
        [(⟨0⟩, ⟨.tensor ⟨.si32, ⟨[.static 2]⟩⟩, none, [⟨0⟩]⟩),
          (⟨1⟩, ⟨.tensor ⟨.si32, ⟨[.static 2]⟩⟩, some ⟨0⟩, [⟨1⟩]⟩),
          (⟨2⟩, ⟨.tensor ⟨.si32, ⟨[]⟩⟩, some ⟨1⟩, [⟨2⟩]⟩),
          (⟨3⟩, ⟨.tensor ⟨.si32, ⟨[]⟩⟩, some ⟨2⟩, []⟩)]
      nextNode := 3
      nextValue := 4 }

/-- The least integer and five. -/
def leastAndFive : Tensor := ⟨[2], .si32 [-2147483648, 5]⟩

/-- The negated largest of their negations is five, and the smallest of them is the least integer. So
the rule changes what `negatedLargest` computes of them.
-/
theorem leastAndFive_exchanged
    : Session.start negatedLargest = .ok negatedLargestSession
      ∧ (ReduceKind.max.negatedDual = some .min
        ∧ leastAndFive.dtype.isInteger = true
        ∧ leastAndFive.Valid
        ∧ Reduce.combinedAxes ⟨.max, [0], false⟩ leastAndFive.sizes = .ok [0]
        ∧ ∃ negative reduced turned straight : Tensor,
            Elementwise.unary .neg leastAndFive = .ok negative
            ∧ Reduce.reduce ⟨.max, [0], false⟩ negative = .ok reduced
            ∧ Elementwise.unary .neg reduced = .ok turned
            ∧ Reduce.reduce ⟨.min, [0], false⟩ leastAndFive = .ok straight
            ∧ turned.elements.toInts[0]? ≠ straight.elements.toInts[0]?)
      ∧ ∃ plan after,
          localMaxToMin.plan negatedLargestSession ⟨2⟩ = some plan
          ∧ plan negatedLargestSession = .ok () after
          ∧ ¬negatedLargest.Agrees reference [.tensor leastAndFive] after.graph := by
  have started : Session.start negatedLargest = .ok negatedLargestSession := rfl
  have known : ReduceKind.max.negatedDual = some .min := rfl
  have resolved : Reduce.combinedAxes ⟨.max, [0], false⟩ leastAndFive.sizes = .ok [0] := rfl
  have mixed : ¬Reduce.Unmixed [0] leastAndFive 0 := by
    have lane : Reduce.lane [0] leastAndFive 0 = [leastAndFive.dtype.least, 5] := rfl
    have differs : 5 ≠ leastAndFive.dtype.least := by decide
    rw [Reduce.Unmixed, lane]
    simp [differs]
  refine ⟨started, ⟨known, rfl, rfl, resolved, ?_⟩, ?_⟩
  · obtain ⟨negative, reduced, turned, straight, _, first, second, third, dual, -, forms, each⟩ :=
      @extremes_of_negations.1 ⟨.max, [0], false⟩ .min leastAndFive [0] known rfl rfl resolved
    refine ⟨negative, reduced, turned, straight, first, second, third, dual, fun same => mixed ?_⟩
    have sizes : straight.sizes = [] := (forms straight (by simp)).2.2
    have inside : 0 < RowMajor.count straight.sizes := by
      rw [sizes]
      exact Nat.one_pos
    exact (each 0 inside).2.mp same
  · have built
        : (Builder.afterCalls negatedLargestCalls).finish "largest" [⟨3⟩] = .ok negatedLargest := rfl
    have typed := Builder.wellTyped_of_finish built
    obtain ⟨session, again, -, holds⟩ := Session.exists_start_of_wellTyped typed
    obtain rfl := Except.ok.inj (started.symm.trans again)
    have applies : (localMaxToMin.plan negatedLargestSession ⟨2⟩).isSome = true := by decide
    obtain ⟨plan, planned⟩ := Option.isSome_iff_exists.mp applies
    obtain ⟨outer, reduction, dual, base, new, after, located,
      ⟨reduced, inner, ⟨listed, negates, reads⟩, ⟨listed', reduces, reads'⟩, -⟩, -, done, exchanges⟩ :=
      extremes_of_negations.2 (.inr rfl) holds planned
    refine ⟨plan, after, planned, done, fun agrees => ?_⟩
    have node : negatedLargestSession.node? ⟨2⟩
        = some ⟨⟨3⟩, .unary .neg, [.value ⟨2⟩], .tensor ⟨.si32, ⟨[]⟩⟩⟩ := rfl
    obtain rfl := Option.some.inj (node.symm.trans located)
    obtain ⟨rfl, rfl⟩ : reduction = ⟨.max, [0], false⟩ ∧ base = ⟨0⟩ := by
      simp only [negatedLargestSession, negatedLargest, List.mem_cons, List.not_mem_nil, or_false]
        at listed listed'
      rcases listed' with rfl | rfl | rfl <;> cases reduces
      rcases listed with rfl | rfl | rfl
      · cases reads
        exact ⟨rfl, rfl⟩
      · cases negates
      · cases reads'
    have computes : negatedLargest.Computes reference [.tensor leastAndFive] ⟨0⟩
        (.tensor leastAndFive) := .input List.mem_cons_self
    have ran : (Run.graph reference negatedLargest false [.tensor leastAndFive]).outcome
        = .ok [.tensor ⟨[], .si32 [5]⟩] := by rfl
    have copies : ∀ node ∈ negatedLargest.body, node.operation.isInplace = false := by decide
    have valid : (Value.tensor leastAndFive).Valid := rfl
    have yields := (Run.graph_eq_ok_iff typed copies (List.forall_mem_singleton.mpr valid)).mp ran
    obtain ⟨old, fresh, -, -, same, -, only⟩ :=
      exchanges.values (.cons ⟨valid, rfl⟩ .nil) computes rfl resolved
    exact mixed (same.mp (only List.mem_cons_self ⟨_, yields⟩ agrees) 0 Nat.one_pos)

end Rules

end Dataflow
