import Dataflow.Proofs.Rewrite.Rules.Canonical
import Dataflow.Proofs.Rewrite.Rules.Lowerings

/-!
Canonical graphs and graphs with folded shapes compute what they computed before. Whatever rules of
the one kind or of the other are applied, however often and in whatever order, the graph that is
left has the results of the original, and it fails where the original fails if no node of the
original is dead.
-/

namespace Dataflow

-----------------------------------------------------------------------------------------
-- Canonical rules
-----------------------------------------------------------------------------------------

variable {narrow : Prop} {backend : Backend} {given : List Value} {original : Graph} {stored : Prop}

/-- The session stands at a well-typed graph that refines another one, with exact numbers if they
were stored exactly.
-/
def Session.Refines (narrow : Prop) (backend : Backend) (given : List Value) (original : Graph)
    (stored : Prop) (session : Session) : Prop :=
  ∃ ids,
    session.Holds narrow ids
    ∧ original.Refines backend given session.graph
    ∧ (stored → session.graph.IsExact)

open Session

/-- Each rewrite keeps the refinement. -/
theorem Rules.keeps_refines (faithful : backend.Faithful) {rule : Rule}
    (canonical : rule ∈ Catalog.canonicalRules)
    (storedFor
      : rule = eliminateDoubleNegation → stored ∧ ∀ value ∈ given, value.canonical = value)
    : rule.Keeps (Session.Refines narrow backend given original stored) False := by
  intro session id plan ⟨ids, holds, refines, exact⟩ planned
  obtain ⟨after, names, done, left, kept⟩ := preserved_of_canonical faithful holds canonical
    (fun same => (storedFor same).imp_left exact) planned
  rw [done]
  exact ⟨names, left, refines.kept kept, kept.exact ∘ exact⟩

/-- Dropping a dead node keeps it, too. -/
theorem dropsKeep_refines (faithful : backend.Faithful)
    : DropsKeep (Session.Refines narrow backend given original stored) False := by
  intro session id node ⟨ids, holds, refines, exact⟩ known hidden unread
  obtain ⟨position, -, listed, found⟩ := listed_of_node? holds.described known
  obtain ⟨after, done, changed, advances⟩ := holds.erase listed found unread hidden
  rw [done]
  refine ⟨_, advances.holds, ?_, fun asked other member => ?_⟩
  · rw [changed]
    exact refines.erased faithful holds.typed found ((readers_eq_nil_iff holds.described).mp unread)
      (by simpa [isOutput] using hidden)
  · rw [changed] at member
    exact exact asked other (List.mem_of_mem_eraseIdx member)

namespace Catalog

variable {graph : Graph} {rules : RuleSet} {inputs : List Value}

/-- Canonical rules never fail, and the graph that they leave refines the one they were given. -/
theorem sweep_refines (faithful : backend.Faithful) (typed : graph.WellTyped narrow)
    (copies : ∀ node ∈ graph.body, node.operation.isInplace = false)
    (canonical : ∀ rule ∈ rules, rule ∈ canonicalRules)
    (stored
      : Rules.eliminateDoubleNegation ∈ rules
        → graph.IsExact ∧ ∀ input ∈ inputs, input.canonical = input)
    (strategy : Strategy) (options : SweepOptions)
    : (sweep rules strategy options graph).error = none
      ∧ (sweep rules strategy options graph).graph.WellTyped narrow
      ∧ graph.Refines backend inputs (sweep rules strategy options graph).graph := by
  obtain ⟨session, started, same, holds⟩ := exists_start_of_wellTyped typed
  have start : session.Refines narrow backend inputs graph graph.IsExact := by
    refine ⟨_, holds, ?_, fun exact => same ▸ exact⟩
    rw [same]
    exact .refl copies
  have keeps : ∀ rule ∈ rules, rule.Keeps (Session.Refines narrow backend inputs graph graph.IsExact)
      False := fun rule member =>
    Rules.keeps_refines faithful (canonical rule member) fun here => stored (here ▸ member)
  obtain ⟨after, ⟨ids, left, refines, -⟩, swept, failed⟩ :=
    sweep_leaves keeps (dropsKeep_refines faithful) started start strategy options
  refine ⟨?_, swept ▸ left.typed, swept ▸ refines⟩
  by_contra some
  exact failed some

/-- Canonical rules keep what a graph that destroys nothing computes, in either order and whatever
their limit is, with or without dead nodes. The rules never fail; the results of the graph, with and
without bounded memory, are the results of what they leave; and if all nodes were live, then inputs
on which the graph fails are such on which that fails. The inputs must have as many elements as their
sizes say, and for double negations numbers must be stored as they are stored again.
-/
theorem canonicalRules_preserve (typed : graph.WellTyped narrow)
    (copies : ∀ node ∈ graph.body, node.operation.isInplace = false)
    (canonical : ∀ rule ∈ rules, rule ∈ canonicalRules) (valid : ∀ input ∈ inputs, input.Valid)
    (stored
      : Rules.eliminateDoubleNegation ∈ rules
        → graph.IsExact ∧ ∀ input ∈ inputs, input.canonical = input)
    (strategy : Strategy) (options : SweepOptions)
    : (sweep rules strategy options graph).error = none
      ∧ ∀ backend ∈ [Backend.reference, Backend.reference.bounded],
          (∀ results,
              (Run.graph backend graph false inputs).outcome = .ok results
              → (Run.graph backend (sweep rules strategy options graph).graph false inputs).outcome
                = .ok results)
          ∧ ((∀ node ∈ graph.body, graph.Live node.value)
              → ∀ error, (Run.graph backend graph false inputs).outcome = .error error
              → ∃ error',
                  (Run.graph backend (sweep rules strategy options graph).graph false inputs).outcome
                    = .error error') := by
  refine ⟨(sweep_refines Backend.reference_faithful typed copies canonical stored strategy
    options).1, fun backend member => ?_⟩
  have faithful : backend.Faithful := by
    rcases List.mem_pair.mp member with rfl | rfl
    · exact Backend.reference_faithful
    · exact Backend.bounded_reference_faithful
  obtain ⟨-, left, refines⟩ := sweep_refines faithful typed copies canonical stored strategy options
  have before (results : List Value) := @Run.graph_eq_ok_iff _ backend _ _ results typed copies valid
  have after (results : List Value) :=
    @Run.graph_eq_ok_iff _ backend _ _ results left refines.copies valid
  constructor
  · intro results done
    exact (after results).mpr (refines.results results ((before results).mp done))
  · intro live error failed
    cases outcome
        : (Run.graph backend (sweep rules strategy options graph).graph false inputs).outcome with
    | error error' => exact ⟨error', rfl⟩
    | ok results =>
        have done := (before results).mpr
          ((refines.failures live).2 results ((after results).mp outcome))
        cases failed.symm.trans done

/-- A graph that negates a matrix twice and turns it twice. -/
def turnedTwice : Graph where
  name := "turned"
  inputTypes := [.tensor ⟨.si64, ⟨[.static 2, .static 3]⟩⟩]
  inputs := [⟨0⟩]
  outputTypes := [.tensor ⟨.si64, ⟨[.static 1, .static 2, .static 3]⟩⟩]
  body :=
    [⟨⟨1⟩, .unary .neg, [.value ⟨0⟩], .tensor ⟨.si64, ⟨[.static 2, .static 3]⟩⟩⟩,
      ⟨⟨2⟩, .unary .neg, [.value ⟨1⟩], .tensor ⟨.si64, ⟨[.static 2, .static 3]⟩⟩⟩,
      ⟨⟨3⟩, .shuffle [.axis 1, .axis 0], [.value ⟨2⟩],
        .tensor ⟨.si64, ⟨[.static 3, .static 2]⟩⟩⟩,
      ⟨⟨4⟩, .shuffle [.broadcast, .axis 1, .axis 0], [.value ⟨3⟩],
        .tensor ⟨.si64, ⟨[.static 1, .static 2, .static 3]⟩⟩⟩]
  outputs := [⟨4⟩]

/-- The calls that build `turnedTwice`. -/
def turnedTwiceCalls : List Builder.Call :=
  [.input (.tensor ⟨.si64, ⟨[.static 2, .static 3]⟩⟩), .node (.unary .neg) [.value ⟨0⟩],
    .node (.unary .neg) [.value ⟨1⟩], .node (.shuffle [.axis 1, .axis 0]) [.value ⟨2⟩],
    .node (.shuffle [.broadcast, .axis 1, .axis 0]) [.value ⟨3⟩]]

/-- One shuffle is left of it, which has the same result, and which refuses a row, too. -/
theorem turnedTwice_preserved
    : (Builder.afterCalls turnedTwiceCalls).finish "turned" [⟨4⟩] = .ok turnedTwice
      ∧ (sweep canonicalRules .fixedPoint .standard turnedTwice).graph.body.length = 1
      ∧ (Run.graph .reference (sweep canonicalRules .fixedPoint .standard turnedTwice).graph false
            [.tensor ⟨[2, 3], .si64 [1, 2, 3, 4, 5, 6]⟩]).outcome
          = .ok [.tensor ⟨[1, 2, 3], .si64 [1, 2, 3, 4, 5, 6]⟩]
      ∧ ∃ error,
          (Run.graph .reference (sweep canonicalRules .fixedPoint .standard turnedTwice).graph false
              [.tensor ⟨[3], .si64 [1, 2, 3]⟩]).outcome
            = .error error := by
  have built : (Builder.afterCalls turnedTwiceCalls).finish "turned" [⟨4⟩] = .ok turnedTwice := rfl
  have exact : turnedTwice.IsExact := by
    intro node member
    simp only [turnedTwice, List.mem_cons, List.not_mem_nil, or_false] at member
    rcases member with rfl | rfl | rfl | rfl <;>
      exact ⟨nofun, fun literal member => by simp at member⟩
  have live : ∀ node ∈ turnedTwice.body, turnedTwice.Live node.value := by
    have kept : ∀ node ∈ turnedTwice.body,
        node.value ∈ (Liveness.keepLive turnedTwice.outputs turnedTwice.body).2 := by decide
    exact fun node member => Graph.live_of_mem_keepLive (List.Subset.refl _) (kept node member)
  have copies : ∀ node ∈ turnedTwice.body, node.operation.isInplace = false := by decide
  have preserved (input : Tensor) (valid : input.Valid) (same : input.canonical = input) :=
    (@canonicalRules_preserve _ _ _ [.tensor input] (Builder.wellTyped_of_finish built) copies
      (fun _ => id) (List.forall_mem_singleton.mpr valid)
      (fun _ => ⟨exact, List.forall_mem_singleton.mpr (congrArg Value.tensor same)⟩) .fixedPoint
      .standard).2 .reference List.mem_cons_self
  refine ⟨built, by decide +kernel, ?_, ?_⟩
  · exact (preserved ⟨[2, 3], .si64 [1, 2, 3, 4, 5, 6]⟩ rfl rfl).1 _ (by rfl)
  · exact (preserved ⟨[3], .si64 [1, 2, 3]⟩ rfl rfl).2 live _ (by rfl)

end Catalog

-----------------------------------------------------------------------------------------
-- Folded shapes
-----------------------------------------------------------------------------------------

namespace Catalog

open Backend (reference)

variable {graph : Graph} {rules : RuleSet} {inputs : List Value}

/-- The rules for shapes and for largest elements keep what a graph that destroys nothing computes, in
either order and whatever their limit is, with or without dead nodes. They only fail on axes that
signed words cannot count. The results of the graph are the results of what they leave, also where
they fail; and if all nodes were live, then inputs that a node refuses are such on which that fails.
The inputs must have as many elements as their sizes say, and reductions of pairs must be those of
integers.
-/
theorem foldingRules_preserve (typed : graph.WellTyped narrow)
    (copies : ∀ node ∈ graph.body, node.operation.isInplace = false)
    (folding : ∀ rule ∈ rules, rule ∈ foldingRules)
    (integers : Rules.maxAndArgMaxToReduce ∈ rules → graph.SearchesIntegers)
    (valid : ∀ input ∈ inputs, input.Valid) (strategy : Strategy) (options : SweepOptions)
    : (narrow → (sweep rules strategy options graph).error = none)
      ∧ (∀ results,
          (Run.graph reference.bounded graph false inputs).outcome = .ok results
          → (Run.graph reference.bounded (sweep rules strategy options graph).graph false
                inputs).outcome
            = .ok results)
      ∧ ((∀ node ∈ graph.body, graph.Live node.value)
          → ∀ error, (Run.graph reference.bounded graph false inputs).outcome = .error error
          → (∀ breach, error ≠ .breach breach)
          → ∃ error',
              (Run.graph reference.bounded (sweep rules strategy options graph).graph false
                  inputs).outcome
                = .error error') := by
  obtain ⟨session, started, same, holds⟩ := Session.exists_start_of_wellTyped typed
  have start : session.Lowered narrow reference.bounded inputs graph := by
    refine ⟨_, holds, ?_⟩
    rw [same]
    exact .refl graph
  have keeps : ∀ rule ∈ rules, rule.Keeps (Session.Lowered narrow reference.bounded inputs graph)
      (¬narrow) := fun rule member =>
    Rules.keeps_lowered (folding rule member) fun here => integers (here ▸ member)
  obtain ⟨after, ⟨ids, left, lowered⟩, swept, failed⟩ :=
    sweep_leaves keeps dropsKeep_lowered started start strategy options
  have copies' : ∀ node ∈ after.graph.body, node.operation.isInplace = false := by
    intro node member
    rcases lowered.nodes node member with ⟨old, there, same, -⟩ | plain
    · exact same ▸ copies old there
    · exact plain.copies
  rw [swept]
  refine ⟨fun small => ?_, fun results done => ?_, fun live error refused regular => ?_⟩
  · by_contra some
    exact failed some small
  · exact (Run.graph_eq_ok_iff left.typed copies' valid).mpr
      (lowered.results results ((Run.graph_eq_ok_iff typed copies valid).mp done))
  · cases outcome : (Run.graph reference.bounded after.graph false inputs).outcome with
    | error error' => exact ⟨error', rfl⟩
    | ok results =>
        obtain ⟨accepted, i, solves⟩ := Run.exists_solves left.typed copies' outcome
        have accepted : graph.Accepts inputs := by
          rw [Graph.Accepts, ← lowered.inputTypes]
          exact accepted
        have stuck := Run.stuck_of_error typed copies live accepted refused regular
        exact absurd solves
          ((lowered.stuck (accepted.hasType valid) stuck).not_solves left.typed.ordered)

/-- A graph that takes the second row of a matrix, with a step that is given to it. -/
def steppedRow : Graph where
  name := "stepped"
  inputTypes := [.tensor ⟨.si64, ⟨[.static 2, .static 4]⟩⟩, .tensor (.scalar .si64)]
  inputs := [⟨0⟩, ⟨1⟩]
  outputTypes := [.tensor ⟨.si64, ⟨[.unknown]⟩⟩]
  body :=
    [⟨⟨2⟩,
        .subtensor [.slice ⟨some (.static 1), some (.static 2), none⟩,
          .slice ⟨none, none, some (.operand 1)⟩],
        [.value ⟨0⟩, .value ⟨1⟩], .tensor ⟨.si64, ⟨[.static 1, .unknown]⟩⟩⟩,
      ⟨⟨3⟩, .shuffle [.axis 1], [.value ⟨2⟩], .tensor ⟨.si64, ⟨[.unknown]⟩⟩⟩]
  outputs := [⟨3⟩]

/-- The calls that build `steppedRow`. -/
def steppedRowCalls : List Builder.Call :=
  [.input (.tensor ⟨.si64, ⟨[.static 2, .static 4]⟩⟩), .input (.tensor (.scalar .si64)),
    .node (.subtensor [.slice ⟨some (.static 1), some (.static 2), none⟩,
      .slice ⟨none, none, some (.operand 1)⟩]) [.value ⟨0⟩, .value ⟨1⟩],
    .node (.shuffle [.axis 1]) [.value ⟨2⟩]]

/-- The slice and the shuffle become one index, which takes the same elements and refuses a step of
zero, too.
-/
theorem steppedRow_preserved
    : (Builder.afterCalls steppedRowCalls).finish "stepped" [⟨3⟩] = .ok steppedRow
      ∧ (sweep foldingRules .outToIn .standard steppedRow).graph.body.length = 1
      ∧ (Run.graph reference.bounded (sweep foldingRules .outToIn .standard steppedRow).graph false
            [.tensor ⟨[2, 4], .si64 [1, 2, 3, 4, 5, 6, 7, 8]⟩, .tensor ⟨[], .si64 [2]⟩]).outcome
          = .ok [.tensor ⟨[2], .si64 [5, 7]⟩]
      ∧ ∃ error,
          (Run.graph reference.bounded (sweep foldingRules .outToIn .standard steppedRow).graph false
              [.tensor ⟨[2, 4], .si64 [1, 2, 3, 4, 5, 6, 7, 8]⟩,
                .tensor ⟨[], .si64 [0]⟩]).outcome
            = .error error := by
  have built : (Builder.afterCalls steppedRowCalls).finish "stepped" [⟨3⟩] = .ok steppedRow := rfl
  have copies : ∀ node ∈ steppedRow.body, node.operation.isInplace = false := by decide
  have live : ∀ node ∈ steppedRow.body, steppedRow.Live node.value := by
    have kept : ∀ node ∈ steppedRow.body,
        node.value ∈ (Liveness.keepLive steppedRow.outputs steppedRow.body).2 := by decide
    exact fun node member => Graph.live_of_mem_keepLive (List.Subset.refl _) (kept node member)
  have integers : steppedRow.SearchesIntegers := by
    intro node member axis largest places searches
    simp only [steppedRow, List.mem_cons, List.not_mem_nil, or_false] at member
    rcases member with rfl | rfl <;> cases searches
  have preserved (step : Int64) :=
    @foldingRules_preserve _ _ foldingRules
      [.tensor ⟨[2, 4], .si64 [1, 2, 3, 4, 5, 6, 7, 8]⟩, .tensor ⟨[], .si64 [step]⟩]
      (Builder.wellTyped_of_finish built) copies (fun _ => id) (fun _ => integers)
      (List.forall_mem_cons.mpr ⟨rfl, List.forall_mem_singleton.mpr rfl⟩) .outToIn .standard
  refine ⟨built, by decide +kernel, ?_, ?_⟩
  · exact (preserved 2).2.1 _ (by rfl)
  · exact (preserved 0).2.2 live
      (.execution (.located "stepped" 0 ⟨2⟩ "subtensor" (.kernel .zeroStep))) (by rfl) nofun

end Catalog

end Dataflow
