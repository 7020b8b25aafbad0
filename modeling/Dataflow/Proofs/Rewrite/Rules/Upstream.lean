import Dataflow.Proofs.Rewrite.FixedPoint
import Dataflow.Proofs.Rewrite.Rules.Advances
import Dataflow.Proofs.Rewrite.Rules.Locality

/-!
Rules that only look at what a node is computed from. What stands in front of a node does not change
when the node is rewritten, so such rules decline there as before, and sets of them are steady.
-/

namespace Dataflow

-----------------------------------------------------------------------------------------
-- Rules
-----------------------------------------------------------------------------------------

namespace Rules

/-- The rules of the library that do not look at readers. -/
def upstream : List Rule :=
  [eliminateIdentityShuffle, collapseShuffleChain, eliminateDoubleNegation, localMaxToMin,
    shuffleOfAlloc, allocOfShuffle, reshapeOfShuffle, shuffleOfReshape, shuffleOfSubtensor]

variable {rule : Rule} {session other : Session} {id name : NodeId}

theorem stock_of_upstream (member : rule ∈ upstream)
    : rule ∈ Catalog.canonicalRules ++ Catalog.loweringRules ++ [promoteListMutation] := by
  simp only [upstream, List.mem_cons, List.not_mem_nil, or_false] at member
  simp only [Catalog.canonicalRules, Catalog.loweringRules, List.cons_append, List.nil_append,
    List.mem_cons, List.not_mem_nil, or_false]
  tauto

theorem plan_eq_of_alikeAt {within : ValueId → Prop} (alike : session.AlikeAt within other id)
    (member : rule ∈ upstream)
    : rule.plan other id = rule.plan session id := by
  simp only [upstream, List.mem_cons, List.not_mem_nil, or_false] at member
  rcases member with rfl | rfl | rfl | rfl | rfl | rfl | rfl | rfl | rfl
  · exact alike.plan_eliminateIdentityShuffle
  · exact alike.plan_collapseShuffleChain
  · exact alike.plan_eliminateDoubleNegation
  · exact alike.plan_localMaxToMin
  · exact alike.plan_shuffleOfAlloc
  · exact alike.plan_allocOfShuffle
  · exact alike.plan_reshapeOfShuffle
  · exact alike.plan_shuffleOfReshape
  · exact alike.plan_shuffleOfSubtensor

theorem isSome_bind_congr {α β : Type} {found : Option α} {next next' : α → Option β}
    (same : ∀ a, (next' a).isSome = (next a).isSome)
    : (found >>= next').isSome = (found >>= next).isSome := by
  cases found with
  | none => rfl
  | some a => exact same a

theorem isSome_some_eq {α : Type} (first second : α) : (some first).isSome = (some second).isSome :=
  rfl

/-- Nodes of two sessions that only differ in the names of nodes. -/
structure SameAt (session other : Session) (id name : NodeId) : Prop where
  node? : other.node? name = session.node? id
  producer? : other.producer? = session.producer?
  type? : other.index.type? = session.index.type?

namespace SameAt

variable (same : SameAt session other id name)

include same

theorem rank? : other.rank? = session.rank? := by
  funext value
  rw [Session.rank?, same.type?, Session.rank?]

theorem operandType? : other.operandType? = session.operandType? := by
  funext operand
  cases operand with
  | literal content => rfl
  | value value => exact congrFun same.type? value

theorem negated? : Rules.negated? other = Rules.negated? session := by
  funext value
  simp only [Rules.negated?, same.producer?]

/-- A rule applies whatever the names are. -/
theorem isSome_plan (member : rule ∈ upstream)
    : (rule.plan other name).isSome = (rule.plan session id).isSome := by
  simp only [upstream, List.mem_cons, List.not_mem_nil, or_false] at member
  rcases member with rfl | rfl | rfl | rfl | rfl | rfl | rfl | rfl | rfl
  all_goals
    simp only [eliminateIdentityShuffle, collapseShuffleChain, eliminateDoubleNegation,
      localMaxToMin, shuffleOfAlloc, allocOfShuffle, reshapeOfShuffle, shuffleOfReshape,
      shuffleOfSubtensor, same.node?, same.producer?, same.rank?, same.operandType?, same.negated?]
    repeat refine isSome_bind_congr fun _ => ?_
  · exact isSome_some_eq _ _
  · split <;> exact isSome_some_eq _ _
  · exact isSome_some_eq _ _
  · exact isSome_some_eq _ _
  · exact isSome_some_eq _ _
  · exact isSome_some_eq _ _
  · exact isSome_some_eq _ _
  · split <;> exact isSome_some_eq _ _
  · exact isSome_some_eq _ _

end SameAt

end Rules

-----------------------------------------------------------------------------------------
-- Rewrites
-----------------------------------------------------------------------------------------

namespace Session.Advances

variable {narrow : Prop} {session after : Session} {ids names : List NodeId} {position : Nat}
  {id : NodeId} {value : ValueId}
  (advances : session.Advances narrow position ids after names)
  (start : session.Holds narrow ids)

include advances start

theorem definedBefore_eq
    : after.graph.definedBefore position = session.graph.definedBefore position := by
  rw [← start.typed.keys_typesBefore, ← advances.holds.typed.keys_typesBefore,
    advances.typesBefore]

theorem producer?_eq (before : value ∈ session.graph.definedBefore position)
    : after.producer? value = session.producer? value := by
  refine Option.ext fun node => ?_
  rw [producer?_eq_some_iff start.described, producer?_eq_some_iff advances.holds.described]
  refine exists_congr fun place => and_congr_left fun same => ?_
  subst same
  constructor
  · intro found
    have front := advances.holds.typed.ordered.position_lt found
      (advances.definedBefore_eq start ▸ before)
    rwa [advances.body_eq front] at found
  · intro found
    rwa [advances.body_eq (start.typed.ordered.position_lt found before)]

theorem type?_eq (before : value ∈ session.graph.definedBefore position)
    : after.index.type? value = session.index.type? value := by
  rw [← start.typed.keys_typesBefore] at before
  obtain ⟨⟨_, type⟩, declared, rfl⟩ := List.mem_map.mp before
  rw [type?_of_mem start.described (Graph.typesBefore_subset _ _ declared)]
  rw [← advances.typesBefore] at declared
  exact type?_of_mem advances.holds.described (Graph.typesBefore_subset _ _ declared)

/-- Behind edits at a place, everything looks the same from in front of it. -/
theorem alikeAt (member : id ∈ ids.take position)
    : session.AlikeAt (· ∈ session.graph.definedBefore position) after id where
  closed {value node} before produced read listed := by
    have reads := readsOf_subset start.described start.typed.ordered before
    rw [readsOf, produced] at reads
    exact reads listed
  producer? before := by
    rw [advances.producer?_eq start before]
    cases session.producer? _ with
    | none => exact .none
    | some node => exact .some (.same node)
  tensor? before := by rw [advances.type?_eq start before]
  node? := by
    rw [advances.node?_eq start member]
    cases session.node? id with
    | none => exact .none
    | some node => exact .some (.same node)
  reads {node} known read listed := by
    obtain ⟨place, there⟩ := List.mem_iff_getElem?.mp member
    obtain ⟨place', -, there', found⟩ := listed_of_node? start.described known
    have before : place < position := by
      have inside := (List.getElem?_eq_some_iff.mp there).1
      rw [List.length_take] at inside
      omega
    rw [List.getElem?_take_of_lt before] at there
    obtain rfl := (List.getElem?_inj (List.getElem?_eq_some_iff.mp there).1
      start.described.idsDistinct).mp (there.trans there'.symm)
    exact Graph.definedBefore_mono before.le (start.typed.ordered.reads found read listed)

end Session.Advances

theorem Rules.steady_of_upstream {narrow : Prop} {rules : RuleSet}
    (looks : ∀ rule ∈ rules, rule ∈ upstream)
    : rules.Steady narrow := by
  intro rule member session after ids id plan holds planned made
  obtain ⟨position, listed, left⟩ :=
    advances_of_stock (stock_of_upstream (looks rule member)) holds planned
  rw [made] at left
  obtain ⟨names, advances⟩ := left
  refine ⟨position, names, listed, advances, fun other there name front declined => ?_⟩
  rw [plan_eq_of_alikeAt (advances.alikeAt holds front) (looks other there), declined]

-----------------------------------------------------------------------------------------
-- Fixed points
-----------------------------------------------------------------------------------------

namespace Session

variable {session other : Session} {ids names : List NodeId} {position : Nat} {id name : NodeId}

/-- Two sessions of one graph answer the same, up to the names of nodes. -/
theorem sameAt_of_described (described : session.Described ids) (described' : other.Described names)
    (same : other.graph = session.graph) (listed : ids[position]? = some id)
    (listed' : names[position]? = some name)
    : Rules.SameAt session other id name where
  node? := by
    rw [node?, node?, described.position?_eq_some_iff.mpr listed,
      described'.position?_eq_some_iff.mpr listed', same]
  producer? := by
    funext value
    refine Option.ext fun node => ?_
    rw [producer?_eq_some_iff described, producer?_eq_some_iff described', same]
  type? := by
    funext value
    rw [type?_eq_get? described, type?_eq_get? described', same]

end Session

namespace Rules

variable {narrow : Prop} {rules : RuleSet} {session other : Session} {ids names : List NodeId}
  {graph : Graph}

theorem settled_of_described (looks : ∀ rule ∈ rules, rule ∈ upstream)
    (settled : rules.Settled session) (described : session.Described ids)
    (described' : other.Described names) (same : other.graph = session.graph)
    : rules.Settled other := by
  intro name member node known rule there tracked
  rw [described'.ordered_eq] at member
  obtain ⟨position, listed'⟩ := List.mem_iff_getElem?.mp member
  have inside : position < ids.length := by
    rw [described.length, ← same, ← described'.length]
    exact (List.getElem?_eq_some_iff.mp listed').1
  have listed := List.getElem?_eq_getElem inside
  have sameAt := Session.sameAt_of_described described described' same listed listed'
  have member : ids[position] ∈ session.index.ordered :=
    described.ordered_eq ▸ List.getElem_mem inside
  rw [sameAt.node?] at known
  have applies := sameAt.isSome_plan (looks rule there)
  rw [settled _ member node known rule there tracked] at applies
  exact Option.isNone_iff_eq_none.mp (Option.isSome_eq_false_iff.mp applies)

/-- A sweep that goes on until no rule applies, and is neither cut short nor fails, leaves a graph to
whose nodes no rule applies, if the rules do not look at readers.
-/
theorem settled_of_fixedPoint (looks : ∀ rule ∈ rules, rule ∈ upstream)
    (typed : graph.WellTyped narrow) {limit : Nat}
    (fine : (sweep rules .fixedPoint ⟨limit, false⟩ graph).error = none)
    (whole : (sweep rules .fixedPoint ⟨limit, false⟩ graph).capped = false)
    : ∃ fresh,
        Session.start (sweep rules .fixedPoint ⟨limit, false⟩ graph).graph = .ok fresh
        ∧ rules.Settled fresh := by
  obtain ⟨session, started, same, holds⟩ := Session.exists_start_of_wellTyped typed
  have reached
      : ∃ after names,
          (sweep rules .fixedPoint ⟨limit, false⟩ graph).graph = after.graph
          ∧ after.Holds narrow names
          ∧ rules.Settled after := by
    rw [sweep, started] at fine whole ⊢
    dsimp only at fine whole ⊢
    rw [Progress.finish_of_kept] at fine whole ⊢
    dsimp only at fine whole ⊢
    rw [applyRules.eq_def] at fine whole ⊢
    split_ifs at fine whole ⊢ with empty
    · refine ⟨session, _, rfl, holds, fun _ _ _ _ rule member => ?_⟩
      rw [List.isEmpty_iff.mp empty] at member
      exact absurd member List.not_mem_nil
    · have unsure : Refusals.Sure [] rules session [] := by
        rintro slot id version ⟨⟩
      obtain ⟨after, names, rfl, left, settled⟩ := @toFixedPoint_settles narrow rules session _ []
        (steady_of_upstream looks) limit 0 [] holds unsure (List.forall_mem_nil _) fine whole
      exact ⟨_, names, rfl, left, settled⟩
  obtain ⟨after, names, swept, left, settled⟩ := reached
  obtain ⟨fresh, begun, again, described⟩ := EditStep.exists_start left.described
  exact ⟨fresh, swept ▸ begun, settled_of_described looks settled left.described described again⟩

/-- The calls that build a graph in which a number is negated four times. -/
def negationCalls : List Builder.Call :=
  .input (.tensor ⟨.f64, ⟨[]⟩⟩)
    :: (List.range 4).map fun number => .node (.unary .neg) [.value ⟨number⟩]

/-- A graph in which a number is negated four times. -/
def negations : Graph where
  name := "negations"
  inputTypes := [.tensor ⟨.f64, ⟨[]⟩⟩]
  inputs := [⟨0⟩]
  outputTypes := [.tensor ⟨.f64, ⟨[]⟩⟩]
  body := (List.range 4).map fun number =>
    ⟨⟨number + 1⟩, .unary .neg, [.value ⟨number⟩], .tensor ⟨.f64, ⟨[]⟩⟩⟩
  outputs := [⟨4⟩]

theorem negations_settle
    : (Builder.afterCalls negationCalls).finish "negations" [⟨4⟩] = .ok negations
      ∧ (sweep [eliminateDoubleNegation] .fixedPoint ⟨10000, false⟩ negations).rewrites.length = 2
      ∧ (sweep [eliminateDoubleNegation] .fixedPoint ⟨10000, false⟩ negations).error = none
      ∧ (sweep [eliminateDoubleNegation] .fixedPoint ⟨10000, false⟩ negations).capped = false
      ∧ ∃ fresh,
          Session.start
              (sweep [eliminateDoubleNegation] .fixedPoint ⟨10000, false⟩ negations).graph
            = .ok fresh
          ∧ RuleSet.Settled [eliminateDoubleNegation] fresh := by
  have built : (Builder.afterCalls negationCalls).finish "negations" [⟨4⟩] = .ok negations := rfl
  have fine
      : (sweep [eliminateDoubleNegation] .fixedPoint ⟨10000, false⟩ negations).error = none := by
    decide +kernel
  have whole
      : (sweep [eliminateDoubleNegation] .fixedPoint ⟨10000, false⟩ negations).capped = false := by
    decide +kernel
  exact ⟨built, by decide +kernel, fine, whole,
    settled_of_fixedPoint (by simp [upstream]) (Builder.wellTyped_of_finish built) fine whole⟩

/-- A graph that reduces a negated number, which is negated again elsewhere. -/
def sharedNegation : Graph where
  name := "shared"
  inputTypes := [.tensor ⟨.f64, ⟨[.static 3]⟩⟩]
  inputs := [⟨0⟩]
  outputTypes := [.tensor ⟨.f64, ⟨[]⟩⟩, .tensor ⟨.f64, ⟨[.static 3]⟩⟩]
  body :=
    [⟨⟨1⟩, .unary .neg, [.value ⟨0⟩], .tensor ⟨.f64, ⟨[.static 3]⟩⟩⟩,
      ⟨⟨2⟩, .reduce ⟨.max, [0], false⟩, [.value ⟨1⟩], .tensor ⟨.f64, ⟨[]⟩⟩⟩,
      ⟨⟨3⟩, .unary .neg, [.value ⟨1⟩], .tensor ⟨.f64, ⟨[.static 3]⟩⟩⟩]
  outputs := [⟨2⟩, ⟨3⟩]

/-- A rule that looks at readers may apply behind a sweep: its refusal is not forgotten when a reader
goes away.
-/
example
    : let rules : RuleSet := [reduceOfNegation, eliminateDoubleNegation]
      let once := sweep rules .fixedPoint ⟨10000, false⟩ sharedNegation
      once.error = none ∧ once.capped = false ∧ once.rewrites.length = 1
      ∧ (sweep rules .fixedPoint ⟨10000, false⟩ once.graph).rewrites.length = 1 := by
  decide +kernel

end Rules

end Dataflow
