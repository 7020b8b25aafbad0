import Dataflow.Proofs.Rewrite.Answers
import Dataflow.Proofs.Rewrite.Declining
import Dataflow.Proofs.Rewrite.Rules.Inversion
import Dataflow.Proofs.Rewrite.Rules.Locality
import Dataflow.Proofs.Rewrite.Sweeps
import Dataflow.Proofs.Typing.Inference

/-!
Promoting list mutations. A graph with promoted mutations looks like the graph before to all other
rules, and a list that is private stays private. So one sweep promotes all mutations that can be
promoted.
-/

namespace Dataflow

-----------------------------------------------------------------------------------------
-- Promoted graphs
-----------------------------------------------------------------------------------------

/-- Some mutations of a graph were promoted. -/
structure Graph.Promoted (before after : Graph) : Prop where
  frame : after = { before with body := after.body }
  body : List.Forall₂ Node.Promoted before.body after.body

namespace Graph.Promoted

variable {before after : Graph}

theorem refl (graph : Graph) : graph.Promoted graph :=
  ⟨rfl, List.forall₂_same.mpr fun node _ => .same node⟩

/-- Promotions of a graph follow each other. -/
theorem trans {middle : Graph} (first : before.Promoted middle) (second : middle.Promoted after)
    : before.Promoted after := by
  refine ⟨second.frame.trans (by rw [first.frame]), List.forall₂_iff_get.mpr ⟨?_, ?_⟩⟩
  · exact first.body.length_eq.trans second.body.length_eq
  · intro place inside inside'
    have between : place < middle.body.length := first.body.length_eq ▸ inside
    exact (first.body.get inside between).trans (second.body.get between inside')

theorem inputs (promoted : before.Promoted after) : after.inputs = before.inputs := by
  rw [promoted.frame]

theorem inputTypes (promoted : before.Promoted after) : after.inputTypes = before.inputTypes := by
  rw [promoted.frame]

theorem outputs (promoted : before.Promoted after) : after.outputs = before.outputs := by
  rw [promoted.frame]

theorem at_position (promoted : before.Promoted after) (position : Nat)
    : Option.Rel Node.Promoted before.body[position]? after.body[position]? := by
  have lengths := promoted.body.length_eq
  by_cases inside : position < before.body.length
  · rw [List.getElem?_eq_getElem inside, List.getElem?_eq_getElem (lengths ▸ inside)]
    exact .some (promoted.body.get inside (lengths ▸ inside))
  · rw [List.getElem?_eq_none_iff.mpr (Nat.le_of_not_lt inside),
      List.getElem?_eq_none_iff.mpr (lengths ▸ Nat.le_of_not_lt inside)]
    exact .none

theorem node_at (promoted : before.Promoted after) {position : Nat} {node : Node}
    (found : before.body[position]? = some node)
    : ∃ other, after.body[position]? = some other ∧ node.Promoted other := by
  have related := promoted.at_position position
  rw [found] at related
  generalize after.body[position]? = there at related
  cases related with
  | some promoted => exact ⟨_, rfl, promoted⟩

theorem node_at_after (promoted : before.Promoted after) {position : Nat} {other : Node}
    (found : after.body[position]? = some other)
    : ∃ node, before.body[position]? = some node ∧ node.Promoted other := by
  have related := promoted.at_position position
  rw [found] at related
  generalize before.body[position]? = there at related
  cases related with
  | some promoted => exact ⟨_, rfl, promoted⟩

theorem tensor? (promoted : before.Promoted after) (value : ValueId)
    : (after.types.get? value).bind ValueType.tensor?
      = (before.types.get? value).bind ValueType.tensor? := by
  have related (front : Types) {body body' : List Node}
      (each : List.Forall₂ Node.Promoted body body')
      : (Table.get? value (front ++ body'.map Node.result)).bind ValueType.tensor?
        = (Table.get? value (front ++ body.map Node.result)).bind ValueType.tensor? := by
    induction front with
    | nil =>
        induction each with
        | nil => rfl
        | @cons node node' _ _ here _ ih =>
            rw [List.nil_append, List.nil_append] at ih
            simp only [List.nil_append, List.map_cons, Node.result, Table.get?, here.value]
            split_ifs
            · exact here.tensor?
            · exact ih
    | cons first rest ih =>
        simp only [List.cons_append, Table.get?]
        split_ifs
        · rfl
        · exact ih
  rw [types, types, promoted.inputs, promoted.inputTypes]
  exact related _ promoted.body

end Graph.Promoted

-----------------------------------------------------------------------------------------
-- Sessions of promoted graphs
-----------------------------------------------------------------------------------------

namespace Session

variable {session other : Session} {ids : List NodeId}

/-- A session answers like another one, up to promoted mutations. -/
structure Mirrors (session other : Session) : Prop where
  node? : ∀ id, Option.Rel Node.Promoted (session.node? id) (other.node? id)
  producer? : ∀ value, Option.Rel Node.Promoted (session.producer? value) (other.producer? value)
  tensor?
    : ∀ value,
        (other.index.type? value).bind ValueType.tensor?
        = (session.index.type? value).bind ValueType.tensor?
  distinctReaders
    : ∀ value, other.index.distinctReaders value = session.index.distinctReaders value
  isInput : ∀ value, other.index.isInput value = session.index.isInput value
  outputs : other.graph.outputs = session.graph.outputs

theorem mirrors_of_described (described : session.Described ids)
    (described' : other.Described ids) (promoted : session.graph.Promoted other.graph)
    : session.Mirrors other where
  node? id := by
    have placed : other.index.position? id = session.index.position? id :=
      Option.ext fun position => by
        rw [described.position?_eq_some_iff, described'.position?_eq_some_iff]
    rw [Session.node?, Session.node?, placed]
    cases session.index.position? id with
    | none => exact .none
    | some position => exact promoted.at_position position
  producer? value := by
    cases found : session.producer? value with
    | some node =>
        obtain ⟨position, here, same⟩ := (producer?_eq_some_iff described).mp found
        obtain ⟨node', here', related⟩ := promoted.node_at here
        rw [(producer?_eq_some_iff described').mpr ⟨position, here', related.value.trans same⟩]
        exact .some related
    | none =>
        cases found' : other.producer? value with
        | none => exact .none
        | some node' =>
            obtain ⟨position, here', same⟩ := (producer?_eq_some_iff described').mp found'
            obtain ⟨node, here, related⟩ := promoted.node_at_after here'
            have produced := (producer?_eq_some_iff described).mpr
              ⟨position, here, related.value.symm.trans same⟩
            cases found.symm.trans produced
  tensor? value := by
    rw [type?_eq_get? described, type?_eq_get? described']
    exact promoted.tensor? value
  distinctReaders value := by
    refine distinctReaders_eq fun reader => ?_
    rw [mem_readers_iff described, mem_readers_iff described']
    refine exists_congr fun place => ?_
    constructor
    · rintro ⟨node', listed, here', read⟩
      obtain ⟨node, here, related⟩ := promoted.node_at_after here'
      exact ⟨node, listed, here, related.reads ▸ read⟩
    · rintro ⟨node, listed, here, read⟩
      obtain ⟨node', here', related⟩ := promoted.node_at here
      exact ⟨node', listed, here', related.reads.symm ▸ read⟩
  isInput value := by
    rw [Bool.eq_iff_iff, isInput_iff described, isInput_iff described', promoted.inputs]
  outputs := promoted.outputs

namespace Mirrors

variable (mirrors : session.Mirrors other)

include mirrors

theorem alikeAt (id : NodeId) : AlikeAt (fun _ => True) session other id where
  closed _ _ _ _ := trivial
  producer? _ := mirrors.producer? _
  tensor? _ := mirrors.tensor? _
  node? := mirrors.node? id
  reads _ _ _ := trivial

theorem useCount (value : ValueId) : other.useCount value = session.useCount value := by
  rw [Session.useCount, Session.useCount, mirrors.distinctReaders, mirrors.outputs]

theorem isOutput (value : ValueId) : other.isOutput value = session.isOutput value := by
  rw [Session.isOutput, Session.isOutput, mirrors.outputs]

open Rules

theorem projections? (tuple : ValueId) (index : Nat)
    : Rules.projections? other tuple index = Rules.projections? session tuple index := by
  have each (id : NodeId) : projection? other index id = projection? session index id := by
    refine bind_eq_of_promoted (mirrors.node? id) (fun _ _ => rfl) fun node _ _ same => ?_
    constructor <;> simp [same, guard]
  rw [Rules.projections?, Rules.projections?, mirrors.isOutput, mirrors.distinctReaders,
    funext each]

theorem plan_reduceOfNegation (id : NodeId)
    : reduceOfNegation.plan other id = reduceOfNegation.plan session id := by
  refine bind_eq_of_promoted (mirrors.node? id) (fun outer found => ?_) fun node _ _ same => ?_
  · refine bind_congr fun reduction => bind_congr fun dual => bind_congr fun inner => ?_
    rw [mirrors.useCount, (mirrors.alikeAt id).negated? trivial]
  · constructor <;> simp [same, reduction?]

theorem plan_maxAndArgMaxToReduce (id : NodeId)
    : maxAndArgMaxToReduce.plan other id = maxAndArgMaxToReduce.plan session id := by
  refine bind_eq_of_promoted (mirrors.node? id) (fun node found => ?_) fun node _ _ same => ?_
  · rw [mirrors.projections?]
  · constructor <;> simp [same, maxAndArgMaxAxis?]

theorem plan_maxAndArgMaxToArgMax (id : NodeId)
    : maxAndArgMaxToArgMax.plan other id = maxAndArgMaxToArgMax.plan session id := by
  refine bind_eq_of_promoted (mirrors.node? id) (fun node found => ?_) fun node _ _ same => ?_
  · rw [mirrors.projections?]
  · constructor <;> simp [same, maxAndArgMaxAxis?]

/-- Rules that do not promote mutations have the same plans. -/
theorem plan_eq {rule : Rule} (stock : rule ∈ Catalog.canonicalRules ++ Catalog.loweringRules)
    (id : NodeId)
    : rule.plan other id = rule.plan session id := by
  have alike := mirrors.alikeAt id
  simp only [Catalog.canonicalRules, Catalog.loweringRules, List.cons_append, List.nil_append,
    List.mem_cons, List.not_mem_nil, or_false] at stock
  rcases stock with rfl | rfl | rfl | rfl | rfl | rfl | rfl | rfl | rfl | rfl | rfl | rfl
  · exact alike.plan_eliminateIdentityShuffle
  · exact alike.plan_collapseShuffleChain
  · exact alike.plan_eliminateDoubleNegation
  · exact mirrors.plan_maxAndArgMaxToReduce id
  · exact mirrors.plan_maxAndArgMaxToArgMax id
  · exact alike.plan_localMaxToMin
  · exact mirrors.plan_reduceOfNegation id
  · exact alike.plan_shuffleOfAlloc
  · exact alike.plan_allocOfShuffle
  · exact alike.plan_reshapeOfShuffle
  · exact alike.plan_shuffleOfReshape
  · exact alike.plan_shuffleOfSubtensor

theorem isPrivate (list : ValueId)
    : Rules.isPrivate other list = Rules.isPrivate session list := by
  have owned : (other.producer? list).any (fun node => ownsStorage node.operation)
      = (session.producer? list).any (fun node => ownsStorage node.operation) := by
    have related := mirrors.producer? list
    generalize session.producer? list = before at related ⊢
    generalize other.producer? list = after at related ⊢
    cases related with
    | none => rfl
    | some promoted =>
        cases promoted with
        | same => rfl
        | inplace copies => simp [ownsStorage, copies, Operation.storage]
  rw [Rules.isPrivate, Rules.isPrivate, mirrors.isInput, mirrors.isOutput, mirrors.useCount,
    owned]

end Mirrors

end Session

-----------------------------------------------------------------------------------------
-- Settled sessions
-----------------------------------------------------------------------------------------

theorem Rules.not_tracks_listMutation {rule : Rule}
    (stock : rule ∈ Catalog.canonicalRules ++ Catalog.loweringRules) (mutation : ListMutation)
    (inplace : Bool)
    : rule.tracks (.listMutation mutation inplace) = false := by
  simp only [Catalog.canonicalRules, Catalog.loweringRules, List.cons_append, List.nil_append,
    List.mem_cons, List.not_mem_nil, or_false] at stock
  rcases stock with rfl | rfl | rfl | rfl | rfl | rfl | rfl | rfl | rfl | rfl | rfl | rfl <;> rfl

variable {session other : Session} {ids : List NodeId} {rules : RuleSet}

/-- Where no other rule applies, none applies behind promotions. -/
theorem RuleSet.Settled.mirror (settled : rules.Settled session)
    (stock : ∀ rule ∈ rules, rule ∈ Catalog.canonicalRules ++ Catalog.loweringRules)
    (described : session.Described ids) (described' : other.Described ids)
    (promoted : session.graph.Promoted other.graph)
    : rules.Settled other := by
  have mirrors := Session.mirrors_of_described described described' promoted
  intro id member node' found' rule listed tracked
  rw [mirrors.plan_eq (stock rule listed)]
  have related := mirrors.node? id
  rw [found'] at related
  cases found : session.node? id with
  | none =>
      rw [found] at related
      cases related
  | some node =>
      rw [found] at related
      cases related with
      | some promoted =>
          cases promoted with
          | same =>
              rw [described'.ordered_eq, ← described.ordered_eq] at member
              exact settled id member _ found rule listed tracked
          | inplace =>
              rw [Rules.not_tracks_listMutation (stock rule listed)] at tracked
              cases tracked

theorem Session.Lively.mirror (lively : session.Lively) (described : session.Described ids)
    (described' : other.Described ids) (promoted : session.graph.Promoted other.graph)
    : other.Lively := by
  have mirrors := Session.mirrors_of_described described described' promoted
  intro id member node' found'
  have related := mirrors.node? id
  rw [found'] at related
  cases found : session.node? id with
  | none =>
      rw [found] at related
      cases related
  | some node =>
      rw [found] at related
      cases related with
      | some related =>
          rw [described'.ordered_eq, ← described.ordered_eq] at member
          have used := lively id member node found
          rw [Bool.or_eq_true, Bool.not_eq_true', Bool.eq_false_iff, ne_eq, List.isEmpty_iff,
            Session.readers_eq_nil_iff described] at used
          rw [Bool.or_eq_true, Bool.not_eq_true', Bool.eq_false_iff, ne_eq, List.isEmpty_iff,
            Session.readers_eq_nil_iff described', related.value, mirrors.isOutput]
          refine used.imp_right fun readers none => readers fun reader listed read => ?_
          obtain ⟨place, here⟩ := List.mem_iff_getElem?.mp listed
          obtain ⟨reader', here', kept⟩ := promoted.node_at here
          exact none reader' (List.mem_of_getElem? here') (kept.reads.symm ▸ read)

-----------------------------------------------------------------------------------------
-- Promoting
-----------------------------------------------------------------------------------------

open Session

/-- A promotion succeeds: a private list is mutated in place. -/
theorem Rules.promoted_of_plan (described : session.Described ids) {id : NodeId}
    {plan : Rewriting Unit} (planned : promoteListMutation.plan session id = some plan)
    : (∃ error, plan session = .error error session)
      ∨ ∃ after,
          plan session = .ok () after
          ∧ after.Described ids
          ∧ session.graph.Promoted after.graph
          ∧ RuleSet.Declines [promoteListMutation] after id := by
  obtain ⟨node, mutation, list, found, copies, -, -, rfl⟩ := plan_promoteListMutation.mp planned
  rcases setOperation_cases described id (.listMutation mutation true) with
    ⟨error, failed⟩ | ⟨position, other, types, type, listed, here, -, inferred, compatible, done⟩
  · exact .inl ⟨.graph error, Rewriting.lift_of_error failed⟩
  have same : other = node := by
    rw [(node?_of_listed described listed here).2] at found
    exact Option.some.inj found
  subst same
  obtain ⟨element, rfl⟩ :=
    Typing.exists_list_of_listMutation (Operation.resultType_eq_ok_iff.mp inferred)
  have isList : other.type.tensor? = none := by
    cases type : other.type with
    | list => rfl
    | tensor => simp [type, ValueType.compatibleWith] at compatible
    | tuple => simp [type, ValueType.compatibleWith] at compatible
  have described' := (described.retype here (.listMutation mutation true) (.list element)).bump id
  refine .inr ⟨⟨_, _⟩, Rewriting.lift_of_ok done, described', ⟨rfl, ?_⟩, ?_⟩
  · refine List.forall₂_iff_get.mpr ⟨(List.length_modify ..).symm, fun place inside inside' => ?_⟩
    rw [List.get_eq_getElem, List.get_eq_getElem, List.getElem_modify]
    split_ifs with hit
    · subst hit
      rw [show session.graph.body[position] = other from
        (List.getElem?_eq_some_iff.mp here).2]
      exact .inplace copies isList rfl
    · exact .same _
  · intro changed found' rule member tracked
    obtain rfl := List.mem_singleton.mp member
    have there := List.getElem?_modify (fun node : Node =>
      { node with operation := .listMutation mutation true, type := .list element }) position
      session.graph.body position
    rw [here, Option.map_eq_map, Option.map_some, if_pos rfl] at there
    have there := (@node?_of_listed ⟨_, _⟩ ids described' position id _ listed there).2
    obtain rfl := Option.some.inj (there.symm.trans found')
    cases tracked

/-- A node that is not promoted stays so behind other promotions. -/
theorem Rules.declines_mirror {id : NodeId}
    (declines : RuleSet.Declines [promoteListMutation] session id)
    (mirrors : session.Mirrors other)
    : RuleSet.Declines [promoteListMutation] other id := by
  intro node' found' rule member tracked
  obtain rfl := List.mem_singleton.mp member
  have related := mirrors.node? id
  rw [found'] at related
  cases found : session.node? id with
  | none =>
      rw [found] at related
      cases related
  | some node =>
      rw [found] at related
      cases related with
      | some promoted =>
          cases promoted with
          | inplace => cases tracked
          | same =>
              have declined := declines _ found _ member tracked
              refine Option.eq_none_iff_forall_ne_some.mpr fun plan planned => ?_
              obtain ⟨_, mutation, list, again, copies, reads, listPrivate, -⟩ :=
                plan_promoteListMutation.mp planned
              obtain rfl := Option.some.inj (found'.symm.trans again)
              rw [mirrors.isPrivate] at listPrivate
              cases declined.symm.trans (plan_promoteListMutation.mpr
                ⟨_, mutation, list, found, copies, reads, listPrivate, rfl⟩)

/-- A sweep over all nodes that is not cut short leaves no mutation that could be promoted, by
induction on the nodes.
-/
theorem Rules.settled_of_promotions (described : session.Described ids) {budget : Nat}
    {nodes : List NodeId} {done : List Rewrite}
    (fine : (offerEach [promoteListMutation] budget session nodes done).error = none)
    (whole : (offerEach [promoteListMutation] budget session nodes done).capped = false)
    : ∃ after,
        (offerEach [promoteListMutation] budget session nodes done).session = after
        ∧ after.Described ids
        ∧ session.graph.Promoted after.graph
        ∧ ∀ id ∈ nodes, RuleSet.Declines [promoteListMutation] after id := by
  induction nodes generalizing session budget done with
  | nil =>
      refine ⟨session, by cases budget <;> rfl, described, .refl _, ?_⟩
      exact fun id member => absurd member List.not_mem_nil
  | cons first rest ih =>
      cases budget with
      | zero => cases whole
      | succ budget =>
          have declines := (offer_eq_declined_iff [promoteListMutation] (versioned described)
            Refusals.honest_nil first).1
          rw [offerEach] at fine whole ⊢
          cases offered : (offer [promoteListMutation] session [] first).2 with
          | failed error next =>
              rw [offered] at fine
              cases fine
          | declined =>
              rw [offered] at fine whole
              obtain ⟨after, same, described', promoted, others⟩ := ih described fine whole
              refine ⟨after, same, described', promoted, List.forall_mem_cons.mpr ⟨?_, others⟩⟩
              exact declines_mirror (declines.mp offered)
                (mirrors_of_described described described' promoted)
          | rewrote rewrite next =>
              rw [offered] at fine whole
              obtain ⟨rule, plan, member, planned, done⟩ := exists_plan_of_offer offered
              obtain rfl := List.mem_singleton.mp member
              rcases promoted_of_plan described planned with
                ⟨error, failed⟩ | ⟨_, reached, nextDescribed, nextPromoted, nextDeclines⟩
              · cases done.symm.trans failed
              · obtain rfl := (EStateM.Result.ok.inj (done.symm.trans reached)).2
                obtain ⟨after, same, described', promoted, others⟩ := ih nextDescribed fine whole
                refine ⟨after, same, described', nextPromoted.trans promoted,
                  List.forall_mem_cons.mpr ⟨?_, others⟩⟩
                exact declines_mirror nextDeclines
                  (mirrors_of_described nextDescribed described' promoted)

end Dataflow
