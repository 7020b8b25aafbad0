import Dataflow.Proofs.Pass.Quiet
import Dataflow.Proofs.Rewrite.Acyclic
import Dataflow.Proofs.Rewrite.Rules.Canonical
import Dataflow.Proofs.Rewrite.Rules.Upstream
import Mathlib.Algebra.BigOperators.Group.List.Basic
import Mathlib.Data.Prod.Lex

/-!
Normal forms. Each rewrite of a canonical rule removes a node, or it lets a node read a value that is
defined earlier than the one it read before. So the canonical rules come to an end on every well-typed
graph if they are given enough rewrites, and then the graph has no negations or shuffles in a row and
no shuffle that does nothing.
-/

namespace Dataflow

section Descent

-----------------------------------------------------------------------------------------
-- Weights
-----------------------------------------------------------------------------------------

namespace Graph

variable {graph : Graph} {position : Nat} {node new : Node} {value : ValueId}

/-- How high the values are that a node reads. -/
def readHeight (graph : Graph) (node : Node) : Nat := (node.reads.map graph.height).sum

/-- The number of nodes, and then how high the values are that they read. -/
def weight (graph : Graph) : Nat ×ₗ Nat :=
  toLex (graph.body.length, (graph.body.map graph.readHeight).sum)

theorem weight_lt_iff {after : Graph}
    : after.weight < graph.weight
      ↔ after.body.length < graph.body.length
        ∨ after.body.length = graph.body.length
          ∧ (after.body.map after.readHeight).sum < (graph.body.map graph.readHeight).sum :=
  Prod.Lex.toLex_lt_toLex

theorem body_substituted (found : graph.body[position]? = some node) (new : Node)
    : (graph.substituted position node.value new).body
      = (graph.body.set position new).map (Session.redirectNode node.value new.value) := by
  have inside := (List.getElem?_eq_some_iff.mp found).1
  have body : (graph.body.insertIdx position new).eraseIdx (position + 1)
      = graph.body.set position new := by
    refine List.ext_getElem? fun place => ?_
    rw [List.getElem?_eraseIdx, List.getElem?_set]
    rcases Nat.lt_trichotomy place position with front | rfl | behind
    · rw [if_pos (by omega), List.getElem?_insertIdx_of_lt front, if_neg (by omega)]
    · rw [if_pos (by omega), List.getElem?_insertIdx_self, if_pos inside.le, if_pos rfl,
        if_pos inside]
    · rw [if_neg (by omega), List.getElem?_insertIdx_of_gt (by omega), if_neg (by omega)]
      rfl
  rw [substituted, replaced, inserted]
  dsimp only
  rw [body]

/-- All values keep their heights, and the new one has that of the old one. -/
theorem height_substituted (ordered : graph.Ordered) (found : graph.body[position]? = some node)
    (distinct : (graph.substituted position node.value new).defined.Nodup)
    (known : value ∈ graph.defined)
    : (graph.substituted position node.value new).height
        (if value = node.value then new.value else value)
      = graph.height value := by
  have body := body_substituted found new
  have inside := (List.getElem?_eq_some_iff.mp found).1
  rcases Index.Places.defined_cases known with ⟨place, input⟩ | ⟨place, other, there, rfl⟩
  · have input := List.mem_of_getElem? input
    have differs := input_ne_value ordered.distinct input (List.mem_of_getElem? found)
    rw [if_neg differs.symm, height_of_input ordered.distinct input, height_of_input distinct input]
  · rw [height_of_getElem? ordered.distinct there]
    by_cases here : place = position
    · subst here
      obtain rfl := Option.some.inj (there.symm.trans found)
      have stands : (graph.substituted place other.value new).body[place]?
          = some (Session.redirectNode other.value new.value new) := by
        rw [body, List.getElem?_map, List.getElem?_set_self inside]
        rfl
      have height := height_of_getElem? distinct stands
      rw [if_pos rfl]
      exact height
    · have stands : (graph.substituted position node.value new).body[place]?
          = some (Session.redirectNode node.value new.value other) := by
        rw [body, List.getElem?_map, List.getElem?_set_ne (Ne.symm here), there]
        rfl
      have height := height_of_getElem? distinct stands
      rw [if_neg fun same => here (position_unique ordered.distinct there found same)]
      exact height

/-- A graph gets lighter if a new node reads lower values than the one whose place it takes. -/
theorem weight_substituted (ordered : graph.Ordered) (found : graph.body[position]? = some node)
    (distinct : (graph.substituted position node.value new).defined.Nodup)
    (known : ∀ value ∈ new.reads, value ∈ graph.defined)
    (lower : graph.readHeight new < graph.readHeight node)
    : (graph.substituted position node.value new).weight < graph.weight := by
  have inside := (List.getElem?_eq_some_iff.mp found).1
  have body := body_substituted found new
  have reads : ∀ other ∈ graph.body.set position new, ∀ value ∈ other.reads, value ∈ graph.defined := by
    intro other member value read
    rcases List.mem_or_eq_of_mem_set member with old | rfl
    · obtain ⟨place, there⟩ := List.mem_iff_getElem?.mp old
      exact mem_defined_of_before (ordered.reads there value read)
    · exact known value read
  have heights
      : (graph.substituted position node.value new).body.map
            (graph.substituted position node.value new).readHeight
        = (graph.body.map graph.readHeight).set position (graph.readHeight new) := by
    rw [body, List.map_map, ← List.map_set]
    refine List.map_congr_left fun other member => ?_
    rw [Function.comp_apply, readHeight, Session.reads_redirectNode, List.map_map, readHeight]
    refine congrArg List.sum (List.map_congr_left fun value read => ?_)
    exact height_substituted ordered found distinct (reads other member value read)
  have stood : (graph.body.map graph.readHeight).set position (graph.readHeight node)
      = graph.body.map graph.readHeight := by
    obtain ⟨_, rfl⟩ := List.getElem?_eq_some_iff.mp found
    rw [← List.map_set, List.set_getElem_self]
  refine weight_lt_iff.mpr (.inr ⟨by rw [body, List.length_map, List.length_set], ?_⟩)
  have within : position < (graph.body.map graph.readHeight).length := by rwa [List.length_map]
  rw [heights, ← stood, List.set_set, List.sum_set, List.sum_set, if_pos within, if_pos within]
  omega

end Graph

-----------------------------------------------------------------------------------------
-- Rewrites
-----------------------------------------------------------------------------------------

variable {narrow : Prop} {session : Session} {ids : List NodeId} {position : Nat} {id : NodeId}
  {plan : Rewriting Unit}

/-- The session behind a step that succeeds describes a lighter graph. -/
def Session.Descends (narrow : Prop) (session : Session)
    (result : EStateM.Result RuleError Session Unit) : Prop :=
  ∃ after names,
    result = .ok () after ∧ after.Holds narrow names ∧ after.graph.weight < session.graph.weight

namespace Session.Holds

variable {node : Node} {base : ValueId} (holds : session.Holds narrow ids)
  (listed : ids[position]? = some id) (found : session.graph.body[position]? = some node)

include holds listed found

/-- A node that is replaced goes away. -/
theorem descends_replaceNode {new : ValueId}
    (declared : (new, node.type) ∈ session.graph.typesBefore position)
    : session.Descends narrow
        ((liftM (Session.replaceNode id node.value new) : Rewriting Unit) session) := by
  obtain ⟨after, done, changed, advances⟩ := holds.replaceNode listed found declared
  refine ⟨after, _, Rewriting.lift_of_ok done, advances.holds, Graph.weight_lt_iff.mpr (.inl ?_)⟩
  have inside := (List.getElem?_eq_some_iff.mp found).1
  rw [changed, List.length_map, List.length_eraseIdx_of_lt inside]
  omega

/-- A new node reads a value that stands in front of the one that the old node read. -/
theorem descends_substitute {middle : ValueId} {operation : Operation}
    (operands : node.operands = [.value middle])
    (lower : session.graph.height base < session.graph.height middle)
    (follows
      : operation.Follows narrow (session.graph.typesBefore position) [.value base] node.type)
    : session.Descends narrow
        ((liftM (Session.substitute id node.value operation [.value base]) : Rewriting Unit)
          session) := by
  obtain ⟨after, names, done, substituted, advances⟩ := holds.substituted listed found follows
  refine ⟨after, _, Rewriting.lift_of_ok done, advances.holds, ?_⟩
  have distinct := advances.holds.typed.distinct
  rw [substituted] at distinct ⊢
  refine Graph.weight_substituted holds.typed.ordered found distinct (fun value read => ?_) ?_
  · obtain ⟨types, declared, -⟩ := follows
    obtain ⟨type, -, here⟩ := exists_declared_of_read declared read
    rw [← Graph.keys_types holds.described.inputsTyped]
    exact List.mem_map_of_mem (Graph.typesBefore_subset _ _ here)
  · simpa [Graph.readHeight, Node.reads, operands, Operand.value?] using lower

end Session.Holds

namespace Rules

open Session

variable (holds : session.Holds narrow ids)

include holds

theorem descends_eliminateDoubleNegation
    (planned : eliminateDoubleNegation.plan session id = some plan)
    : session.Descends narrow (plan session) := by
  obtain ⟨outer, middle, base, known, negation, reads, negates, rfl⟩ :=
    plan_eliminateDoubleNegation.mp planned
  obtain ⟨position, -, listed, found⟩ := listed_of_node? holds.described known
  exact holds.descends_replaceNode listed found
    (declared_of_doubleNegation holds found negation reads negates)

theorem descends_eliminateIdentityShuffle
    (planned : eliminateIdentityShuffle.plan session id = some plan)
    : session.Descends narrow (plan session) := by
  obtain ⟨node, order, source, rank, known, shuffles, reads, ranked, identity, rfl⟩ :=
    plan_eliminateIdentityShuffle.mp planned
  obtain ⟨position, -, listed, found⟩ := listed_of_node? holds.described known
  exact holds.descends_replaceNode listed found
    (declared_of_identityShuffle holds found shuffles reads ranked identity)

theorem descends_collapseShuffleChain (planned : collapseShuffleChain.plan session id = some plan)
    : session.Descends narrow (plan session) := by
  obtain ⟨outer, outerOrder, middle, inner, innerOrder, base, order, known, shuffles, reads,
    produced, shufflesInner, readsInner, composed, rfl⟩ := plan_collapseShuffleChain.mp planned
  obtain ⟨position, -, listed, found⟩ := listed_of_node? holds.described known
  obtain ⟨tensor, dims, declared, shapes, same⟩ := exists_shapes_of_chain holds found shuffles reads
    produced shufflesInner readsInner composed
  split_ifs with identity
  · obtain ⟨rank, ranked, identity⟩ := (Option.any_eq_true _ _).mp identity
    have declared' := declared_of_identity holds declared shapes ranked identity
    rw [← same] at declared'
    exact holds.descends_replaceNode listed found declared'
  · have follows := (holds.typed.follows_at found).inferred
    rw [shuffles] at follows
    obtain ⟨place, here, rfl⟩ := (producer?_eq_some_iff holds.described).mp produced
    refine holds.descends_substitute listed found (follows.operands_of_shuffle reads).1
      (holds.typed.ordered.height_lt (List.mem_of_getElem? here)
        (Node.mem_reads_of_input? readsInner)) ?_
    rw [same]
    exact .of_infer (.cons declared .nil)
      (Typing.shuffle_eq_ok_iff.mpr ⟨tensor, dims, rfl, shapes, rfl⟩) nofun

/-- No canonical rule fails, and each makes the graph lighter. -/
theorem descends_of_canonical {rule : Rule} (canonical : rule ∈ Catalog.canonicalRules)
    (planned : rule.plan session id = some plan)
    : session.Descends narrow (plan session) := by
  simp only [Catalog.canonicalRules, List.mem_cons, List.not_mem_nil, or_false] at canonical
  rcases canonical with rfl | rfl | rfl
  · exact descends_eliminateIdentityShuffle holds planned
  · exact descends_collapseShuffleChain holds planned
  · exact descends_eliminateDoubleNegation holds planned

end Rules

end Descent

variable {narrow : Prop} {graph after : Graph} {session : Session} {ids : List NodeId}
  {rules : RuleSet}

/-- No canonical rule has anything left to do. -/
structure Graph.IsNormal (graph : Graph) : Prop where
  /-- No negation reads a value that is the negation of a value, -/
  negations
    : ∀ outer ∈ graph.body, ∀ inner ∈ graph.body,
        outer.operation = .unary .neg
        → inner.operation = .unary .neg
        → inner.value ∈ outer.reads
        → inner.reads = []
  /-- no shuffle of a value keeps all axes in their places, -/
  identities
    : ∀ node ∈ graph.body, ∀ (order : ShuffleOrder) (source : ValueId) (type : TensorType),
        node.operation = .shuffle order
        → source ∈ node.reads
        → (source, .tensor type) ∈ graph.types
        → order.isIdentity type.rank = false
  /-- and no shuffle reads a value that is the shuffle of a value. -/
  shuffles
    : ∀ outer ∈ graph.body, ∀ inner ∈ graph.body, ∀ first second : ShuffleOrder,
        outer.operation = .shuffle second
        → inner.operation = .shuffle first
        → inner.value ∈ outer.reads
        → inner.reads = []

/-- Nothing comes up when nodes go away. -/
theorem Graph.IsNormal.erased (normal : graph.IsNormal) (position : Nat)
    : (graph.erased position).IsNormal where
  negations outer member inner member' :=
    normal.negations outer (List.mem_of_mem_eraseIdx member) inner (List.mem_of_mem_eraseIdx member')
  identities node member order source type shuffles reads declared := by
    refine normal.identities node (List.mem_of_mem_eraseIdx member) order source type shuffles reads ?_
    rw [Graph.types, Graph.erased, List.mem_append] at declared
    refine List.mem_append.mpr (declared.imp_right fun produced => ?_)
    obtain ⟨other, there, same⟩ := List.mem_map.mp produced
    exact List.mem_map.mpr ⟨other, List.mem_of_mem_eraseIdx there, same⟩
  shuffles outer member inner member' :=
    normal.shuffles outer (List.mem_of_mem_eraseIdx member) inner (List.mem_of_mem_eraseIdx member')

-----------------------------------------------------------------------------------------
-- Declined nodes
-----------------------------------------------------------------------------------------

/-- Negations and shuffles have no other operand than the value that they read. -/
theorem Operation.Follows.input_of_read {known : Types} {operation : Operation}
    {operands : List Operand} {type : ValueType} {source : ValueId}
    (follows : operation.Follows narrow known operands type)
    (total : operation = .unary .neg ∨ ∃ order, operation = .shuffle order)
    (read : source ∈ operands.filterMap Operand.value?)
    : operands[0]?.bind Operand.value? = some source := by
  obtain ⟨types, declared, inferred, -⟩ := follows
  have single : ∃ one, types = [one] := by
    rcases total with rfl | ⟨order, rfl⟩
    · obtain ⟨tensor, same, -⟩ := Typing.unary_neg_eq_ok_iff.mp (resultType_eq_ok_iff.mp inferred)
      exact ⟨_, same⟩
    · obtain ⟨tensor, dims, same, -⟩ := Typing.shuffle_eq_ok_iff.mp (resultType_eq_ok_iff.mp inferred)
      exact ⟨_, same⟩
  obtain ⟨one, rfl⟩ := single
  obtain ⟨operand, _, -, none, rfl⟩ := List.forall₂_cons_right_iff.mp declared
  obtain rfl := List.forall₂_nil_right_iff.mp none
  cases operand with
  | literal content => exact absurd read List.not_mem_nil
  | value id => rw [List.mem_singleton.mp read]; rfl

/-- Two shuffles in a row have a composed order. -/
theorem ShuffleOrder.Shapes.exists_compose {inner outer : ShuffleOrder}
    {dims middle result : List Dimension} (first : inner.Shapes dims middle)
    (second : outer.Shapes middle result)
    : ∃ order, Rules.compose inner outer = some order := by
  have each
      : List.Forall₂ (fun _ _ => True) middle inner :=
    List.forall₂_iff_get.mpr ⟨length_of_items? first.taken, fun _ _ _ => trivial⟩
  obtain ⟨order, taken, -⟩ := @exists_items?_of_forall₂ _ _ _ _ _ _ (fun _ _ => True) _
    ShuffleAxis.broadcast trivial each second.taken
  exact ⟨order, by rwa [Rules.compose, funext (composeAxis_eq inner)]⟩

namespace Session.Holds

variable (holds : session.Holds narrow ids)
  (settled : rules.Settled session)

include holds settled

theorem plan_eq_none {rule : Rule} (member : rule ∈ rules) {id : NodeId} {node : Node}
    (known : session.node? id = some node) (tracked : rule.tracks node.operation = true)
    : rule.plan session id = none :=
  settled id (holds.described.ordered_eq ▸ (mem_ids_iff holds.described).mpr ⟨node, known⟩) node known
    rule member tracked

/-- If the canonical rules decline all nodes, then the graph is in normal form. -/
theorem isNormal (canonical : ∀ rule ∈ Catalog.canonicalRules, rule ∈ rules)
    : session.graph.IsNormal := by
  have located {node : Node} (member : node ∈ session.graph.body)
      : ∃ id, session.node? id = some node := by
    obtain ⟨position, found⟩ := List.mem_iff_getElem?.mp member
    obtain ⟨id, listed⟩ := holds.described.exists_id found
    exact ⟨id, (node?_of_listed holds.described listed found).2⟩
  have produced {node : Node} (member : node ∈ session.graph.body)
      : session.producer? node.value = some node := by
    obtain ⟨position, found⟩ := List.mem_iff_getElem?.mp member
    exact (producer?_eq_some_iff holds.described).mpr ⟨position, found, rfl⟩
  have input {node : Node} {source : ValueId} (member : node ∈ session.graph.body)
      (total : node.operation = .unary .neg ∨ ∃ order, node.operation = .shuffle order)
      (read : source ∈ node.reads)
      : node.input? 0 = some source := by
    obtain ⟨position, found⟩ := List.mem_iff_getElem?.mp member
    exact (holds.typed.follows_at found).inferred.input_of_read total read
  refine ⟨?_, ?_, ?_⟩
  · intro outer member inner member' negation negation' read
    by_contra reads
    obtain ⟨base, read'⟩ := List.exists_mem_of_ne_nil _ reads
    obtain ⟨id, known⟩ := located member
    have negates : Rules.negated? session inner.value = some base :=
      Rules.negated?_eq_some_iff.mpr
        ⟨inner, produced member', negation', input member' (.inl negation') read'⟩
    have planned := Rules.plan_eliminateDoubleNegation.mpr
      ⟨outer, inner.value, base, known, negation, input member (.inl negation) read, negates, rfl⟩
    rw [holds.plan_eq_none settled (canonical _ (by simp [Catalog.canonicalRules])) known
      (by rw [negation]; rfl)] at planned
    cases planned
  · intro node member order source type shuffles read declared
    rw [Bool.eq_false_iff]
    intro identity
    obtain ⟨id, known⟩ := located member
    have ranked : session.rank? source = some type.rank :=
      Rules.rank?_eq_some_iff.mpr ⟨type, type?_of_mem holds.described declared, rfl⟩
    have planned := Rules.plan_eliminateIdentityShuffle.mpr
      ⟨node, order, source, type.rank, known, shuffles, input member (.inr ⟨_, shuffles⟩) read,
        ranked, identity, rfl⟩
    rw [holds.plan_eq_none settled (canonical _ (by simp [Catalog.canonicalRules])) known
      (by rw [shuffles]; rfl)] at planned
    cases planned
  · intro outer member inner member' first second shuffles shuffles' read
    by_contra reads
    obtain ⟨base, read'⟩ := List.exists_mem_of_ne_nil _ reads
    obtain ⟨id, known⟩ := located member
    have here := input member (.inr ⟨_, shuffles⟩) read
    have here' := input member' (.inr ⟨_, shuffles'⟩) read'
    obtain ⟨order, composed⟩ : ∃ order, Rules.compose first second = some order := by
      obtain ⟨position, found⟩ := List.mem_iff_getElem?.mp member
      have follows := (holds.typed.follows_at found).inferred
      rw [shuffles] at follows
      obtain ⟨middle, declared, inferred⟩ := follows.shuffled here
      have follows' := holds.of_producer declared (produced member')
      rw [shuffles'] at follows'
      obtain ⟨tensor, -, inferred'⟩ := follows'.shuffled here'
      obtain ⟨_, dims, same, shapes, -⟩ := Typing.shuffle_eq_ok_iff.mp inferred
      obtain rfl := ValueType.tensor.inj (List.head_eq_of_cons_eq same)
      obtain ⟨_, dims', -, shapes', same'⟩ := Typing.shuffle_eq_ok_iff.mp inferred'
      obtain rfl := ValueType.tensor.inj same'
      exact shapes'.exists_compose shapes
    have planned := Rules.plan_collapseShuffleChain.mpr
      ⟨outer, second, inner.value, inner, first, base, order, known, shuffles, here,
        produced member', shuffles', here', composed, rfl⟩
    rw [holds.plan_eq_none settled (canonical _ (by simp [Catalog.canonicalRules])) known
      (by rw [shuffles]; rfl)] at planned
    cases planned

end Session.Holds

-----------------------------------------------------------------------------------------
-- Enough rewrites
-----------------------------------------------------------------------------------------

/-- A node is rewritten by the plan of a rule, by induction on the nodes. -/
theorem exists_plan_of_offerFirst {refusals : Refusals} {offered : List NodeId} {rewrite : Rewrite}
    {next : Session}
    (rewrote : (offerFirst rules session refusals offered).2 = .rewrote rewrite next)
    : ∃ rule id plan,
        rule ∈ rules ∧ rule.plan session id = some plan ∧ plan session = .ok () next := by
  induction offered generalizing refusals with
  | nil => cases rewrote
  | cons first rest ih =>
      rw [offerFirst] at rewrote
      cases happened : offer rules session refusals first with
      | mk noted what =>
          rw [happened] at rewrote
          cases what with
          | declined => exact ih rewrote
          | failed error next => cases rewrote
          | rewrote other next =>
              obtain ⟨rfl, rfl⟩ := Offer.rewrote.inj rewrote
              obtain ⟨rule, plan, found⟩ := exists_plan_of_offer (congrArg Prod.snd happened)
              exact ⟨rule, first, plan, found⟩

/-- With enough rewrites, the canonical rules come to an end, by induction on the weight of the
graph.
-/
theorem exists_budget {session : Session} {ids : List NodeId}
    (canonical : ∀ rule ∈ rules, rule ∈ Catalog.canonicalRules)
    (holds : session.Holds narrow ids) (refusals : Refusals)
    : ∃ enough, ∀ budget ≥ enough, ∀ done,
        (toFixedPoint rules budget session refusals done).error = none
        ∧ (toFixedPoint rules budget session refusals done).capped = false := by
  have keeps : ∀ rule ∈ rules, rule.Keeps (fun session => ∃ ids, session.Holds narrow ids) False := by
    intro rule member session id plan ⟨ids, holds⟩ planned
    obtain ⟨after, names, done, left, -⟩ :=
      Rules.descends_of_canonical holds (canonical rule member) planned
    rw [done]
    exact ⟨names, left⟩
  have left := offerFirst_leaves keeps ⟨ids, holds⟩ refusals session.index.ordered
  cases offered : offerFirst rules session refusals session.index.ordered with
  | mk noted what =>
      rw [offered] at left
      cases what with
      | failed error next => exact left.2.elim
      | declined =>
          refine ⟨1, fun budget positive done => ?_⟩
          obtain ⟨budget, rfl⟩ := Nat.exists_eq_succ_of_ne_zero (Nat.one_le_iff_ne_zero.mp positive)
          rw [toFixedPoint, offered]
          exact ⟨rfl, rfl⟩
      | rewrote rewrite next =>
          obtain ⟨rule, id, plan, member, planned, made⟩ :=
            exists_plan_of_offerFirst (congrArg Prod.snd offered)
          obtain ⟨after, names, done, holds', lighter⟩ :=
            Rules.descends_of_canonical holds (canonical rule member) planned
          obtain ⟨-, rfl⟩ := EStateM.Result.ok.inj (made.symm.trans done)
          obtain ⟨enough, later⟩ := exists_budget canonical holds' noted
          refine ⟨enough + 1, fun budget many done => ?_⟩
          obtain ⟨budget, rfl⟩ :=
            Nat.exists_eq_succ_of_ne_zero (Nat.ne_of_gt (Nat.lt_of_lt_of_le (Nat.succ_pos _) many))
          rw [toFixedPoint, offered]
          exact later budget (Nat.le_of_succ_le_succ many) _
termination_by session.graph.weight
decreasing_by exact lighter

-----------------------------------------------------------------------------------------
-- Sweeps
-----------------------------------------------------------------------------------------

/-- Dropping dead nodes keeps the normal form. -/
theorem dropsKeep_normal
    : DropsKeep (fun session => ∃ ids, session.Holds narrow ids ∧ session.graph.IsNormal) False := by
  intro session id node ⟨ids, holds, normal⟩ known hidden unread
  obtain ⟨position, -, listed, found⟩ := Session.listed_of_node? holds.described known
  obtain ⟨after, done, changed, advances⟩ := holds.erase listed found unread hidden
  rw [done]
  refine ⟨_, advances.holds, ?_⟩
  rw [changed]
  exact normal.erased position

/-- A normal graph stays normal at the end of a sweep. -/
theorem Progress.normal_of_finish {progress : Progress} (holds : progress.session.Holds narrow ids)
    (normal : progress.session.graph.IsNormal) (fine : progress.error = none)
    (options : SweepOptions)
    : (progress.finish options).error = none
      ∧ (progress.finish options).capped = progress.capped
      ∧ (progress.finish options).graph.WellTyped narrow
      ∧ (progress.finish options).graph.IsNormal := by
  have dropped := dropDead_leaves dropsKeep_normal ⟨ids, holds, normal⟩
    (progress.session.graph.body.length + 1) 0
  rw [finish]
  split_ifs
  · exact ⟨fine, rfl, holds.typed, normal⟩
  · cases done : dropDead (progress.session.graph.body.length + 1) 0 progress.session with
    | error error after =>
        rw [done] at dropped
        exact dropped.2.elim
    | ok total after =>
        rw [done] at dropped
        obtain ⟨names, holds', normal'⟩ := dropped
        exact ⟨fine, rfl, holds'.typed, normal'⟩

namespace Catalog

/-- A graph that turns a matrix, negates it twice and turns it back. -/
def turnedBack : Graph where
  name := "back"
  inputTypes := [.tensor ⟨.f64, ⟨[.static 2, .unknown]⟩⟩]
  inputs := [⟨0⟩]
  outputTypes := [.tensor ⟨.f64, ⟨[.static 2, .unknown]⟩⟩]
  body :=
    [⟨⟨1⟩, .shuffle [.axis 1, .axis 0], [.value ⟨0⟩], .tensor ⟨.f64, ⟨[.unknown, .static 2]⟩⟩⟩,
      ⟨⟨2⟩, .unary .neg, [.value ⟨1⟩], .tensor ⟨.f64, ⟨[.unknown, .static 2]⟩⟩⟩,
      ⟨⟨3⟩, .unary .neg, [.value ⟨2⟩], .tensor ⟨.f64, ⟨[.unknown, .static 2]⟩⟩⟩,
      ⟨⟨4⟩, .shuffle [.axis 1, .axis 0], [.value ⟨3⟩], .tensor ⟨.f64, ⟨[.static 2, .unknown]⟩⟩⟩]
  outputs := [⟨4⟩]

/-- The calls that build `turnedBack`. -/
def turnedBackCalls : List Builder.Call :=
  [.input (.tensor ⟨.f64, ⟨[.static 2, .unknown]⟩⟩), .node (.shuffle [.axis 1, .axis 0]) [.value ⟨0⟩],
    .node (.unary .neg) [.value ⟨1⟩], .node (.unary .neg) [.value ⟨2⟩],
    .node (.shuffle [.axis 1, .axis 0]) [.value ⟨3⟩]]

end Catalog

end Dataflow
