import Dataflow.Proofs.Rewrite.Edits
import Dataflow.Proofs.Table
import Dataflow.Rewrite.Sweep

/-!
Sweeps that change nothing. A sweep rewrites nothing iff every rule declines every node, and it
drops nothing iff every node is used. A refusal that was noted stands for a rule that declined.
-/

namespace Dataflow

-----------------------------------------------------------------------------------------
-- Declined nodes
-----------------------------------------------------------------------------------------

/-- No rule that wants to see the operation of a node has a plan for the node. -/
def RuleSet.Declines (rules : RuleSet) (session : Session) (id : NodeId) : Prop :=
  ∀ node, session.node? id = some node
    → ∀ rule ∈ rules, rule.tracks node.operation = true → rule.plan session id = none

theorem RuleSet.mem_tracking {rules : RuleSet} {operation : Operation} {slot : Nat} {rule : Rule}
    : (slot, rule) ∈ rules.tracking operation
      ↔ rules[slot]? = some rule ∧ rule.tracks operation = true := by
  rw [tracking, List.mem_map]
  constructor
  · rintro ⟨⟨other, place⟩, member, same⟩
    obtain ⟨rfl, rfl⟩ := Prod.mk.inj same
    obtain ⟨listed, tracked⟩ := List.mem_filter.mp member
    exact ⟨List.mem_zipIdx_iff_getElem?.mp listed, tracked⟩
  · intro ⟨listed, tracked⟩
    exact ⟨(rule, slot),
      List.mem_filter.mpr ⟨List.mem_zipIdx_iff_getElem?.mpr listed, tracked⟩, rfl⟩

/-- Every node has a version. -/
def Session.Versioned (session : Session) : Prop :=
  ∀ {id : NodeId} {node : Node}, session.node? id = some node
    → (session.index.version? id).isSome = true

theorem Session.versioned {session : Session} {ids : List NodeId}
    (described : session.Described ids)
    : session.Versioned := by
  intro id node found
  obtain ⟨position, -, listed, here⟩ := Session.listed_of_node? described found
  obtain ⟨version, entry⟩ := described.node listed here
  rw [Index.version?, entry]
  rfl

/-- Every refusal of the present version of a node stands for a rule that declines the node. -/
def Refusals.Honest (refusals : Refusals) (rules : RuleSet) (session : Session) : Prop :=
  ∀ (slot : Nat) (id : NodeId) (version : Nat) (rule : Rule),
    refusals.get? (slot, id) = some version
    → session.index.version? id = some version
    → rules[slot]? = some rule
    → rule.plan session id = none

variable {rules : RuleSet} {session : Session} {refusals : Refusals} {id : NodeId}

theorem Refusals.honest_nil : Refusals.Honest [] rules session :=
  fun _ _ _ _ refused => nomatch refused

theorem Refusals.Honest.set (honest : refusals.Honest rules session) {slot version : Nat}
    {rule : Rule} (listed : rules[slot]? = some rule) (declined : rule.plan session id = none)
    : Refusals.Honest (Table.set (slot, id) version refusals) rules session := by
  intro other node noted which refused present there
  rw [Table.get?_set] at refused
  split_ifs at refused with same
  · obtain ⟨rfl, rfl⟩ := Prod.mk.inj same
    obtain rfl := Option.some.inj (listed.symm.trans there)
    exact declined
  · exact honest other node noted which refused present there

theorem Offer.ofPlan_ne_declined (rule : Rule) (value : ValueId) (plan : Rewriting Unit)
    (session : Session)
    : Offer.ofPlan rule value plan session ≠ .declined := by
  rw [Offer.ofPlan]
  cases plan session <;> exact fun same => nomatch same

/-- A node is declined iff all rules decline it, by induction on the rules. -/
theorem offerNode_eq_declined_iff {value : ValueId} {version : Nat}
    (present : session.index.version? id = some version) {offered : List (Nat × Rule)}
    (listed : ∀ slot rule, (slot, rule) ∈ offered → rules[slot]? = some rule)
    (honest : refusals.Honest rules session)
    : ((offerNode session id value version refusals offered).2 = .declined
        ↔ ∀ slot rule, (slot, rule) ∈ offered → rule.plan session id = none)
      ∧ ((offerNode session id value version refusals offered).2 = .declined
        → (offerNode session id value version refusals offered).1.Honest rules session) := by
  induction offered generalizing refusals with
  | nil => exact ⟨by simp [offerNode], fun _ => honest⟩
  | cons first rest ih =>
      obtain ⟨slot, rule⟩ := first
      have here := listed slot rule List.mem_cons_self
      have later := fun slot rule member => listed slot rule (List.mem_cons_of_mem _ member)
      have both (declined : rule.plan session id = none)
          : (∀ other which, (other, which) ∈ (slot, rule) :: rest → which.plan session id = none)
            ↔ ∀ other which, (other, which) ∈ rest → which.plan session id = none := by
        refine ⟨fun all other which member => all other which (List.mem_cons_of_mem _ member),
          fun all other which member => ?_⟩
        rcases List.mem_cons.mp member with same | member
        · obtain ⟨-, rfl⟩ := Prod.mk.inj same
          exact declined
        · exact all other which member
      rw [offerNode]
      split_ifs with refused
      · rw [both (honest slot id version rule refused present here)]
        exact ih later honest
      · cases planned : rule.plan session id with
        | none =>
            rw [both planned]
            exact ih later (honest.set here planned)
        | some plan =>
            have taken := Offer.ofPlan_ne_declined rule value plan session
            refine ⟨⟨fun same => (taken same).elim, fun all => ?_⟩, fun same => (taken same).elim⟩
            cases planned.symm.trans (all slot rule List.mem_cons_self)

/-- A node is rewritten by the plan of a rule, by induction on the rules. -/
theorem exists_plan_of_offerNode {value : ValueId} {version : Nat} {offered : List (Nat × Rule)}
    {rewrite : Rewrite} {next : Session}
    (rewrote : (offerNode session id value version refusals offered).2 = .rewrote rewrite next)
    : ∃ entry plan,
        entry ∈ offered ∧ entry.2.plan session id = some plan ∧ plan session = .ok () next := by
  induction offered generalizing refusals with
  | nil => cases rewrote
  | cons first rest ih =>
      have later {refusals : Refusals}
          (rewrote : (offerNode session id value version refusals rest).2 = .rewrote rewrite next)
          : ∃ entry plan, entry ∈ first :: rest ∧ entry.2.plan session id = some plan
            ∧ plan session = .ok () next := by
        obtain ⟨entry, plan, member, planned⟩ := ih rewrote
        exact ⟨entry, plan, List.mem_cons_of_mem _ member, planned⟩
      rw [offerNode] at rewrote
      split_ifs at rewrote
      · exact later rewrote
      · cases planned : first.2.plan session id with
        | none =>
            rw [planned] at rewrote
            exact later rewrote
        | some plan =>
            rw [planned] at rewrote
            refine ⟨first, plan, List.mem_cons_self, planned, ?_⟩
            change Offer.ofPlan first.2 value plan session = _ at rewrote
            rw [Offer.ofPlan] at rewrote
            cases done : plan session with
            | ok result after =>
                rw [done] at rewrote
                rw [(Offer.rewrote.inj rewrote).2]
            | error error after =>
                rw [done] at rewrote
                cases rewrote

theorem exists_plan_of_offer {rewrite : Rewrite} {next : Session}
    (rewrote : (offer rules session refusals id).2 = .rewrote rewrite next)
    : ∃ rule plan,
        rule ∈ rules ∧ rule.plan session id = some plan ∧ plan session = .ok () next := by
  rw [offer] at rewrote
  split at rewrote
  · obtain ⟨entry, plan, member, planned⟩ := exists_plan_of_offerNode rewrote
    exact ⟨entry.2, plan, List.mem_of_getElem? (RuleSet.mem_tracking.mp member).1, planned⟩
  · cases rewrote

/-- A node is declined iff all rules that track it decline it. -/
theorem offer_eq_declined_iff (rules : RuleSet) (versioned : session.Versioned)
    (honest : refusals.Honest rules session) (id : NodeId)
    : ((offer rules session refusals id).2 = .declined ↔ rules.Declines session id)
      ∧ ((offer rules session refusals id).2 = .declined
        → (offer rules session refusals id).1.Honest rules session) := by
  rw [offer]
  cases found : session.node? id with
  | none => exact ⟨by simp [RuleSet.Declines, found], fun _ => honest⟩
  | some node =>
      obtain ⟨version, present⟩ := Option.isSome_iff_exists.mp (versioned found)
      rw [present]
      dsimp only
      have one := @offerNode_eq_declined_iff rules session refusals id node.value version present
        (rules.tracking node.operation) (fun _ _ member => (RuleSet.mem_tracking.mp member).1) honest
      refine ⟨one.1.trans ⟨fun all => ?_, fun declines slot rule member => ?_⟩, one.2⟩
      · intro other same rule member tracked
        obtain rfl := Option.some.inj (found.symm.trans same)
        obtain ⟨slot, listed⟩ := List.mem_iff_getElem?.mp member
        exact all slot rule (RuleSet.mem_tracking.mpr ⟨listed, tracked⟩)
      · obtain ⟨listed, tracked⟩ := RuleSet.mem_tracking.mp member
        exact declines node found rule (List.mem_of_getElem? listed) tracked

/-- No node is rewritten iff all of them are declined, by induction on the nodes. -/
theorem offerFirst_eq_declined_iff (rules : RuleSet) (versioned : session.Versioned)
    (honest : refusals.Honest rules session) (ids : List NodeId)
    : (offerFirst rules session refusals ids).2 = .declined
      ↔ ∀ id ∈ ids, rules.Declines session id := by
  induction ids generalizing refusals with
  | nil => simp [offerFirst]
  | cons first rest ih =>
      obtain ⟨declines, stays⟩ := offer_eq_declined_iff rules versioned honest first
      rw [offerFirst, List.forall_mem_cons]
      cases offered : offer rules session refusals first with
      | mk after what =>
          rw [offered] at declines stays
          cases what with
          | declined => rw [ih (stays rfl), ← declines, and_iff_right rfl]
          | rewrote rewrite next =>
              exact ⟨nofun, fun both => nomatch declines.mpr both.1⟩
          | failed error next =>
              exact ⟨nofun, fun both => nomatch declines.mpr both.1⟩

-----------------------------------------------------------------------------------------
-- Sweeps without a rewrite
-----------------------------------------------------------------------------------------

/-- No node of a session is rewritten. -/
def RuleSet.Settled (rules : RuleSet) (session : Session) : Prop :=
  ∀ id ∈ session.index.ordered, rules.Declines session id

/-- What was done stays noted, by induction on the budget. -/
theorem length_le_toFixedPoint (rules : RuleSet) (budget : Nat) (session : Session) (refusals : Refusals)
    (done : List Rewrite)
    : done.length ≤ (toFixedPoint rules budget session refusals done).rewrites.length := by
  induction budget generalizing session refusals done with
  | zero => exact Nat.le_refl _
  | succ budget ih =>
      rw [toFixedPoint]
      split
      · exact Nat.le_refl _
      · exact Nat.le_refl _
      · have later := ih ‹Session› ‹Refusals› (done ++ [‹Rewrite›])
        rw [List.length_append] at later
        exact (Nat.le_add_right _ _).trans later

/-- What was done stays noted, by induction on the nodes. -/
theorem length_le_offerEach (rules : RuleSet) (budget : Nat) (session : Session) (ids : List NodeId)
    (done : List Rewrite)
    : done.length ≤ (offerEach rules budget session ids done).rewrites.length := by
  induction ids generalizing budget session done with
  | nil => cases budget <;> exact Nat.le_refl _
  | cons first rest ih =>
      cases budget with
      | zero => exact Nat.le_refl _
      | succ budget =>
          rw [offerEach]
          split
          · exact ih _ _ _
          · exact Nat.le_refl _
          · have later := ih budget ‹Session› (done ++ [‹Rewrite›])
            rw [List.length_append] at later
            exact (Nat.le_add_right _ _).trans later

theorem toFixedPoint_of_settled (versioned : session.Versioned)
    (settled : rules.Settled session) (budget : Nat)
    : ∃ capped, toFixedPoint rules budget session [] [] = ⟨session, [], capped, none⟩ := by
  cases budget with
  | zero => exact ⟨_, rfl⟩
  | succ budget =>
      refine ⟨false, ?_⟩
      have declined := (offerFirst_eq_declined_iff rules versioned Refusals.honest_nil _).mpr settled
      rw [toFixedPoint]
      cases offered : offerFirst rules session [] session.index.ordered with
      | mk after what =>
          rw [offered] at declined
          obtain rfl := declined
          rfl

theorem settled_of_toFixedPoint (versioned : session.Versioned)
    {budget : Nat} (positive : 0 < budget)
    (unchanged : (toFixedPoint rules budget session [] []).rewrites = [])
    (fine : (toFixedPoint rules budget session [] []).error = none)
    : rules.Settled session ∧ (toFixedPoint rules budget session [] []).session = session := by
  obtain ⟨budget, rfl⟩ := Nat.exists_eq_succ_of_ne_zero positive.ne'
  have declines := offerFirst_eq_declined_iff rules versioned Refusals.honest_nil session.index.ordered
  rw [toFixedPoint] at unchanged fine ⊢
  cases offered : offerFirst rules session [] session.index.ordered with
  | mk after what =>
      rw [offered] at declines unchanged fine
      cases what with
      | declined => exact ⟨declines.mp rfl, rfl⟩
      | failed error next => cases fine
      | rewrote rewrite next =>
          have noted := length_le_toFixedPoint rules budget next after ([] ++ [rewrite])
          dsimp only at unchanged
          rw [unchanged] at noted
          cases noted

theorem offerEach_of_settled (versioned : session.Versioned)
    {ids : List NodeId} (settled : ∀ id ∈ ids, rules.Declines session id) (budget : Nat)
    : ∃ capped, offerEach rules budget session ids [] = ⟨session, [], capped, none⟩ := by
  induction ids with
  | nil => exact ⟨false, by cases budget <;> rfl⟩
  | cons first rest ih =>
      obtain ⟨here, later⟩ := List.forall_mem_cons.mp settled
      cases budget with
      | zero => exact ⟨true, rfl⟩
      | succ budget =>
          rw [offerEach, (offer_eq_declined_iff rules versioned Refusals.honest_nil first).1.mpr here]
          exact ih later

theorem settled_of_offerEach (versioned : session.Versioned)
    {ids : List NodeId} {budget : Nat} (positive : 0 < budget)
    (unchanged : (offerEach rules budget session ids []).rewrites = [])
    (fine : (offerEach rules budget session ids []).error = none)
    : (∀ id ∈ ids, rules.Declines session id)
      ∧ (offerEach rules budget session ids []).session = session := by
  obtain ⟨budget, rfl⟩ := Nat.exists_eq_succ_of_ne_zero positive.ne'
  induction ids with
  | nil => exact ⟨fun id member => absurd member List.not_mem_nil, rfl⟩
  | cons first rest ih =>
      have declines := (offer_eq_declined_iff rules versioned Refusals.honest_nil first).1
      rw [offerEach] at unchanged fine ⊢
      cases offered : (offer rules session [] first).2 with
      | declined =>
          rw [offered] at unchanged fine
          obtain ⟨others, same⟩ := ih unchanged fine
          exact ⟨List.forall_mem_cons.mpr ⟨declines.mp offered, others⟩, same⟩
      | failed error next =>
          rw [offered] at fine
          cases fine
      | rewrote rewrite next =>
          rw [offered] at unchanged
          have noted := length_le_offerEach rules budget next rest ([] ++ [rewrite])
          dsimp only at unchanged
          rw [unchanged] at noted
          cases noted

/-- Rules are applied to no node iff all of them are declined. -/
theorem applyRules_of_settled (versioned : session.Versioned) (settled : rules.Settled session)
    (strategy : Strategy) (limit : Nat)
    : ∃ capped, applyRules rules strategy limit session = ⟨session, [], capped, none⟩ := by
  rw [applyRules.eq_def]
  split_ifs
  · exact ⟨false, rfl⟩
  · cases strategy with
    | fixedPoint => exact toFixedPoint_of_settled versioned settled limit
    | outToIn =>
        exact offerEach_of_settled versioned
          (fun id member => settled id (List.mem_reverse.mp member)) limit

theorem settled_of_applyRules (versioned : session.Versioned) {strategy : Strategy} {limit : Nat}
    (positive : 0 < limit) (unchanged : (applyRules rules strategy limit session).rewrites = [])
    (fine : (applyRules rules strategy limit session).error = none)
    : rules.Settled session ∧ (applyRules rules strategy limit session).session = session := by
  rw [applyRules.eq_def] at unchanged fine ⊢
  split_ifs at unchanged fine ⊢ with empty
  · rw [List.isEmpty_iff.mp empty]
    exact ⟨fun _ _ _ _ rule member => absurd member List.not_mem_nil, rfl⟩
  · cases strategy with
    | fixedPoint => exact settled_of_toFixedPoint versioned positive unchanged fine
    | outToIn =>
        obtain ⟨all, same⟩ := settled_of_offerEach versioned positive unchanged fine
        exact ⟨fun id member => all id (List.mem_reverse.mpr member), same⟩

-----------------------------------------------------------------------------------------
-- Dead nodes
-----------------------------------------------------------------------------------------

/-- Something reads or shows the value of a node. -/
def Session.Uses (session : Session) (id : NodeId) : Prop :=
  ∀ node, session.node? id = some node
    → (session.isOutput node.value || !(session.index.readers node.value).isEmpty) = true

theorem dropIfDead_apply (count : Nat) (id : NodeId) (session : Session)
    : (session.Uses id ∧ dropIfDead count id session = .ok count session)
      ∨ (¬ session.Uses id
        ∧ dropIfDead count id session = (Session.erase id >>= fun _ => pure (count + 1)) session) := by
  have asked : (get : Edit Session) session = .ok session session := rfl
  rw [dropIfDead, Session.bind_of_ok asked]
  cases found : session.node? id with
  | none => exact .inl ⟨fun node same => (nomatch found.symm.trans same), rfl⟩
  | some node =>
      dsimp only
      by_cases used
          : (session.isOutput node.value || !(session.index.readers node.value).isEmpty) = true
      · rw [if_pos used]
        refine .inl ⟨fun other same => ?_, rfl⟩
        obtain rfl := Option.some.inj (found.symm.trans same)
        exact used
      · rw [if_neg used]
        exact .inr ⟨fun all => used (all node found), rfl⟩

theorem foldlM_dropIfDead_of_uses {ids : List NodeId} (used : ∀ id ∈ ids, session.Uses id)
    (count : Nat)
    : ids.foldlM dropIfDead count session = .ok count session := by
  induction ids with
  | nil => rfl
  | cons first rest ih =>
      obtain ⟨here, later⟩ := List.forall_mem_cons.mp used
      rcases dropIfDead_apply count first session with ⟨-, kept⟩ | ⟨dead, -⟩
      · rw [List.foldlM_cons, Session.bind_of_ok kept]
        exact ih later
      · exact absurd here dead

/-- The count grows with every node that is dropped, by induction on the nodes. -/
theorem uses_of_foldlM_dropIfDead {ids : List NodeId} {count total : Nat} {after : Session}
    (done : ids.foldlM dropIfDead count session = .ok total after)
    : count ≤ total ∧ (total = count → (∀ id ∈ ids, session.Uses id) ∧ after = session) := by
  induction ids generalizing count session with
  | nil =>
      obtain ⟨rfl, rfl⟩ := EStateM.Result.ok.inj done
      exact ⟨Nat.le_refl _, fun _ => ⟨fun id member => absurd member List.not_mem_nil, rfl⟩⟩
  | cons first rest ih =>
      rw [List.foldlM_cons] at done
      rcases dropIfDead_apply count first session with ⟨here, kept⟩ | ⟨-, dropped⟩
      · rw [Session.bind_of_ok kept] at done
        obtain ⟨grows, same⟩ := ih done
        refine ⟨grows, fun equal => ?_⟩
        obtain ⟨later, rfl⟩ := same equal
        exact ⟨List.forall_mem_cons.mpr ⟨here, later⟩, rfl⟩
      · cases erased : Session.erase first session with
        | error error next =>
            rw [Session.bind_of_error erased] at dropped
            rw [Session.bind_of_error dropped] at done
            cases done
        | ok result next =>
            rw [Session.bind_of_ok erased] at dropped
            rw [Session.bind_of_ok dropped] at done
            have grows := (ih done).1
            exact ⟨by omega, fun equal => by omega⟩

/-- All nodes are used. -/
def Session.Lively (session : Session) : Prop := ∀ id ∈ session.index.ordered, session.Uses id

theorem dropDead_of_lively (lively : session.Lively) (rounds total : Nat)
    : dropDead rounds total session = .ok total session := by
  cases rounds with
  | zero => rfl
  | succ rounds =>
      have asked : (get : Edit Session) session = .ok session session := rfl
      rw [dropDead, Session.bind_of_ok asked, Session.bind_of_ok
        (foldlM_dropIfDead_of_uses (fun id member => lively id (List.mem_reverse.mp member)) 0)]
      rfl

/-- The total grows in every round but the last, by induction on the rounds. -/
theorem lively_of_dropDead {rounds before total : Nat} {after : Session}
    (done : dropDead rounds before session = .ok total after)
    : before ≤ total ∧ (0 < rounds → total = before → session.Lively ∧ after = session) := by
  induction rounds generalizing before session with
  | zero =>
      obtain ⟨rfl, rfl⟩ := EStateM.Result.ok.inj done
      exact ⟨Nat.le_refl _, fun positive => absurd positive (Nat.lt_irrefl 0)⟩
  | succ rounds ih =>
      have asked : (get : Edit Session) session = .ok session session := rfl
      rw [dropDead, Session.bind_of_ok asked] at done
      cases swept : session.index.ordered.reverse.foldlM dropIfDead 0 session with
      | error error next =>
          rw [Session.bind_of_error swept] at done
          cases done
      | ok count next =>
          rw [Session.bind_of_ok swept] at done
          obtain ⟨-, same⟩ := uses_of_foldlM_dropIfDead swept
          split_ifs at done with none
          · obtain ⟨rfl, rfl⟩ := EStateM.Result.ok.inj done
            obtain ⟨all, rfl⟩ := same none
            exact ⟨Nat.le_refl _,
              fun _ _ => ⟨fun id member => all id (List.mem_reverse.mpr member), rfl⟩⟩
          · have grows := (ih done).1
            exact ⟨by omega, fun _ equal => by omega⟩

-----------------------------------------------------------------------------------------
-- Whole sweeps
-----------------------------------------------------------------------------------------

theorem Session.graph_of_start {graph : Graph} (started : Session.start graph = .ok session)
    : session.graph = graph := by
  obtain ⟨index, -, done⟩ := Steps.bind_eq_ok_iff.mp started
  rw [← Except.ok.inj done]

variable {graph : Graph} {strategy : Strategy} {options : SweepOptions}

theorem Progress.finish_of_kept (progress : Progress) (limit : Nat)
    : progress.finish ⟨limit, false⟩
      = ⟨progress.session.graph, progress.rewrites, progress.capped, 0, progress.error⟩ := by
  rw [finish, if_pos (by rw [Bool.not_false, Bool.or_true])]

/-- A sweep changes nothing if no rule applies and every node is used. -/
theorem sweep_of_settled (strategy : Strategy) (options : SweepOptions)
    (started : Session.start graph = .ok session) (versioned : session.Versioned)
    (settled : rules.Settled session) (lively : options.dropDead = true → session.Lively)
    : ∃ capped, sweep rules strategy options graph = ⟨graph, [], capped, 0, none⟩ := by
  obtain ⟨capped, applied⟩ := applyRules_of_settled versioned settled strategy options.limit
  refine ⟨capped, ?_⟩
  rw [sweep, started]
  dsimp only
  rw [applied, Progress.finish]
  dsimp only
  rw [Session.graph_of_start started]
  split_ifs with still
  · rfl
  · have drops : options.dropDead = true := by simpa using still
    rw [dropDead_of_lively (lively drops)]
    dsimp only
    rw [Session.graph_of_start started]

/-- A sweep that changes nothing leaves no rule that applies and no dead node to drop. -/
theorem settled_of_sweep (started : Session.start graph = .ok session)
    (versioned : session.Versioned) (positive : 0 < options.limit)
    (fine : (sweep rules strategy options graph).error = none)
    (unchanged : (sweep rules strategy options graph).rewrites = [])
    (kept : (sweep rules strategy options graph).dropped = 0)
    : rules.Settled session
      ∧ (options.dropDead = true → session.Lively)
      ∧ (sweep rules strategy options graph).graph = graph := by
  rw [sweep, started] at fine unchanged kept ⊢
  dsimp only at fine unchanged kept ⊢
  generalize made : applyRules rules strategy options.limit session = progress
    at fine unchanged kept ⊢
  have applied (rewrites : progress.rewrites = []) (error : progress.error = none)
      : rules.Settled session ∧ progress.session = session := by
    rw [← made] at rewrites error ⊢
    exact settled_of_applyRules versioned positive rewrites error
  rw [Progress.finish] at fine unchanged kept ⊢
  split_ifs at fine unchanged kept ⊢ with still
  · obtain ⟨settled, same⟩ := applied unchanged fine
    refine ⟨settled, fun drops => ?_, ?_⟩
    · rw [drops, show progress.error = none from fine] at still
      cases still
    · dsimp only
      rw [same, Session.graph_of_start started]
  · cases dropped : dropDead (progress.session.graph.body.length + 1) 0 progress.session with
    | error error next =>
        rw [dropped] at fine
        cases fine
    | ok total next =>
        rw [dropped] at fine unchanged kept
        obtain ⟨settled, same⟩ := applied unchanged fine
        obtain ⟨lively, rfl⟩ := (lively_of_dropDead dropped).2 (Nat.succ_pos _) kept
        rw [same] at lively
        exact ⟨settled, fun _ => lively, same ▸ Session.graph_of_start started⟩

end Dataflow
