import Dataflow.Proofs.Rewrite.EditSequences
import Dataflow.Rewrite.Sweep

/-!
What a sweep keeps. If the plans of all rules and the dropping of dead nodes leave a session good,
then so does the whole sweep, and it fails only if one of them may fail.
-/

namespace Dataflow

variable {good : Session → Prop} {mayFail : Prop} {session : Session}

-----------------------------------------------------------------------------------------
-- Steps
-----------------------------------------------------------------------------------------

theorem Rewriting.lift_of_ok {α : Type} {edit : Edit α} {result : α} {after : Session}
    (done : edit session = .ok result after)
    : (liftM edit : Rewriting α) session = .ok result after := by
  change Edit.toRewriting edit session = _
  rw [Edit.toRewriting, done]

theorem Rewriting.lift_of_error {α : Type} {edit : Edit α} {error : GraphError} {after : Session}
    (failed : edit session = .error error after)
    : (liftM edit : Rewriting α) session = .error (.graph error) after := by
  change Edit.toRewriting edit session = _
  rw [Edit.toRewriting, failed]

/-- The session behind a step is good, and the step only failed if it may. -/
def Session.Leaves {ε α : Type} (good : Session → Prop) (mayFail : Prop)
    : EStateM.Result ε Session α → Prop
  | .ok _ after => good after
  | .error _ after => good after ∧ mayFail

namespace Session.Leaves

theorem bind {ε α β : Type} {step : EStateM ε Session α} {next : α → EStateM ε Session β}
    (first : Leaves good mayFail (step session))
    (second
      : ∀ result after, step session = .ok result after → good after
        → Leaves good mayFail (next result after))
    : Leaves good mayFail ((step >>= next) session) := by
  change Leaves good mayFail (EStateM.bind step next session)
  rw [EStateM.bind]
  cases done : step session with
  | ok result after =>
      rw [done] at first
      exact second result after done first
  | error error after =>
      rw [done] at first
      exact first

/-- A rule that makes an edit leaves what the edit leaves. -/
theorem lift {α : Type} {edit : Edit α} (left : Leaves good mayFail (edit session))
    : Leaves good mayFail ((liftM edit : Rewriting α) session) := by
  cases done : edit session with
  | ok result after =>
      rw [done] at left
      rw [Rewriting.lift_of_ok done]
      exact left
  | error error after =>
      rw [done] at left
      rw [Rewriting.lift_of_error done]
      exact left

theorem mono {ε α : Type} {better : Session → Prop} {result : EStateM.Result ε Session α}
    (left : Leaves better mayFail result) (stronger : ∀ after, better after → good after)
    : Leaves good mayFail result := by
  cases result with
  | ok value after => exact stronger after left
  | error error after => exact ⟨stronger after left.1, left.2⟩

/-- A step that leaves a good session behind only fails if it may. -/
theorem of_mayFail {ε α : Type} {better : Session → Prop} {result : EStateM.Result ε Session α}
    (left : Leaves good True result) (other : Leaves better mayFail result)
    : Leaves good mayFail result := by
  cases result with
  | ok value after => exact left
  | error error after => exact ⟨left.1, other.2⟩

/-- The session behind an edit is good, whether the edit succeeds or fails. -/
theorem of_behind {α : Type} {result : EStateM.Result GraphError Session α}
    (left : good (behind result))
    : Leaves good True result := by
  cases result with
  | ok value after => exact left
  | error error after => exact ⟨left, trivial⟩

end Session.Leaves

/-- The plans of a rule leave good sessions behind. -/
def Rule.Keeps (good : Session → Prop) (mayFail : Prop) (rule : Rule) : Prop :=
  ∀ {session : Session} {id : NodeId} {plan : Rewriting Unit},
    good session → rule.plan session id = some plan → Session.Leaves good mayFail (plan session)

/-- Dropping a dead node leaves a good session behind. -/
def DropsKeep (good : Session → Prop) (mayFail : Prop) : Prop :=
  ∀ {session : Session} {id : NodeId} {node : Node},
    good session
    → session.node? id = some node
    → session.isOutput node.value = false
    → session.index.readers node.value = []
    → Session.Leaves good mayFail (Session.erase id session)

-----------------------------------------------------------------------------------------
-- Offers
-----------------------------------------------------------------------------------------

/-- The session behind an offer is good, and no rule failed unless it may. -/
def Offer.Leaves (good : Session → Prop) (mayFail : Prop) : Offer → Prop
  | .declined => True
  | .rewrote _ after => good after
  | .failed _ after => good after ∧ mayFail

theorem Offer.leaves_ofPlan {rule : Rule} {value : ValueId} {plan : Rewriting Unit}
    (left : Session.Leaves good mayFail (plan session))
    : (Offer.ofPlan rule value plan session).Leaves good mayFail := by
  rw [Offer.ofPlan]
  cases done : plan session with
  | ok result after =>
      rw [done] at left
      exact left
  | error error after =>
      rw [done] at left
      exact left

variable {rules : RuleSet}

/-- Offering a node leaves a good session behind, by induction on the rules. -/
theorem offerNode_leaves (start : good session) {id : NodeId} {value : ValueId} {version : Nat}
    {offered : List (Nat × Rule)} (keeps : ∀ entry ∈ offered, entry.2.Keeps good mayFail)
    (refusals : Refusals)
    : (offerNode session id value version refusals offered).2.Leaves good mayFail := by
  induction offered generalizing refusals with
  | nil => trivial
  | cons first rest ih =>
      obtain ⟨here, later⟩ := List.forall_mem_cons.mp keeps
      rw [offerNode]
      split_ifs
      · exact ih later _
      · cases planned : first.2.plan session id with
        | none => exact ih later _
        | some plan => exact Offer.leaves_ofPlan (here start planned)

theorem offer_leaves (keeps : ∀ rule ∈ rules, rule.Keeps good mayFail) (start : good session)
    (refusals : Refusals) (id : NodeId)
    : (offer rules session refusals id).2.Leaves good mayFail := by
  rw [offer]
  split
  · refine offerNode_leaves start (fun entry member => ?_) refusals
    obtain ⟨⟨rule, slot⟩, listed, rfl⟩ := List.mem_map.mp member
    exact keeps rule (List.mem_of_getElem?
      (List.mem_zipIdx_iff_getElem?.mp (List.mem_filter.mp listed).1))
  · trivial

theorem offerFirst_leaves (keeps : ∀ rule ∈ rules, rule.Keeps good mayFail) (start : good session)
    (refusals : Refusals) (ids : List NodeId)
    : (offerFirst rules session refusals ids).2.Leaves good mayFail := by
  induction ids generalizing refusals with
  | nil => trivial
  | cons first rest ih =>
      have here := offer_leaves keeps start refusals first
      rw [offerFirst]
      cases offered : offer rules session refusals first with
      | mk after what =>
          rw [offered] at here
          cases what with
          | declined => exact ih after
          | rewrote rewrite next => exact here
          | failed error next => exact here

-----------------------------------------------------------------------------------------
-- Sweeps
-----------------------------------------------------------------------------------------

/-- The session of a sweep is good, and the sweep only failed if a rule may. -/
structure Progress.Leaves (good : Session → Prop) (mayFail : Prop) (progress : Progress) : Prop where
  good : good progress.session
  error : progress.error ≠ none → mayFail

/-- By induction on the budget. -/
theorem toFixedPoint_leaves (keeps : ∀ rule ∈ rules, rule.Keeps good mayFail)
    (start : good session) (budget : Nat) (refusals : Refusals) (done : List Rewrite)
    : (toFixedPoint rules budget session refusals done).Leaves good mayFail := by
  induction budget generalizing session refusals done with
  | zero => exact ⟨start, fun failed => absurd rfl failed⟩
  | succ budget ih =>
      have first := offerFirst_leaves keeps start refusals session.index.ordered
      rw [toFixedPoint]
      cases offered : offerFirst rules session refusals session.index.ordered with
      | mk after what =>
          rw [offered] at first
          cases what with
          | declined => exact ⟨start, fun failed => absurd rfl failed⟩
          | failed error next => exact ⟨first.1, fun _ => first.2⟩
          | rewrote rewrite next => exact ih first after _

/-- By induction on the nodes. -/
theorem offerEach_leaves (keeps : ∀ rule ∈ rules, rule.Keeps good mayFail) (start : good session)
    (budget : Nat) (ids : List NodeId) (done : List Rewrite)
    : (offerEach rules budget session ids done).Leaves good mayFail := by
  induction ids generalizing budget session done with
  | nil => cases budget <;> exact ⟨start, fun failed => absurd rfl failed⟩
  | cons first rest ih =>
      cases budget with
      | zero => exact ⟨start, fun failed => absurd rfl failed⟩
      | succ budget =>
          have here := offer_leaves keeps start [] first
          rw [offerEach]
          cases offered : (offer rules session [] first).2 with
          | declined => exact ih start (budget + 1) done
          | failed error next =>
              rw [offered] at here
              exact ⟨here.1, fun _ => here.2⟩
          | rewrote rewrite next =>
              rw [offered] at here
              exact ih here budget _

theorem applyRules_leaves (keeps : ∀ rule ∈ rules, rule.Keeps good mayFail) (start : good session)
    (strategy : Strategy) (limit : Nat)
    : (applyRules rules strategy limit session).Leaves good mayFail := by
  rw [applyRules.eq_def]
  split_ifs
  · exact ⟨start, fun failed => absurd rfl failed⟩
  · cases strategy with
    | fixedPoint => exact toFixedPoint_leaves keeps start limit [] []
    | outToIn => exact offerEach_leaves keeps start limit _ []

-----------------------------------------------------------------------------------------
-- Dead nodes
-----------------------------------------------------------------------------------------

theorem dropIfDead_leaves (drops : DropsKeep good mayFail) (start : good session) (count : Nat)
    (id : NodeId)
    : Session.Leaves good mayFail (dropIfDead count id session) := by
  have asked : (get : Edit Session) session = .ok session session := rfl
  rw [dropIfDead, Session.bind_of_ok asked]
  cases found : session.node? id with
  | none => exact start
  | some node =>
      dsimp only
      split_ifs with used
      · exact start
      · rw [Bool.or_eq_true, not_or, Bool.not_eq_true, Bool.not_eq_true, Bool.not_eq_false',
          List.isEmpty_iff] at used
        exact (drops start found used.1 used.2).bind fun _ _ _ here => here

theorem foldlM_dropIfDead_leaves (drops : DropsKeep good mayFail) (start : good session)
    (ids : List NodeId) (count : Nat)
    : Session.Leaves good mayFail (ids.foldlM dropIfDead count session) := by
  induction ids generalizing session count with
  | nil => exact start
  | cons first rest ih =>
      rw [List.foldlM_cons]
      exact (dropIfDead_leaves drops start count first).bind fun count after _ here => ih here count

theorem dropDead_leaves (drops : DropsKeep good mayFail) (start : good session)
    (rounds total : Nat)
    : Session.Leaves good mayFail (dropDead rounds total session) := by
  induction rounds generalizing session total with
  | zero => exact start
  | succ rounds ih =>
      have asked : (get : Edit Session) session = .ok session session := rfl
      rw [dropDead, Session.bind_of_ok asked]
      refine (foldlM_dropIfDead_leaves drops start _ 0).bind fun count after _ here => ?_
      split_ifs
      · exact here
      · exact ih here _

/-- A sweep that starts with a good session leaves the graph of a good session behind. -/
theorem sweep_leaves {graph : Graph} (keeps : ∀ rule ∈ rules, rule.Keeps good mayFail)
    (drops : DropsKeep good mayFail) (started : Session.start graph = .ok session)
    (start : good session) (strategy : Strategy) (options : SweepOptions)
    : ∃ after,
        good after
        ∧ (sweep rules strategy options graph).graph = after.graph
        ∧ ((sweep rules strategy options graph).error ≠ none → mayFail) := by
  have applied := applyRules_leaves keeps start strategy options.limit
  rw [sweep, started]
  dsimp only
  rw [Progress.finish]
  split_ifs
  · exact ⟨_, applied.good, rfl, applied.error⟩
  · have dropped := dropDead_leaves drops applied.good
      ((applyRules rules strategy options.limit session).session.graph.body.length + 1) 0
    cases done
        : dropDead ((applyRules rules strategy options.limit session).session.graph.body.length + 1)
          0 (applyRules rules strategy options.limit session).session with
    | ok total after =>
        rw [done] at dropped
        exact ⟨after, dropped, rfl, applied.error⟩
    | error error after =>
        rw [done] at dropped
        exact ⟨after, dropped.1, rfl, fun _ => dropped.2⟩

end Dataflow
