import Dataflow.Pass.Basic
import Dataflow.Proofs.Rewrite.Declining
import Dataflow.Proofs.Rewrite.Sweeps

/-!
What a sweep reports. A sweep that reports no rewrite and no dropped node did not touch its session;
and what the first rewrite or the first drop leaves behind stays changed to the end of the sweep, if
no later edit can undo it.
-/

namespace Dataflow

namespace Session

variable {session : Session}

/-- The session behind a step is good, if the step succeeds. -/
def Ends {ε α : Type} (good : Session → Prop) : EStateM.Result ε Session α → Prop
  | .ok _ after => good after
  | .error _ _ => True

namespace Ends

variable {start good : Session → Prop}

theorem bind {ε α β : Type} {step : EStateM ε Session α} {rest : α → EStateM ε Session β}
    (first : Leaves start True (step session))
    (second : ∀ result after, start after → Ends good (rest result after))
    : Ends good ((step >>= rest) session) := by
  change Ends good (EStateM.bind step rest session)
  rw [EStateM.bind]
  cases done : step session with
  | ok result after =>
      rw [done] at first
      exact second result after first
  | error error after => trivial

theorem lift {α : Type} {edit : Edit α} (ends : Ends good (edit session))
    : Ends good ((liftM edit : Rewriting α) session) := by
  cases done : edit session with
  | ok result after =>
      rw [done] at ends
      rw [Rewriting.lift_of_ok done]
      exact ends
  | error error after =>
      rw [Rewriting.lift_of_error done]
      trivial

end Ends

end Session

open Session

variable {changed : Session → Prop} {session : Session} {rules : RuleSet}

-----------------------------------------------------------------------------------------
-- Rewrites
-----------------------------------------------------------------------------------------

/-- Every plan that the rules have for a session changes it, if the plan succeeds. -/
def RuleSet.Change (rules : RuleSet) (changed : Session → Prop) (session : Session) : Prop :=
  ∀ rule ∈ rules, ∀ {id : NodeId} {node : Node} {plan : Rewriting Unit},
    session.node? id = some node
    → rule.plan session id = some plan
    → Ends changed (plan session)

theorem changed_of_offer (change : rules.Change changed session) {refusals : Refusals} {id : NodeId}
    {rewrite : Rewrite} {next : Session}
    (rewrote : (offer rules session refusals id).2 = .rewrote rewrite next)
    : changed next := by
  obtain ⟨rule, plan, member, planned, done⟩ := exists_plan_of_offer rewrote
  obtain ⟨node, found⟩ : ∃ node, session.node? id = some node := by
    rw [offer] at rewrote
    split at rewrote
    · exact ⟨_, ‹_›⟩
    · cases rewrote
  have ends := change rule member found planned
  rw [done] at ends
  exact ends

theorem changed_of_offerFirst (change : rules.Change changed session) {refusals : Refusals}
    {ids : List NodeId} {rewrite : Rewrite} {next : Session}
    (rewrote : (offerFirst rules session refusals ids).2 = .rewrote rewrite next)
    : changed next := by
  induction ids generalizing refusals with
  | nil => cases rewrote
  | cons first rest ih =>
      rw [offerFirst] at rewrote
      cases offered : offer rules session refusals first with
      | mk noted what =>
          have here : (offer rules session refusals first).2 = what := congrArg Prod.snd offered
          rw [offered] at rewrote
          cases what with
          | declined => exact ih rewrote
          | failed error after => cases rewrote
          | rewrote rewrite after =>
              cases rewrote
              exact changed_of_offer change here

/-- No rewrite is reported of a session that is left alone, and some rewrite of one that changed. -/
def Progress.Reports (changed : Session → Prop) (session : Session) (progress : Progress) : Prop :=
  progress.rewrites = [] ∧ progress.session = session
  ∨ progress.rewrites ≠ [] ∧ changed progress.session

theorem toFixedPoint_reports (change : rules.Change changed session)
    (keeps : ∀ rule ∈ rules, rule.Keeps changed True) {budget : Nat}
    (fine : (toFixedPoint rules budget session [] []).error = none)
    : (toFixedPoint rules budget session [] []).Reports changed session := by
  cases budget with
  | zero => exact .inl ⟨rfl, rfl⟩
  | succ budget =>
      rw [toFixedPoint] at fine ⊢
      cases offered : offerFirst rules session [] session.index.ordered with
      | mk refusals what =>
          rw [offered] at fine
          cases what with
          | declined => exact .inl ⟨rfl, rfl⟩
          | failed error next => cases fine
          | rewrote rewrite next =>
              have first : changed next := changed_of_offerFirst change (congrArg Prod.snd offered)
              refine .inr ⟨?_, (toFixedPoint_leaves keeps first budget refusals _).good⟩
              have noted := length_le_toFixedPoint rules budget next refusals [rewrite]
              exact List.ne_nil_of_length_pos noted

/-- By induction on the nodes: a node that is declined leaves the session as it is. -/
theorem offerEach_reports (change : rules.Change changed session)
    (keeps : ∀ rule ∈ rules, rule.Keeps changed True) {budget : Nat} {ids : List NodeId}
    (fine : (offerEach rules budget session ids []).error = none)
    : (offerEach rules budget session ids []).Reports changed session := by
  induction ids with
  | nil => cases budget <;> exact .inl ⟨rfl, rfl⟩
  | cons first rest ih =>
      cases budget with
      | zero => exact .inl ⟨rfl, rfl⟩
      | succ budget =>
          rw [offerEach] at fine ⊢
          cases offered : (offer rules session [] first).2 with
          | declined =>
              rw [offered] at fine
              exact ih fine
          | failed error next =>
              rw [offered] at fine
              cases fine
          | rewrote rewrite next =>
              have here : changed next := changed_of_offer change offered
              refine .inr ⟨?_, (offerEach_leaves keeps here budget rest _).good⟩
              have noted := length_le_offerEach rules budget next rest [rewrite]
              exact List.ne_nil_of_length_pos noted

theorem applyRules_reports (change : rules.Change changed session)
    (keeps : ∀ rule ∈ rules, rule.Keeps changed True) {strategy : Strategy} {limit : Nat}
    (fine : (applyRules rules strategy limit session).error = none)
    : (applyRules rules strategy limit session).Reports changed session := by
  rw [applyRules.eq_def] at fine ⊢
  split_ifs at fine ⊢
  · exact .inl ⟨rfl, rfl⟩
  · cases strategy with
    | fixedPoint => exact toFixedPoint_reports change keeps fine
    | outToIn => exact offerEach_reports change keeps fine

-----------------------------------------------------------------------------------------
-- Dead nodes
-----------------------------------------------------------------------------------------

/-- Erasing a node of a session changes it. -/
def Session.DropsChange (changed : Session → Prop) (session : Session) : Prop :=
  ∀ {id : NodeId} {node : Node}, session.node? id = some node → Ends changed (erase id session)

/-- By induction on the nodes: a node that is used leaves the session as it is. -/
theorem foldlM_dropIfDead_reports (change : session.DropsChange changed)
    (keeps : DropsKeep changed True) {ids : List NodeId} {count total : Nat} {after : Session}
    (done : ids.foldlM dropIfDead count session = .ok total after)
    : total = count ∧ after = session ∨ count < total ∧ changed after := by
  induction ids with
  | nil =>
      cases done
      exact .inl ⟨rfl, rfl⟩
  | cons first rest ih =>
      rw [List.foldlM_cons] at done
      rcases dropIfDead_apply count first session with ⟨-, kept⟩ | ⟨dead, dropped⟩
      · rw [bind_of_ok kept] at done
        exact ih done
      · obtain ⟨node, found⟩ : ∃ node, session.node? first = some node := by
          by_contra none
          exact dead fun node found => absurd ⟨node, found⟩ none
        have erased := change found
        cases erases : erase first session with
        | error error next =>
            rw [bind_of_error erases] at dropped
            rw [bind_of_error dropped] at done
            cases done
        | ok result next =>
            rw [bind_of_ok erases] at dropped
            rw [bind_of_ok dropped] at done
            rw [erases] at erased
            have later := foldlM_dropIfDead_leaves keeps erased rest (count + 1)
            rw [done] at later
            exact .inr ⟨(uses_of_foldlM_dropIfDead done).1, later⟩

theorem dropDead_reports (change : session.DropsChange changed) (keeps : DropsKeep changed True)
    {rounds total : Nat} {after : Session} (done : dropDead rounds 0 session = .ok total after)
    : total = 0 ∧ after = session ∨ 0 < total ∧ changed after := by
  cases rounds with
  | zero =>
      cases done
      exact .inl ⟨rfl, rfl⟩
  | succ rounds =>
      have asked : (get : Edit Session) session = .ok session session := rfl
      rw [dropDead, bind_of_ok asked] at done
      cases swept : session.index.ordered.reverse.foldlM dropIfDead 0 session with
      | error error next =>
          rw [bind_of_error swept] at done
          cases done
      | ok count next =>
          rw [bind_of_ok swept] at done
          rcases foldlM_dropIfDead_reports change keeps swept with ⟨rfl, rfl⟩ | ⟨some, first⟩
          · cases done
            exact .inl ⟨rfl, rfl⟩
          · rw [if_neg some.ne'] at done
            have later := dropDead_leaves keeps first rounds (0 + count)
            rw [done] at later
            have grows := (lively_of_dropDead done).1
            exact .inr ⟨by omega, later⟩

-----------------------------------------------------------------------------------------
-- Sweeps
-----------------------------------------------------------------------------------------

/-- A sweep that succeeds reports a rewrite or a dropped node iff it leaves a changed session behind,
and otherwise it leaves the graph alone.
-/
theorem sweep_reports {graph : Graph} (started : Session.start graph = .ok session)
    (change : rules.Change changed session) (keeps : ∀ rule ∈ rules, rule.Keeps changed True)
    {strategy : Strategy} {options : SweepOptions}
    (drops : options.dropDead = true → session.DropsChange changed ∧ DropsKeep changed True)
    (fine : (sweep rules strategy options graph).error = none)
    : (PassStats.ofSweep (sweep rules strategy options graph)).changed = false
        ∧ (sweep rules strategy options graph).graph = graph
      ∨ (PassStats.ofSweep (sweep rules strategy options graph)).changed = true
        ∧ ∃ after,
            changed after ∧ (sweep rules strategy options graph).graph = after.graph := by
  rw [sweep, started] at fine ⊢
  dsimp only at fine ⊢
  have applied := @applyRules_reports changed session rules change keeps strategy options.limit
  generalize applyRules rules strategy options.limit session = progress at applied fine ⊢
  rw [Progress.finish] at fine ⊢
  split_ifs at fine ⊢ with skipped
  · rcases applied fine with ⟨none, same⟩ | ⟨some, later⟩
    · exact .inl ⟨by simp [PassStats.ofSweep, none], same ▸ graph_of_start started⟩
    · exact .inr ⟨by simp [PassStats.ofSweep, some], _, later, rfl⟩
  · obtain ⟨whole, dropping⟩ : progress.error = none ∧ options.dropDead = true := by
      simpa using skipped
    obtain ⟨dropsChange, dropsKeep⟩ := drops dropping
    cases dropped : dropDead (progress.session.graph.body.length + 1) 0 progress.session with
    | error error next =>
        rw [dropped] at fine
        cases fine
    | ok total next =>
        rcases applied whole with ⟨none, same⟩ | ⟨some, later⟩
        · rw [same] at dropped
          rcases dropDead_reports dropsChange dropsKeep dropped with ⟨rfl, rfl⟩ | ⟨positive, later⟩
          · exact .inl ⟨by simp [PassStats.ofSweep, none], graph_of_start started⟩
          · exact .inr ⟨by simp [PassStats.ofSweep, positive], _, later, rfl⟩
        · have last := dropDead_leaves dropsKeep later
            (progress.session.graph.body.length + 1) 0
          rw [dropped] at last
          exact .inr ⟨by simp [PassStats.ofSweep, some], _, last, rfl⟩

end Dataflow
