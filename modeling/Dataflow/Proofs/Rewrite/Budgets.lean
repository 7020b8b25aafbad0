import Dataflow.Proofs.Rewrite.Retirement
import Dataflow.Proofs.Rewrite.Rules.Upstream

/-!
Limits of sweeps. A sweep that ends on its own is the same under every limit that leaves room for
another rewrite. Under a limit that its rewrites just use up, it makes the same rewrites, but it
reports that it was stopped if it would have looked at another node.
-/

namespace Dataflow

open Session

variable {rules : RuleSet} {session : Session} {refusals : Refusals} {done : List Rewrite}
  {progress : Progress} {enough : Nat}

-----------------------------------------------------------------------------------------
-- Rewritten nodes
-----------------------------------------------------------------------------------------

/-- A rewrite is noted under the value that was offered, by induction on the rules. -/
theorem node_of_offerNode {id : NodeId} {value : ValueId} {version : Nat}
    {offered : List (Nat × Rule)} {rewrite : Rewrite} {next : Session}
    (rewrote : (offerNode session id value version refusals offered).2 = .rewrote rewrite next)
    : rewrite.node = value := by
  induction offered generalizing refusals with
  | nil => cases rewrote
  | cons first rest ih =>
      rw [offerNode] at rewrote
      split_ifs at rewrote
      · exact ih rewrote
      · cases planned : first.2.plan session id with
        | none =>
            rw [planned] at rewrote
            exact ih rewrote
        | some plan =>
            rw [planned] at rewrote
            change Offer.ofPlan first.2 value plan session = _ at rewrote
            rw [Offer.ofPlan] at rewrote
            split at rewrote
            · rw [← (Offer.rewrote.inj rewrote).1]
            · cases rewrote

theorem valueOf?_of_offer {id : NodeId} {rewrite : Rewrite} {next : Session}
    (rewrote : (offer rules session refusals id).2 = .rewrote rewrite next)
    : session.valueOf? id = some rewrite.node := by
  rw [offer] at rewrote
  split at rewrote
  · rename_i node version found present
    rw [valueOf?, found, node_of_offerNode rewrote]
    rfl
  · cases rewrote

-----------------------------------------------------------------------------------------
-- Fixed points
-----------------------------------------------------------------------------------------

/-- With room for all rewrites, a sweep to a fixed point only learns from its limit whether it was
stopped. By induction on the limit that was enough.
-/
theorem toFixedPoint_of_enough (swept : toFixedPoint rules enough session refusals done = progress)
    (fine : progress.error = none) (converged : progress.capped = false) {budget : Nat}
    (room : progress.rewrites.length ≤ done.length + budget)
    : toFixedPoint rules budget session refusals done
      = { progress with
          capped :=
            decide (progress.rewrites.length = done.length + budget)
              && !progress.session.index.ordered.isEmpty } := by
  induction enough generalizing session refusals done budget with
  | zero =>
      obtain rfl := swept
      -- Nothing was left to look at.
      have none : session.index.ordered = [] := by simpa [toFixedPoint] using converged
      cases budget with
      | zero => simp [toFixedPoint, none]
      | succ budget => simp [toFixedPoint, none, offerFirst]
  | succ enough ih =>
      rw [toFixedPoint] at swept
      cases offered : offerFirst rules session refusals session.index.ordered with
      | mk noted what =>
          rw [offered] at swept
          cases what with
          | declined =>
              obtain rfl := swept
              cases budget with
              | zero => simp [toFixedPoint]
              | succ budget => simp [toFixedPoint, offered]
          | failed error next =>
              obtain rfl := swept
              cases fine
          | rewrote rewrite next =>
              dsimp only at swept
              have grows := length_le_toFixedPoint rules enough next noted (done ++ [rewrite])
              rw [swept, List.length_append, List.length_singleton] at grows
              obtain ⟨budget, rfl⟩ : ∃ more, budget = more + 1 := ⟨budget - 1, by omega⟩
              have fits : progress.rewrites.length ≤ (done ++ [rewrite]).length + budget := by
                rw [List.length_append, List.length_singleton]
                omega
              have later := ih swept fits
              rw [toFixedPoint, offered]
              dsimp only
              rw [later, List.length_append, List.length_singleton, Nat.add_assoc, Nat.add_comm 1]

-----------------------------------------------------------------------------------------
-- Single visits
-----------------------------------------------------------------------------------------

/-- That the last entry is none of the chosen ones does not depend on an entry that was chosen, if
that only comes first.
-/
theorem exists_last_notMem_cons {α : Type} {first : α} {rest chosen : List α}
    (fresh : first ∉ rest)
    : (∃ last ∈ (first :: rest).getLast?, last ∉ first :: chosen)
      ↔ ∃ last ∈ rest.getLast?, last ∉ chosen := by
  cases rest with
  | nil => simp
  | cons second rest =>
      rw [List.getLast?_cons_cons]
      refine exists_congr fun last => and_congr_right fun here => ?_
      rw [List.mem_cons, or_iff_right]
      rintro rfl
      exact fresh (List.mem_of_getLast? here)

theorem offerEach_zero (rules : RuleSet) (session : Session) (ids : List NodeId)
    (done : List Rewrite)
    : offerEach rules 0 session ids done = ⟨session, done, !ids.isEmpty, none⟩ := by
  cases ids <;> rfl

/-- With room for all rewrites, a sweep that offers each node once only learns from its limit
whether it was stopped in front of the last node. By induction on the nodes, which keep their values
until they are offered.
-/
theorem offerEach_of_enough
    (keeps : ∀ id value, ∀ rule ∈ rules, rule.Keeps (Owns id value) True) {ids : List NodeId}
    {values : List ValueId}
    (owned : List.Forall₂ (fun id value => session.Owns id value) ids values)
    (distinct : values.Nodup) (swept : offerEach rules enough session ids done = progress)
    (fine : progress.error = none) (converged : progress.capped = false)
    : ∃ made,
        progress.rewrites = done ++ made
        ∧ ∀ budget,
            made.length ≤ budget
            → offerEach rules budget session ids done
              = { progress with
                  capped :=
                    decide (made.length = budget
                      ∧ ∃ last ∈ values.getLast?, last ∉ made.map (·.node)) } := by
  induction ids generalizing values enough session done with
  | nil =>
      cases owned
      rw [offerEach] at swept
      obtain rfl := swept
      exact ⟨[], (List.append_nil done).symm, fun budget _ => by simp [offerEach]⟩
  | cons id rest ih =>
      obtain ⟨value, values, owns, later, rfl⟩ := List.forall₂_cons_left_iff.mp owned
      obtain ⟨fresh, distinct⟩ := List.nodup_cons.mp distinct
      cases enough with
      | zero =>
          obtain rfl := swept
          cases converged
      | succ enough =>
          rw [offerEach] at swept
          cases offered : (offer rules session [] id).2 with
          | declined =>
              rw [offered] at swept
              obtain ⟨made, rewrites, same⟩ := ih later distinct swept
              refine ⟨made, rewrites, fun budget room => ?_⟩
              cases budget with
              | zero =>
                  -- Under no limit at all, the node that was declined is not even looked at.
                  obtain rfl := List.length_eq_zero_iff.mp (Nat.le_zero.mp room)
                  have alike := same 0 room
                  rw [offerEach_zero, Progress.mk.injEq] at alike ⊢
                  exact ⟨alike.1, alike.2.1, by simp [List.getLast?_cons], alike.2.2.2⟩
              | succ budget =>
                  rw [offerEach, offered]
                  dsimp only
                  rw [same _ room]
                  cases later with
                  | nil =>
                      obtain rfl := swept
                      obtain rfl : made = [] := List.self_eq_append_right.mp rewrites
                      simp
                  | cons => rw [List.getLast?_cons_cons]
          | failed error next =>
              rw [offered] at swept
              obtain rfl := swept
              cases fine
          | rewrote rewrite next =>
              rw [offered] at swept
              have kept (other : NodeId) (known : ValueId) (owns : session.Owns other known)
                  : next.Owns other known := by
                have left := offer_leaves (keeps other known) owns [] id
                rwa [offered] at left
              obtain ⟨made, rewrites, same⟩ := ih (later.imp fun _ _ => kept _ _) distinct swept
              obtain rfl := owns.only rewrite.node (valueOf?_of_offer offered)
              refine ⟨rewrite :: made, ?_, fun budget room => ?_⟩
              · rw [rewrites, List.append_assoc]
                rfl
              obtain ⟨budget, rfl⟩ := Nat.exists_eq_succ_of_ne_zero (Nat.ne_of_gt
                (Nat.lt_of_lt_of_le (Nat.succ_pos _) room))
              rw [offerEach, offered]
              dsimp only
              rw [same budget (Nat.le_of_succ_le_succ room), List.map_cons, List.length_cons]
              simp only [exists_last_notMem_cons fresh, Nat.succ.injEq]

-----------------------------------------------------------------------------------------
-- Whole sweeps
-----------------------------------------------------------------------------------------

/-- The names that are listed belong to the values of the nodes, one by one. -/
theorem Session.owns_each {ids : List NodeId} (described : session.Described ids)
    : List.Forall₂ (fun id value => session.Owns id value) ids
        (session.graph.body.map (·.value)) := by
  refine List.forall₂_iff_get.mpr ⟨by rw [List.length_map, described.length], ?_⟩
  intro position inside inside'
  rw [List.length_map] at inside'
  have found := (node?_of_listed described (List.getElem?_eq_getElem inside)
    (List.getElem?_eq_getElem inside')).2
  rw [List.get_eq_getElem, List.get_eq_getElem, List.getElem_map]
  exact owns_of_node? described found

/-- Whether a strategy looks at another node behind its last rewrite. If each node is offered once,
then the first node comes last. If all nodes are offered again, then any node of the graph that was
reached is one.
-/
def Strategy.LooksOn (graph reached : Graph) (rewrites : List Rewrite) : Strategy → Prop
  | .outToIn => ∃ node ∈ graph.body.head?, node.value ∉ rewrites.map (·.node)
  | .fixedPoint => reached.body ≠ []

instance (graph reached : Graph) (rewrites : List Rewrite) (strategy : Strategy)
    : Decidable (strategy.LooksOn graph reached rewrites) :=
  match strategy with
  | .outToIn =>
      inferInstanceAs (Decidable (∃ node ∈ graph.body.head?, node.value ∉ rewrites.map (·.node)))
  | .fixedPoint => inferInstanceAs (Decidable (reached.body ≠ []))

theorem applyRules_of_enough
    (stock : ∀ rule ∈ rules,
      rule ∈ Catalog.canonicalRules ++ Catalog.loweringRules ++ [Rules.promoteListMutation])
    {ids : List NodeId} (described : session.Described ids) {strategy : Strategy}
    (swept : applyRules rules strategy enough session = progress) (fine : progress.error = none)
    (converged : progress.capped = false) {limit : Nat} (room : progress.rewrites.length ≤ limit)
    : ∃ capped,
        applyRules rules strategy limit session = { progress with capped }
        ∧ (capped = true
          ↔ rules ≠ []
            ∧ progress.rewrites.length = limit
            ∧ strategy.LooksOn session.graph progress.session.graph progress.rewrites) := by
  have keeps {good : Session → Prop} (persists : Persists good) (rule : Rule)
      (member : rule ∈ rules)
      : rule.Keeps good True :=
    Rules.keeps_of_persists persists (stock rule member)
  rw [applyRules.eq_def] at swept ⊢
  split_ifs at swept ⊢ with empty
  · obtain rfl := swept
    exact ⟨false, rfl, by simp [List.isEmpty_iff.mp empty]⟩
  rw [List.isEmpty_iff] at empty
  cases strategy with
  | fixedPoint =>
      have left := toFixedPoint_leaves (keeps persists_tracked) ⟨ids, described⟩ enough [] []
      dsimp only at swept ⊢
      rw [swept] at left
      obtain ⟨names, after⟩ := left.good
      refine ⟨_, toFixedPoint_of_enough swept fine converged (by simpa using room), ?_⟩
      have bodies
          : progress.session.index.ordered.isEmpty = progress.session.graph.body.isEmpty := by
        rw [after.ordered_eq, Bool.eq_iff_iff, List.isEmpty_iff_length_eq_zero,
          List.isEmpty_iff_length_eq_zero, after.length]
      simp [bodies, empty, Strategy.LooksOn]
  | outToIn =>
      dsimp only at swept ⊢
      have owned := List.rel_reverse (owns_each described)
      rw [← described.ordered_eq] at owned
      have distinct := List.nodup_reverse.mpr
        (List.nodup_append.mp described.valuesDistinct).2.1
      obtain ⟨made, rewrites, same⟩ := offerEach_of_enough
        (fun id value => keeps (persists_owns id value)) owned distinct swept fine converged
      rw [List.nil_append] at rewrites
      subst rewrites
      refine ⟨_, same limit room, ?_⟩
      simp [empty, Strategy.LooksOn]

theorem Progress.finish_capped (progress : Progress) (capped : Bool) (options : SweepOptions)
    : Progress.finish { progress with capped } options
      = { progress.finish options with capped } := by
  rw [finish, finish]
  split_ifs
  · rfl
  · dsimp only
    split <;> rfl

theorem Progress.finish_rewrites (progress : Progress) (options : SweepOptions)
    : (progress.finish options).rewrites = progress.rewrites
      ∧ (progress.finish options).capped = progress.capped
      ∧ ((progress.finish options).error = none → progress.error = none) := by
  rw [finish]
  split_ifs with still
  · exact ⟨rfl, rfl, id⟩
  · have none : progress.error = none := by simp_all
    split <;> exact ⟨rfl, rfl, fun _ => none⟩

/-- A sweep that ends on its own makes the same rewrites, leaves the same graph and drops as many
nodes under every limit that its rewrites do not exceed. It then reports that it was stopped iff
they use up the limit and it would have looked at another node.
-/
theorem sweep_of_enough
    (stock : ∀ rule ∈ rules,
      rule ∈ Catalog.canonicalRules ++ Catalog.loweringRules ++ [Rules.promoteListMutation])
    {graph : Graph} (typed : graph.inputs.length = graph.inputTypes.length) {strategy : Strategy}
    {dropDead : Bool} (fine : (sweep rules strategy ⟨enough, dropDead⟩ graph).error = none)
    (converged : (sweep rules strategy ⟨enough, dropDead⟩ graph).capped = false) {limit : Nat}
    (room : (sweep rules strategy ⟨enough, dropDead⟩ graph).rewrites.length ≤ limit)
    : ∃ capped,
        sweep rules strategy ⟨limit, dropDead⟩ graph
          = { sweep rules strategy ⟨enough, dropDead⟩ graph with capped }
        ∧ (capped = true
          ↔ rules ≠ []
            ∧ (sweep rules strategy ⟨enough, dropDead⟩ graph).rewrites.length = limit
            ∧ strategy.LooksOn graph (sweep rules strategy ⟨enough, false⟩ graph).graph
                (sweep rules strategy ⟨enough, dropDead⟩ graph).rewrites) := by
  simp only [sweep] at fine converged room ⊢
  cases started : Session.start graph with
  | error error =>
      rw [started] at fine
      cases fine
  | ok session =>
      rw [started] at fine converged room
      obtain ⟨ids, described⟩ := EditStep.exists_described_of_start started typed
      dsimp only at fine converged room ⊢
      generalize swept : applyRules rules strategy enough session = progress
        at fine converged room ⊢
      obtain ⟨rewrites, same, error⟩ := progress.finish_rewrites ⟨enough, dropDead⟩
      rw [rewrites] at room
      obtain ⟨capped, again, stopped⟩ := applyRules_of_enough stock described swept (error fine)
        (same.symm.trans converged) room
      refine ⟨capped, ?_, ?_⟩
      · rw [again, Progress.finish_capped]
        rfl
      · rw [stopped, rewrites, Progress.finish_of_kept, graph_of_start started]

/-- A sweep of a number that is negated four times. -/
def negationSweep (limit : Nat) : Sweep :=
  sweep [Rules.eliminateDoubleNegation] .fixedPoint ⟨limit, false⟩ Rules.negations

/-- Two rewrites leave no double negation behind. Under a limit of two, the sweep reports that
it was stopped, although no rule applies any more.
-/
theorem negationSweep_stopped
    : (negationSweep 10000).capped = false
      ∧ (negationSweep 10000).rewrites.length = 2
      ∧ ∃ capped, negationSweep 2 = { negationSweep 10000 with capped } ∧ capped = true := by
  have fine : (negationSweep 10000).error = none := by decide +kernel
  have converged : (negationSweep 10000).capped = false := by decide +kernel
  have rewrites : (negationSweep 10000).rewrites.length = 2 := by decide +kernel
  obtain ⟨capped, same, stopped⟩ := sweep_of_enough
    (by simp [Catalog.canonicalRules]) rfl fine converged rewrites.le
  exact ⟨converged, rewrites, capped, same, stopped.mpr ⟨by simp, rewrites, by decide +kernel⟩⟩

end Dataflow
