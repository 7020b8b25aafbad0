import Dataflow.Pass.Catalog
import Dataflow.Proofs.Rewrite.Promotion
import Dataflow.Proofs.Rewrite.Rules.Tables

/-!
Passes that change nothing. What a pass reports is honest: if it reports no change, there was
nothing to do, and a graph with nothing to do is left as it is. Promoting list mutations gives the
passes of the library nothing to do.
-/

namespace Dataflow

variable {graph after : Graph} {session other : Session} {ids : List NodeId}

-----------------------------------------------------------------------------------------
-- Sets of rules
-----------------------------------------------------------------------------------------

namespace RuleSet

theorem mem_insert {rule new : Rule} {rules : RuleSet}
    : rule ∈ rules.insert new ↔ rule = new ∨ rule ∈ rules := by
  induction rules with
  | nil => simp [insert]
  | cons first rest ih =>
      rw [insert]
      split_ifs
      · simp
      · rw [List.mem_cons, ih, List.mem_cons]
        tauto

theorem mem_ofList {rule : Rule} {rules : List Rule} : rule ∈ ofList rules ↔ rule ∈ rules := by
  have all (set : RuleSet)
      : rule ∈ rules.foldl (fun set rule => set.insert rule) set ↔ rule ∈ set ∨ rule ∈ rules := by
    induction rules generalizing set with
    | nil => simp
    | cons first rest ih =>
        rw [List.foldl_cons, ih, mem_insert, List.mem_cons]
        tauto
  rw [ofList, all, or_iff_right List.not_mem_nil]

end RuleSet

-----------------------------------------------------------------------------------------
-- Sweeps
-----------------------------------------------------------------------------------------

namespace PassEntry

variable {entry : PassEntry} {limit : Nat}

/-- The options of the sweep of a pass. -/
def sweepOptions (entry : PassEntry) (limit : Nat) : SweepOptions :=
  { entry.options with limit := min entry.options.limit limit }

theorem runRules_eq (rules : entry.ruleSet.isEmpty = false) (limit : Nat) (graph : Graph)
    : entry.runRules limit graph
      = .ofSweep (sweep entry.ruleSet entry.strategy (entry.sweepOptions limit) graph) := by
  rw [runRules, if_neg (Bool.eq_false_iff.mp rules)]
  rfl

/-- Rules that report no change had nothing to do. -/
theorem settled_of_runRules (rules : entry.ruleSet.isEmpty = false)
    (positive : 0 < (entry.sweepOptions limit).limit)
    (typed : graph.inputs.length = graph.inputTypes.length) {stats : PassStats}
    (fine : (entry.runRules limit graph).outcome = .ok stats) (unchanged : stats.changed = false)
    : ∃ session ids,
        Session.start graph = .ok session
        ∧ session.Described ids
        ∧ entry.ruleSet.Settled session
        ∧ (entry.options.dropDead = true → session.Lively)
        ∧ (entry.runRules limit graph).graph = graph := by
  rw [runRules_eq rules] at fine ⊢
  cases started : Session.start graph with
  | error error => simp [PassRun.ofSweep, sweep, started] at fine
  | ok session =>
      obtain ⟨ids, described⟩ := EditStep.exists_described_of_start started typed
      rw [PassRun.ofSweep] at fine
      dsimp only at fine
      split at fine
      · cases fine
      · rename_i none
        obtain rfl := Except.ok.inj fine
        rw [PassStats.ofSweep, Bool.or_eq_false_iff, Bool.not_eq_false', List.isEmpty_iff,
          decide_eq_false_iff_not, Nat.pos_iff_ne_zero, not_not] at unchanged
        obtain ⟨settled, lively, same⟩ :=
          settled_of_sweep started (Session.versioned described) positive none unchanged.1 unchanged.2
        exact ⟨session, ids, rfl, described, settled, lively, same⟩

/-- Rules that have nothing to do report no change. -/
theorem runRules_of_settled (rules : entry.ruleSet.isEmpty = false)
    (started : Session.start graph = .ok session) (described : session.Described ids)
    (settled : entry.ruleSet.Settled session)
    (lively : entry.options.dropDead = true → session.Lively) (limit : Nat)
    : (entry.runRules limit graph).outcome = .ok .none
      ∧ (entry.runRules limit graph).graph = graph := by
  obtain ⟨capped, swept⟩ := sweep_of_settled entry.strategy (entry.sweepOptions limit) started
    (Session.versioned described) settled lively
  rw [runRules_eq rules, swept]
  exact ⟨rfl, rfl⟩

end PassEntry

-----------------------------------------------------------------------------------------
-- Sharing
-----------------------------------------------------------------------------------------

namespace Sharing

/-- The keys of the nodes that may be shared. -/
def keys (session : Session) (ids : List NodeId) : List Key :=
  ids.filterMap fun id =>
    (session.node? id).bind fun node =>
      if node.operation.isInplace then none else some (.ofNode node)

/-- Nodes are merged iff two of them have the same key, by induction on the nodes. -/
theorem mergeNodes_of_nodup {seen : Table Key ValueId} {nodes : List NodeId}
    (distinct : (keys session nodes).Nodup)
    (unseen : ∀ key ∈ keys session nodes, seen.get? key = none) (merged : Nat)
    : mergeNodes seen merged nodes session = .ok merged session := by
  induction nodes generalizing seen with
  | nil => rfl
  | cons first rest ih =>
      have asked : (get : Edit Session) session = .ok session session := rfl
      rw [mergeNodes, Session.bind_of_ok asked]
      rw [keys, List.filterMap_cons] at distinct unseen
      cases found : session.node? first with
      | none =>
          rw [found] at distinct unseen
          exact ih distinct unseen
      | some node =>
          rw [found, Option.bind_some] at distinct unseen
          dsimp only at distinct unseen ⊢
          split_ifs at distinct unseen ⊢ with inplace
          · exact ih distinct unseen
          · obtain ⟨new, later⟩ := List.nodup_cons.mp distinct
            rw [unseen _ List.mem_cons_self]
            refine ih later fun key member => ?_
            rw [Table.get?_set, if_neg]
            · exact unseen key (List.mem_cons_of_mem _ member)
            · exact fun same => new (same ▸ member)

theorem nodup_of_mergeNodes {seen : Table Key ValueId} {nodes : List NodeId}
    {merged total : Nat} {after : Session}
    (done : mergeNodes seen merged nodes session = .ok total after)
    : merged ≤ total
      ∧ (total = merged
        → after = session
          ∧ (keys session nodes).Nodup
          ∧ ∀ key ∈ keys session nodes, seen.get? key = none) := by
  induction nodes generalizing seen merged session with
  | nil =>
      obtain ⟨rfl, rfl⟩ := EStateM.Result.ok.inj done
      exact ⟨Nat.le_refl _, fun _ => ⟨rfl, .nil, fun key member => absurd member List.not_mem_nil⟩⟩
  | cons first rest ih =>
      have asked : (get : Edit Session) session = .ok session session := rfl
      rw [mergeNodes, Session.bind_of_ok asked] at done
      rw [keys, List.filterMap_cons]
      cases found : session.node? first with
      | none =>
          rw [found] at done
          exact ih done
      | some node =>
          rw [found] at done
          rw [Option.bind_some]
          dsimp only at done ⊢
          split_ifs at done ⊢ with inplace
          · exact ih done
          · cases known : seen.get? (.ofNode node) with
            | none =>
                rw [known] at done
                obtain ⟨grows, same⟩ := ih done
                refine ⟨grows, fun equal => ?_⟩
                obtain ⟨rfl, distinct, unseen⟩ := same equal
                have apart : Key.ofNode node ∉ keys after rest := fun member => by
                  have absent := unseen _ member
                  rw [Table.get?_set, if_pos rfl] at absent
                  cases absent
                refine ⟨rfl, List.nodup_cons.mpr ⟨apart, distinct⟩, ?_⟩
                refine List.forall_mem_cons.mpr ⟨known, fun key member => ?_⟩
                have absent := unseen key member
                have differs : Key.ofNode node ≠ key := fun same => apart (same ▸ member)
                rwa [Table.get?_set, if_neg differs] at absent
            | some value =>
                rw [known] at done
                dsimp only at done
                cases replaced : Session.replaceNode first node.value value session with
                | error error next =>
                    rw [Session.bind_of_error replaced] at done
                    cases done
                | ok result next =>
                    rw [Session.bind_of_ok replaced] at done
                    have grows := (ih done).1
                    exact ⟨by omega, fun equal => by omega⟩

/-- No two nodes of a graph compute the same value. -/
def Distinct (session : Session) : Prop := (keys session session.index.ordered).Nodup

theorem run_of_distinct (started : Session.start graph = .ok session)
    (distinct : Distinct session)
    : ∃ stats,
        (run graph).outcome = .ok stats
        ∧ stats.changed = false
        ∧ (run graph).graph = graph := by
  have merged : mergeNodes [] 0 session.index.ordered session = .ok 0 session :=
    mergeNodes_of_nodup distinct (fun key _ => rfl) 0
  rw [run, started]
  dsimp only
  rw [merged]
  exact ⟨_, rfl, rfl, Session.graph_of_start started⟩

theorem distinct_of_run (started : Session.start graph = .ok session) {stats : PassStats}
    (fine : (run graph).outcome = .ok stats) (unchanged : stats.changed = false)
    : Distinct session ∧ (run graph).graph = graph := by
  rw [run, started] at fine ⊢
  dsimp only at fine ⊢
  cases done : mergeNodes [] 0 session.index.ordered session with
  | error error next =>
      rw [done] at fine
      cases fine
  | ok merged next =>
      rw [done] at fine
      obtain rfl := Except.ok.inj fine
      rw [decide_eq_false_iff_not, Nat.pos_iff_ne_zero, not_not] at unchanged
      obtain ⟨rfl, distinct, -⟩ := (nodup_of_mergeNodes done).2 unchanged
      exact ⟨distinct, Session.graph_of_start started⟩

theorem Distinct.mirror (distinct : Distinct session) (described : session.Described ids)
    (described' : other.Described ids) (promoted : session.graph.Promoted other.graph)
    : Distinct other := by
  have mirrors := Session.mirrors_of_described described described' promoted
  rw [Distinct, described.ordered_eq] at distinct
  rw [Distinct, described'.ordered_eq]
  refine List.Nodup.sublist ?_ distinct
  clear distinct described described'
  induction ids with
  | nil => exact .slnil
  | cons first rest ih =>
      rw [keys, keys, List.filterMap_cons, List.filterMap_cons]
      have related := mirrors.node? first
      generalize session.node? first = before at related ⊢
      generalize other.node? first = after at related ⊢
      cases related with
      | none => exact ih
      | some promoted =>
          cases promoted with
          | same =>
              rw [Option.bind_some]
              split_ifs
              · exact ih
              · exact ih.cons_cons _
          | inplace copies =>
              simp only [Option.bind_some, Operation.isInplace, copies, if_true,
                Bool.false_eq_true, if_false]
              exact ih.cons _

end Sharing

-----------------------------------------------------------------------------------------
-- Liveness
-----------------------------------------------------------------------------------------

namespace Liveness

theorem keepLive_sublist (outputs : List ValueId) (body : List Node)
    : (keepLive outputs body).1.Sublist body := by
  induction body with
  | nil => exact .slnil
  | cons node rest ih =>
      rw [keepLive]
      dsimp only
      split_ifs
      · exact ih.cons_cons node
      · exact ih.cons node

/-- As many nodes are kept behind promotions, by induction on the body. -/
theorem keepLive_promoted {body body' : List Node} (each : List.Forall₂ Node.Promoted body body')
    (outputs : List ValueId)
    : (keepLive outputs body').1.length = (keepLive outputs body).1.length
      ∧ (keepLive outputs body').2 = (keepLive outputs body).2 := by
  induction each with
  | nil => exact ⟨rfl, rfl⟩
  | cons here _ ih =>
      obtain ⟨kept, live⟩ := ih
      rw [keepLive, keepLive]
      dsimp only
      rw [live, here.value, here.reads]
      split_ifs
      · exact ⟨congrArg (· + 1) kept, rfl⟩
      · exact ⟨kept, rfl⟩

/-- All nodes of a graph are kept. -/
def Complete (graph : Graph) : Prop :=
  (keepLive graph.outputs graph.body).1.length = graph.body.length

theorem run_of_complete (complete : Complete graph)
    : ∃ stats,
        (run graph).outcome = .ok stats
        ∧ stats.changed = false
        ∧ (run graph).graph = graph := by
  have kept := (keepLive_sublist graph.outputs graph.body).eq_of_length complete
  refine ⟨_, rfl, ?_, ?_⟩
  · dsimp only
    rw [complete, Nat.sub_self]
    rfl
  · rw [run]
    dsimp only
    rw [kept]

theorem complete_of_run {stats : PassStats} (fine : (run graph).outcome = .ok stats)
    (unchanged : stats.changed = false)
    : Complete graph := by
  obtain rfl := Except.ok.inj fine
  dsimp only at unchanged
  rw [decide_eq_false_iff_not, Nat.pos_iff_ne_zero, not_not, Nat.sub_eq_zero_iff_le] at unchanged
  exact Nat.le_antisymm (keepLive_sublist graph.outputs graph.body).length_le unchanged

theorem Complete.mirror (complete : Complete graph) (promoted : graph.Promoted after)
    : Complete after := by
  rw [Complete, promoted.outputs, (keepLive_promoted promoted.body graph.outputs).1, complete]
  exact promoted.body.length_eq

end Liveness

end Dataflow
