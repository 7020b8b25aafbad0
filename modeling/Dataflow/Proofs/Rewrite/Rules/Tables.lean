import Dataflow.Proofs.Rewrite.Rules.Inversion
import Dataflow.Proofs.Rewrite.Sweeps

/-!
What all edits keep. The rules of the library make edits and nothing else, so what every edit keeps,
whether it succeeds or fails, is kept by the rules: the tables of a session still describe its graph.
-/

namespace Dataflow

namespace Session

/-- The tables of a session describe its graph, under some names. -/
def Tracked (session : Session) : Prop := ∃ ids, session.Described ids

/-- Every edit keeps what is good about a session, whether it succeeds or fails. -/
def Persists (good : Session → Prop) : Prop :=
  ∀ (session : Session) (step : EditStep), good session → good (step.after session)

theorem persists_tracked : Persists Tracked :=
  fun _ step ⟨_, described⟩ => (EditStep.after_follows described step).described

namespace Persists

variable {good : Session → Prop} {session : Session} (persists : Persists good)
include persists

theorem erase (start : good session) (id : NodeId)
    : Leaves good True (erase id session) :=
  .of_behind (persists _ (.erase id) start)

theorem replaceNode (start : good session) (id : NodeId) (old new : ValueId)
    : Leaves good True (replaceNode id old new session) := by
  have replaced : Leaves good True (replace old new session) :=
    .of_behind (persists _ (.replace old new) start)
  exact replaced.bind fun _ _ _ here => persists.erase here id

theorem insertBefore (start : good session) (before : NodeId) (operation : Operation)
    (operands : List Operand)
    : Leaves good True (insertBefore before operation operands session) := by
  apply Leaves.of_behind
  rw [← EditStep.behind_insertBefore]
  exact persists _ (.insertBefore before operation operands) start

theorem substitute (start : good session) (id : NodeId) (old : ValueId) (operation : Operation)
    (operands : List Operand)
    : Leaves good True (substitute id old operation operands session) :=
  (persists.insertBefore start id operation operands).bind fun new _ _ here =>
    persists.replaceNode here id old new

theorem setOperation (start : good session) (id : NodeId) (operation : Operation)
    : Leaves good True (setOperation id operation session) :=
  .of_behind (persists _ (.setOperation id operation) start)

theorem dropsKeep : DropsKeep good True := fun start _ _ _ => persists.erase start _

end Persists

end Session

open Session

namespace Rules

variable {good : Session → Prop} {session : Session} (persists : Persists good)
include persists

theorem leaves_retireProjections (start : good session) (new : ValueId) (projections : List NodeId)
    : Leaves good True (projections.forM (retireProjection new) session) := by
  induction projections generalizing session with
  | nil => exact start
  | cons first rest ih =>
      have asked : Leaves good True (Session.node first session) := by
        rw [Session.node_apply]
        cases session.node? first with
        | some node => exact start
        | none => exact ⟨start, trivial⟩
      rw [List.forM_eq_forM, List.forM_cons]
      refine (asked.bind fun node _ _ here => ?_).bind fun _ _ _ here => ih here
      exact persists.replaceNode here first node.value new

theorem leaves_retireTuple (start : good session) (id : NodeId) (projections : List NodeId)
    (operation : Operation) (input : ValueId)
    : Leaves good True (retireTuple id projections operation input session) := by
  refine (persists.insertBefore start id operation _).bind fun new _ _ here => ?_
  exact (leaves_retireProjections persists here new projections).bind fun _ _ _ here =>
    persists.erase here id

/-- All rules of the library keep what all edits keep. -/
theorem keeps_of_persists {rule : Rule}
    (stock : rule ∈ Catalog.canonicalRules ++ Catalog.loweringRules ++ [promoteListMutation])
    : rule.Keeps good True := by
  intro session id plan start planned
  simp only [Catalog.canonicalRules, Catalog.loweringRules, List.cons_append, List.nil_append,
    List.mem_cons, List.not_mem_nil, or_false] at stock
  rcases stock with rfl | rfl | rfl | rfl | rfl | rfl | rfl | rfl | rfl | rfl | rfl | rfl | rfl
  · obtain ⟨_, _, _, _, _, _, _, _, _, rfl⟩ := plan_eliminateIdentityShuffle.mp planned
    exact (persists.replaceNode start ..).lift
  · obtain ⟨_, _, _, _, _, _, _, _, _, _, _, _, _, _, rfl⟩ := plan_collapseShuffleChain.mp planned
    split_ifs
    · exact (persists.replaceNode start ..).lift
    · exact (persists.substitute start ..).lift
  · obtain ⟨_, _, _, _, _, _, _, rfl⟩ := plan_eliminateDoubleNegation.mp planned
    exact (persists.replaceNode start ..).lift
  · obtain ⟨_, _, _, _, _, _, _, _, rfl⟩ := plan_maxAndArgMaxToReduce.mp planned
    exact (leaves_retireTuple persists start ..).lift
  · obtain ⟨_, _, _, _, _, _, _, _, rfl⟩ := plan_maxAndArgMaxToArgMax.mp planned
    exact (leaves_retireTuple persists start ..).lift
  · obtain ⟨_, _, _, _, _, _, _, _, _, _, _, _, _, _, _, rfl⟩ := plan_localMaxToMin.mp planned
    exact (persists.substitute start ..).lift
  · obtain ⟨_, _, _, _, _, _, _, _, _, _, _, rfl⟩ := plan_reduceOfNegation.mp planned
    exact (persists.insertBefore start ..).lift.bind fun _ _ _ here =>
      (persists.substitute here ..).lift
  · obtain ⟨_, _, _, _, _, _, _, _, _, _, _, _, _, _, _, _, _, _, rfl⟩ :=
      plan_shuffleOfAlloc.mp planned
    exact (persists.substitute start ..).lift
  · obtain ⟨_, _, _, _, _, _, _, _, _, _, _, _, _, _, _, rfl⟩ := plan_allocOfShuffle.mp planned
    exact (persists.substitute start ..).lift
  · obtain ⟨_, _, _, _, _, _, _, _, _, _, _, _, _, rfl⟩ := plan_reshapeOfShuffle.mp planned
    exact (persists.substitute start ..).lift
  · obtain ⟨_, _, _, _, _, _, _, _, _, _, _, chosen⟩ := plan_shuffleOfReshape.mp planned
    split at chosen
    · obtain rfl := Option.some.inj chosen
      exact ⟨start, trivial⟩
    · obtain rfl := Option.some.inj chosen
      exact (persists.substitute start ..).lift
  · obtain ⟨_, _, _, _, _, _, _, _, _, _, _, _, _, _, _, _, _, _, _, _, _, rfl⟩ :=
      plan_shuffleOfSubtensor.mp planned
    exact (persists.substitute start ..).lift
  · obtain ⟨_, _, _, _, _, _, _, rfl⟩ := plan_promoteListMutation.mp planned
    exact (persists.setOperation start ..).lift

end Rules

end Dataflow
