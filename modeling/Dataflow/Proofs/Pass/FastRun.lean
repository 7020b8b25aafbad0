import Dataflow.Proofs.Pass.WellTyped
import Dataflow.Proofs.Rewrite.Liveness

/-!
Sharing and dropping dead nodes keeps what a graph computes. A node that is shared makes the value of
the node that takes its place, and it reads the same, so whatever was live stays live. In a body in
order, the nodes that are kept are those whose values are live, so an interpretation solves what is
kept of a graph iff each live node makes its value. Nothing is asked of a backend, nor of the values
of inputs.
-/

namespace Dataflow

-----------------------------------------------------------------------------------------
-- Dead nodes
-----------------------------------------------------------------------------------------

namespace Graph

variable {narrow : Prop} {backend : Backend} {graph : Graph} {given results : List Value}
  {i : Interpretation} {node : Node} {id : ValueId}

/-- The graph without its dead nodes. -/
def pruned (graph : Graph) : Graph := (Liveness.run graph).graph

/-- What reads a node stands behind it. -/
theorem Ordered.mem_back_of_reads (ordered : graph.Ordered) {front back : List Node}
    (split : graph.body = front ++ node :: back) {reader : Node} (member : reader ∈ graph.body)
    (reads : node.value ∈ reader.reads)
    : reader ∈ back := by
  have here : graph.body[front.length]? = some node := by simp [split]
  obtain ⟨place, there⟩ := List.mem_iff_getElem?.mp member
  have behind := ordered.position_lt here (ordered.reads there _ reads)
  obtain ⟨gap, rfl⟩ := Nat.exists_eq_add_of_lt behind
  rw [split, List.getElem?_append_right behind.le, Nat.add_assoc, Nat.add_sub_cancel_left] at there
  exact List.mem_of_getElem? there

/-- A live value is live behind the node that produces it. By induction on the way from an output to
the value: whatever reads it stands behind the node.
-/
theorem Live.mem_keepLive (live : graph.Live id) (ordered : graph.Ordered) {front back : List Node}
    (split : graph.body = front ++ node :: back) (same : node.value = id)
    : id ∈ (Liveness.keepLive graph.outputs back).2 := by
  induction live generalizing front node back with
  | shown output =>
      have outputs := Liveness.live_subset_append graph.outputs back []
      rw [List.append_nil] at outputs
      exact outputs output
  | @read reader id member _ reads ih =>
      subst same
      have later := ordered.mem_back_of_reads split member reads
      obtain ⟨between, rest, rfl⟩ := List.append_of_mem later
      have split : graph.body = (front ++ node :: between) ++ reader :: rest := by simpa using split
      have kept := ih split rfl
      refine Liveness.live_subset_append _ between _ ?_
      rw [Liveness.keepLive]
      dsimp only
      rw [if_pos (List.contains_iff_mem.mpr kept)]
      exact List.mem_append_left _ reads

theorem mem_pruned (ordered : graph.Ordered)
    : node ∈ graph.pruned.body ↔ node ∈ graph.body ∧ graph.Live node.value := by
  refine Liveness.mem_keepLive_iff.trans ⟨?_, ?_⟩
  · intro ⟨front, back, split, live⟩
    have subset : back ⊆ graph.body := by simp [split]
    exact ⟨split ▸ List.mem_append_right _ List.mem_cons_self, live_of_mem_keepLive subset live⟩
  · intro ⟨member, live⟩
    obtain ⟨front, back, split⟩ := List.append_of_mem member
    exact ⟨front, back, split, live.mem_keepLive ordered split rfl⟩

theorem WellTyped.pruned (typed : graph.WellTyped narrow) : graph.pruned.WellTyped narrow :=
  (Liveness.leadsTo_run typed).typed

/-- What solves a graph solves what is kept of it. -/
theorem solves_pruned (solves : i.Solves backend graph given results) (ordered : graph.Ordered)
    : i.Solves backend graph.pruned given results where
  given := solves.given
  nodes node member := solves.nodes node ((mem_pruned ordered).mp member).1
  results := solves.results

/-- If all nodes are live, then all of them are kept. -/
theorem solves_of_pruned (solves : i.Solves backend graph.pruned given results)
    (ordered : graph.Ordered) (live : ∀ node ∈ graph.body, graph.Live node.value)
    : i.Solves backend graph given results where
  given := solves.given
  nodes node member := solves.nodes node ((mem_pruned ordered).mpr ⟨member, live node member⟩)
  results := solves.results

end Graph

-----------------------------------------------------------------------------------------
-- Sharing
-----------------------------------------------------------------------------------------

variable {narrow : Prop} {backend : Backend} {given results : List Value} {limit : Nat}

namespace Graph

/-- What sharing keeps of a graph: its results, its live nodes, and that nodes work on copies. -/
structure Shares (backend : Backend) (given : List Value) (original current : Graph) : Prop where
  inputTypes : current.inputTypes = original.inputTypes
  copies : ∀ node ∈ current.body, node.operation.isInplace = false
  solved
    : ∀ results,
        (∃ i : Interpretation, i.Solves backend current given results)
        ↔ ∃ i : Interpretation, i.Solves backend original given results
  live
    : (∀ node ∈ original.body, original.Live node.value)
      → ∀ node ∈ current.body, current.Live node.value

namespace Shares

variable {graph original current : Graph} {position : Nat} {node first : Node}

theorem refl (copies : ∀ node ∈ graph.body, node.operation.isInplace = false)
    : graph.Shares backend given graph :=
  ⟨rfl, copies, fun _ => Iff.rfl, id⟩

/-- The first node of a key takes the place of a later one. -/
theorem replaced (shares : original.Shares backend given current) (typed : current.WellTyped narrow)
    (repeats : Sharing.Repeats current position node first)
    : original.Shares backend given (current.replaced position node.value first.value) := by
  have operation : first.operation = node.operation := congrArg Sharing.Key.operation repeats.same
  have operands : first.operands = node.operands := congrArg Sharing.Key.operands repeats.same
  have makes (i : Interpretation) (solves : i.Solves backend (current.front position) given [])
      : i.Makes backend node.operation node.operands (i first.value) :=
    operation ▸ operands ▸ solves.nodes first repeats.before
  refine ⟨shares.inputTypes, fun changed member => ?_, fun results => ?_, fun live => ?_⟩
  · obtain ⟨other, there, rfl⟩ := List.mem_map.mp member
    exact shares.copies other (List.mem_of_mem_eraseIdx there)
  · rw [← shares.solved results]
    constructor
    · rintro ⟨i, solves⟩
      have front := solves.front position
      rw [front_replaced typed repeats.found] at front
      exact ⟨_, solves.of_replaced typed.ordered repeats.found (makes i front)⟩
    · rintro ⟨i, solves⟩
      have made := solves.nodes node (List.mem_of_getElem? repeats.found)
      exact ⟨i, solves.replaced (made.unique (makes i (solves.front position))) position⟩
  · have among : first ∈ current.body.eraseIdx position := by
      rw [List.eraseIdx_eq_take_drop_succ]
      exact List.mem_append_left _ repeats.before
    intro changed member
    obtain ⟨other, there, rfl⟩ := List.mem_map.mp member
    have carried
        : current.Carries (fun _ => False) position node.value first.value other.value := by
      have before := shares.live live other (List.mem_of_mem_eraseIdx there)
      refine before.carries typed.distinct repeats.found fun here read reads => .inl ?_
      refine .read (List.mem_map_of_mem among) here ?_
      rw [Session.reads_redirectNode]
      refine List.mem_map_of_mem ?_
      rwa [Node.reads, operands]
    rw [Carries, if_neg (ne_of_mem_eraseIdx typed.distinct repeats.found there)] at carried
    rcases carried with live | ⟨_, _, _, impossible, _⟩
    · exact live
    · exact impossible.elim

end Shares

end Graph

-----------------------------------------------------------------------------------------
-- Both passes
-----------------------------------------------------------------------------------------

namespace Catalog

variable {graph : Graph}

/-- If sharing succeeds, then the dead nodes of what it leaves are dropped. -/
theorem run_fastRun_of_shared {stats : PassStats} (shared : (Sharing.run graph).outcome = .ok stats)
    : (∃ stats, (fastRun.pass.run limit graph).outcome = .ok stats)
      ∧ (fastRun.pass.run limit graph).graph = (Sharing.run graph).graph.pruned := by
  have first
      : ((PassRun.start graph).andThen limit Sharing.pass).outcome
        = .ok (PassStats.none.merge stats) := by
    change (Sharing.run graph).outcome.map _ = _
    rw [shared]
    rfl
  rw [run_fastRun, PassRun.andThen, first]
  exact ⟨⟨_, rfl⟩, rfl⟩

/-- On graphs that destroy nothing, sharing and dropping dead nodes always succeeds. On any backend
and any inputs, the results of the graph are the results of what is left; and if all nodes were live,
then inputs on which the graph fails are such on which that fails.
-/
theorem fastRun_preserves (typed : graph.WellTyped narrow)
    (copies : ∀ node ∈ graph.body, node.operation.isInplace = false) (limit : Nat)
    : stock.pass "fast_run" = .ok fastRun.pass
      ∧ (∃ stats, (fastRun.pass.run limit graph).outcome = .ok stats)
      ∧ ∀ (backend : Backend) (inputs : List Value),
          (∀ results,
              (Run.graph backend graph false inputs).outcome = .ok results
              → (Run.graph backend (fastRun.pass.run limit graph).graph false inputs).outcome
                = .ok results)
          ∧ ((∀ node ∈ graph.body, graph.Live node.value)
              → ∀ error, (Run.graph backend graph false inputs).outcome = .error error
              → ∃ error',
                  (Run.graph backend (fastRun.pass.run limit graph).graph false inputs).outcome
                    = .error error') := by
  have shares (backend : Backend) (inputs : List Value)
      : (Sharing.run graph).graph.WellTyped narrow
        ∧ graph.Shares backend inputs (Sharing.run graph).graph
        ∧ ∃ stats, (Sharing.run graph).outcome = .ok stats :=
    Sharing.exists_run (fun typed repeats shares => shares.replaced typed repeats) typed (.refl copies)
  obtain ⟨-, -, _, shared⟩ := shares .reference []
  obtain ⟨fine, left⟩ := @run_fastRun_of_shared limit graph _ shared
  refine ⟨rfl, fine, fun backend inputs => ?_⟩
  obtain ⟨typed', shares, -⟩ := shares backend inputs
  have ordered := typed'.ordered
  have before (results : List Value) :=
    @Run.graph_eq_ok_iff_solves _ backend _ inputs results typed copies
  have after (results : List Value) :=
    @Run.graph_eq_ok_iff_solves _ backend _ inputs results typed'.pruned fun node member =>
      shares.copies node ((Graph.mem_pruned ordered).mp member).1
  have accepts : (Sharing.run graph).graph.pruned.Accepts inputs ↔ graph.Accepts inputs := by
    rw [Graph.Accepts, Graph.Accepts, ← shares.inputTypes]
    rfl
  rw [left]
  constructor
  · intro results done
    obtain ⟨accepted, solved⟩ := (before results).mp done
    obtain ⟨i, solves⟩ := (shares.solved results).mpr solved
    exact (after results).mpr ⟨accepts.mpr accepted, i, Graph.solves_pruned solves ordered⟩
  · intro live error failed
    cases outcome
        : (Run.graph backend (Sharing.run graph).graph.pruned false inputs).outcome with
    | error error' => exact ⟨error', rfl⟩
    | ok results =>
        obtain ⟨accepted, i, solves⟩ := (after results).mp outcome
        have solved := Graph.solves_of_pruned solves ordered (shares.live live)
        have done := (before results).mpr
          ⟨accepts.mp accepted, (shares.solved results).mp ⟨i, solved⟩⟩
        cases failed.symm.trans done

/-- A graph that takes the second element of a vector twice and adds what it took. -/
def doubledElement : Graph where
  name := "doubled"
  inputTypes := [.tensor ⟨.si64, ⟨[.unknown]⟩⟩]
  inputs := [⟨0⟩]
  outputTypes := [.tensor ⟨.si64, ⟨[]⟩⟩]
  body :=
    [⟨⟨1⟩, .subtensor [.scalar (.static 1)], [.value ⟨0⟩], .tensor ⟨.si64, ⟨[]⟩⟩⟩,
      ⟨⟨2⟩, .subtensor [.scalar (.static 1)], [.value ⟨0⟩], .tensor ⟨.si64, ⟨[]⟩⟩⟩,
      ⟨⟨3⟩, .binary .add, [.value ⟨1⟩, .value ⟨2⟩], .tensor ⟨.si64, ⟨[]⟩⟩⟩]
  outputs := [⟨3⟩]

/-- The calls that build `doubledElement`. -/
def doubledElementCalls : List Builder.Call :=
  [.input (.tensor ⟨.si64, ⟨[.unknown]⟩⟩), .node (.subtensor [.scalar (.static 1)]) [.value ⟨0⟩],
    .node (.subtensor [.scalar (.static 1)]) [.value ⟨0⟩],
    .node (.binary .add) [.value ⟨1⟩, .value ⟨2⟩]]

/-- The element is taken once, and a vector without a second element is still refused. -/
theorem doubledElement_preserved
    : (Builder.afterCalls doubledElementCalls).finish "doubled" [⟨3⟩] = .ok doubledElement
      ∧ (fastRun.pass.run 10000 doubledElement).graph.body.length = 2
      ∧ (Run.graph .reference (fastRun.pass.run 10000 doubledElement).graph false
            [.tensor ⟨[2], .si64 [5, 7]⟩]).outcome
          = .ok [.tensor ⟨[], .si64 [14]⟩]
      ∧ ∃ error,
          (Run.graph .reference (fastRun.pass.run 10000 doubledElement).graph false
              [.tensor ⟨[1], .si64 [5]⟩]).outcome
            = .error error := by
  have built
      : (Builder.afterCalls doubledElementCalls).finish "doubled" [⟨3⟩] = .ok doubledElement := rfl
  have copies : ∀ node ∈ doubledElement.body, node.operation.isInplace = false := by decide
  have live : ∀ node ∈ doubledElement.body, doubledElement.Live node.value := by
    have kept : ∀ node ∈ doubledElement.body,
        node.value ∈ (Liveness.keepLive doubledElement.outputs doubledElement.body).2 := by decide
    exact fun node member => Graph.live_of_mem_keepLive (List.Subset.refl _) (kept node member)
  obtain ⟨-, -, preserved⟩ :=
    fastRun_preserves (Builder.wellTyped_of_finish built) copies 10000
  refine ⟨built, by decide +kernel, ?_, ?_⟩
  · exact (preserved .reference [.tensor ⟨[2], .si64 [5, 7]⟩]).1 _ (by rfl)
  · exact (preserved .reference [.tensor ⟨[1], .si64 [5]⟩]).2 live _ (by rfl)

end Catalog

end Dataflow
