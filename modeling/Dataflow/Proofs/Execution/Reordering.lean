import Dataflow.Proofs.Execution.Interpretations
import Dataflow.Proofs.Execution.Runs
import Dataflow.Proofs.Rewrite.Acyclic

/-!
Bodies in other orders. Where nothing is destroyed, a run has results iff there is an environment in
which every node produces the value that is found there. That does not depend on the order of the
body, so a run of a body in another order has the same results, or both runs fail.
-/

namespace Dataflow

-----------------------------------------------------------------------------------------
-- Sorting
-----------------------------------------------------------------------------------------

namespace Graph

variable {graph : Graph}

/-- A body in another order can be sorted iff the body can be. -/
theorem exists_sortedPositions_perm (distinct : graph.defined.Nodup) {body : List Node}
    (perm : body.Perm graph.body)
    : (∃ order, sortedPositions { graph with body } = .ok order)
      ↔ ∃ order, graph.sortedPositions = .ok order := by
  have defined : (Graph.defined { graph with body }).Perm graph.defined :=
    (perm.map _).append_left graph.inputs
  rw [exists_sortedPositions_iff (defined.nodup_iff.mpr distinct),
    exists_sortedPositions_iff distinct]
  refine and_congr ?_ (exists_congr fun rank => ?_)
  · refine forall_congr' fun node => imp_congr perm.mem_iff ?_
    exact forall₂_congr fun value _ => defined.mem_iff
  · exact forall_congr' fun node => imp_congr perm.mem_iff Iff.rfl

end Graph

namespace Run

-----------------------------------------------------------------------------------------
-- Nodes in order
-----------------------------------------------------------------------------------------

/-- Nodes produce different values, and no node reads what it or a later one produces. -/
structure Forward (nodes : List Node) : Prop where
  distinct : (nodes.map (·.value)).Nodup
  reads
    : ∀ {first second : Nat} {reader producer : Node},
        first ≤ second → nodes[first]? = some reader → nodes[second]? = some producer
        → producer.value ∉ reader.reads

theorem Forward.of_ordered {graph : Graph} (ordered : graph.Ordered) : Forward graph.body where
  distinct := (List.nodup_append.mp ordered.distinct).2.1
  reads le atFirst atSecond read :=
    Graph.value_not_before ordered.distinct atSecond
      (Graph.definedBefore_mono le (ordered.reads atFirst _ read))

/-- The first node reads what no node produces, and no other one produces its value. -/
theorem Forward.of_cons {node : Node} {rest : List Node} (forward : Forward (node :: rest))
    : (∀ read ∈ node.reads, read ∉ (node :: rest).map (·.value))
      ∧ node.value ∉ rest.map (·.value)
      ∧ Forward rest := by
  have distinct := forward.distinct
  rw [List.map_cons, List.nodup_cons] at distinct
  refine ⟨?_, distinct.1, distinct.2, ?_⟩
  · intro read reads produced
    obtain ⟨producer, member, rfl⟩ := List.mem_map.mp produced
    obtain ⟨place, found⟩ := List.mem_iff_getElem?.mp member
    exact forward.reads (Nat.zero_le place) rfl found reads
  · intro first second reader producer le atFirst atSecond
    exact forward.reads (Nat.succ_le_succ le) atFirst atSecond

-----------------------------------------------------------------------------------------
-- Settled environments
-----------------------------------------------------------------------------------------

variable {backend : Backend} {graph : String} {checkFinite : Bool}
  {start after settled : Environment} {entries : List (Nat × Node)}

/-- What a node produces depends on what it reads. -/
theorem produce_congr {node : Node} (position : Nat)
    (agree : ∀ read ∈ node.reads, start.get? read = after.get? read)
    : produce backend graph checkFinite start position node
      = produce backend graph checkFinite after position node := by
  have same
      : node.operands.mapM (operandValue start node.value)
        = node.operands.mapM (operandValue after node.value) := by
    refine Steps.mapM_congr fun operand member => ?_
    cases operand with
    | literal literal => rfl
    | value id =>
        rw [operandValue, operandValue, agree id (List.mem_filterMap.mpr ⟨_, member, rfl⟩)]
  rw [produce, produce, same]

/-- What a node produces does not depend on where it stands. -/
theorem produce_elsewhere {node : Node} {first : Nat} {value : Value}
    (done : produce backend graph checkFinite start first node = .ok value) (second : Nat)
    : produce backend graph checkFinite start second node = .ok value := by
  rw [produce] at done ⊢
  simpa only [Steps.bind_eq_ok_iff, Steps.mapError_eq_ok_iff] using done

/-- An environment is settled: each node produces the value that is found there, and everything else
is found as at the start.
-/
structure Settles (backend : Backend) (graph : String) (checkFinite : Bool)
    (start settled : Environment) (body : List Node) : Prop where
  kept : ∀ id, id ∉ body.map (·.value) → settled.get? id = start.get? id
  nodes
    : ∀ node ∈ body, ∃ value,
        settled.get? node.value = some value
        ∧ ∀ position, produce backend graph checkFinite settled position node = .ok value

theorem Settles.perm {body other : List Node}
    (settles : Settles backend graph checkFinite start settled body) (perm : other.Perm body)
    : Settles backend graph checkFinite start settled other where
  kept id absent := settles.kept id fun member => absent ((perm.map _).mem_iff.mpr member)
  nodes node member := settles.nodes node (perm.mem_iff.mp member)

/-- Evaluating nodes in order leads to an environment that is settled, by induction on the nodes: what
one of them reads stays as it is.
-/
theorem settles_of_evaluate (forward : Forward (entries.map (·.2)))
    (copies : ∀ entry ∈ entries, entry.2.operation.isInplace = false)
    (done : evaluate backend graph checkFinite start entries = .ok after)
    : Settles backend graph checkFinite start after (entries.map (·.2)) := by
  induction entries generalizing start with
  | nil =>
      obtain rfl := Except.ok.inj done
      exact ⟨fun _ _ => rfl, fun _ member => absurd member List.not_mem_nil⟩
  | cons entry rest ih =>
      obtain ⟨position, node⟩ := entry
      obtain ⟨copiesHere, copies⟩ := List.forall_mem_cons.mp copies
      obtain ⟨apart, fresh, forward⟩ := Forward.of_cons forward
      rw [evaluate, withoutConsumed_of_copies copiesHere] at done
      obtain ⟨value, produced, done⟩ := Steps.bind_eq_ok_iff.mp done
      obtain ⟨kept, nodes⟩ := ih forward copies done
      have before
          : ∀ id, id ∉ (node :: rest.map (·.2)).map (·.value)
            → after.get? id = start.get? id := by
        intro id absent
        rw [List.map_cons, List.mem_cons, not_or] at absent
        rw [kept id absent.2, Table.get?_set, if_neg (Ne.symm absent.1)]
      refine ⟨before, List.forall_mem_cons.mpr ⟨⟨value, ?_, fun other => ?_⟩, nodes⟩⟩
      · rw [kept _ fresh, Table.get?_set, if_pos rfl]
      · refine (produce_congr other fun read reads => ?_).trans (produce_elsewhere produced other)
        exact before read (apart read reads)

/-- Nodes in order are evaluated to what is found in an environment that is settled, by induction on
the nodes.
-/
theorem evaluate_of_settles (forward : Forward (entries.map (·.2)))
    (copies : ∀ entry ∈ entries, entry.2.operation.isInplace = false)
    (settles : Settles backend graph checkFinite start settled (entries.map (·.2)))
    : ∃ after,
        evaluate backend graph checkFinite start entries = .ok after
        ∧ ∀ id, after.get? id = settled.get? id := by
  induction entries generalizing start with
  | nil => exact ⟨start, rfl, fun id => (settles.kept id List.not_mem_nil).symm⟩
  | cons entry rest ih =>
      obtain ⟨position, node⟩ := entry
      obtain ⟨copiesHere, copies⟩ := List.forall_mem_cons.mp copies
      obtain ⟨apart, fresh, forward⟩ := Forward.of_cons forward
      obtain ⟨⟨value, found, produces⟩, nodes⟩ := List.forall_mem_cons.mp settles.nodes
      have produced : produce backend graph checkFinite start position node = .ok value := by
        rw [← produces position]
        exact produce_congr position fun read reads => (settles.kept read (apart read reads)).symm
      have next : Settles backend graph checkFinite (start.set node.value value) settled
          (rest.map (·.2)) := by
        refine ⟨fun id absent => ?_, nodes⟩
        rw [Table.get?_set]
        split_ifs with same
        · rw [← same, found]
        · refine settles.kept id fun member => ?_
          rw [List.map_cons, List.map_cons, List.mem_cons] at member
          exact member.elim (fun own => same own.symm) absent
      obtain ⟨after, done, holds⟩ := ih forward copies next
      refine ⟨after, ?_, holds⟩
      rw [evaluate, produced, Steps.ok_bind, withoutConsumed_of_copies copiesHere]
      exact done

-----------------------------------------------------------------------------------------
-- Whole runs
-----------------------------------------------------------------------------------------

variable {graph : Graph} {given results : List Value}

/-- The nodes of a schedule are those of the sorted body. -/
theorem schedule_eq_ok_iff
    : schedule graph = .ok entries
      ↔ ∃ order,
          graph.sortedPositions = .ok order
          ∧ (order.filterMap fun position =>
              graph.body[position]?.map fun node => (position, node)) = entries := by
  rw [schedule]
  cases graph.sortedPositions <;> simp

/-- A run has results iff the inputs are bound, the body is sorted, the nodes are evaluated and the
outputs are found.
-/
theorem outcome_eq_ok_iff_evaluate
    : (Run.graph backend graph checkFinite given).outcome = .ok results
      ↔ ∃ start entries after,
          bound graph checkFinite given = .ok start
          ∧ schedule graph = .ok entries
          ∧ evaluate backend graph.name checkFinite start entries = .ok after
          ∧ graph.outputs.map after.get? = results.map some := by
  have prepared {start : Environment} {entries : List (Nat × Node)}
      : prepare graph checkFinite given = .ok (start, entries)
        ↔ bound graph checkFinite given = .ok start ∧ schedule graph = .ok entries := by
    rw [prepare, bound]
    split_ifs
    · simp
    · simp only [Steps.bind_eq_ok_iff, Except.ok.injEq, Prod.mk.injEq]
      constructor
      · rintro ⟨_, scheduled, _, bounded, rfl, rfl⟩
        exact ⟨bounded, scheduled⟩
      · rintro ⟨bounded, scheduled⟩
        exact ⟨entries, scheduled, start, bounded, rfl, rfl⟩
  rw [Run.graph, graphWith]
  cases ready : prepare graph checkFinite given with
  | error error =>
      refine iff_of_false (fun same => by cases same) ?_
      rintro ⟨start, entries, after, bounded, scheduled, -⟩
      cases ready.symm.trans (prepared.mpr ⟨bounded, scheduled⟩)
  | ok pair =>
      obtain ⟨start, entries⟩ := pair
      obtain ⟨bounded, scheduled⟩ := prepared.mp ready
      change (runNodes backend.executor graph.name checkFinite start [] entries).2 >>= _ = _ ↔ _
      rw [runNodes_outcome, Steps.bind_eq_ok_iff]
      simp only [mapM_outputValue_eq_ok_iff, bounded, scheduled, Except.ok.injEq,
        exists_and_left, exists_eq_left']

section

variable (distinct : graph.defined.Nodup)
  (copies : ∀ node ∈ graph.body, node.operation.isInplace = false)

include distinct copies

/-- A run of a graph that destroys nothing has results iff the body can be sorted and the results are
found in an environment that the graph settles.
-/
theorem outcome_eq_ok_iff_settles
    : (Run.graph backend graph checkFinite given).outcome = .ok results
      ↔ (∃ order, graph.sortedPositions = .ok order)
        ∧ ∃ start settled,
            bound graph checkFinite given = .ok start
            ∧ Settles backend graph.name checkFinite start settled graph.body
            ∧ graph.outputs.map settled.get? = results.map some := by
  have scheduled {order : List Nat} (sorted : graph.sortedPositions = .ok order)
      : ∃ entries, schedule graph = .ok entries ∧ (entries.map (·.2)).Perm graph.body
          ∧ Forward (entries.map (·.2))
          ∧ ∀ entry ∈ entries, entry.2.operation.isInplace = false := by
    have body := Graph.filterMap_getElem?_perm (Graph.sortedPositions_perm sorted)
    have ordered := ((Graph.ReadsKnown.of_sorted sorted).closed distinct).ordered_permute sorted
    refine ⟨_, schedule_eq_ok_iff.mpr ⟨order, sorted, rfl⟩, ?_⟩
    have nodes
        : (order.filterMap fun position =>
              graph.body[position]?.map fun node => (position, node)).map (·.2)
          = Graph.permute graph.body order := by
      rw [List.map_filterMap]
      refine congrArg (List.filterMap · _) (funext fun position => ?_)
      rw [Option.map_map]
      exact Option.map_id'
    refine ⟨nodes ▸ body, nodes ▸ .of_ordered ordered, fun entry member => ?_⟩
    have listed : entry.2 ∈ Graph.permute graph.body order := nodes ▸ List.mem_map_of_mem member
    exact copies _ (body.mem_iff.mp listed)
  rw [outcome_eq_ok_iff_evaluate]
  constructor
  · rintro ⟨start, entries, after, bounded, listed, evaluated, found⟩
    obtain ⟨order, sorted, -⟩ := schedule_eq_ok_iff.mp listed
    obtain ⟨_, again, perm, forward, copies⟩ := scheduled sorted
    obtain rfl := Except.ok.inj (listed.symm.trans again)
    exact ⟨⟨order, sorted⟩, start, after, bounded,
      (settles_of_evaluate forward copies evaluated).perm perm.symm, found⟩
  · rintro ⟨⟨order, sorted⟩, start, settled, bounded, settles, found⟩
    obtain ⟨entries, listed, perm, forward, copies⟩ := scheduled sorted
    obtain ⟨after, evaluated, holds⟩ := evaluate_of_settles forward copies (settles.perm perm)
    exact ⟨start, entries, after, bounded, listed, evaluated, funext holds ▸ found⟩

/-- A run of a body in another order has the results that a run of the body has. -/
theorem outcome_perm {body : List Node} (perm : body.Perm graph.body)
    : (Run.graph backend { graph with body } checkFinite given).outcome = .ok results
      ↔ (Run.graph backend graph checkFinite given).outcome = .ok results := by
  have defined : (Graph.defined { graph with body }).Perm graph.defined :=
    (perm.map _).append_left graph.inputs
  rw [outcome_eq_ok_iff_settles (defined.nodup_iff.mpr distinct)
      fun node member => copies node (perm.mem_iff.mp member),
    outcome_eq_ok_iff_settles distinct copies, Graph.exists_sortedPositions_perm distinct perm]
  refine and_congr_right fun _ => exists₂_congr fun start settled => and_congr_right fun _ => ?_
  exact and_congr_left fun _ =>
    ⟨fun settles => settles.perm perm.symm, fun settles => settles.perm perm⟩

/-- Runs of a graph with its nodes in two orders have the same results, or both of them fail. -/
theorem results_or_errors_perm {body : List Node} (perm : body.Perm graph.body)
    : (∃ results,
          (Run.graph backend { graph with body } checkFinite given).outcome = .ok results
          ∧ (Run.graph backend graph checkFinite given).outcome = .ok results)
      ∨ ∃ error other,
          (Run.graph backend { graph with body } checkFinite given).outcome = .error error
          ∧ (Run.graph backend graph checkFinite given).outcome = .error other := by
  have same := fun results => @outcome_perm backend checkFinite graph given results distinct copies
    body perm
  cases left : (Run.graph backend { graph with body } checkFinite given).outcome with
  | ok results => exact .inl ⟨results, rfl, (same results).mp left⟩
  | error error =>
      cases right : (Run.graph backend graph checkFinite given).outcome with
      | ok results => cases left.symm.trans ((same results).mpr right)
      | error other => exact .inr ⟨error, other, rfl, rfl⟩

/-- If types describe the graph, then no promise is broken: runs that fail are refused. -/
theorem results_or_refused_perm {types : Types} (graphTyped : graph.TypedBy types)
    {body : List Node} (perm : body.Perm graph.body) (valid : ∀ value ∈ given, value.Valid)
    : (∃ results,
          (Run.graph .reference { graph with body } checkFinite given).outcome = .ok results
          ∧ (Run.graph .reference graph checkFinite given).outcome = .ok results)
      ∨ (Run.graph .reference { graph with body } checkFinite given).outcome.Refused
        ∧ (Run.graph .reference graph checkFinite given).outcome.Refused := by
  have otherTyped : Graph.TypedBy { graph with body } types :=
    ⟨graphTyped.inputs, fun node member => graphTyped.nodes node (perm.mem_iff.mp member),
      graphTyped.outputs⟩
  have respects := respects_of_typedBy Backend.reference_sound graphTyped checkFinite valid
  have respectsOther := respects_of_typedBy Backend.reference_sound otherTyped checkFinite valid
  obtain results | ⟨error, other, left, right⟩ := @results_or_errors_perm .reference checkFinite
    graph given distinct copies body perm
  · exact .inl results
  · refine .inr ⟨⟨error, left, fun breach same => ?_⟩, other, right, fun breach same => ?_⟩
    · exact respectsOther.breaches breach (same ▸ left)
    · exact respects.breaches breach (same ▸ right)

end

/-- A graph that shuffles an axis of a vector that it does not have, and then takes exponentials of
integers.
-/
def missingAxis : Graph where
  name := "missing"
  inputTypes := [.tensor ⟨.si64, .ofSizes [2]⟩]
  inputs := [⟨0⟩]
  outputTypes := []
  body :=
    [⟨⟨1⟩, .shuffle [.axis 0, .axis 1], [.value ⟨0⟩], .tensor ⟨.si64, .ofSizes [2]⟩⟩,
      ⟨⟨2⟩, .unary .exp, [.value ⟨0⟩], .tensor ⟨.si64, .ofSizes [2]⟩⟩]
  outputs := []

/-- A graph that negates the magnitudes of two integers. -/
def negatedMagnitudes : Graph where
  name := "negated"
  inputTypes := [.tensor ⟨.si64, .ofSizes [2]⟩]
  inputs := [⟨0⟩]
  outputTypes := [.tensor ⟨.si64, .ofSizes [2]⟩]
  body :=
    [⟨⟨1⟩, .unary .abs, [.value ⟨0⟩], .tensor ⟨.si64, .ofSizes [2]⟩⟩,
      ⟨⟨2⟩, .unary .neg, [.value ⟨1⟩], .tensor ⟨.si64, .ofSizes [2]⟩⟩]
  outputs := [⟨2⟩]

end Run

end Dataflow
