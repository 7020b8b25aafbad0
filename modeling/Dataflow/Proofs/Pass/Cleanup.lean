import Dataflow.Proofs.Pass.FastRun
import Dataflow.Proofs.Rewrite.Declining
import Dataflow.Proofs.Rewrite.Replacement

/-!
What the passes that only clean up do to a graph in order, in one run.

Dead nodes can be dropped in two ways. In a body in order, readers stand behind what they read, so
the first walk from the end already drops every dead node of a session: when it comes to a node,
only live readers of it are left. One walk that collects what is read keeps the same nodes.

Sharing goes the other way. Merging a node changes only nodes that stand behind it, so the keys of
the nodes in front are final, and what has been recorded tells them apart.
-/

namespace Dataflow

open Session

variable {graph : Graph} {session : Session} {node : Node}

-----------------------------------------------------------------------------------------
-- Live nodes
-----------------------------------------------------------------------------------------

namespace Graph

/-- A value is live iff an output is computed from it. -/
theorem live_iff {value : ValueId}
    : graph.Live value
      ↔ ∃ output ∈ graph.outputs, Relation.ReflTransGen graph.ReadsFrom output value := by
  constructor
  · intro live
    induction live with
    | shown output => exact ⟨_, output, .refl⟩
    | read member _ reads ih =>
        obtain ⟨output, shown, path⟩ := ih
        exact ⟨output, shown, path.tail ⟨_, member, rfl, reads⟩⟩
  · rintro ⟨output, shown, path⟩
    induction path with
    | refl => exact .shown shown
    | tail _ step ih =>
        obtain ⟨node, member, rfl, reads⟩ := step
        exact .read member ih reads

open Classical in
/-- The live nodes of a part of the body. -/
noncomputable def liveNodes (graph : Graph) (body : List Node) : List Node :=
  body.filter fun node => graph.Live node.value

theorem mem_liveNodes {body : List Node}
    : node ∈ graph.liveNodes body ↔ node ∈ body ∧ graph.Live node.value := by
  classical rw [liveNodes, List.mem_filter, decide_eq_true_eq]

theorem liveNodes_append (graph : Graph) (front back : List Node)
    : graph.liveNodes (front ++ back) = graph.liveNodes front ++ graph.liveNodes back := by
  classical rw [liveNodes, List.filter_append, liveNodes, liveNodes]

theorem liveNodes_cons_of_live (live : graph.Live node.value) (body : List Node)
    : graph.liveNodes (node :: body) = node :: graph.liveNodes body := by
  classical rw [liveNodes, List.filter_cons_of_pos (by simpa using live), liveNodes]

theorem liveNodes_cons_of_dead (dead : ¬graph.Live node.value) (body : List Node)
    : graph.liveNodes (node :: body) = graph.liveNodes body := by
  classical rw [liveNodes, List.filter_cons_of_neg (by simpa using dead), liveNodes]

/-- One walk from the end keeps the live nodes, by induction on what lies behind. -/
theorem keepLive_eq_liveNodes (ordered : graph.Ordered) {front back : List Node}
    (split : graph.body = front ++ back)
    : (Liveness.keepLive graph.outputs back).1 = graph.liveNodes back := by
  induction back generalizing front with
  | nil => rfl
  | cons node back ih =>
      have alive
          : (Liveness.keepLive graph.outputs back).2.contains node.value = true
            ↔ graph.Live node.value := by
        rw [List.contains_iff_mem]
        exact ⟨live_of_mem_keepLive (by simp [split]),
          fun live => live.mem_keepLive ordered split rfl⟩
      have rest : graph.body = (front ++ [node]) ++ back := by simpa using split
      have later := ih rest
      rw [Liveness.keepLive]
      dsimp only
      split_ifs with kept
      · rw [later, liveNodes_cons_of_live (alive.mp kept)]
      · rw [later, liveNodes_cons_of_dead (mt alive.mpr kept)]

end Graph

-----------------------------------------------------------------------------------------
-- Sessions
-----------------------------------------------------------------------------------------

/-- Behind a node only live nodes are left, so the node is used iff it is live. -/
theorem Session.uses_iff (ordered : graph.Ordered) {front back : List Node}
    (split : graph.body = front ++ node :: back) {names others : List NodeId} {id : NodeId}
    (described : session.Described (names ++ id :: others)) (placed : names.length = front.length)
    (current : session.graph = { graph with body := front ++ node :: graph.liveNodes back })
    : session.Uses id ↔ graph.Live node.value := by
  have listed : (names ++ id :: others)[front.length]? = some id := by simp [← placed]
  have here : session.graph.body[front.length]? = some node := by simp [current]
  have found := (node?_of_listed described listed here).2
  have used
      : session.Uses id
        ↔ node.value ∈ graph.outputs
          ∨ ∃ reader ∈ session.graph.body, node.value ∈ reader.reads := by
    simp only [Uses, found, Option.some.injEq, forall_eq', Bool.or_eq_true, Bool.not_eq_true',
      Bool.eq_false_iff, ne_eq, List.isEmpty_iff, readers_eq_nil_iff described, isOutput,
      List.contains_iff_mem, current, not_forall, not_not, exists_prop]
  rw [used, current]
  constructor
  · rintro (shown | ⟨reader, member, reads⟩)
    · exact .shown shown
    · have subset : front ++ node :: graph.liveNodes back ⊆ graph.body :=
        split ▸ (((List.filter_sublist).cons_cons node).append_left front).subset
      have later := ordered.mem_back_of_reads split (subset member) reads
      have distinct : graph.body.Nodup := .of_map _ (List.nodup_append.mp ordered.distinct).2.1
      rw [split] at distinct
      rcases List.mem_append.mp member with before | behind
      · exact absurd rfl ((List.nodup_append.mp distinct).2.2 _ before _ (.tail _ later))
      · rcases List.mem_cons.mp behind with rfl | live
        · exact absurd later (List.nodup_cons.mp (List.nodup_append.mp distinct).2.1).1
        · exact .read (subset member) (Graph.mem_liveNodes.mp live).2 reads
  · rintro (shown | ⟨member, live, reads⟩)
    · exact .inl shown
    · have later := ordered.mem_back_of_reads split member reads
      have kept := Graph.mem_liveNodes.mpr ⟨later, live⟩
      exact .inr ⟨_, List.mem_append_right _ (.tail _ kept), reads⟩

/-- A node that is not used is dropped. -/
theorem dropIfDead_of_unused {ids : List NodeId} (described : session.Described ids)
    {position : Nat} {id : NodeId} (listed : ids[position]? = some id)
    (here : session.graph.body[position]? = some node) (unused : ¬session.Uses id) (count : Nat)
    : ∃ after,
        dropIfDead count id session = .ok (count + 1) after
        ∧ after.Described (ids.eraseIdx position)
        ∧ after.graph
          = { session.graph with body := session.graph.body.eraseIdx position } := by
  have found := (node?_of_listed described listed here).2
  have quiet : session.index.readers node.value = [] ∧ node.value ∉ session.graph.outputs := by
    simpa [Uses, found, isOutput, and_comm] using unused
  obtain ⟨after, erased, removed, graph⟩ :=
    erase_of_unused described listed here ((readers_eq_nil_iff described).mp quiet.1) quiet.2
  rcases dropIfDead_apply count id session with ⟨used, -⟩ | ⟨-, dropped⟩
  · exact absurd used unused
  · rw [bind_of_ok erased] at dropped
    exact ⟨after, dropped, removed, graph⟩

/-- Going backwards through the front drops its dead nodes, if those behind it are dropped. By
induction on the front, from its end on.
-/
theorem foldlM_dropIfDead (ordered : graph.Ordered) {front back : List Node}
    (split : graph.body = front ++ back) {names others : List NodeId}
    (described : session.Described (names ++ others)) (placed : names.length = front.length)
    (current : session.graph = { graph with body := front ++ graph.liveNodes back }) (count : Nat)
    : ∃ dropped after ids,
        names.reverse.foldlM dropIfDead count session = .ok (count + dropped) after
        ∧ after.Described ids
        ∧ after.graph = { graph with body := graph.liveNodes graph.body }
        ∧ dropped + (graph.liveNodes front).length = front.length := by
  induction front using List.reverseRecOn generalizing back names others session count with
  | nil =>
      obtain rfl := List.length_eq_zero_iff.mp placed
      exact ⟨0, session, others, rfl, described, by rw [current, split]; rfl, rfl⟩
  | append_singleton front node ih =>
      obtain rfl | ⟨names, id, rfl⟩ := List.eq_nil_or_concat names
      · simp at placed
      simp only [List.concat_eq_append, List.append_assoc, List.singleton_append]
        at split described current
      have placed : names.length = front.length := by simpa using placed
      have uses := Session.uses_iff ordered split described placed current
      rw [List.concat_eq_append, List.reverse_append, List.reverse_singleton,
        List.singleton_append, List.foldlM_cons, graph.liveNodes_append, List.length_append,
        List.length_append, List.length_singleton]
      by_cases live : graph.Live node.value
      · obtain ⟨-, kept⟩ | ⟨unused, -⟩ := dropIfDead_apply count id session
        · rw [← Graph.liveNodes_cons_of_live live] at current
          obtain ⟨dropped, after, ids, done, describes, same, counted⟩ :=
            ih split described placed current count
          refine ⟨dropped, after, ids, by rw [bind_of_ok kept, done], describes, same, ?_⟩
          rw [Graph.liveNodes_cons_of_live live, ← counted]
          rfl
        · exact absurd (uses.mpr live) unused
      · have here : session.graph.body[names.length]? = some node := by simp [current, placed]
        obtain ⟨next, gone, described, erased⟩ :=
          dropIfDead_of_unused described (by simp) here (mt uses.mp live) count
        rw [List.eraseIdx_append_of_length_le (Nat.le_refl _), Nat.sub_self] at described
        rw [current, List.eraseIdx_append_of_length_le placed.ge, placed, Nat.sub_self] at erased
        rw [← Graph.liveNodes_cons_of_dead live] at erased
        obtain ⟨dropped, after, ids, done, describes, same, counted⟩ :=
          ih split described placed erased (count + 1)
        refine ⟨dropped + 1, after, ids, ?_, describes, same, ?_⟩
        · rw [bind_of_ok gone, done, Nat.add_right_comm, Nat.add_assoc]
        · rw [Graph.liveNodes_cons_of_dead live, ← counted]
          exact Nat.add_right_comm ..

/-- Without the dead nodes, every node is used. -/
theorem Session.lively_of_liveNodes {ids : List NodeId} (described : session.Described ids)
    (current : session.graph = { graph with body := graph.liveNodes graph.body })
    : session.Lively := by
  intro id _ node found
  obtain ⟨_, -, -, here⟩ := listed_of_node? described found
  rw [current] at here
  obtain ⟨-, live⟩ := Graph.mem_liveNodes.mp (List.mem_of_getElem? here)
  cases live with
  | shown output => simp [isOutput, current, output]
  | @read reader _ member live reads =>
      have kept : reader ∈ session.graph.body := by
        rw [current]
        exact Graph.mem_liveNodes.mpr ⟨member, live⟩
      have readers := mt (readers_eq_nil_iff described).mp fun none => none reader kept reads
      simp [readers]

/-- The first round drops all dead nodes, and nothing is left to drop behind it. -/
theorem dropDead_eq_ok (ordered : graph.Ordered) {ids : List NodeId}
    (described : session.Described ids) (same : session.graph = graph) (rounds : Nat)
    : ∃ dropped after,
        dropDead (rounds + 1) 0 session = .ok dropped after
        ∧ after.graph = { graph with body := graph.liveNodes graph.body }
        ∧ dropped + (graph.liveNodes graph.body).length = graph.body.length := by
  have whole : session.Described (ids ++ []) := by rwa [List.append_nil]
  have current : session.graph = { graph with body := graph.body ++ graph.liveNodes [] } := by
    classical rw [same, Graph.liveNodes, List.filter_nil, List.append_nil]
  obtain ⟨dropped, after, names, done, describes, kept, counted⟩ :=
    foldlM_dropIfDead ordered (List.append_nil graph.body).symm whole
      (by rw [described.length, same]) current 0
  have asked : (get : Edit Session) session = .ok session session := rfl
  refine ⟨dropped, after, ?_, kept, counted⟩
  rw [Nat.zero_add] at done
  rw [dropDead, bind_of_ok asked, described.ordered_eq, bind_of_ok done]
  split_ifs with none
  · rw [none]
    rfl
  · rw [Nat.zero_add]
    exact dropDead_of_lively (lively_of_liveNodes describes kept) rounds dropped

/-- A graph in which a number is negated three times, and only the first negation is shown. -/
def unreadNegations : Graph where
  name := "unread"
  inputTypes := [.tensor ⟨.f64, ⟨[]⟩⟩]
  inputs := [⟨0⟩]
  outputTypes := [.tensor ⟨.f64, ⟨[]⟩⟩]
  body := (List.range 3).map fun number =>
    ⟨⟨number + 1⟩, .unary .neg, [.value ⟨number⟩], .tensor ⟨.f64, ⟨[]⟩⟩⟩
  outputs := [⟨1⟩]

/-- A body stays in order when a value that is defined in front of a node takes its place. -/
theorem Session.InOrder.ordered_replaced {ids : List NodeId} {position : Nat} {new : ValueId}
    (inOrder : session.InOrder ids) (found : session.graph.body[position]? = some node)
    (before : new ∈ session.graph.definedBefore position) (outputTypes : List ValueType)
    : Graph.Ordered { session.graph.replaced position node.value new with outputTypes } := by
  have described := inOrder.described
  have ordered := inOrder.ordered
  have known := Graph.mem_defined_of_before before
  have differ : node.value ≠ new := fun same =>
    Graph.value_not_before ordered.distinct found (same ▸ before)
  have redirected := inOrder.ordered_redirect known
    (dependsOn_eq_false described ordered found before)
    (precedesProducer_eq_false described ordered found before)
  have same
      : Graph.defined
          { session.graph with body := session.graph.body.map (redirectNode node.value new) }
        = session.graph.defined :=
    Index.defined_eq rfl (by rw [List.map_map]; rfl)
  have shown
      : Graph.Ordered
          { session.graph with
            body := session.graph.body.map (redirectNode node.value new)
            outputs := session.graph.outputs.map fun id => if id = node.value then new else id
            outputTypes } := by
    refine ⟨redirected.distinct, redirected.reads, fun value output => ?_⟩
    change value ∈ Graph.defined
      { session.graph with body := session.graph.body.map (redirectNode node.value new) }
    obtain ⟨old, listed, rfl⟩ := List.mem_map.mp output
    rw [same]
    split_ifs
    · exact known
    · exact ordered.outputs old listed
  have here : (session.graph.body.map (redirectNode node.value new))[position]?
      = some (redirectNode node.value new node) := by
    rw [List.getElem?_map, found]
    rfl
  have erased := shown.eraseIdx here
    (fun other member => by
      obtain ⟨reader, -, rfl⟩ := List.mem_map.mp member
      exact not_mem_reads_redirectNode reader differ)
    (not_mem_map_redirected session.graph.outputs differ)
  dsimp only at erased
  rw [List.eraseIdx_map] at erased
  exact erased

/-- The first node of a key takes the place of another one. What stands in front does not change. -/
theorem Session.InOrder.replaceNode_of_repeats {ids : List NodeId} {position : Nat} {id : NodeId}
    {first : Node} (inOrder : session.InOrder ids) (listed : ids[position]? = some id)
    (repeats : Sharing.Repeats session.graph position node first)
    : ∃ after,
        replaceNode id node.value first.value session = .ok () after
        ∧ after.InOrder (ids.eraseIdx position)
        ∧ after.graph.body.take position = session.graph.body.take position
        ∧ after.graph.body.length + 1 = session.graph.body.length := by
  have declared := Graph.typesBefore_subset _ _ repeats.declared
  have before : first.value ∈ session.graph.definedBefore position :=
    List.mem_append_right _ (List.mem_map_of_mem repeats.before)
  obtain ⟨after, replaced, removed, graph⟩ := replaceNode_of_before inOrder.described
    inOrder.ordered listed repeats.found declared before
    (redirectOutputs_of_length _ _ _ inOrder.outputsTyped)
  have body : after.graph.body
      = (session.graph.body.eraseIdx position).map (redirectNode node.value first.value) := by
    rw [graph]
  refine ⟨after, replaced, ⟨removed, ?_, ?_⟩, ?_, ?_⟩
  · rw [graph]
    exact inOrder.ordered_replaced repeats.found before _
  · rw [graph]
    simp [inOrder.outputsTyped]
  · rw [body, ← List.map_take, List.take_eraseIdx_eq_take_of_le _ _ _ le_rfl,
      inOrder.ordered.redirect_take repeats.found]
  · have inside := (List.getElem?_eq_some_iff.mp repeats.found).1
    rw [body, List.length_map, List.length_eraseIdx_of_lt inside]
    omega

namespace Sharing

/-- No two of some nodes that may be shared have the same key. -/
def Apart (nodes : List Node) : Prop :=
  nodes.Pairwise fun first second =>
    first.operation.isInplace = false → Key.ofNode first ≠ Key.ofNode second

/-- The entries of a table are the nodes in front that may be shared, and there is one for each key.
-/
structure Records (seen : Table Key ValueId) (front : List Node) : Prop where
  stands
    : ∀ key value, seen.get? key = some value
        → ∃ first ∈ front, Key.ofNode first = key ∧ first.value = value
  noted
    : ∀ first ∈ front, first.operation.isInplace = false
        → ∃ value, seen.get? (.ofNode first) = some value
  apart : Apart front

variable {seen : Table Key ValueId} {front : List Node}

theorem records_nil : Records [] [] := ⟨nofun, nofun, .nil⟩

/-- A node that destroys an operand is passed over. -/
theorem Records.skip (records : Records seen front) (inplace : node.operation.isInplace = true)
    : Records seen (front ++ [node]) where
  stands key value there := by
    obtain ⟨first, member, same⟩ := records.stands key value there
    exact ⟨first, List.mem_append_left _ member, same⟩
  noted first member copies := by
    rcases List.mem_append.mp member with before | last
    · exact records.noted first before copies
    · rw [List.mem_singleton.mp last, inplace] at copies
      cases copies
  apart := by
    refine List.pairwise_append.mpr ⟨records.apart, List.pairwise_singleton .., ?_⟩
    intro first before last member copies same
    obtain rfl := List.mem_singleton.mp member
    rw [show first.operation = last.operation from congrArg Key.operation same, inplace] at copies
    cases copies

/-- A node whose key is new gets an entry. -/
theorem Records.add (records : Records seen front) (unseen : seen.get? (.ofNode node) = none)
    : Records (seen.set (.ofNode node) node.value) (front ++ [node]) where
  stands key value there := by
    rw [Table.get?_set] at there
    split_ifs at there with same
    · have last : node ∈ front ++ [node] := List.mem_append_right _ (List.mem_singleton.mpr rfl)
      exact ⟨node, last, same, Option.some.inj there⟩
    · obtain ⟨first, member, same⟩ := records.stands key value there
      exact ⟨first, List.mem_append_left _ member, same⟩
  noted first member copies := by
    rw [Table.get?_set]
    split_ifs with same
    · exact ⟨_, rfl⟩
    · rcases List.mem_append.mp member with before | last
      · exact records.noted first before copies
      · exact absurd (congrArg Key.ofNode (List.mem_singleton.mp last).symm) same
  apart := by
    refine List.pairwise_append.mpr ⟨records.apart, List.pairwise_singleton .., ?_⟩
    intro first before last member copies same
    obtain ⟨value, there⟩ := records.noted first before copies
    rw [same, List.mem_singleton.mp member, unseen] at there
    cases there

/-- What is recorded stays recorded while the later nodes of a key make way for the first one: only
nodes that stand behind read their values. By induction on the nodes that are still to be merged.
-/
theorem mergeNodes_apart {front nodes : List NodeId} {seen : Table Key ValueId}
    (inOrder : session.InOrder (front ++ nodes))
    (records : Records seen (session.graph.body.take front.length)) (merged : Nat)
    : ∃ total after ids,
        mergeNodes seen merged nodes session = .ok (merged + total) after
        ∧ after.InOrder ids
        ∧ Apart after.graph.body
        ∧ after.graph.body.length + total = session.graph.body.length := by
  induction nodes generalizing session front seen merged with
  | nil =>
      refine ⟨0, session, _, rfl, inOrder, ?_, rfl⟩
      have apart := records.apart
      rwa [List.take_of_length_le (by simp [← inOrder.described.length])] at apart
  | cons head rest ih =>
      have asked : (get : Edit Session) session = .ok session session := rfl
      have listed : (front ++ head :: rest)[front.length]? = some head := by simp
      obtain ⟨node, found, known⟩ := exists_node_of_listed inOrder.described listed
      have later : session.InOrder ((front ++ [head]) ++ rest) := by
        rwa [List.append_assoc, List.singleton_append]
      have grown : session.graph.body.take (front ++ [head]).length
          = session.graph.body.take front.length ++ [node] := by
        rw [List.length_append, List.length_singleton, List.take_add_one, found]
        rfl
      rw [mergeNodes, bind_of_ok asked, known]
      dsimp only
      split_ifs with inplace
      · exact ih later (grown ▸ records.skip inplace) merged
      · cases there : seen.get? (.ofNode node) with
        | none => exact ih later (grown ▸ records.add there) merged
        | some value =>
            obtain ⟨first, before, same, rfl⟩ := records.stands _ _ there
            have repeats : Repeats session.graph front.length node first := ⟨found, before, same⟩
            obtain ⟨next, replaced, left, kept, shorter⟩ :=
              inOrder.replaceNode_of_repeats listed repeats
            rw [List.eraseIdx_append_of_length_le le_rfl, Nat.sub_self] at left
            dsimp only
            obtain ⟨total, after, ids, done, sorted, apart, counted⟩ :=
              ih left (kept ▸ records) (merged + 1)
            refine ⟨total + 1, after, ids, ?_, sorted, apart, by omega⟩
            rw [bind_of_ok replaced, done, Nat.add_right_comm, Nat.add_assoc]

/-- If no two nodes that may be shared have the same key, then all their keys differ. -/
theorem distinct_of_apart {ids : List NodeId} (described : session.Described ids)
    (apart : Apart session.graph.body)
    : Distinct session := by
  rw [Distinct, described.ordered_eq, keys, List.Nodup, List.pairwise_filterMap]
  refine List.pairwise_iff_getElem.mpr fun i j iBound jBound before => ?_
  obtain ⟨first, here, known₁⟩ :=
    exists_node_of_listed described (List.getElem?_eq_getElem iBound)
  obtain ⟨second, there, known₂⟩ :=
    exists_node_of_listed described (List.getElem?_eq_getElem jBound)
  obtain ⟨iInside, rfl⟩ := List.getElem?_eq_some_iff.mp here
  obtain ⟨jInside, rfl⟩ := List.getElem?_eq_some_iff.mp there
  have differ := List.pairwise_iff_getElem.mp apart i j iInside jInside before
  rw [known₁, known₂, Option.bind_some, Option.bind_some]
  rintro key₁ shared₁ key₂ shared₂ rfl
  split_ifs at shared₁ shared₂ with inplace₁ inplace₂
  rw [Option.some.injEq] at shared₁ shared₂
  exact differ (Bool.eq_false_iff.mpr inplace₁) (shared₁.trans shared₂.symm)

/-- A graph in which a number is negated twice over, each time in two ways. -/
def twinNegations : Graph where
  name := "twins"
  inputTypes := [.tensor ⟨.f64, ⟨[]⟩⟩]
  inputs := [⟨0⟩]
  outputTypes := [.tensor ⟨.f64, ⟨[]⟩⟩, .tensor ⟨.f64, ⟨[]⟩⟩]
  body := [(1, 0), (2, 0), (3, 1), (4, 2)].map fun (number, read) =>
    ⟨⟨number⟩, .unary .neg, [.value ⟨read⟩], .tensor ⟨.f64, ⟨[]⟩⟩⟩
  outputs := [⟨3⟩, ⟨4⟩]

end Sharing

end Dataflow
