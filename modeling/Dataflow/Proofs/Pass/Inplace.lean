import Dataflow.Proofs.Graph.Exclusive
import Dataflow.Proofs.Pass.Idempotence
import Dataflow.Proofs.Rewrite.Rules.Advances

/-!
The pass that mutates lists in place. It promotes the mutations whose list nobody else reads, and no
others, so what it leaves behind is as safe as the graph before and runs like it.
-/

namespace Dataflow

variable {session : Session} {ids : List NodeId} {id : NodeId} {node : Node}

-----------------------------------------------------------------------------------------
-- Plans
-----------------------------------------------------------------------------------------

/-- The first operand alone reads its value iff none of the others does. -/
theorem Node.count_reads_eq_one_iff {value : ValueId} (reads : node.input? 0 = some value)
    : node.reads.count value = 1 ↔ .value value ∉ node.operands.drop 1 := by
  rw [Node.input?] at reads
  rw [Node.reads]
  cases operands : node.operands with
  | nil => simp [operands] at reads
  | cons first rest =>
      have same : first.value? = some value := by simpa [operands] using reads
      rw [List.filterMap_cons, same, List.count_cons_self, List.drop_succ_cons, List.drop_zero,
        Nat.add_eq_right, List.count_eq_zero, List.mem_filterMap]
      refine not_congr ⟨?_, fun member => ⟨_, member, rfl⟩⟩
      rintro ⟨operand, member, read⟩
      cases operand with
      | literal content => cases read
      | value id =>
          obtain rfl := Option.some.inj read
          exact member

namespace Session

/-- A value has a single distinct reader iff no other place of the body reads it. -/
theorem length_distinctReaders_eq_one_iff (described : session.Described ids) {position : Nat}
    (listed : ids[position]? = some id) (here : session.graph.body[position]? = some node)
    {value : ValueId} (read : value ∈ node.reads)
    : (session.index.distinctReaders value).length = 1
      ↔ ∀ {place : Nat} {other : Node},
          session.graph.body[place]? = some other → value ∈ other.reads → place = position := by
  have reader : id ∈ session.index.distinctReaders value :=
    mem_distinctReaders.mpr ((mem_readers_iff described).mpr ⟨position, node, listed, here, read⟩)
  constructor
  · intro one place other there again
    obtain ⟨name, named⟩ := described.exists_id there
    have also : name ∈ session.index.distinctReaders value :=
      mem_distinctReaders.mpr ((mem_readers_iff described).mpr ⟨place, other, named, there, again⟩)
    obtain ⟨only, same⟩ := List.length_eq_one_iff.mp one
    rw [same, List.mem_singleton] at reader also
    subst reader also
    exact (List.getElem?_inj (List.getElem?_eq_some_iff.mp named).1 described.idsDistinct).mp
      (named.trans listed.symm)
  · intro only
    refine ((List.perm_ext_iff_of_nodup (nodup_distinctReaders _ _)
      (List.nodup_singleton id)).mpr fun name => ?_).length_eq
    rw [List.mem_singleton]
    refine ⟨fun member => ?_, fun same => same ▸ reader⟩
    obtain ⟨place, other, named, there, again⟩ :=
      (mem_readers_iff described).mp (mem_distinctReaders.mp member)
    obtain rfl := only there again
    exact Option.some.inj (named.symm.trans listed)

/-- A list is private to a node that reads it in its first operand only iff it is exclusive. -/
theorem isPrivate_iff (described : session.Described ids) (found : session.node? id = some node)
    {list : ValueId} (reads : node.input? 0 = some list)
    : (Rules.isPrivate session list && !(node.operands.drop 1).contains (.value list)) = true
      ↔ session.graph.Exclusive list := by
  obtain ⟨position, listed, here⟩ := (node?_eq_some_iff described).mp found
  have read := Node.mem_reads_of_input? reads
  have produced
      : (session.index.isInput list = false
          ∧ (session.producer? list).any (fun node => Rules.ownsStorage node.operation) = true)
        ↔ ∃ node ∈ session.graph.body, node.value = list ∧ node.operation.isView = false := by
    have owned (operation : Operation)
        : Rules.ownsStorage operation = true ↔ operation.isView = false := by
      rw [Rules.ownsStorage, Operation.isView]
      cases operation.storage <;> simp
    rw [Option.any_eq_true]
    constructor
    · rintro ⟨-, producer, made, own⟩
      obtain ⟨place, there, same⟩ := (producer?_eq_some_iff described).mp made
      exact ⟨producer, List.mem_of_getElem? there, same, (owned _).mp own⟩
    · rintro ⟨producer, member, same, own⟩
      obtain ⟨place, there⟩ := List.mem_iff_getElem?.mp member
      refine ⟨?_, producer, (producer?_eq_some_iff described).mpr ⟨place, there, same⟩,
        (owned _).mpr own⟩
      rw [Bool.eq_false_iff, ne_eq, isInput_iff described]
      exact fun input => Graph.input_ne_value described.valuesDistinct input member same
  have hidden : session.isOutput list = false ↔ list ∉ session.graph.outputs := by
    rw [isOutput, Bool.eq_false_iff, ne_eq, List.contains_iff_mem]
  rw [Graph.Exclusive, ← produced, ← hidden, Graph.readCount_eq_one_iff here read,
    Node.count_reads_eq_one_iff reads, ← length_distinctReaders_eq_one_iff described listed here read,
    Rules.isPrivate]
  simp only [Bool.and_eq_true, Bool.not_eq_true', decide_eq_true_eq, List.contains_eq_mem,
    decide_eq_false_iff_not]
  have count (unshown : session.isOutput list = false)
      : session.useCount list = (session.index.distinctReaders list).length := by
    rw [useCount, List.count_eq_zero.mpr (hidden.mp unshown), Nat.add_zero]
  constructor
  · rintro ⟨⟨⟨⟨input, shown⟩, used⟩, made⟩, single⟩
    exact ⟨⟨input, made⟩, shown, single, count shown ▸ used⟩
  · rintro ⟨⟨input, made⟩, shown, single, used⟩
    exact ⟨⟨⟨⟨input, shown⟩, (count shown).trans used⟩, made⟩, single⟩

end Session

/-- The rule has a plan for a node iff the node may be promoted. -/
theorem Rules.promotable_iff_plan (described : session.Described ids)
    (found : session.node? id = some node)
    : session.graph.Promotable node
      ↔ ∃ mutation,
          node.operation = .listMutation mutation false
          ∧ promoteListMutation.plan session id
            = some (liftM (Session.setOperation id (.listMutation mutation true))) := by
  constructor
  · rintro ⟨list, copied, exclusive⟩
    obtain ⟨⟨mutation, copies⟩, reads⟩ := Node.copied?_eq_some_iff.mp copied
    exact ⟨mutation, copies, plan_promoteListMutation.mpr ⟨node, mutation, list, found, copies, reads,
      (Session.isPrivate_iff described found reads).mpr exclusive, rfl⟩⟩
  · rintro ⟨mutation, -, planned⟩
    obtain ⟨other, _, list, known, copies, reads, isPrivate, -⟩ :=
      plan_promoteListMutation.mp planned
    obtain rfl := Option.some.inj (found.symm.trans known)
    exact ⟨list, Node.copied?_eq_some_iff.mpr ⟨⟨_, copies⟩, reads⟩,
      (Session.isPrivate_iff described found reads).mp isPrivate⟩

-----------------------------------------------------------------------------------------
-- Sweeps
-----------------------------------------------------------------------------------------

variable {narrow : Prop} {given : Graph}

/-- The tables describe the graph, which is well typed and came out of another graph by promoting
some of the nodes that may be promoted.
-/
def Session.Promotes (narrow : Prop) (given : Graph) (session : Session) : Prop :=
  ∃ ids choose,
    session.Holds narrow ids
    ∧ session.graph = given.promoting choose
    ∧ ∀ node ∈ given.body, choose node = true → given.Promotable node

/-- Promoting one more node of a graph in which some are promoted. -/
theorem Graph.promoting_set (distinct : given.defined.Nodup) {choose : Node → Bool} {position : Nat}
    (found : given.body[position]? = some node)
    : { given.promoting choose with
        body := (given.promoting choose).body.set position node.inplace }
      = given.promoting fun other => choose other || other = node := by
  have bodies
      : (given.promoting choose).body.set position node.inplace
        = (given.promoting fun other => choose other || other = node).body := by
    refine List.ext_getElem? fun place => ?_
    rw [List.getElem?_set, getElem?_promoting, getElem?_promoting, promoting, List.length_map]
    split_ifs with same inside
    · subst same
      rw [found]
      simp
    · subst same
      rw [List.getElem?_eq_none_iff.mpr (Nat.le_of_not_lt inside)]
      rfl
    · cases there : given.body[place]? with
      | none => rfl
      | some other =>
          have differs : other ≠ node := by
            rintro rfl
            exact same (position_unique distinct found there rfl)
          simp [differs]
  rw [bodies]
  rfl

/-- The rule succeeds, and promotes a node that may be promoted. -/
theorem Rules.promoteListMutation_keeps
    : promoteListMutation.Keeps (Session.Promotes narrow given) False := by
  rintro session id plan ⟨ids, choose, holds, same, may⟩ planned
  obtain ⟨node, mutation, list, known, copies, reads, -, rfl⟩ :=
    plan_promoteListMutation.mp planned
  obtain ⟨position, -, listed, found⟩ := Session.listed_of_node? holds.described known
  have promotable := (promotable_iff_plan holds.described known).mpr ⟨mutation, copies, planned⟩
  rw [same, Graph.promotable_promoting] at promotable
  obtain ⟨original, there, stands⟩
      : ∃ original,
          given.body[position]? = some original
          ∧ (if choose original then original.inplace else original) = node := by
    rwa [same, Graph.getElem?_promoting, Option.map_eq_some_iff] at found
  -- The node mutates a copy, so it was not promoted before.
  have unchosen : original = node := by
    split_ifs at stands with chosen
    · obtain ⟨list, copied, -⟩ := may original (List.mem_of_getElem? there) chosen
      obtain ⟨⟨other, before⟩, -⟩ := Node.copied?_eq_some_iff.mp copied
      rw [← stands, Node.inplace, before] at copies
      cases copies
    · exact stands
  subst unchosen
  have follows := (holds.typed.follows_at found).inferred
  rw [copies] at follows
  obtain ⟨types, declared, inferred, -⟩ := follows
  obtain ⟨after, done, changed, advances⟩ := holds.setOperation listed found
    (.of_infer declared (Operation.resultType_eq_ok_iff.mp inferred) (by rintro _ ⟨⟩)
      : (Operation.listMutation mutation true).Follows _ _ _ _)
  rw [Rewriting.lift_of_ok done]
  have distinct : given.defined.Nodup := by
    have typed := holds.typed.distinct
    rw [same] at typed
    simpa [Graph.defined, Graph.promoting, Function.comp_def, apply_ite Node.value, Node.inplace]
      using typed
  refine ⟨ids, fun other => choose other || other = original, advances.holds, ?_, ?_⟩
  · have promoted
        : ({ original with operation := .listMutation mutation true } : Node) = original.inplace := by
      rw [Node.inplace, copies]
      rfl
    rw [changed, promoted, same]
    exact Graph.promoting_set distinct there
  · intro other member chosen
    rcases Bool.or_eq_true _ _ |>.mp chosen with before | now
    · exact may other member before
    · exact of_decide_eq_true now ▸ promotable

-----------------------------------------------------------------------------------------
-- The pass
-----------------------------------------------------------------------------------------

open Catalog

variable {graph : Graph}

/-- The rule has nothing to do iff no node of the graph may be promoted. -/
theorem Rules.settled_iff (described : session.Described ids)
    : RuleSet.Settled [promoteListMutation] session
      ↔ ∀ node ∈ session.graph.body, ¬session.graph.Promotable node := by
  constructor
  · intro settled node member promotable
    obtain ⟨place, here⟩ := List.mem_iff_getElem?.mp member
    obtain ⟨id, listed⟩ := described.exists_id here
    have found := (Session.node?_eq_some_iff described).mpr ⟨place, listed, here⟩
    obtain ⟨mutation, copies, planned⟩ := (promotable_iff_plan described found).mp promotable
    have declined := settled id (described.ordered_eq.symm ▸ List.mem_of_getElem? listed) node found
      _ List.mem_cons_self (by rw [copies]; rfl)
    cases declined.symm.trans planned
  · intro none id member node found rule listed tracked
    obtain rfl := List.mem_singleton.mp listed
    obtain ⟨place, -, here⟩ := (Session.node?_eq_some_iff described).mp found
    refine Option.eq_none_iff_forall_ne_some.mpr fun plan planned => ?_
    obtain ⟨other, mutation, list, known, copies, -, -, rfl⟩ := plan_promoteListMutation.mp planned
    obtain rfl := Option.some.inj (found.symm.trans known)
    exact none node (List.mem_of_getElem? here)
      ((promotable_iff_plan described found).mpr ⟨mutation, copies, planned⟩)

/-- The pass succeeds and promotes only nodes that may be promoted. -/
theorem Catalog.promoting_of_inplace (started : Session.start graph = .ok session)
    (promotes : session.Promotes narrow given) (limit : Nat)
    : ∃ stats choose,
        (inplace.pass.run limit graph).outcome = .ok stats
        ∧ (inplace.pass.run limit graph).graph = given.promoting choose
        ∧ ∀ node ∈ given.body, choose node = true → given.Promotable node := by
  have left := @offerEach_leaves _ False _ [Rules.promoteListMutation]
    (fun rule member => List.mem_singleton.mp member ▸ Rules.promoteListMutation_keeps) promotes
    (min 10000 limit) session.index.ordered.reverse []
  rw [run_inplace limit started, Progress.finish_of_kept, PassRun.ofSweep]
  obtain ⟨ids, choose, -, same, may⟩ := left.good
  dsimp only
  cases failed : (offerEach [Rules.promoteListMutation] (min 10000 limit) session
      session.index.ordered.reverse []).error with
  | none => exact ⟨_, choose, rfl, same, may⟩
  | some error => exact (left.error (failed ▸ Option.some_ne_none error)).elim

/-- The backends of the library, with and without bounded memory. -/
def Backend.library : List Backend :=
  [reference, accelerated, reference.bounded, accelerated.bounded]

theorem Backend.copies_of_library {backend : Backend} (member : backend ∈ library)
    : backend.Copies := by
  have accelerates : accelerated.Copies := by
    intro operation inputs
    cases operation <;> rfl
  simp only [library, List.mem_cons, List.not_mem_nil, or_false] at member
  rcases member with rfl | rfl | rfl | rfl
  · exact reference_copies
  · exact accelerates
  · exact reference_copies.bounded
  · exact accelerates.bounded

/-- On a well-typed graph that passes the check of storage, the pass succeeds. What it leaves passes
the check again and has the outcome of the graph before, be it results or an error. Only nodes that
may be promoted are, and unless the sweep was cut short all of them, so that the pass leaves the
result alone.
-/
theorem Catalog.inplace_promotes_exclusive (typed : graph.WellTyped narrow)
    (accepted : graph.checkStorage = .ok ()) (limit : Nat)
    : ∃ stats choose,
        (inplace.pass.run limit graph).outcome = .ok stats
        ∧ (inplace.pass.run limit graph).graph = graph.promoting choose
        ∧ (∀ node ∈ graph.body, choose node = true → graph.Promotable node)
        ∧ (graph.promoting choose).checkStorage = .ok ()
        ∧ (∀ backend ∈ Backend.library, ∀ checkFinite inputs,
            (Run.graph backend (graph.promoting choose) checkFinite inputs).outcome
            = (Run.graph backend graph checkFinite inputs).outcome)
        ∧ ((inplace.pass.run limit graph).isWhole = true
          → (∀ node ∈ graph.body, choose node = true ↔ graph.Promotable node)
            ∧ inplace.pass.Spares limit (graph.promoting choose)) := by
  obtain ⟨session, started, same, holds⟩ := Session.exists_start_of_wellTyped typed
  have start : session.Promotes narrow graph :=
    ⟨_, fun _ => false, holds, same.trans graph.promoting_false.symm,
      fun _ _ chosen => absurd chosen Bool.false_ne_true⟩
  obtain ⟨stats, choose, fine, promoted, may⟩ := promoting_of_inplace started start limit
  have safe := Graph.checkStorage_eq_ok_iff.mp accepted
  have accepted' := Graph.checkStorage_eq_ok_iff.mpr (safe.promoting may)
  refine ⟨stats, choose, fine, promoted, may, accepted', ?_, fun whole => ?_⟩
  · intro backend member checkFinite inputs
    have copies := Backend.copies_of_library member
    rw [Run.outcome_copying (Graph.disposes_of_checkStorage accepted') copies,
      Run.outcome_copying (Graph.disposes_of_checkStorage accepted) copies, Graph.copying_promoting]
  · obtain ⟨after, left, described, -, settled⟩ :=
      promoted_of_inplace started holds.described fine whole
    rw [left] at promoted
    rw [Rules.settled_iff described, promoted] at settled
    refine ⟨fun node member => ⟨may node member, fun promotable => ?_⟩, ?_⟩
    · by_contra unchosen
      refine settled node (List.mem_map.mpr ⟨node, member, if_neg unchosen⟩) ?_
      exact (graph.promotable_promoting choose node).mpr promotable
    · obtain ⟨again, restarted, same, redescribed⟩ := EditStep.exists_start described
      rw [promoted] at restarted same
      rw [← same] at settled
      obtain ⟨done, kept⟩ := @PassEntry.runRules_of_settled _ _ _ inplace rfl restarted redescribed
        ((Rules.settled_iff redescribed).mpr settled) nofun limit
      exact ⟨⟨_, done, rfl⟩, kept⟩

/-- A graph that reverses a list twice, removes an item of the result in place, and reverses a list
that is also counted.
-/
def reversals : Graph where
  name := "reversals"
  inputTypes := [.tensor ⟨.si64, ⟨[]⟩⟩]
  inputs := [⟨0⟩]
  outputTypes := [.tensor ⟨.si64, ⟨[]⟩⟩, .list ⟨.si64, ⟨[]⟩⟩]
  body :=
    [⟨⟨1⟩, .makeList, [.value ⟨0⟩, .value ⟨0⟩], .list ⟨.si64, ⟨[]⟩⟩⟩,
      ⟨⟨2⟩, .listMutation .reverse false, [.value ⟨1⟩], .list ⟨.si64, ⟨[]⟩⟩⟩,
      ⟨⟨3⟩, .listMutation .reverse false, [.value ⟨2⟩], .list ⟨.si64, ⟨[]⟩⟩⟩,
      ⟨⟨4⟩, .listMutation .append true, [.value ⟨3⟩, .value ⟨0⟩], .list ⟨.si64, ⟨[]⟩⟩⟩,
      ⟨⟨5⟩, .listMutation .reverse false, [.value ⟨4⟩], .list ⟨.si64, ⟨[]⟩⟩⟩,
      ⟨⟨6⟩, .listLength, [.value ⟨4⟩], .tensor ⟨.si64, ⟨[]⟩⟩⟩]
  outputs := [⟨6⟩, ⟨5⟩]

/-- The calls that build `reversals`. -/
def reversalsCalls : List Builder.Call :=
  [.input (.tensor ⟨.si64, ⟨[]⟩⟩), .node .makeList [.value ⟨0⟩, .value ⟨0⟩],
    .node (.listMutation .reverse false) [.value ⟨1⟩],
    .node (.listMutation .reverse false) [.value ⟨2⟩],
    .node (.listMutation .append true) [.value ⟨3⟩, .value ⟨0⟩],
    .node (.listMutation .reverse false) [.value ⟨4⟩], .node .listLength [.value ⟨4⟩]]

/-- The first two reversals of `reversals` are promoted. -/
theorem reversals_promotes_exclusive
    : (Builder.afterCalls reversalsCalls).finish "reversals" [⟨6⟩, ⟨5⟩] = .ok reversals
      ∧ reversals.checkStorage = .ok ()
      ∧ reversals.body.map (fun node => decide (reversals.Promotable node))
        = [false, true, true, false, false, false]
      ∧ ∃ choose,
          (inplace.pass.run 10000 reversals).graph = reversals.promoting choose
          ∧ (∀ node ∈ reversals.body, choose node = true ↔ reversals.Promotable node)
          ∧ (reversals.promoting choose).checkStorage = .ok ()
          ∧ inplace.pass.Spares 10000 (reversals.promoting choose)
          ∧ (Run.graph .reference (reversals.promoting choose) true
                [.tensor ⟨[], .si64 [7]⟩]).outcome
            = (Run.graph .reference reversals true [.tensor ⟨[], .si64 [7]⟩]).outcome := by
  have built
      : (Builder.afterCalls reversalsCalls).finish "reversals" [⟨6⟩, ⟨5⟩] = .ok reversals := rfl
  have accepted : reversals.checkStorage = .ok () := by decide +kernel
  have whole : (inplace.pass.run 10000 reversals).isWhole = true := by decide +kernel
  obtain ⟨_, choose, -, promoted, -, safe, runs, exact⟩ :=
    inplace_promotes_exclusive (Builder.wellTyped_of_finish built) accepted 10000
  obtain ⟨all, spares⟩ := exact whole
  exact ⟨built, accepted, by decide +kernel, choose, promoted, all, safe, spares,
    runs .reference List.mem_cons_self true _⟩

end Dataflow
