import Dataflow.Proofs.Pass.Idempotence
import Dataflow.Proofs.Rewrite.Preservation
import Dataflow.Proofs.Rewrite.Rules.Advances

/-!
Optimizers keep graphs well typed. Each pass of the library leaves a well-typed graph behind, with
the name, the inputs and the types of outputs that it had, whether it succeeds or fails. On graphs
that index narrow axes none of them fails.
-/

namespace Dataflow

variable {narrow : Prop} {given graph middle after : Graph} {session : Session} {limit : Nat}
  {outcome : Except PassError PassStats}

/-- What is left of a graph is well typed and has the same interface, and nothing failed if the axes
are narrow.
-/
structure Graph.LeadsTo (narrow : Prop) (graph after : Graph)
    (outcome : Except PassError PassStats) : Prop where
  typed : after.WellTyped narrow
  interface : graph.SameInterface after
  succeeds : narrow → ∃ stats, outcome = .ok stats

-----------------------------------------------------------------------------------------
-- Rules
-----------------------------------------------------------------------------------------

/-- The tables describe the graph, which is well typed and has the interface of another graph. -/
def Session.WellTyped (narrow : Prop) (given : Graph) (session : Session) : Prop :=
  ∃ ids, session.Holds narrow ids ∧ given.SameInterface session.graph

theorem Session.Advances.wellTyped {session after : Session} {ids names : List NodeId}
    {position : Nat} (advances : session.Advances narrow position ids after names)
    (interface : given.SameInterface session.graph)
    : after.WellTyped narrow given :=
  ⟨names, advances.holds, interface.trans advances.interface⟩

theorem Rule.Advances.keeps {rule : Rule} (advances : rule.Advances narrow)
    : rule.Keeps (Session.WellTyped narrow given) (¬narrow) := by
  intro session id plan ⟨ids, holds, interface⟩ planned
  obtain ⟨position, -, left⟩ := advances holds planned
  exact left.mono fun _ ⟨_, advances⟩ => advances.wellTyped interface

/-- Dropping dead nodes keeps graphs well typed. -/
theorem dropsKeep_wellTyped : DropsKeep (Session.WellTyped narrow given) (¬narrow) := by
  intro session id node ⟨ids, holds, interface⟩ known hidden unread
  obtain ⟨position, -, listed, found⟩ := Session.listed_of_node? holds.described known
  obtain ⟨after, done, -, advances⟩ := holds.erase listed found unread hidden
  rw [done]
  exact advances.wellTyped interface

theorem PassEntry.leadsTo_runRules {entry : PassEntry}
    (stock : ∀ rule ∈ entry.rules,
      rule ∈ Catalog.canonicalRules ++ Catalog.loweringRules ++ [Rules.promoteListMutation])
    (typed : graph.WellTyped narrow) (limit : Nat)
    : graph.LeadsTo narrow (entry.runRules limit graph).graph
        (entry.runRules limit graph).outcome := by
  cases rules : entry.ruleSet.isEmpty with
  | true =>
      rw [runRules, if_pos rules]
      exact ⟨typed, .refl graph, fun _ => ⟨_, rfl⟩⟩
  | false =>
      obtain ⟨session, started, same, holds⟩ := Session.exists_start_of_wellTyped typed
      obtain ⟨after, ⟨ids, left, interface⟩, swept, failed⟩ := @sweep_leaves
        (Session.WellTyped narrow graph) (¬narrow) _ entry.ruleSet _
        (fun rule member => Rule.Advances.keeps
          (Rules.advances_of_stock (stock rule (RuleSet.mem_ofList.mp member))))
        dropsKeep_wellTyped started ⟨_, holds, same ▸ .refl _⟩ entry.strategy
        (entry.sweepOptions limit)
      rw [runRules_eq rules, PassRun.ofSweep]
      refine ⟨swept ▸ left.typed, swept ▸ interface, fun small => ?_⟩
      dsimp only
      cases error : (sweep entry.ruleSet entry.strategy (entry.sweepOptions limit) graph).error with
      | some error => exact absurd small (failed (error ▸ Option.some_ne_none _))
      | none => exact ⟨_, rfl⟩

-----------------------------------------------------------------------------------------
-- Sharing
-----------------------------------------------------------------------------------------

namespace Sharing

/-- A node has the key of another one that stands in front of it. -/
structure Repeats (graph : Graph) (position : Nat) (node first : Node) : Prop where
  found : graph.body[position]? = some node
  before : first ∈ graph.body.take position
  same : Key.ofNode first = .ofNode node

theorem Repeats.declared {position : Nat} {node first : Node}
    (repeats : Repeats graph position node first)
    : (first.value, node.type) ∈ graph.typesBefore position := by
  have type : first.type = node.type := congrArg Key.type repeats.same
  rw [← type]
  exact List.mem_append_right _ (List.mem_map_of_mem repeats.before)

/-- The first node of a key stands in front of the nodes that are still to be merged, so they can be
replaced by it, and what such replacements keep is kept. By induction on these nodes.
-/
theorem mergeNodes_eq_ok {kept : Graph → Prop}
    (keeps
      : ∀ {graph : Graph} {position : Nat} {node first : Node}, graph.WellTyped narrow
          → Repeats graph position node first → kept graph
          → kept (graph.replaced position node.value first.value))
    {front nodes : List NodeId} {seen : Table Key ValueId}
    (holds : session.Holds narrow (front ++ nodes)) (start : kept session.graph)
    (earlier
      : ∀ key value, seen.get? key = some value
          → ∃ first ∈ session.graph.body.take front.length,
              Key.ofNode first = key ∧ first.value = value)
    (merged : Nat)
    : ∃ total after ids,
        mergeNodes seen merged nodes session = .ok total after
        ∧ after.Holds narrow ids
        ∧ kept after.graph := by
  induction nodes generalizing session front seen merged with
  | nil => exact ⟨merged, session, _, rfl, holds, start⟩
  | cons head rest ih =>
      have asked : (get : Edit Session) session = .ok session session := rfl
      have listed : (front ++ head :: rest)[front.length]? = some head := by simp
      obtain ⟨node, found, known⟩ := Session.exists_node_of_listed holds.described listed
      have later : session.Holds narrow ((front ++ [head]) ++ rest) := by
        rwa [List.append_assoc, List.singleton_append]
      have length : (front ++ [head]).length = front.length + 1 := by simp
      have grows := List.take_subset_take_left session.graph.body (Nat.le_succ front.length)
      rw [mergeNodes, Session.bind_of_ok asked, known]
      dsimp only
      split_ifs
      · refine ih later start (fun key value there => ?_) merged
        obtain ⟨first, before, same⟩ := earlier key value there
        exact ⟨first, length ▸ grows before, same⟩
      · cases there : seen.get? (.ofNode node) with
        | none =>
            refine ih later start (fun key value there => ?_) merged
            rw [Table.get?_set] at there
            rw [length]
            split_ifs at there with same
            · exact ⟨node, List.mem_of_getElem? ((List.getElem?_take_of_lt (Nat.lt_succ_self _)).trans
                found), same, Option.some.inj there⟩
            · obtain ⟨first, before, same⟩ := earlier key value there
              exact ⟨first, grows before, same⟩
        | some value =>
            obtain ⟨first, before, same, rfl⟩ := earlier _ _ there
            have repeats : Repeats session.graph front.length node first := ⟨found, before, same⟩
            obtain ⟨after, replaced, changed, advances⟩ :=
              holds.replaceNode listed found repeats.declared
            have names : (front ++ head :: rest).eraseIdx front.length = front ++ rest := by
              rw [List.eraseIdx_append_of_length_le le_rfl, Nat.sub_self]
              rfl
            rw [names] at advances
            have front' : after.graph.body.take front.length = session.graph.body.take front.length :=
              changed ▸ congrArg Graph.body (Graph.front_replaced holds.typed found first.value)
            dsimp only
            rw [Session.bind_of_ok replaced]
            exact ih advances.holds (changed ▸ keeps holds.typed repeats start)
              (fun key value there => front' ▸ earlier key value there) (merged + 1)

/-- Sharing always succeeds, and keeps what replacements of repeated nodes keep. -/
theorem exists_run {kept : Graph → Prop}
    (keeps
      : ∀ {graph : Graph} {position : Nat} {node first : Node}, graph.WellTyped narrow
          → Repeats graph position node first → kept graph
          → kept (graph.replaced position node.value first.value))
    (typed : graph.WellTyped narrow) (start : kept graph)
    : (run graph).graph.WellTyped narrow
      ∧ kept (run graph).graph
      ∧ ∃ stats, (run graph).outcome = .ok stats := by
  obtain ⟨session, started, same, holds⟩ := Session.exists_start_of_wellTyped typed
  have ordered := holds.described.ordered_eq
  obtain ⟨total, after, ids, done, left, kept⟩ :=
    @mergeNodes_eq_ok _ _ _ keeps [] (Index.positionIds graph.body.length) [] holds (same ▸ start)
      nofun 0
  rw [run, started]
  dsimp only
  rw [ordered, done]
  exact ⟨left.typed, kept, _, rfl⟩

theorem leadsTo_run (typed : graph.WellTyped narrow)
    : graph.LeadsTo narrow (run graph).graph (run graph).outcome := by
  obtain ⟨typed', interface, succeeds⟩ := @exists_run _ _ graph.SameInterface
    (fun _ _ interface => interface.trans ⟨rfl, rfl, rfl, rfl⟩) typed (.refl graph)
  exact ⟨typed', interface, fun _ => succeeds⟩

end Sharing

-----------------------------------------------------------------------------------------
-- Liveness
-----------------------------------------------------------------------------------------

namespace Liveness

variable {outputs : List ValueId} {body : List Node} {known more : Types}

/-- What is live somewhere is live in front of it. -/
theorem live_subset_append (outputs : List ValueId) (front back : List Node)
    : (keepLive outputs back).2 ⊆ (keepLive outputs (front ++ back)).2 := by
  induction front with
  | nil => exact List.Subset.refl _
  | cons node rest ih =>
      rw [List.cons_append, keepLive]
      dsimp only
      split_ifs
      · exact List.subset_append_of_subset_right _ ih
      · exact ih

/-- A node is kept iff its value is live behind it, by induction on the body. -/
theorem mem_keepLive_iff {node : Node}
    : node ∈ (keepLive outputs body).1
      ↔ ∃ front back,
          body = front ++ node :: back ∧ node.value ∈ (keepLive outputs back).2 := by
  induction body with
  | nil => simp [keepLive]
  | cons first rest ih =>
      have splits
          : (∃ front back,
                first :: rest = front ++ node :: back ∧ node.value ∈ (keepLive outputs back).2)
            ↔ (first = node ∧ node.value ∈ (keepLive outputs rest).2)
              ∨ node ∈ (keepLive outputs rest).1 := by
        rw [ih]
        constructor
        · intro split
          obtain ⟨front, back, same, live⟩ := split
          cases front with
          | nil =>
              obtain ⟨rfl, rfl⟩ := List.cons.inj same
              exact .inl ⟨rfl, live⟩
          | cons _ front =>
              obtain ⟨rfl, rfl⟩ := List.cons.inj same
              exact .inr ⟨front, back, rfl, live⟩
        · intro split
          rcases split with ⟨rfl, live⟩ | ⟨front, back, rfl, live⟩
          · exact ⟨[], rest, rfl, live⟩
          · exact ⟨first :: front, back, rfl, live⟩
      rw [splits, keepLive]
      dsimp only
      split_ifs with alive
      · rw [List.mem_cons, eq_comm]
        refine or_congr_left (iff_self_and.mpr ?_)
        rintro rfl
        exact List.contains_iff_mem.mp alive
      · refine (or_iff_right ?_).symm
        rintro ⟨rfl, live⟩
        exact alive (List.contains_iff_mem.mpr live)

/-- Live nodes read what is live in front of them, so they follow each other without the dead ones.
By induction on the body.
-/
theorem chained_keepLive (chained : Chained narrow known body)
    (keys : Table.keys more ⊆ Table.keys known)
    (live
      : ∀ value ∈ (keepLive outputs body).2, ∀ type, (value, type) ∈ known → (value, type) ∈ more)
    : Chained narrow more (keepLive outputs body).1 := by
  induction chained generalizing more with
  | nil => exact .nil
  | @cons known node rest here _ ih =>
      rw [keepLive] at live ⊢
      dsimp only at live ⊢
      split_ifs at live ⊢ with alive
      · refine .cons (here.transfer (fun member => here.fresh (keys member)) fun value read =>
          live value (List.mem_append_left _ read)) (ih ?_ ?_)
        · rw [Table.keys, Table.keys, List.map_append, List.map_append]
          exact List.append_subset.mpr ⟨List.subset_append_of_subset_left _ keys,
            List.subset_append_right _ _⟩
        · intro value member type declared
          rcases List.mem_append.mp declared with before | new
          · exact List.mem_append_left _ (live value (List.mem_append_right _ member) type before)
          · exact List.mem_append_right _ new
      · refine ih ?_ ?_
        · rw [Table.keys, Table.keys, List.map_append]
          exact List.subset_append_of_subset_left _ keys
        · intro value member type declared
          rcases List.mem_append.mp declared with before | new
          · exact live value member type before
          · obtain ⟨rfl, -⟩ := Prod.mk.inj (List.mem_singleton.mp new)
            exact absurd (List.contains_iff_mem.mpr member) alive

theorem leadsTo_run (typed : graph.WellTyped narrow)
    : graph.LeadsTo narrow (run graph).graph (run graph).outcome := by
  refine ⟨⟨typed.inputsDistinct, typed.inputsTyped, ?_, ?_⟩, ⟨rfl, rfl, rfl, rfl⟩,
    fun _ => ⟨_, rfl⟩⟩
  · exact chained_keepLive typed.body (List.Subset.refl _) fun _ _ _ declared => declared
  · refine List.forall₂_iff_get.mpr ⟨typed.outputs.length_eq, fun place inside inside' => ?_⟩
    have declared := typed.outputs.get inside inside'
    rcases List.mem_append.mp declared with input | produced
    · exact List.mem_append_left _ input
    · obtain ⟨node, member, same⟩ := List.mem_map.mp produced
      refine List.mem_append_right _ (List.mem_map.mpr ⟨node, mem_keepLive_iff.mpr ?_, same⟩)
      obtain ⟨front, back, split⟩ := List.append_of_mem member
      obtain ⟨shown, -⟩ := Prod.mk.inj same
      have outputs := live_subset_append graph.outputs back []
      rw [List.append_nil] at outputs
      exact ⟨front, back, split, outputs (shown ▸ List.getElem_mem inside)⟩

end Liveness

-----------------------------------------------------------------------------------------
-- Pipelines
-----------------------------------------------------------------------------------------

/-- A pass keeps graphs well typed. -/
def Pass.IsSafe (narrow : Prop) (limit : Nat) (pass : Pass) : Prop :=
  ∀ graph : Graph, graph.WellTyped narrow
    → graph.LeadsTo narrow (pass.run limit graph).graph (pass.run limit graph).outcome

theorem Graph.LeadsTo.next {more : Except PassError PassStats}
    (first : given.LeadsTo narrow middle outcome) (second : middle.LeadsTo narrow after more)
    (combine : PassStats → PassStats)
    : given.LeadsTo narrow after (more.map combine) where
  typed := second.typed
  interface := first.interface.trans second.interface
  succeeds small := by
    obtain ⟨stats, fine⟩ := second.succeeds small
    exact ⟨combine stats, by rw [fine]; rfl⟩

theorem PassRun.leadsTo_andThen {run : PassRun} {pass : Pass}
    (start : given.LeadsTo narrow run.graph run.outcome) (safe : pass.IsSafe narrow limit)
    : given.LeadsTo narrow (run.andThen limit pass).graph (run.andThen limit pass).outcome := by
  rw [andThen]
  split
  · exact start
  · exact start.next (safe _ start.typed) _

theorem PassEntry.isSafe {entry : PassEntry}
    (stock : ∀ rule ∈ entry.rules,
      rule ∈ Catalog.canonicalRules ++ Catalog.loweringRules ++ [Rules.promoteListMutation])
    (trailing : ∀ pass ∈ entry.trailing, pass.IsSafe narrow limit)
    : entry.pass.IsSafe narrow limit := fun graph typed =>
  List.foldlRecOn
    (motive := fun run : PassRun => graph.LeadsTo narrow run.graph run.outcome) entry.trailing _
    (leadsTo_runRules stock typed limit) fun _ start pass member =>
      PassRun.leadsTo_andThen start (trailing pass member)

namespace Stage

variable {passes : List Pass} {run : OptimizerRun}

theorem leadsTo_step {state : OptimizerRun × PassStats} {pass : Pass}
    (start : given.LeadsTo narrow state.1.graph state.1.outcome)
    (safe : pass.IsSafe narrow limit)
    : given.LeadsTo narrow (step limit state pass).1.graph (step limit state pass).1.outcome := by
  obtain ⟨run, done⟩ := state
  rw [step]
  dsimp only
  split
  · exact start
  · rename_i totals _
    have next := start.next (safe _ start.typed) totals.merge
    split
    · rename_i error failed
      rwa [failed] at next
    · rename_i stats fine
      rwa [fine] at next

theorem leadsTo_round (safe : ∀ pass ∈ passes, pass.IsSafe narrow limit)
    (start : given.LeadsTo narrow run.graph run.outcome)
    : given.LeadsTo narrow (round passes limit run).1.graph (round passes limit run).1.outcome :=
  List.foldlRecOn
    (motive := fun state : OptimizerRun × PassStats =>
      given.LeadsTo narrow state.1.graph state.1.outcome)
    passes _ start fun _ start pass member => leadsTo_step start (safe pass member)

/-- By induction on the rounds. -/
theorem leadsTo_repeatRounds (safe : ∀ pass ∈ passes, pass.IsSafe narrow limit)
    (start : given.LeadsTo narrow run.graph run.outcome) (rounds : Nat)
    : given.LeadsTo narrow (repeatRounds passes limit rounds run).graph
        (repeatRounds passes limit rounds run).outcome := by
  induction rounds generalizing run with
  | zero => exact start
  | succ rounds ih =>
      have once := leadsTo_round safe start
      rw [repeatRounds]
      dsimp only
      split
      · exact once
      · split_ifs
        · exact ih once
        · exact once

theorem leadsTo_run {stage : Stage} (safe : ∀ pass ∈ stage.passes, pass.IsSafe narrow limit)
    (start : given.LeadsTo narrow run.graph run.outcome)
    : given.LeadsTo narrow (Stage.run limit run stage).graph (Stage.run limit run stage).outcome := by
  rw [Stage.run]
  split
  · exact start
  · exact leadsTo_repeatRounds safe start _

end Stage

namespace Optimizer

open Catalog

theorem leadsTo_ofStages {signature : String} {stages : List Stage}
    (safe : ∀ stage ∈ stages, ∀ pass ∈ stage.passes, pass.IsSafe narrow limit)
    (typed : graph.WellTyped narrow)
    : graph.LeadsTo narrow ((ofStages signature stages).optimize limit graph).graph
        ((ofStages signature stages).optimize limit graph).outcome :=
  List.foldlRecOn
    (motive := fun run : OptimizerRun => graph.LeadsTo narrow run.graph run.outcome) stages _
    ⟨typed, .refl graph, fun _ => ⟨_, rfl⟩⟩ fun _ start stage member =>
      Stage.leadsTo_run (safe stage member) start

/-- All passes of the library keep graphs well typed. -/
theorem isSafe_of_stock {entry : PassEntry} (stock : entry ∈ Catalog.stock)
    : entry.pass.IsSafe narrow limit := by
  simp only [Catalog.stock, List.mem_cons, List.not_mem_nil, or_false] at stock
  rcases stock with rfl | rfl | rfl | rfl
  · exact PassEntry.isSafe (fun _ member => List.mem_append_left _ (List.mem_append_left _ member))
      nofun
  · exact PassEntry.isSafe (fun _ member => List.mem_append_left _ (List.mem_append_right _ member))
      nofun
  · refine PassEntry.isSafe nofun (List.forall_mem_cons.mpr ⟨?_, List.forall_mem_singleton.mpr ?_⟩)
    · exact fun _ typed => Sharing.leadsTo_run typed
    · exact fun _ typed => Liveness.leadsTo_run typed
  · exact PassEntry.isSafe (fun _ member => List.mem_append_right _ member) nofun

theorem leadsTo_stock (config : OptimizeConfig) (typed : graph.WellTyped narrow) (limit : Nat)
    : graph.LeadsTo narrow ((stock config).optimize limit graph).graph
        ((stock config).optimize limit graph).outcome := by
  have safe : ∀ pass ∈ Catalog.stock.map PassEntry.pass, pass.IsSafe narrow limit := by
    intro pass member
    obtain ⟨entry, listed, rfl⟩ := List.mem_map.mp member
    exact isSafe_of_stock listed
  rw [stock_eq]
  refine leadsTo_ofStages (fun stage member pass here => safe pass ?_) typed
  change pass ∈ [canonicalize.pass, uncanonicalize.pass, fastRun.pass, inplace.pass]
  simp only [List.mem_cons, List.not_mem_nil, or_false] at member ⊢
  rcases member with rfl | rfl | rfl
  · exact .inl (List.mem_singleton.mp here)
  · simp only [cleanup, List.mem_cons, List.not_mem_nil, or_false] at here
    tauto
  · exact .inr (.inr (.inr (List.mem_singleton.mp here)))

/-- Whatever is built, the pipeline of the library leaves a graph with the same interface behind,
for which tables can be built, whose body is in order, and whose nodes have the types that are
inferred from the types of their operands. It succeeds if no node indexes an axis that signed words
cannot count.
-/
theorem stock_keeps_built_graphs_typed {calls : List Builder.Call} {name : String}
    {outputs : List ValueId}
    (built : (Builder.afterCalls calls).finish name outputs = .ok graph) (config : OptimizeConfig)
    (limit : Nat)
    : graph.SameInterface ((stock config).optimize limit graph).graph
      ∧ (∃ index, Index.build ((stock config).optimize limit graph).graph = .ok index)
      ∧ ((stock config).optimize limit graph).graph.checkOrder = .ok ()
      ∧ ((stock config).optimize limit graph).graph.TypedBy
          ((stock config).optimize limit graph).graph.types
      ∧ (graph.IsNarrow → ∃ stats, ((stock config).optimize limit graph).outcome = .ok stats) := by
  obtain ⟨typed, interface, succeeds⟩ :=
    leadsTo_stock config (Builder.wellTyped_of_finish built) limit
  obtain ⟨session, started, -⟩ := Session.exists_start_of_wellTyped typed
  obtain ⟨index, indexed, -⟩ := Steps.bind_eq_ok_iff.mp started
  exact ⟨interface, ⟨index, indexed⟩, Graph.checkOrder_eq_ok_iff.mpr typed.ordered, typed.typedBy,
    succeeds⟩

/-- A graph that slices a matrix down to one row and drops the axis. -/
def droppedRow (rows : Nat) (stop : Int) : Graph where
  name := "row"
  inputTypes := [.tensor ⟨.f64, ⟨[.static rows, .static 2]⟩⟩]
  inputs := [⟨0⟩]
  outputTypes := [.tensor ⟨.f64, ⟨[.static 2]⟩⟩]
  body :=
    [⟨⟨1⟩, .subtensor [.slice ⟨some (.static 0), some (.static stop), none⟩], [.value ⟨0⟩],
        .tensor ⟨.f64, ⟨[.static 1, .static 2]⟩⟩⟩,
      ⟨⟨2⟩, .shuffle [.axis 1], [.value ⟨1⟩], .tensor ⟨.f64, ⟨[.static 2]⟩⟩⟩]
  outputs := [⟨2⟩]

/-- The calls that build `droppedRow`. -/
def droppedRowCalls (rows : Nat) (stop : Int) : List Builder.Call :=
  [.input (.tensor ⟨.f64, ⟨[.static rows, .static 2]⟩⟩),
    .node (.subtensor [.slice ⟨some (.static 0), some (.static stop), none⟩]) [.value ⟨0⟩],
    .node (.shuffle [.axis 1]) [.value ⟨1⟩]]

/-- Five rows can be counted, so the slice and the shuffle become an index. -/
theorem droppedRow_stays_typed
    : (Builder.afterCalls (droppedRowCalls 5 1)).finish "row" [⟨2⟩] = .ok (droppedRow 5 1)
      ∧ ((stock .standard).optimize 10000 (droppedRow 5 1)).graph ≠ droppedRow 5 1
      ∧ ((stock .standard).optimize 10000 (droppedRow 5 1)).graph.checkOrder = .ok ()
      ∧ ∃ stats, ((stock .standard).optimize 10000 (droppedRow 5 1)).outcome = .ok stats := by
  have built
      : (Builder.afterCalls (droppedRowCalls 5 1)).finish "row" [⟨2⟩] = .ok (droppedRow 5 1) := rfl
  have narrow : (droppedRow 5 1).IsNarrow := by
    intro node member types declared entries same type first size sized
    simp only [droppedRow, List.mem_cons, List.not_mem_nil, or_false] at member
    rcases member with rfl | rfl
    · obtain ⟨_, _, here, -, rfl⟩ := List.forall₂_cons_left_iff.mp declared
      obtain rfl := Option.some.inj first
      have known : type = ⟨.f64, ⟨[.static 5, .static 2]⟩⟩ := by
        simpa [Operand.DeclaredBy, Graph.types, droppedRow, Node.result] using here
      rw [known] at sized
      simp at sized
      omega
    · cases same
  obtain ⟨-, -, ordered, -, succeeds⟩ := stock_keeps_built_graphs_typed built .standard 10000
  exact ⟨built, by decide +kernel, ordered, succeeds narrow⟩

/-- So many rows cannot be counted. -/
example
    : (Builder.afterCalls (droppedRowCalls (2 ^ 64 - 1) (-1))).finish "row" [⟨2⟩]
        = .ok (droppedRow (2 ^ 64 - 1) (-1))
      ∧ ((stock .standard).optimize 10000 (droppedRow (2 ^ 64 - 1) (-1))).outcome.toBool
        = false := by
  decide +kernel

end Optimizer

end Dataflow
