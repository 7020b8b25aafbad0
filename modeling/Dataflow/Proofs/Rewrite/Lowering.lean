import Dataflow.Proofs.Rewrite.Fusion

/-!
Graphs that are lowered. A lowered graph has the results of the original, and it is stuck if the
original is. New nodes that make something may come, a node that does the work of two takes the
place of the second one, and nodes that nothing reads may go.
-/

namespace Dataflow

variable {narrow : Prop} {backend : Backend} {given : List Value} {graph : Graph}
  {node inner fused : Node} {outer : Operation} {others : List Operand} {position : Nat}
  {known : Types} {i : Interpretation} {id : ValueId} {value : Value}

/-- An operation that changes nothing in place and does not look for the largest elements. -/
structure Operation.IsPlain (operation : Operation) : Prop where
  copies : operation.isInplace = false
  searchless : ∀ axis, operation ≠ .maxAndArgMax axis

namespace Graph

theorem Computes.mono {other : Graph} (computes : graph.Computes backend given id value)
    (inputs : other.inputs = graph.inputs) (body : graph.body ⊆ other.body)
    : other.Computes backend given id value := by
  induction computes with
  | input bound => exact .input (inputs ▸ bound)
  | node member _ makes ih => exact .node (body member) ih makes

-----------------------------------------------------------------------------------------
-- What a node does that does the work of two
-----------------------------------------------------------------------------------------

section

variable (typed : graph.WellTyped narrow)
  (fuses : Node.Fuses backend known inner fused outer others) (memberInner : inner ∈ graph.body)
  (reads
    : ∀ read ∈ (Operand.value inner.value :: others).filterMap Operand.value?,
        graph.Computes backend given read (i read))

include typed fuses memberInner reads

/-- What the second operation reads is computed together with what the node reads that does the work
of both.
-/
theorem exists_fused_reads
    : ∃ j : Interpretation,
        (∀ read ∈ fused.reads, graph.Computes backend given read (j read))
        ∧ j.Makes backend inner.operation inner.operands (j inner.value)
        ∧ (Operand.value inner.value :: others).mapM j.operand
          = (Operand.value inner.value :: others).mapM i.operand := by
  obtain ⟨j, holds⟩ := @exists_computed backend graph given typed.distinct
  have computed := reads inner.value List.mem_cons_self
  obtain ⟨below, readsBelow, made⟩ := computed.exists_makes typed.distinct memberInner
  have same : j inner.value = i inner.value := holds _ _ computed
  refine ⟨j, fun read member => ?_, ?_, ?_⟩
  · rcases fuses.mem_reads_iff.mp member with first | other
    · rw [holds _ _ (readsBelow read first)]
      exact readsBelow read first
    · have here := reads read (List.mem_cons_of_mem _ other)
      rw [holds _ _ here]
      exact here
  · rw [same]
    exact made.congr (Interpretation.mapM_operand_congr fun read member =>
      holds _ _ (readsBelow read member))
  · exact Interpretation.mapM_operand_congr fun read member => holds _ _ (reads read member)

variable (faithful : backend.Faithful)
  (givenTyped : List.Forall₂ Value.HasType given graph.inputTypes) (subset : known ⊆ graph.types)

include faithful givenTyped subset

theorem computes_fused (member : fused ∈ graph.body)
    (makes : i.Makes backend outer (.value inner.value :: others) value)
    : graph.Computes backend given fused.value value := by
  obtain ⟨j, computed, made, same⟩ := exists_fused_reads typed fuses memberInner reads
  refine .node member computed (fuses.makes (fun id read type declared => ?_) made (makes.congr same))
  exact (computed id read).hasType faithful typed givenTyped (subset declared)

theorem refuses_fused (refuses : i.Refuses backend outer (.value inner.value :: others))
    : ∃ j : Interpretation,
        (∀ read ∈ fused.reads, graph.Computes backend given read (j read))
        ∧ j.Refuses backend fused.operation fused.operands := by
  obtain ⟨j, computed, made, same⟩ := exists_fused_reads typed fuses memberInner reads
  refine ⟨j, computed, fuses.refuses_outer (fun id read type declared => ?_) made
    (refuses.congr same)⟩
  exact (computed id read).hasType faithful typed givenTyped (subset declared)

end

-----------------------------------------------------------------------------------------
-- Fusions
-----------------------------------------------------------------------------------------

/-- A node at a position can be replaced: in front of it stand the node that it reads first and a node
of its type that does the work of both.
-/
structure Fusion (narrow : Prop) (backend : Backend) (graph : Graph) (position : Nat)
    (node inner fused : Node) : Prop where
  typed : graph.WellTyped narrow
  found : graph.body[position]? = some node
  innerFront : inner ∈ graph.body.take position
  fusedFront : fused ∈ graph.body.take position
  type : fused.type = node.type
  fuses
    : ∃ others,
        node.operands = .value inner.value :: others
        ∧ Node.Fuses backend (graph.typesBefore position) inner fused node.operation others

/-- What a node in front of a position reads is not made there. -/
theorem WellTyped.ne_of_read_front (typed : graph.WellTyped narrow)
    (found : graph.body[position]? = some node) {other : Node}
    (member : other ∈ graph.body.take position) (read : id ∈ other.reads)
    : id ≠ node.value := by
  obtain ⟨place, there⟩ := List.mem_iff_getElem?.mp member
  rw [List.getElem?_take] at there
  split_ifs at there with before
  rintro rfl
  exact value_not_before typed.distinct found
    (definedBefore_mono before.le (typed.ordered.reads there _ read))

/-- A redirected node reads what is computed for the values that it read, under the names that they
are redirected to.
-/
theorem exists_redirected_reads {old new : ValueId} {other : Node} (distinct : graph.defined.Nodup)
    (reads
      : ∀ read ∈ other.reads,
          graph.Computes backend given (if read = old then new else read) (i read))
    : ∃ j : Interpretation,
        (∀ read ∈ (Session.redirectNode old new other).reads,
          graph.Computes backend given read (j read))
        ∧ (Session.redirectNode old new other).operands.mapM j.operand
          = other.operands.mapM i.operand := by
  obtain ⟨j, holds⟩ := @exists_computed backend graph given distinct
  refine ⟨j, fun read member => ?_, Interpretation.mapM_redirect fun read member =>
    holds _ _ (reads read member)⟩
  rw [Session.reads_redirectNode] at member
  obtain ⟨source, there, rfl⟩ := List.mem_map.mp member
  rw [holds _ _ (reads source there)]
  exact reads source there

namespace Fusion

variable (fusion : graph.Fusion narrow backend position node inner fused)

include fusion

theorem wellTyped : (graph.replaced position node.value fused.value).WellTyped narrow := by
  refine fusion.typed.replace fusion.found ?_
  rw [← fusion.type]
  exact List.mem_append_right _ (List.mem_map_of_mem fusion.fusedFront)

theorem take_body
    : (graph.replaced position node.value fused.value).body.take position
      = graph.body.take position :=
  congrArg Graph.body (front_replaced fusion.typed fusion.found fused.value)

theorem mem_front {other : Node} (member : other ∈ graph.body.take position)
    : other ∈ (graph.replaced position node.value fused.value).body := by
  rw [← fusion.take_body] at member
  exact List.mem_of_mem_take member

theorem typesBefore_subset
    : graph.typesBefore position ⊆ (graph.replaced position node.value fused.value).types := by
  intro entry member
  refine Graph.typesBefore_subset _ position ?_
  rw [typesBefore, fusion.take_body]
  exact member

theorem ne_of_read (read : id ∈ node.reads) : id ≠ node.value := by
  rintro rfl
  exact value_not_before fusion.typed.distinct fusion.found
    (fusion.typed.ordered.reads fusion.found _ read)

/-- The values that the replaced node reads are carried by the new one, apart from the node that both
do the work of.
-/
theorem carries (live : (graph.replaced position node.value fused.value).Live fused.value)
    : ∀ read ∈ node.reads,
        graph.Carries
          (fun spared =>
            spared = inner ∧ (graph.replaced position node.value fused.value).Live fused.value)
          position node.value fused.value read := by
  obtain ⟨others, operands, fuses⟩ := fusion.fuses
  have below {read : ValueId} (member : read ∈ fused.reads)
      : (graph.replaced position node.value fused.value).Live
          (if read = node.value then fused.value else read) := by
    rw [if_neg (fusion.typed.ne_of_read_front fusion.found fusion.fusedFront member)]
    exact .read (fusion.mem_front fusion.fusedFront) live member
  intro read member
  rw [Node.reads, operands] at member
  rcases List.mem_cons.mp member with rfl | other
  · refine .inr ⟨inner, List.mem_of_mem_take fusion.innerFront, rfl, ⟨rfl, live⟩, fun source reads => ?_⟩
    exact below (fuses.mem_reads_iff.mpr (.inl reads))
  · exact .inl (below (fuses.mem_reads_iff.mpr (.inr other)))

variable (faithful : backend.Faithful)
  (givenTyped : List.Forall₂ Value.HasType given graph.inputTypes)

include faithful givenTyped

/-- What was computed is computed under the names that the values are redirected to. By induction on
what the value is made of.
-/
theorem computes (computes : graph.Computes backend given id value)
    : (graph.replaced position node.value fused.value).Computes backend given
        (if id = node.value then fused.value else id) value := by
  induction computes with
  | @input id value bound =>
      have differs := input_ne_value fusion.typed.distinct (List.of_mem_zip bound).1
        (List.mem_of_getElem? fusion.found)
      rw [if_neg differs.symm]
      exact .input bound
  | @node other value i member _ makes ih =>
      rcases (mem_body_iff fusion.found).mp member with rfl | there
      · obtain ⟨others, operands, fuses⟩ := fusion.fuses
        rw [operands] at makes
        rw [if_pos rfl]
        refine computes_fused fusion.wellTyped fuses (fusion.mem_front fusion.innerFront)
          (fun read member => ?_) faithful givenTyped fusion.typesBefore_subset
          (fusion.mem_front fusion.fusedFront) makes
        have read : read ∈ other.reads := by rwa [Node.reads, operands]
        have here := ih _ read
        rwa [if_neg (fusion.ne_of_read read)] at here
      · rw [if_neg (ne_of_mem_eraseIdx fusion.typed.distinct fusion.found there)]
        obtain ⟨j, computed, same⟩ := exists_redirected_reads fusion.wellTyped.distinct ih
        exact @Computes.node _ _ _ (Session.redirectNode node.value fused.value other) _ j
          (List.mem_map_of_mem there) computed (makes.congr same)

/-- If a node refused what was computed for it, then a node does that is left. -/
theorem stuck (stuck : graph.Stuck backend given)
    : (graph.replaced position node.value fused.value).Stuck backend given := by
  obtain ⟨others, operands, fuses⟩ := fusion.fuses
  have there := fusion.mem_front fusion.fusedFront
  obtain ⟨other, member, live, i, reads, refuses⟩ := stuck
  rcases live.carries fusion.typed.distinct fusion.found fusion.carries with
    here | ⟨_, member', same, ⟨rfl, here⟩, -⟩
  · rcases (mem_body_iff fusion.found).mp member with rfl | kept
    · rw [if_pos rfl] at here
      rw [operands] at refuses
      refine ⟨fused, there, here, ?_⟩
      refine refuses_fused fusion.wellTyped fuses (fusion.mem_front fusion.innerFront)
        (fun read member => ?_) faithful givenTyped fusion.typesBefore_subset refuses
      have read : read ∈ other.reads := by rwa [Node.reads, operands]
      have here := fusion.computes faithful givenTyped (reads _ read)
      rwa [if_neg (fusion.ne_of_read read)] at here
    · rw [if_neg (ne_of_mem_eraseIdx fusion.typed.distinct fusion.found kept)] at here
      obtain ⟨j, computed, same⟩ := exists_redirected_reads fusion.wellTyped.distinct
        fun read member => fusion.computes faithful givenTyped (reads read member)
      exact ⟨_, List.mem_map_of_mem kept, here, j, computed, refuses.congr same⟩
  · obtain rfl := eq_of_value_eq fusion.typed.distinct member' member same
    obtain ⟨place, standing⟩ := List.mem_iff_getElem?.mp fusion.innerFront
    have follows := ((fusion.typed.front position).follows_at standing).inferred.mono
      (Graph.typesBefore_subset _ place)
    obtain ⟨subset, refuses⟩ := fuses.refuses_inner faithful follows (fun id read type declared =>
      (reads id read).hasType faithful fusion.typed givenTyped
        (Graph.typesBefore_subset _ _ declared)) refuses
    refine ⟨fused, there, here, i, fun read member => ?_, refuses⟩
    have computed := fusion.computes faithful givenTyped (reads read (subset member))
    rwa [if_neg (fusion.typed.ne_of_read_front fusion.found fusion.fusedFront member)] at computed

end Fusion

-----------------------------------------------------------------------------------------
-- Lowered graphs
-----------------------------------------------------------------------------------------

/-- A graph is lowered to another one: this one takes the same inputs, has all results of the first
one, and is stuck where the first one is. Its new nodes are plain.
-/
structure Lowers (backend : Backend) (given : List Value) (before after : Graph) : Prop where
  inputTypes : after.inputTypes = before.inputTypes
  nodes
    : ∀ node ∈ after.body,
        (∃ old ∈ before.body, node.operation = old.operation ∧ node.type = old.type)
        ∨ node.operation.IsPlain
  results
    : ∀ results, before.Yields backend given results → after.Yields backend given results
  stuck
    : List.Forall₂ Value.HasType given before.inputTypes
      → before.Stuck backend given
      → after.Stuck backend given

theorem Lowers.refl (graph : Graph) : graph.Lowers backend given graph :=
  ⟨rfl, fun node member => .inl ⟨node, member, rfl, rfl⟩, fun _ => id, fun _ => id⟩

theorem Lowers.trans {first second third : Graph} (left : first.Lowers backend given second)
    (right : second.Lowers backend given third)
    : first.Lowers backend given third where
  inputTypes := right.inputTypes.trans left.inputTypes
  nodes node member := by
    rcases right.nodes node member with ⟨middle, there, same, type⟩ | plain
    · rcases left.nodes middle there with ⟨old, here, same', type'⟩ | plain
      · exact .inl ⟨old, here, same.trans same', type.trans type'⟩
      · exact .inr (same ▸ plain)
    · exact .inr plain
  results results := right.results results ∘ left.results results
  stuck typed := right.stuck (left.inputTypes ▸ typed) ∘ left.stuck typed

/-- The largest elements that a graph looks for are integers. -/
def SearchesIntegers (graph : Graph) : Prop :=
  ∀ node ∈ graph.body, ∀ {axis : Int} {largest : TensorType} {places : ValueType},
    node.operation = .maxAndArgMax axis
    → node.type = .tuple [.tensor largest, places]
    → largest.dtype.isInteger = true

/-- New nodes do not look for largest elements. -/
theorem Lowers.searchesIntegers {before after : Graph} (lowers : before.Lowers backend given after)
    (integers : before.SearchesIntegers)
    : after.SearchesIntegers := by
  intro node member axis largest places searches type
  rcases lowers.nodes node member with ⟨old, there, same, same'⟩ | plain
  · exact integers old there (same.symm.trans searches) (same'.symm.trans type)
  · exact absurd searches (plain.searchless axis)

/-- A new node may come if it makes something wherever the graph has results. -/
theorem WellTyped.lowers_inserted (typed : graph.WellTyped narrow)
    (fresh : node.value ∉ graph.defined) (reads : ∀ read ∈ node.reads, read ∈ graph.defined)
    (plain : node.operation.IsPlain)
    (makes
      : ∀ (i : Interpretation) (results : List Value), i.Accounts backend graph given results
          → ∃ value, i.Makes backend node.operation node.operands value)
    : graph.Lowers backend given (graph.inserted position node) where
  inputTypes := rfl
  nodes other member := by
    rcases List.eq_or_mem_of_mem_insertIdx member with rfl | there
    · exact .inr plain
    · exact .inl ⟨other, there, rfl, rfl⟩
  results results yields := by
    obtain ⟨i, accounts⟩ := yields
    obtain ⟨value, made⟩ := makes i results accounts
    have unread : node.value ∉ node.reads := fun read => fresh (reads _ read)
    exact ⟨_, accounts.toSolves.inserted typed.ordered fresh unread made position, accounts.typed⟩
  stuck _ stuck := by
    obtain ⟨other, member, live, i, computed, refuses⟩ := stuck
    have subset : graph.body ⊆ (graph.inserted position node).body := List.subset_insertIdx ..
    exact ⟨other, subset member, live.mono (List.Subset.refl _) subset, i,
      fun read member => (computed read member).mono rfl subset, refuses⟩

/-- A node that does the work of two may take the place of the second one. -/
theorem Fusion.lowers (fusion : graph.Fusion narrow backend position node inner fused)
    (faithful : backend.Faithful)
    : graph.Lowers backend given (graph.replaced position node.value fused.value) where
  inputTypes := rfl
  nodes changed member := by
    obtain ⟨other, there, rfl⟩ := List.mem_map.mp member
    exact .inl ⟨other, List.mem_of_mem_eraseIdx there, rfl, rfl⟩
  results results yields := by
    obtain ⟨i, accounts⟩ := yields
    obtain ⟨others, operands, fuses⟩ := fusion.fuses
    have made := accounts.nodes node (List.mem_of_getElem? fusion.found)
    rw [operands] at made
    have typed := accounts.hasType faithful fusion.typed
    have again := fuses.makes (fun id _ type declared =>
      typed id type (Graph.typesBefore_subset _ _ declared))
      (accounts.nodes inner (List.mem_of_mem_take fusion.innerFront)) made
    have same := again.unique (accounts.nodes fused (List.mem_of_mem_take fusion.fusedFront))
    exact ⟨i, accounts.toSolves.replaced same position, accounts.typed⟩
  stuck givenTyped := fusion.stuck faithful givenTyped

/-- A node that nothing reads or shows may go. -/
theorem lowers_erased (found : graph.body[position]? = some node)
    (unread : ∀ other ∈ graph.body, node.value ∉ other.reads) (hidden : node.value ∉ graph.outputs)
    : graph.Lowers backend given (graph.erased position) where
  inputTypes := rfl
  nodes other member := .inl ⟨other, List.mem_of_mem_eraseIdx member, rfl, rfl⟩
  results results yields := by
    obtain ⟨i, accounts⟩ := yields
    exact ⟨i, accounts.erased position⟩
  stuck _ stuck := by
    have computes {id : ValueId} {value : Value} (computes : graph.Computes backend given id value)
        (differs : id ≠ node.value)
        : (graph.erased position).Computes backend given id value := by
      induction computes with
      | input bound => exact .input bound
      | node member _ makes ih =>
          have there := ((mem_body_iff found).mp member).resolve_left fun same => differs (same ▸ rfl)
          refine .node there (fun read reads => ih read reads ?_) makes
          exact fun same => unread _ member (same ▸ reads)
    have dead := not_live unread hidden
    obtain ⟨other, member, live, i, computed, refuses⟩ := stuck
    have there := ((mem_body_iff found).mp member).resolve_left fun same => dead (same ▸ live)
    refine ⟨other, there, live.erased found dead, i, fun read reads => ?_, refuses⟩
    exact computes (computed read reads) fun same => unread other member (same ▸ reads)

end Graph

end Dataflow
