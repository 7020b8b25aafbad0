import Dataflow.Proofs.Execution.Interpretations
import Dataflow.Proofs.Rewrite.Retyping

/-!
Changes that keep what a graph computes. A value takes the place of a node that makes it, and nodes
that make something may come and go. Each change is made to the interpretations of the graph, so
the graph has the same results before and after it.
-/

namespace Dataflow

variable {narrow : Prop} {backend : Backend} {graph : Graph} {given results : List Value}
  {i : Interpretation} {node : Node} {position : Nat} {new : ValueId} {value : Value}

-----------------------------------------------------------------------------------------
-- Fronts
-----------------------------------------------------------------------------------------

namespace Graph

/-- The part of a graph in front of a position. It shows nothing. -/
def front (graph : Graph) (position : Nat) : Graph :=
  { graph with body := graph.body.take position, outputs := [], outputTypes := [] }

theorem WellTyped.front (typed : graph.WellTyped narrow) (position : Nat)
    : (graph.front position).WellTyped narrow where
  inputsDistinct := typed.inputsDistinct
  inputsTyped := typed.inputsTyped
  body := typed.chained_take position
  outputs := .nil

theorem IsExact.front (stored : graph.IsExact) (position : Nat) : (graph.front position).IsExact :=
  fun node member => stored node (List.mem_of_mem_take member)

/-- The nodes of a body are the node at a position and the others. -/
theorem mem_body_iff (found : graph.body[position]? = some node) {other : Node}
    : other ∈ graph.body ↔ other = node ∨ other ∈ graph.body.eraseIdx position := by
  obtain ⟨inside, rfl⟩ := List.getElem?_eq_some_iff.mp found
  rw [← (List.getElem_cons_eraseIdx_perm inside).mem_iff, List.mem_cons]

/-- The other nodes have other names. -/
theorem ne_of_mem_eraseIdx (distinct : graph.defined.Nodup)
    (found : graph.body[position]? = some node) {other : Node}
    (member : other ∈ graph.body.eraseIdx position)
    : other.value ≠ node.value := by
  intro same
  obtain ⟨place, differs, there⟩ := List.mem_eraseIdx_iff_getElem?.mp member
  exact differs (position_unique distinct there found same)

/-- The graph in which a value takes the place of the node at a position. -/
def replaced (graph : Graph) (position : Nat) (old new : ValueId) : Graph :=
  { graph with
    body := (graph.body.eraseIdx position).map (Session.redirectNode old new)
    outputs := graph.outputs.map fun id => if id = old then new else id }

/-- The graph with a new node at a position. -/
def inserted (graph : Graph) (position : Nat) (node : Node) : Graph :=
  { graph with body := graph.body.insertIdx position node }

/-- The graph in which a new node takes the place of the node at a position. -/
def substituted (graph : Graph) (position : Nat) (old : ValueId) (new : Node) : Graph :=
  (graph.inserted position new).replaced (position + 1) old new.value

/-- The graph without the node at a position. -/
def erased (graph : Graph) (position : Nat) : Graph :=
  { graph with body := graph.body.eraseIdx position }

theorem front_replaced (typed : graph.WellTyped narrow)
    (found : graph.body[position]? = some node) (new : ValueId)
    : (graph.replaced position node.value new).front position = graph.front position := by
  rw [front, replaced, ← List.map_take, List.take_eraseIdx_eq_take_of_le _ _ _ le_rfl,
    typed.ordered.redirect_take found]
  rfl

theorem front_front (graph : Graph) {first second : Nat} (le : first ≤ second)
    : (graph.front second).front first = graph.front first := by
  rw [front, front, List.take_take, Nat.min_eq_left le]
  rfl

theorem front_inserted (graph : Graph) (position : Nat) (node : Node)
    : (graph.inserted position node).front position = graph.front position := by
  rw [front, inserted, List.take_insertIdx_eq_take_of_le _ _ _ _ le_rfl]
  rfl

/-- Behind a new node stand the nodes that stood in its place. -/
theorem getElem?_inserted_succ (found : graph.body[position]? = some node) (new : Node)
    : (graph.inserted position new).body[position + 1]? = some node :=
  (List.getElem?_insertIdx_of_gt (Nat.lt_succ_self _)).trans found

theorem getElem?_inserted_self (inside : position ≤ graph.body.length) (new : Node)
    : (graph.inserted position new).body[position]? = some new :=
  List.getElem?_insertIdx_self.trans (if_pos inside)

theorem inserted_erased (found : graph.body[position]? = some node)
    : (graph.erased position).inserted position node = graph := by
  obtain ⟨inside, rfl⟩ := List.getElem?_eq_some_iff.mp found
  rw [inserted, erased, List.insertIdx_eraseIdx_getElem inside]

end Graph

-----------------------------------------------------------------------------------------
-- Interpretations of changed graphs
-----------------------------------------------------------------------------------------

namespace Interpretation

/-- Operands have the same values if each name has the value of the name that it is redirected to. -/
theorem mapM_redirect {j : Interpretation} {old : ValueId} {operands : List Operand}
    (same
      : ∀ read ∈ operands.filterMap Operand.value?,
          j (if read = old then new else read) = i read)
    : (operands.map (Session.redirect old new)).mapM j.operand = operands.mapM i.operand := by
  rw [List.mapM_map]
  refine Steps.mapM_congr fun operand member => ?_
  cases operand with
  | literal literal => rfl
  | value id =>
      have here := same id (List.mem_filterMap.mpr ⟨_, member, rfl⟩)
      rw [Function.comp_apply, Session.redirect]
      simp only [Operand.value.injEq]
      split_ifs at here ⊢ <;> exact congrArg Except.ok here

namespace Solves

theorem front (solves : i.Solves backend graph given results) (position : Nat)
    : i.Solves backend (graph.front position) given [] where
  given := solves.given
  nodes node member := solves.nodes node (List.mem_of_mem_take member)
  results := rfl

/-- Nodes may be left out. -/
theorem erased (solves : i.Solves backend graph given results) (position : Nat)
    : i.Solves backend (graph.erased position) given results where
  given := solves.given
  nodes node member := solves.nodes node (List.mem_of_mem_eraseIdx member)
  results := solves.results

/-- A node may come under a new name. -/
theorem inserted (solves : i.Solves backend graph given results) (ordered : graph.Ordered)
    (fresh : node.value ∉ graph.defined) (unread : node.value ∉ node.reads)
    (makes : i.Makes backend node.operation node.operands value) (position : Nat)
    : (i.extend node.value value).Solves backend (graph.inserted position node) given results where
  given := by
    rw [← solves.given]
    refine List.map_congr_left fun id member => extend_of_ne ?_
    rintro rfl
    exact fresh (Graph.input_mem_defined member)
  nodes other member := by
    rcases List.eq_or_mem_of_mem_insertIdx member with rfl | there
    · rw [extend_self]
      exact makes.congr (mapM_operand_congr fun read reads =>
        extend_of_ne fun same => unread (same ▸ reads))
    · have away {id : ValueId} (defined : id ∈ graph.defined) : id ≠ node.value :=
        fun same => fresh (same ▸ defined)
      rw [extend_of_ne (away (Graph.value_mem_defined there))]
      refine (solves.nodes other there).congr (mapM_operand_congr fun read reads => ?_)
      obtain ⟨place, found⟩ := List.mem_iff_getElem?.mp there
      exact extend_of_ne (away (Graph.mem_defined_of_before (ordered.reads found read reads)))
  results := by
    rw [← solves.results]
    refine List.map_congr_left fun id member => extend_of_ne ?_
    rintro rfl
    exact fresh (ordered.outputs _ member)

/-- A name that has the value of a node may take its place. -/
theorem replaced (solves : i.Solves backend graph given results) {old : ValueId}
    (same : i new = i old) (position : Nat)
    : i.Solves backend (graph.replaced position old new) given results where
  given := solves.given
  nodes other member := by
    obtain ⟨before, there, rfl⟩ := List.mem_map.mp member
    refine (solves.nodes before (List.mem_of_mem_eraseIdx there)).congr (mapM_redirect ?_)
    intro read _
    split_ifs with hit
    · rw [hit, same]
    · rfl
  results := by
    rw [← solves.results, Graph.replaced, List.map_map]
    refine List.map_congr_left fun id _ => ?_
    rw [Function.comp_apply]
    split_ifs with hit
    · rw [hit, same]
    · rfl

/-- The node comes back under the value that took its place. -/
theorem of_replaced (ordered : graph.Ordered) (found : graph.body[position]? = some node)
    (makes : i.Makes backend node.operation node.operands (i new))
    (solves : i.Solves backend (graph.replaced position node.value new) given results)
    : (i.extend node.value (i new)).Solves backend graph given results where
  given := by
    refine Eq.trans ?_ solves.given
    refine List.map_congr_left fun id member => extend_of_ne fun same => ?_
    exact Graph.input_ne_value ordered.distinct member (List.mem_of_getElem? found) same.symm
  nodes other member := by
    rcases (Graph.mem_body_iff found).mp member with rfl | there
    · rw [extend_self]
      refine makes.congr (mapM_operand_congr fun read reads => extend_of_ne ?_)
      rintro rfl
      exact Graph.value_not_before ordered.distinct found (ordered.reads found _ reads)
    · rw [extend_of_ne (Graph.ne_of_mem_eraseIdx ordered.distinct found there)]
      refine (solves.nodes _ (List.mem_map_of_mem there)).congr (mapM_redirect ?_).symm
      intro read _
      split_ifs with hit
      · rw [hit, extend_self]
      · exact (extend_of_ne hit).symm
  results := by
    rw [← solves.results, Graph.replaced, List.map_map]
    refine List.map_congr_left fun id _ => ?_
    rw [Function.comp_apply]
    split_ifs with hit
    · rw [hit, extend_self]
    · exact extend_of_ne hit

end Solves

theorem Accounts.front (accounts : i.Accounts backend graph given results) (position : Nat)
    : i.Accounts backend (graph.front position) given [] where
  toSolves := accounts.toSolves.front position
  typed := accounts.typed

theorem Accounts.erased (accounts : i.Accounts backend graph given results) (position : Nat)
    : i.Accounts backend (graph.erased position) given results where
  toSolves := accounts.toSolves.erased position
  typed := accounts.typed

end Interpretation

-----------------------------------------------------------------------------------------
-- Results
-----------------------------------------------------------------------------------------

namespace Graph

/-- A graph makes results of given values. -/
def Yields (backend : Backend) (graph : Graph) (given results : List Value) : Prop :=
  ∃ i : Interpretation, i.Accounts backend graph given results

/-- Two graphs have the same results of given values. -/
def Agrees (backend : Backend) (given : List Value) (graph other : Graph) : Prop :=
  ∀ results, graph.Yields backend given results ↔ other.Yields backend given results

theorem Agrees.refl (graph : Graph) : graph.Agrees backend given graph := fun _ => Iff.rfl

theorem Agrees.symm {other : Graph} (agrees : graph.Agrees backend given other)
    : other.Agrees backend given graph :=
  fun results => (agrees results).symm

theorem Agrees.trans {first second third : Graph} (left : first.Agrees backend given second)
    (right : second.Agrees backend given third)
    : first.Agrees backend given third :=
  fun results => (left results).trans (right results)

/-- If what is in front of a node makes its value under another name, then this name may take its
place.
-/
theorem WellTyped.agrees_replaced (typed : graph.WellTyped narrow)
    (found : graph.body[position]? = some node)
    (makes
      : ∀ i : Interpretation, i.Accounts backend (graph.front position) given []
          → i.Makes backend node.operation node.operands (i new))
    : graph.Agrees backend given (graph.replaced position node.value new) := by
  intro results
  constructor
  · rintro ⟨i, accounts⟩
    have made := accounts.nodes node (List.mem_of_getElem? found)
    have same := made.unique (makes i (accounts.front position))
    exact ⟨i, accounts.toSolves.replaced same position, accounts.typed⟩
  · rintro ⟨i, accounts⟩
    have front := accounts.front position
    rw [front_replaced typed found] at front
    exact ⟨_, accounts.toSolves.of_replaced typed.ordered found (makes i front), accounts.typed⟩

/-- A new node may come if what is in front of it makes its value. -/
theorem WellTyped.agrees_inserted (typed : graph.WellTyped narrow)
    (fresh : node.value ∉ graph.defined) (reads : ∀ read ∈ node.reads, read ∈ graph.defined)
    (makes
      : ∀ i : Interpretation, i.Accounts backend (graph.front position) given []
          → ∃ value, i.Makes backend node.operation node.operands value)
    : graph.Agrees backend given (graph.inserted position node) := by
  intro results
  constructor
  · rintro ⟨i, accounts⟩
    obtain ⟨value, made⟩ := makes i (accounts.front position)
    have unread : node.value ∉ node.reads := fun read => fresh (reads _ read)
    exact ⟨_, accounts.toSolves.inserted typed.ordered fresh unread made position, accounts.typed⟩
  · rintro ⟨i, accounts⟩
    have before := accounts.erased position
    rw [erased, inserted, List.eraseIdx_insertIdx_self] at before
    exact ⟨i, before⟩

end Graph

end Dataflow
