import Dataflow.Pass.Cleanup
import Dataflow.Proofs.Execution.Totality
import Dataflow.Proofs.Rewrite.Preservation

/-!
Live values and failures. A dead node that is dropped takes its failure with it, unless it cannot
fail. Rewrites of a graph without dead nodes may leave some behind, but only total ones.
-/

namespace Dataflow

variable {narrow : Prop} {backend : Backend} {graph : Graph} {given : List Value} {node : Node}
  {position : Nat} {new : ValueId}

-----------------------------------------------------------------------------------------
-- Live values
-----------------------------------------------------------------------------------------

namespace Graph

/-- A value is live if it is shown, or if a node reads it whose value is live. -/
inductive Live (graph : Graph) : ValueId → Prop
  | shown {id} (output : id ∈ graph.outputs) : graph.Live id
  | read {node id} (member : node ∈ graph.body) (live : graph.Live node.value)
    (reads : id ∈ node.reads) : graph.Live id

/-- The dead nodes of a graph cannot fail. -/
def DeadTotal (graph : Graph) : Prop :=
  ∀ node ∈ graph.body, graph.Live node.value ∨ node.IsTotal

variable {id : ValueId}

theorem Live.mono {other : Graph} (live : graph.Live id) (outputs : graph.outputs ⊆ other.outputs)
    (body : graph.body ⊆ other.body)
    : other.Live id := by
  induction live with
  | shown output => exact .shown (outputs output)
  | read member _ reads ih => exact .read (body member) ih reads

/-- What is read in front of the live nodes of a body is live, by induction on the body. -/
theorem live_of_mem_keepLive {body : List Node} (subset : body ⊆ graph.body)
    (member : id ∈ (Liveness.keepLive graph.outputs body).2)
    : graph.Live id := by
  induction body generalizing id with
  | nil => exact .shown member
  | cons node rest ih =>
      obtain ⟨here, later⟩ := List.cons_subset.mp subset
      rw [Liveness.keepLive] at member
      dsimp only at member
      split_ifs at member with alive
      · rcases List.mem_append.mp member with read | before
        · exact .read here (ih later (List.contains_iff_mem.mp alive)) read
        · exact ih later before
      · exact ih later member

-----------------------------------------------------------------------------------------
-- Dropped and new nodes
-----------------------------------------------------------------------------------------

/-- A value that is neither read nor shown is dead. -/
theorem not_live (unread : ∀ other ∈ graph.body, id ∉ other.reads) (hidden : id ∉ graph.outputs)
    : ¬graph.Live id
  | .shown output => hidden output
  | .read member _ reads => unread _ member reads

/-- Without a dead node, the same values are live. -/
theorem Live.erased (live : graph.Live id) (found : graph.body[position]? = some node)
    (dead : ¬graph.Live node.value)
    : (graph.erased position).Live id := by
  induction live with
  | shown output => exact .shown output
  | read member live reads ih =>
      rcases (mem_body_iff found).mp member with rfl | there
      · exact absurd live dead
      · exact .read there ih reads

theorem DeadTotal.erased (total : graph.DeadTotal) (found : graph.body[position]? = some node)
    (dead : ¬graph.Live node.value)
    : (graph.erased position).DeadTotal := by
  intro other member
  exact (total other (List.mem_of_mem_eraseIdx member)).imp_left fun live =>
    live.erased found dead

theorem DeadTotal.inserted (total : graph.DeadTotal) (new : node.IsTotal) (position : Nat)
    : (graph.inserted position node).DeadTotal := by
  intro other member
  rcases List.eq_or_mem_of_mem_insertIdx member with rfl | there
  · exact .inr new
  · exact (total other there).imp_left fun live =>
      live.mono (List.Subset.refl _) (List.subset_insertIdx ..)

end Graph

-----------------------------------------------------------------------------------------
-- Replaced nodes
-----------------------------------------------------------------------------------------

theorem Session.input?_redirectNode (old new : ValueId) (node : Node) (position : Nat)
    : (redirectNode old new node).input? position
      = (node.input? position).map fun id => if id = old then new else id := by
  rw [redirectNode, Node.input?, Node.input?, List.getElem?_map]
  cases node.operands[position]? with
  | none => rfl
  | some operand =>
      cases operand with
      | literal literal => rfl
      | value id =>
          simp only [Option.map_some, Option.bind_some, redirect, Operand.value.injEq]
          split_ifs with hit <;> simp [Operand.value?, hit]

theorem Node.IsTotal.redirect (total : node.IsTotal) (old new : ValueId)
    : (Session.redirectNode old new node).IsTotal where
  operation := total.operation
  reads := by
    obtain ⟨base, reads⟩ := total.reads
    rw [Session.input?_redirectNode, reads]
    exact ⟨_, rfl⟩

namespace Graph

/-- Nodes with the same name are the same. -/
theorem eq_of_value_eq (distinct : graph.defined.Nodup) {first second : Node}
    (member : first ∈ graph.body) (member' : second ∈ graph.body) (same : first.value = second.value)
    : first = second :=
  List.inj_on_of_nodup_map (List.nodup_append.mp distinct).2.1 member member' same

/-- A value is carried over if another one takes the place of a node: what stands for it is live, or
its node can be spared and reads what is live.
-/
def Carries (spare : Node → Prop) (graph : Graph) (position : Nat) (old new id : ValueId) : Prop :=
  (graph.replaced position old new).Live (if id = old then new else id)
    ∨ ∃ node ∈ graph.body,
        node.value = id
        ∧ spare node
        ∧ ∀ read ∈ node.reads,
            (graph.replaced position old new).Live (if read = old then new else read)

section

variable (distinct : graph.defined.Nodup) (found : graph.body[position]? = some node)

include distinct found

/-- If the new value carries what the replaced node reads, then all live values are carried. By
induction on the way from an output to the value.
-/
theorem Live.carries {spare : Node → Prop} {id : ValueId} (live : graph.Live id)
    (through
      : (graph.replaced position node.value new).Live new
        → ∀ read ∈ node.reads, graph.Carries spare position node.value new read)
    : graph.Carries spare position node.value new id := by
  induction live with
  | shown output => exact .inl (.shown (List.mem_map_of_mem output))
  | @read reader id member _ reads ih =>
      rcases ih with here | ⟨other, member', same, -, below⟩
      · rcases (mem_body_iff found).mp member with rfl | there
        · exact through (by simpa using here) id reads
        · rw [if_neg (ne_of_mem_eraseIdx distinct found there)] at here
          refine .inl (.read (List.mem_map_of_mem there) here ?_)
          rw [Session.reads_redirectNode]
          exact List.mem_map_of_mem reads
      · obtain rfl := eq_of_value_eq distinct member' member same
        exact .inl (below id reads)

theorem DeadTotal.replaced (total : graph.DeadTotal)
    (through
      : (graph.replaced position node.value new).Live new
        → ∀ read ∈ node.reads, graph.Carries Node.IsTotal position node.value new read)
    : (graph.replaced position node.value new).DeadTotal := by
  intro changed member
  obtain ⟨other, there, rfl⟩ := List.mem_map.mp member
  have member := List.mem_of_mem_eraseIdx there
  rcases total other member with live | cannot
  · rcases live.carries distinct found through with here | ⟨again, member', same, cannot, -⟩
    · rw [if_neg (ne_of_mem_eraseIdx distinct found there)] at here
      exact .inl here
    · obtain rfl := eq_of_value_eq distinct member' member same
      exact .inr (cannot.redirect _ _)
  · exact .inr (cannot.redirect _ _)

end

-----------------------------------------------------------------------------------------
-- Rewrites
-----------------------------------------------------------------------------------------

/-- What a rewrite keeps of a graph: its results, and that nodes work on copies, bring exact numbers
and cannot fail if they are dead.
-/
structure Kept (backend : Backend) (given : List Value) (before after : Graph) : Prop where
  agrees : before.Agrees backend given after
  copies
    : (∀ node ∈ before.body, node.operation.isInplace = false)
      → ∀ node ∈ after.body, node.operation.isInplace = false
  exact : before.IsExact → after.IsExact
  total : before.DeadTotal → after.DeadTotal

theorem Kept.trans {first second third : Graph} (left : first.Kept backend given second)
    (right : second.Kept backend given third)
    : first.Kept backend given third where
  agrees := left.agrees.trans right.agrees
  copies := right.copies ∘ left.copies
  exact := right.exact ∘ left.exact
  total := right.total ∘ left.total

/-- A value that is what a node makes may take its place, if it carries what the node reads. -/
theorem WellTyped.kept_replaced (typed : graph.WellTyped narrow)
    (found : graph.body[position]? = some node)
    (makes
      : ∀ i : Interpretation, i.Accounts backend (graph.front position) given []
          → i.Makes backend node.operation node.operands (i new))
    (through
      : (graph.replaced position node.value new).Live new
        → ∀ read ∈ node.reads, graph.Carries Node.IsTotal position node.value new read)
    : graph.Kept backend given (graph.replaced position node.value new) where
  agrees := typed.agrees_replaced found makes
  copies copies changed member := by
    obtain ⟨other, there, rfl⟩ := List.mem_map.mp member
    exact copies other (List.mem_of_mem_eraseIdx there)
  exact exact changed member := by
    obtain ⟨other, there, rfl⟩ := List.mem_map.mp member
    have stored := exact other (List.mem_of_mem_eraseIdx there)
    refine ⟨stored.operation, fun literal member => stored.operands literal ?_⟩
    obtain ⟨operand, listed, same⟩ := List.mem_map.mp member
    rw [Session.redirect] at same
    split_ifs at same
    exact same ▸ listed
  total total := total.replaced typed.distinct found through

/-- A new total node may come. -/
theorem WellTyped.kept_inserted (typed : graph.WellTyped narrow) (faithful : backend.Faithful)
    (fresh : node.value ∉ graph.defined) (total : node.IsTotal)
    (follows : node.operation.Follows narrow (graph.typesBefore position) node.operands node.type)
    : graph.Kept backend given (graph.inserted position node) where
  agrees := by
    refine typed.agrees_inserted fresh (fun read member => ?_) fun i accounts =>
      total.exists_makes follows faithful fun id _ =>
        accounts.hasType faithful (typed.front position) id
    obtain ⟨types, declared, -⟩ := follows
    obtain ⟨type, -, here⟩ := exists_declared_of_read declared member
    rw [← typed.keys_types]
    exact List.mem_map_of_mem (typesBefore_subset _ _ here)
  copies copies other member := by
    rcases List.eq_or_mem_of_mem_insertIdx member with rfl | there
    · exact total.copies
    · exact copies other there
  exact exact other member := by
    rcases List.eq_or_mem_of_mem_insertIdx member with rfl | there
    · exact total.isExact follows
    · exact exact other there
  total dead := dead.inserted total position

/-- A total node takes the place of another one if the latter makes whatever the former makes, and if
it reads what total nodes read in front of the latter.
-/
theorem WellTyped.kept_substituted (typed : graph.WellTyped narrow) (faithful : backend.Faithful)
    (found : graph.body[position]? = some node) {new : Node} (fresh : new.value ∉ graph.defined)
    (total : new.IsTotal) (follows : new.Follows narrow (graph.typesBefore position))
    (makes
      : ∀ i : Interpretation, i.Accounts backend (graph.front position) given []
          → ∀ value, i.Makes backend new.operation new.operands value
          → i.Makes backend node.operation node.operands value)
    (through
      : ∀ read ∈ node.reads,
          ∃ inner ∈ graph.body, inner.value = read ∧ inner.IsTotal ∧ inner.reads ⊆ new.reads)
    : graph.Kept backend given
        ((graph.inserted position new).replaced (position + 1) node.value new.value) := by
  have inside := (List.getElem?_eq_some_iff.mp found).1.le
  have middle : (graph.inserted position new).WellTyped narrow := typed.insert inside follows fresh
  have found' := getElem?_inserted_succ found new
  have here := getElem?_inserted_self inside new
  have member := List.mem_of_getElem? here
  refine (typed.kept_inserted faithful fresh total follows.inferred).trans
    (middle.kept_replaced found' (fun i accounts => ?_) fun live read reads => ?_)
  · have made := accounts.nodes new (List.mem_of_getElem? ((List.getElem?_take_of_lt
      (Nat.lt_succ_self position)).trans here))
    have front := accounts.front position
    rw [front_front _ (Nat.le_succ position), front_inserted] at front
    exact makes i front _ made
  · obtain ⟨inner, there, same, cannot, below⟩ := through read reads
    refine .inr ⟨inner, List.subset_insertIdx _ _ _ there, same, cannot, fun source reads => ?_⟩
    have other : new ∈ (graph.inserted position new).body.eraseIdx (position + 1) := by
      refine ((mem_body_iff found').mp member).resolve_left ?_
      rintro rfl
      exact fresh (value_mem_defined (List.mem_of_getElem? found))
    refine .read (List.mem_map_of_mem other) live ?_
    rw [Session.reads_redirectNode]
    exact List.mem_map_of_mem (below reads)

-----------------------------------------------------------------------------------------
-- Refinement
-----------------------------------------------------------------------------------------

/-- A graph that nothing but rewrites and dropped nodes have made of another one: it has the results
of the other one, and no more if no node of the other one was dead.
-/
structure Refines (backend : Backend) (given : List Value) (original current : Graph) : Prop where
  copies : ∀ node ∈ current.body, node.operation.isInplace = false
  results
    : ∀ results, original.Yields backend given results → current.Yields backend given results
  failures
    : (∀ node ∈ original.body, original.Live node.value)
      → current.DeadTotal
        ∧ ∀ results, current.Yields backend given results → original.Yields backend given results

namespace Refines

variable {original current after : Graph}

theorem refl (copies : ∀ node ∈ graph.body, node.operation.isInplace = false)
    : graph.Refines backend given graph :=
  ⟨copies, fun _ => id, fun live => ⟨fun node member => .inl (live node member), fun _ => id⟩⟩

theorem kept (refines : original.Refines backend given current)
    (kept : current.Kept backend given after)
    : original.Refines backend given after where
  copies := kept.copies refines.copies
  results results yields := (kept.agrees results).mp (refines.results results yields)
  failures live := by
    obtain ⟨total, failures⟩ := refines.failures live
    exact ⟨kept.total total, fun results yields => failures results ((kept.agrees results).mpr yields)⟩

/-- A dead node that is dropped is total, so it could be put back. -/
theorem erased (refines : original.Refines backend given current) (faithful : backend.Faithful)
    (typed : current.WellTyped narrow) (found : current.body[position]? = some node)
    (unread : ∀ other ∈ current.body, node.value ∉ other.reads)
    (hidden : node.value ∉ current.outputs)
    : original.Refines backend given (current.erased position) where
  copies other member := refines.copies other (List.mem_of_mem_eraseIdx member)
  results results yields := by
    obtain ⟨i, accounts⟩ := refines.results results yields
    exact ⟨i, accounts.erased position⟩
  failures live := by
    obtain ⟨total, failures⟩ := refines.failures live
    have dead := not_live unread hidden
    refine ⟨total.erased found dead, fun results yields => failures results ?_⟩
    have cannot := (total node (List.mem_of_getElem? found)).resolve_left dead
    have fresh : node.value ∉ (current.erased position).defined := by
      intro member
      rcases List.mem_append.mp member with input | produced
      · exact input_ne_value typed.distinct input (List.mem_of_getElem? found) rfl
      · obtain ⟨other, there, same⟩ := List.mem_map.mp produced
        exact ne_of_mem_eraseIdx typed.distinct found there same
    have follows := (typed.follows_at found).inferred
    have front : (current.erased position).typesBefore position = current.typesBefore position := by
      rw [typesBefore, Graph.erased, List.take_eraseIdx_eq_take_of_le _ _ _ le_rfl]
      rfl
    rw [← front] at follows
    have smaller : (current.erased position).WellTyped narrow := typed.erase found unread hidden
    have kept : (current.erased position).Kept backend given _ :=
      smaller.kept_inserted faithful fresh cannot follows
    rw [inserted_erased found] at kept
    exact (kept.agrees results).mp yields

end Refines

end Graph

end Dataflow
