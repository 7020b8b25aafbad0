import Dataflow.Proofs.Graph.WellTyped
import Dataflow.Proofs.Rewrite.Edits

/-!
Changes of well-typed graphs. A body may be changed from a position on, as long as the new rest
follows what is declared in front of it; the single changes of a body are of this form.
-/

namespace Dataflow.Graph

variable {narrow : Prop} {graph : Graph} {position : Nat} {node : Node}

theorem insertIdx_eq_append {body : List Node} (inside : position ≤ body.length) (node : Node)
    : body.insertIdx position node = body.take position ++ node :: body.drop position := by
  induction body generalizing position with
  | nil =>
      obtain rfl : position = 0 := Nat.le_zero.mp inside
      rfl
  | cons first rest ih =>
      cases position with
      | zero => rfl
      | succ position =>
          rw [List.insertIdx_succ_cons, ih (Nat.le_of_succ_le_succ inside)]
          rfl

theorem take_insertIdx {body : List Node} (inside : position ≤ body.length) (node : Node)
    : (body.insertIdx position node).take (position + 1) = body.take position ++ [node] := by
  rw [insertIdx_eq_append inside, List.take_append, List.take_take, List.length_take,
    Nat.min_eq_left inside, Nat.min_eq_right (Nat.le_succ position), Nat.add_sub_cancel_left]
  rfl

theorem drop_eq (found : graph.body[position]? = some node)
    : graph.body.drop position = node :: graph.body.drop (position + 1) := by
  obtain ⟨inside, rfl⟩ := List.getElem?_eq_some_iff.mp found
  exact List.drop_eq_getElem_cons inside

theorem types_eq (graph : Graph) (position : Nat)
    : graph.types
      = graph.typesBefore position ++ (graph.body.drop position).map Node.result := by
  rw [types, typesBefore, List.append_assoc, ← List.map_append, List.take_append_drop]

theorem typesBefore_succ (found : graph.body[position]? = some node)
    : graph.typesBefore (position + 1) = graph.typesBefore position ++ [node.result] := by
  rw [typesBefore, typesBefore, List.take_add_one, found, List.map_append, List.append_assoc]
  rfl

/-- What is declared behind a node is declared without it, unless the node declares it. -/
theorem declared_without (found : graph.body[position]? = some node) {value : ValueId}
    {type : ValueType} (declared : (value, type) ∈ graph.types) (differs : value ≠ node.value)
    : (value, type)
      ∈ graph.typesBefore position ++ (graph.body.drop (position + 1)).map Node.result := by
  rw [types_eq graph position, drop_eq found] at declared
  rcases List.mem_append.mp declared with before | later
  · exact List.mem_append_left _ before
  · refine List.mem_append_right _ ((List.mem_cons.mp later).resolve_left fun same => ?_)
    exact differs (Prod.mk.inj same).1

/-- Nodes in front of a node do not read its value. -/
theorem Ordered.redirect_take (ordered : graph.Ordered)
    (found : graph.body[position]? = some node) (new : ValueId)
    : (graph.body.take position).map (Session.redirectNode node.value new)
      = graph.body.take position := by
  refine (List.map_congr_left fun other member => ?_).trans (List.map_id _)
  obtain ⟨place, there⟩ := List.mem_iff_getElem?.mp member
  rw [List.getElem?_take] at there
  split_ifs at there with before
  refine Session.redirectNode_eq_self fun read => ?_
  exact value_not_before ordered.distinct found
    (definedBefore_mono before.le (ordered.reads there _ read))

namespace WellTyped

variable (typed : graph.WellTyped narrow)

include typed

theorem chained_take (position : Nat)
    : Chained narrow (graph.inputs.zip graph.inputTypes) (graph.body.take position) := by
  have body := typed.body
  rw [← List.take_append_drop position graph.body, Chained.append_iff] at body
  exact body.1

theorem chained_drop (position : Nat)
    : Chained narrow (graph.typesBefore position) (graph.body.drop position) := by
  have body := typed.body
  rw [← List.take_append_drop position graph.body, Chained.append_iff] at body
  exact body.2

theorem chained_behind (found : graph.body[position]? = some node)
    : Chained narrow (graph.typesBefore position ++ [node.result])
        (graph.body.drop (position + 1)) := by
  rw [← typesBefore_succ found]
  exact typed.chained_drop (position + 1)

theorem node_type {value : ValueId} {type : ValueType} (member : node ∈ graph.body)
    (same : node.value = value) (declared : (value, type) ∈ graph.types)
    : type = node.type :=
  typed.type_unique declared (same ▸ result_mem_types member)

/-- The body may be changed from a position on. -/
theorem splice {back : List Node} {outputs : List ValueId}
    (chained : Chained narrow (graph.typesBefore position) back)
    (shown
      : List.Forall₂ (fun id type => (id, type) ∈ graph.typesBefore position ++ back.map Node.result)
          outputs graph.outputTypes)
    : WellTyped narrow { graph with body := graph.body.take position ++ back, outputs } := by
  refine ⟨typed.inputsDistinct, typed.inputsTyped, ?_, shown.imp fun id type known => ?_⟩
  · exact Chained.append_iff.mpr ⟨typed.chained_take position, chained⟩
  · rw [types, List.map_append, ← List.append_assoc]
    exact known

/-- A new node may stand anywhere behind what it reads. -/
theorem insert (inside : position ≤ graph.body.length)
    (follows : node.Follows narrow (graph.typesBefore position)) (fresh : node.value ∉ graph.defined)
    : WellTyped narrow { graph with body := graph.body.insertIdx position node } := by
  rw [insertIdx_eq_append inside]
  refine typed.splice (.cons follows ?_) (typed.outputs.imp fun id type known => ?_)
  · refine (typed.chained_drop position).weaken (List.subset_append_left _ _) ?_
    intro other member taken
    rw [Table.keys, List.map_append, List.mem_append] at taken
    refine taken.elim ((typed.chained_drop position).value_not_mem member) fun same => fresh ?_
    obtain same : other.value = node.value := List.mem_singleton.mp same
    exact same ▸ value_mem_defined (List.mem_of_mem_drop member)
  · rw [types_eq graph position] at known
    rcases List.mem_append.mp known with before | later
    · exact List.mem_append_left _ before
    · exact List.mem_append_right _ (List.mem_cons_of_mem _ later)

/-- A node that nothing reads or shows may be taken out. -/
theorem erase (found : graph.body[position]? = some node)
    (unread : ∀ other ∈ graph.body, node.value ∉ other.reads)
    (unshown : node.value ∉ graph.outputs)
    : WellTyped narrow { graph with body := graph.body.eraseIdx position } := by
  have later := typed.chained_behind found
  have outputs := typed.outputs
  rw [List.eraseIdx_eq_take_drop_succ]
  refine typed.splice (later.transfer ?_ ?_) ?_
  · intro other member taken
    refine later.value_not_mem member ?_
    rw [Table.keys, List.map_append]
    exact List.mem_append_left _ taken
  · intro other member value read type declared
    refine (List.mem_append.mp declared).resolve_right fun same => ?_
    obtain ⟨rfl, -⟩ := Prod.mk.inj (List.mem_singleton.mp same)
    exact unread other (List.mem_of_mem_drop member) read
  · rw [List.forall₂_iff_zip] at outputs ⊢
    refine ⟨outputs.1, fun {id type} member => ?_⟩
    refine declared_without found (outputs.2 member) fun same => ?_
    exact unshown (same ▸ (List.of_mem_zip member).1)

/-- A value of the same type that is declared earlier may stand in the place of a node. -/
theorem replace (found : graph.body[position]? = some node) {new : ValueId}
    (declared : (new, node.type) ∈ graph.typesBefore position)
    : WellTyped narrow
        { graph with
          body := (graph.body.eraseIdx position).map (Session.redirectNode node.value new)
          outputs := graph.outputs.map fun id => if id = node.value then new else id } := by
  have later := typed.chained_behind found
  have here := typed.follows_at found
  rw [List.eraseIdx_eq_take_drop_succ, List.map_append, typed.ordered.redirect_take found]
  refine typed.splice (later.redirect ?_ ?_ ?_ ?_) ?_
  · rw [Table.keys, List.map_append]
    exact List.mem_append_right _ List.mem_cons_self
  · intro other member taken
    refine later.value_not_mem member ?_
    rw [Table.keys, List.map_append]
    exact List.mem_append_left _ taken
  · intro value type known differs
    refine (List.mem_append.mp known).resolve_right fun same => ?_
    exact differs (Prod.mk.inj (List.mem_singleton.mp same)).1
  · intro type known
    rcases List.mem_append.mp known with before | same
    · exact absurd (List.mem_map_of_mem before) here.fresh
    · rw [(Prod.mk.inj (List.mem_singleton.mp same)).2]
      exact declared
  · have results
        : ((graph.body.drop (position + 1)).map (Session.redirectNode node.value new)).map Node.result
          = (graph.body.drop (position + 1)).map Node.result := by
      rw [List.map_map]
      rfl
    rw [List.forall₂_map_left_iff, results]
    refine typed.outputs.imp fun id type known => ?_
    split_ifs with same
    · rw [typed.node_type (List.mem_of_getElem? found) same.symm known]
      exact List.mem_append_left _ declared
    · exact declared_without found known same

/-- A node may get another operation of the same type. -/
theorem change {other : Node} (found : graph.body[position]? = some node)
    (result : other.result = node.result)
    (follows : other.Follows narrow (graph.typesBefore position))
    : WellTyped narrow { graph with body := graph.body.set position other } := by
  obtain ⟨inside, -⟩ := List.getElem?_eq_some_iff.mp found
  rw [List.set_eq_take_append_cons_drop, if_pos inside]
  refine typed.splice (.cons follows (result ▸ typed.chained_behind found)) ?_
  rw [List.map_cons, result, ← List.map_cons, ← drop_eq found, ← types_eq]
  exact typed.outputs

end WellTyped

end Dataflow.Graph
