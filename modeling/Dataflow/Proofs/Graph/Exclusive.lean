import Dataflow.Proofs.Execution.Copying

/-!
Values that a single operand reads. A list of this kind may be mutated in place: nobody else reads its
storage, so a graph stays safe however many such mutations are chosen, and it runs as before.
-/

namespace Dataflow

-----------------------------------------------------------------------------------------
-- Mutations in place
-----------------------------------------------------------------------------------------

/-- Whether the result of an operation lies in the storage of an operand. -/
def Operation.isView (operation : Operation) : Bool :=
  match operation.storage with
  | .viewOf _ => true
  | .owned | .consumes _ => false

theorem Operation.isView_of_viewOf {operation : Operation} {position : Nat}
    (views : operation.storage = .viewOf position)
    : operation.isView = true := by
  rw [isView, views]

/-- The list that a node mutates a copy of. -/
def Node.copied? (node : Node) : Option ValueId :=
  match node.operation with
  | .listMutation _ false => node.input? 0
  | _ => none

/-- The node that mutates a list in place where this one mutates a copy. -/
def Node.inplace (node : Node) : Node :=
  { node with operation := (node.operation.withInplace true).getD node.operation }

namespace Node

theorem copied?_eq_some_iff {node : Node} {list : ValueId}
    : node.copied? = some list
      ↔ (∃ mutation, node.operation = .listMutation mutation false)
        ∧ node.input? 0 = some list := by
  rw [copied?]
  constructor
  · intro copied
    split at copied
    · exact ⟨⟨_, ‹_›⟩, copied⟩
    · cases copied
  · rintro ⟨⟨mutation, copies⟩, reads⟩
    rw [copies]
    exact reads

@[simp] theorem reads_inplace (node : Node) : node.inplace.reads = node.reads := rfl

@[simp] theorem isView_inplace (node : Node)
    : node.inplace.operation.isView = node.operation.isView := by
  rw [inplace]
  cases node.operation with
  | listMutation mutation inplace => cases inplace <;> rfl
  | _ => rfl

@[simp] theorem copying_inplace (node : Node) : node.inplace.copying = node.copying := by
  rw [copying, copying, inplace]
  cases node.operation <;> rfl

end Node

namespace Graph

/-- The number of operands in the body that read a value. -/
def readCount (graph : Graph) (value : ValueId) : Nat := (graph.body.flatMap Node.reads).count value

/-- A value is made by a node that is no view, it is no output, and one operand reads it. -/
def Exclusive (graph : Graph) (value : ValueId) : Prop :=
  (∃ node ∈ graph.body, node.value = value ∧ node.operation.isView = false)
  ∧ value ∉ graph.outputs
  ∧ graph.readCount value = 1

instance (graph : Graph) (value : ValueId) : Decidable (graph.Exclusive value) :=
  inferInstanceAs (Decidable (_ ∧ _ ∧ _))

/-- A node mutates a copy of a list that no other operand reads. -/
def Promotable (graph : Graph) (node : Node) : Prop := ∃ list ∈ node.copied?, graph.Exclusive list

instance (graph : Graph) (node : Node) : Decidable (graph.Promotable node) :=
  inferInstanceAs (Decidable (∃ list ∈ node.copied?, graph.Exclusive list))

/-- The graph in which chosen nodes mutate lists in place. -/
def promoting (graph : Graph) (choose : Node → Bool) : Graph :=
  { graph with body := graph.body.map fun node => if choose node then node.inplace else node }

variable {graph : Graph} {choose : Node → Bool} {node : Node}

-----------------------------------------------------------------------------------------
-- Readers
-----------------------------------------------------------------------------------------

/-- A value is read by one operand iff its reader reads it once and no other node does. -/
theorem readCount_eq_one_iff {value : ValueId} {position : Nat}
    (found : graph.body[position]? = some node) (read : value ∈ node.reads)
    : graph.readCount value = 1
      ↔ node.reads.count value = 1
        ∧ ∀ {place : Nat} {other : Node},
            graph.body[place]? = some other → value ∈ other.reads → place = position := by
  obtain ⟨inside, here⟩ := List.getElem?_eq_some_iff.mp found
  have split
      : graph.readCount value
        = ((graph.body.take position).flatMap Node.reads).count value
          + (node.reads.count value
            + ((graph.body.drop (position + 1)).flatMap Node.reads).count value) := by
    conv_lhs => rw [readCount, ← List.take_append_drop position graph.body]
    rw [List.drop_eq_getElem_cons inside, here, List.flatMap_append, List.flatMap_cons,
      List.count_append, List.count_append]
  have reads := List.count_pos_iff.mpr read
  constructor
  · intro once
    have front : ((graph.body.take position).flatMap Node.reads).count value = 0 := by omega
    have back : ((graph.body.drop (position + 1)).flatMap Node.reads).count value = 0 := by omega
    refine ⟨by omega, fun {place other} there again => ?_⟩
    rw [List.count_eq_zero, List.mem_flatMap, not_exists] at front back
    rcases Nat.lt_trichotomy place position with before | same | behind
    · refine absurd ⟨List.mem_iff_getElem?.mpr ⟨place, ?_⟩, again⟩ (front other)
      rw [List.getElem?_take, if_pos before, there]
    · exact same
    · refine absurd ⟨List.mem_iff_getElem?.mpr ⟨place - (position + 1), ?_⟩, again⟩ (back other)
      rw [List.getElem?_drop, Nat.add_sub_cancel' behind, there]
  · rintro ⟨once, only⟩
    have front : ((graph.body.take position).flatMap Node.reads).count value = 0 := by
      rw [List.count_eq_zero, List.mem_flatMap]
      rintro ⟨other, member, again⟩
      obtain ⟨place, there⟩ := List.mem_iff_getElem?.mp member
      rw [List.getElem?_take] at there
      split_ifs at there with before
      exact absurd (only there again) (Nat.ne_of_lt before)
    have back : ((graph.body.drop (position + 1)).flatMap Node.reads).count value = 0 := by
      rw [List.count_eq_zero, List.mem_flatMap]
      rintro ⟨other, member, again⟩
      obtain ⟨place, there⟩ := List.mem_iff_getElem?.mp member
      rw [List.getElem?_drop] at there
      have := only there again
      omega
    omega

/-- An exclusive value has one reader. -/
theorem Exclusive.reader_unique {value : ValueId} (exclusive : graph.Exclusive value)
    {first second : Nat} {left right : Node} (atFirst : graph.body[first]? = some left)
    (atSecond : graph.body[second]? = some right) (read : value ∈ left.reads)
    (again : value ∈ right.reads)
    : second = first :=
  ((readCount_eq_one_iff atFirst read).mp exclusive.2.2).2 atSecond again

/-- The list of a promotable node shares its storage with nothing. -/
theorem Promotable.alone (promotable : graph.Promotable node) (member : node ∈ graph.body)
    {list value : ValueId} (reads : node.input? 0 = some list)
    (same : rootIn graph.storageRoots value = list)
    : value = list := by
  obtain ⟨_, copied, exclusive⟩ := promotable
  obtain ⟨⟨mutation, copies⟩, again⟩ := Node.copied?_eq_some_iff.mp copied
  obtain rfl := Option.some.inj (reads.symm.trans again)
  refine eq_of_rootIn_eq (fun other listed position views read => ?_) same
  obtain ⟨place, there⟩ := List.mem_iff_getElem?.mp listed
  obtain ⟨position, here⟩ := List.mem_iff_getElem?.mp member
  obtain rfl := exclusive.reader_unique here there (Node.mem_reads_of_input? reads)
    (Node.mem_reads_of_input? read)
  obtain rfl := Option.some.inj (here.symm.trans there)
  rw [copies] at views
  cases views

-----------------------------------------------------------------------------------------
-- Promoted graphs
-----------------------------------------------------------------------------------------

theorem getElem?_promoting (graph : Graph) (choose : Node → Bool) (position : Nat)
    : (graph.promoting choose).body[position]?
      = graph.body[position]?.map fun node => if choose node then node.inplace else node :=
  List.getElem?_map

theorem promoting_false (graph : Graph) : graph.promoting (fun _ => false) = graph := by
  simp [promoting]

theorem copying_promoting (graph : Graph) (choose : Node → Bool)
    : (graph.promoting choose).copying = graph.copying := by
  have same (node : Node)
      : (if choose node then node.inplace else node).copying = node.copying := by
    split_ifs
    · exact node.copying_inplace
    · rfl
  simp [copying, promoting, Function.comp_def, same]

theorem storageRoots_promoting (graph : Graph) (choose : Node → Bool)
    : (graph.promoting choose).storageRoots = graph.storageRoots := by
  rw [storageRoots, storageRoots, promoting, List.foldl_map]
  refine congrArg (List.foldl · _ _) (funext fun roots => funext fun node => ?_)
  split_ifs
  · rw [rootOf, rootOf, Node.inplace]
    cases node.operation with
    | listMutation mutation inplace => cases inplace <;> rfl
    | _ => rfl
  · rfl

theorem readCount_promoting (graph : Graph) (choose : Node → Bool) (value : ValueId)
    : (graph.promoting choose).readCount value = graph.readCount value := by
  rw [readCount, readCount, promoting, List.flatMap_map]
  refine congrArg _ (List.flatMap_congr fun node _ => ?_)
  split_ifs <;> rfl

theorem exclusive_promoting (graph : Graph) (choose : Node → Bool) (value : ValueId)
    : (graph.promoting choose).Exclusive value ↔ graph.Exclusive value := by
  rw [Exclusive, Exclusive, readCount_promoting]
  refine and_congr_left fun _ => ?_
  constructor
  · rintro ⟨_, member, same, own⟩
    obtain ⟨node, listed, rfl⟩ := List.mem_map.mp member
    refine ⟨node, listed, ?_⟩
    split_ifs at same own
    · exact ⟨same, node.isView_inplace ▸ own⟩
    · exact ⟨same, own⟩
  · rintro ⟨node, member, same, own⟩
    refine ⟨_, List.mem_map_of_mem member, ?_⟩
    split_ifs
    · exact ⟨same, node.isView_inplace.trans own⟩
    · exact ⟨same, own⟩

/-- What may be promoted does not depend on what was promoted. -/
theorem promotable_promoting (graph : Graph) (choose : Node → Bool) (node : Node)
    : (graph.promoting choose).Promotable node ↔ graph.Promotable node :=
  exists_congr fun list => and_congr_right fun _ => exclusive_promoting graph choose list

/-- A graph stays safe if promotable nodes mutate in place: what they destroy is read by nobody else
and shares its storage with nothing.
-/
theorem StorageSafe.promoting (safe : graph.StorageSafe)
    (may : ∀ node ∈ graph.body, choose node = true → graph.Promotable node)
    : (graph.promoting choose).StorageSafe := by
  have own {node : Node} (member : node ∈ graph.body) (chosen : choose node = true)
      : ∃ list,
          destroyed? node.inplace = some list
          ∧ node.input? 0 = some list
          ∧ graph.Exclusive list
          ∧ rootIn graph.storageRoots list = list := by
    obtain ⟨list, copied, exclusive⟩ := may node member chosen
    obtain ⟨⟨mutation, copies⟩, reads⟩ := Node.copied?_eq_some_iff.mp copied
    obtain ⟨producer, made, rfl, owned⟩ := exclusive.1
    refine ⟨_, ?_, reads, exclusive, ?_⟩
    · rw [destroyed?, Node.inplace, copies]
      exact reads
    · refine rootIn_storageRoots_value safe.ordered.distinct made fun position views => ?_
      cases owned.symm.trans (Operation.isView_of_viewOf views)
  refine ⟨?_, ?_, ?_⟩
  · refine safe.ordered.mapBody (fun node => ?_) (fun node => ?_) <;> split_ifs <;> rfl
  · intro _ promoted target destroyed
    obtain ⟨node, member, rfl⟩ := List.mem_map.mp promoted
    rw [storageRoots_promoting]
    change graph.isBoundary _ _ = false
    split_ifs at destroyed with chosen
    · obtain ⟨list, destroys, reads, exclusive, rooted⟩ := own member chosen
      obtain rfl := Option.some.inj (destroys.symm.trans destroyed)
      obtain ⟨producer, made, same, -⟩ := exclusive.1
      rw [rooted, isBoundary, Bool.or_eq_false_iff, List.any_eq_false]
      refine ⟨?_, fun output shown same => ?_⟩
      · rw [Bool.eq_false_iff, ne_eq, List.contains_iff_mem]
        exact fun input => input_ne_value safe.ordered.distinct input made same
      · have := (may node member chosen).alone member reads (of_decide_eq_true same)
        exact exclusive.2.1 (this ▸ shown)
    · exact safe.inner node member target destroyed
  · refine List.pairwise_map.mpr (List.pairwise_iff_getElem.mpr ?_)
    intro first second atFirst atSecond before target destroyed value read
    rw [storageRoots_promoting]
    have read : value ∈ graph.body[second].reads := by
      split_ifs at read
      · exact read
      · exact read
    split_ifs at destroyed with chosen
    · have member := List.getElem_mem atFirst
      obtain ⟨list, destroys, reads, exclusive, rooted⟩ := own member chosen
      obtain rfl := Option.some.inj (destroys.symm.trans destroyed)
      rw [rooted]
      intro same
      obtain rfl := (may _ member chosen).alone member reads same
      exact absurd (exclusive.reader_unique (List.getElem?_eq_getElem atFirst)
        (List.getElem?_eq_getElem atSecond) (Node.mem_reads_of_input? reads) read)
        (Nat.ne_of_gt before)
    · exact List.pairwise_iff_getElem.mp safe.unread first second atFirst atSecond before target
        destroyed value read

end Graph

end Dataflow
