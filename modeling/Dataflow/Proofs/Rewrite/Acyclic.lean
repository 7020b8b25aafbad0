import Dataflow.Proofs.Graph.Ordering
import Dataflow.Proofs.Rewrite.Building
import Mathlib.Algebra.Order.BigOperators.Group.List
import Mathlib.Algebra.Order.Group.Nat
import Mathlib.Data.Finset.Card
import Mathlib.Data.List.Perm.Subperm
import Mathlib.Logic.Relation

/-!
Graphs without cycles. Sorting such a graph succeeds and puts its body in order, and a body in order
has no cycle after its nodes read another value, if that one is not computed from the old one.
-/

namespace Dataflow.Graph

variable {graph : Graph} {position : Nat} {node : Node} {value : ValueId}

/-- No value is computed from itself: the ranks of values fall from a node to what it reads. -/
def Acyclic (graph : Graph) : Prop :=
  ∃ rank : ValueId → Nat,
    ∀ node ∈ graph.body, ∀ value ∈ node.reads, rank value < rank node.value

/-- The node that produces a value reads another one. -/
def ReadsFrom (graph : Graph) (value read : ValueId) : Prop :=
  ∃ node ∈ graph.body, node.value = value ∧ read ∈ node.reads

/-- Ranks fall on the way from a value to what is read there. -/
theorem rank_lt_of_path {rank : ValueId → Nat}
    (falls : ∀ node ∈ graph.body, ∀ value ∈ node.reads, rank value < rank node.value)
    {read : ValueId} (path : Relation.TransGen graph.ReadsFrom value read)
    : rank read < rank value := by
  induction path with
  | single step =>
      obtain ⟨node, member, rfl, read⟩ := step
      exact falls node member _ read
  | tail _ step ih =>
      obtain ⟨node, member, rfl, read⟩ := step
      exact (falls node member _ read).trans ih

/-- Ranks exist iff no value is read on the way to itself. In one direction, a value has as rank how
many values are read on the way to it.
-/
theorem acyclic_iff
    : graph.Acyclic ↔ ∀ value, ¬Relation.TransGen graph.ReadsFrom value value := by
  constructor
  · rintro ⟨rank, falls⟩ value cycle
    exact Nat.lt_irrefl _ (rank_lt_of_path falls cycle)
  · intro acyclic
    classical
    refine ⟨fun value =>
      {read ∈ (graph.body.flatMap Node.reads).toFinset
        | Relation.TransGen graph.ReadsFrom value read}.card, ?_⟩
    intro node member value read
    have step : graph.ReadsFrom node.value value := ⟨node, member, rfl, read⟩
    refine Finset.card_lt_card (Finset.ssubset_iff_of_subset ?_ |>.mpr ⟨value, ?_, ?_⟩)
    · exact Finset.monotone_filter_right _ fun _ _ path => path.head step
    · rw [Finset.mem_filter, List.mem_toFinset, List.mem_flatMap]
      exact ⟨⟨node, member, read⟩, .single step⟩
    · rw [Finset.mem_filter]
      exact fun both => acyclic value both.2

-----------------------------------------------------------------------------------------
-- Heights
-----------------------------------------------------------------------------------------

/-- How many nodes it takes to define a value: none for an input. -/
def height (graph : Graph) (value : ValueId) : Nat := (graph.position? value).elim 0 (· + 1)

/-- A value has the position of the node that produces it. -/
theorem position?_eq_some (distinct : graph.defined.Nodup)
    (found : graph.body[position]? = some node)
    : graph.position? node.value = some position := by
  have placed : (lastPosition node.value 0 graph.body).isSome = true :=
    lastPosition_isSome (List.mem_of_getElem? found) rfl
  obtain ⟨last, known⟩ := Option.isSome_iff_exists.mp placed
  obtain ⟨place, other, rfl, there, same⟩ := exists_of_lastPosition known
  obtain rfl := position_unique distinct there found same
  rw [position?, known, Nat.zero_add]

theorem height_of_input (distinct : graph.defined.Nodup) (input : value ∈ graph.inputs)
    : graph.height value = 0 := by
  rw [height]
  cases placed : graph.position? value with
  | none => rfl
  | some position =>
      obtain ⟨_, node, -, there, rfl⟩ := exists_of_lastPosition placed
      exact absurd rfl (input_ne_value distinct input (List.mem_of_getElem? there))

theorem height_of_getElem? (distinct : graph.defined.Nodup)
    (found : graph.body[position]? = some node)
    : graph.height node.value = position + 1 := by
  rw [height, position?_eq_some distinct found]
  rfl

theorem height_le (graph : Graph) (value : ValueId) : graph.height value ≤ graph.body.length := by
  rw [height]
  cases placed : graph.position? value with
  | none => exact Nat.zero_le _
  | some position =>
      obtain ⟨place, node, rfl, there, -⟩ := exists_of_lastPosition placed
      have inside := (List.getElem?_eq_some_iff.mp there).1
      simp only [Option.elim_some]
      omega

/-- What is defined in front of a position is no higher than it. -/
theorem height_le_of_before (distinct : graph.defined.Nodup)
    (before : value ∈ graph.definedBefore position)
    : graph.height value ≤ position := by
  rcases mem_definedBefore.mp before with input | ⟨earlier, node, lt, there, rfl⟩
  · rw [height_of_input distinct input]
    exact Nat.zero_le _
  · rw [height_of_getElem? distinct there]
    exact lt

theorem Ordered.height_lt (ordered : graph.Ordered) (member : node ∈ graph.body)
    (read : value ∈ node.reads)
    : graph.height value < graph.height node.value := by
  obtain ⟨position, found⟩ := List.mem_iff_getElem?.mp member
  rw [height_of_getElem? ordered.distinct found]
  exact Nat.lt_succ_of_le (height_le_of_before ordered.distinct (ordered.reads found value read))

/-- A body in order has no cycle. -/
theorem Ordered.acyclic (ordered : graph.Ordered) : graph.Acyclic :=
  ⟨graph.height, fun _ member _ read => ordered.height_lt member read⟩

-----------------------------------------------------------------------------------------
-- Sorting
-----------------------------------------------------------------------------------------

variable {needs : List (List Nat)} {rank : Nat → Nat} {done : List Nat}

/-- As long as a position is missing, some position waits for nothing else, by induction on the rank
of the missing one: either it is ready, or a position of lower rank that it waits for is missing.
-/
theorem exists_nextReady
    (falls
      : ∀ {position need : Nat},
          need ∈ needs.getD position [] → need < needs.length ∧ rank need < rank position)
    {missing : Nat} (inside : missing < needs.length) (undone : missing ∉ done)
    : ∃ next, nextReady needs done = some next := by
  by_cases waits : ∃ need ∈ needs.getD missing [], need ∉ done
  · obtain ⟨need, required, later⟩ := waits
    obtain ⟨standing, lower⟩ := falls required
    exact exists_nextReady falls standing later
  · refine Option.isSome_iff_exists.mp (List.find?_isSome.mpr ⟨missing, by simpa using inside, ?_⟩)
    simpa [undone] using waits
termination_by rank missing

/-- Without a cycle, scheduling is never stuck, by induction on the number of steps. -/
theorem Ready.length_schedule (ready : Ready needs done)
    (falls
      : ∀ {position need : Nat},
          need ∈ needs.getD position [] → need < needs.length ∧ rank need < rank position)
    {count : Nat} (fits : done.length + count ≤ needs.length)
    : (Graph.schedule needs count done).length = done.length + count := by
  induction count generalizing done with
  | zero => rfl
  | succ count ih =>
      have short : done.length < needs.length := by omega
      obtain ⟨missing, inside, undone⟩ := exists_missing short
      obtain ⟨next, found⟩ := exists_nextReady falls inside undone
      rw [Graph.schedule, found]
      dsimp only
      rw [ih (ready.append found) (by rw [List.length_append, List.length_singleton]; omega),
        List.length_append, List.length_singleton]
      omega

/-- A position that a node waits for holds a node whose value it reads. -/
theorem exists_of_mem_needs {need : Nat} (required : need ∈ graph.needs node)
    : ∃ other, graph.body[need]? = some other ∧ other.value ∈ node.reads := by
  obtain ⟨value, read, placed⟩ := List.mem_filterMap.mp required
  obtain ⟨place, other, rfl, there, rfl⟩ := exists_of_lastPosition placed
  exact ⟨other, by rwa [Nat.zero_add], read⟩

theorem getD_map_needs (found : graph.body[position]? = some node)
    : (graph.body.map graph.needs).getD position [] = graph.needs node := by
  rw [List.getD_eq_getElem?_getD, List.getElem?_map, found]
  rfl

/-- Without a cycle, the body can be sorted. -/
theorem Acyclic.exists_sortedPositions (acyclic : graph.Acyclic) (closed : graph.Closed)
    : ∃ order, graph.sortedPositions = .ok order := by
  obtain ⟨rank, falls⟩ := acyclic
  have known : graph.unknownOperand? = none :=
    unknownOperand?_eq_none_iff.mpr fun _ member => closed.readsKnown member
  have waits {position need : Nat}
      (required : need ∈ (graph.body.map graph.needs).getD position [])
      : need < (graph.body.map graph.needs).length
        ∧ (graph.body[need]?).elim 0 (rank ·.value)
          < (graph.body[position]?).elim 0 (rank ·.value) := by
    cases found : graph.body[position]? with
    | none =>
        have beyond : (graph.body.map graph.needs)[position]? = none := by simp [found]
        rw [List.getD_eq_getElem?_getD, beyond] at required
        exact absurd required List.not_mem_nil
    | some node =>
        rw [getD_map_needs found] at required
        obtain ⟨other, there, read⟩ := exists_of_mem_needs required
        rw [there, List.length_map]
        exact ⟨(List.getElem?_eq_some_iff.mp there).1,
          falls node (List.mem_of_getElem? found) _ read⟩
  have start : Ready (graph.body.map graph.needs) [] := ⟨List.nodup_nil, by simp, by simp⟩
  have length : graph.reached.length = 0 + graph.body.length :=
    start.length_schedule waits (by simp)
  rw [Nat.zero_add] at length
  exact ⟨graph.reached, sortedPositions_eq_ok_iff.mpr ⟨known, rfl, length⟩⟩

/-- A sorted body is in order. -/
theorem Closed.ordered_permute (closed : graph.Closed) {order : List Nat}
    (sorted : graph.sortedPositions = .ok order)
    : Ordered { graph with body := permute graph.body order } := by
  have ready := sortedPositions_ready sorted
  have body : (permute graph.body order).Perm graph.body :=
    filterMap_getElem?_perm (sortedPositions_perm sorted)
  have inside : ∀ position ∈ order, position < graph.body.length := by
    simpa using ready.inside
  have same : (defined { graph with body := permute graph.body order }).Perm graph.defined :=
    (body.map _).append_left graph.inputs
  refine ⟨same.nodup_iff.mpr closed.distinct, ?_, fun value output =>
    same.mem_iff.mpr (closed.outputsKnown value output)⟩
  intro place node found value read
  dsimp only at found
  rw [permute, getElem?_filterMap_getElem? inside] at found
  obtain ⟨position, placed, stood⟩ := Option.bind_eq_some_iff.mp found
  rw [mem_definedBefore]
  refine (List.mem_append.mp (closed.readsKnown (List.mem_of_getElem? stood) value read)).imp_right
    fun produced => ?_
  obtain ⟨producer, there, rfl⟩ := List.mem_map.mp produced
  obtain ⟨need, here⟩ := List.mem_iff_getElem?.mp there
  have required : need ∈ graph.needs node :=
    List.mem_filterMap.mpr ⟨_, read, position?_eq_some closed.distinct here⟩
  have done := ready.behind placed need (by rwa [getD_map_needs stood])
  obtain ⟨earlier, before, listed⟩ := List.mem_take_iff_getElem.mp done
  refine ⟨earlier, producer, by omega, ?_, rfl⟩
  dsimp only
  rw [permute, getElem?_filterMap_getElem? inside, List.getElem?_eq_getElem (by omega), listed]
  exact here

/-- Values have ranks that the number of nodes bounds: their heights in the sorted body. -/
theorem Acyclic.exists_height (acyclic : graph.Acyclic) (closed : graph.Closed)
    : ∃ height : ValueId → Nat,
        (∀ value, height value ≤ graph.body.length)
        ∧ ∀ node ∈ graph.body, ∀ value ∈ node.reads, height value < height node.value := by
  obtain ⟨order, sorted⟩ := acyclic.exists_sortedPositions closed
  have ordered := closed.ordered_permute sorted
  have body : (permute graph.body order).Perm graph.body :=
    filterMap_getElem?_perm (sortedPositions_perm sorted)
  refine ⟨height { graph with body := permute graph.body order }, fun value => ?_, ?_⟩
  · exact body.length_eq ▸ height_le _ value
  · exact fun node member _ read => ordered.height_lt (body.mem_iff.mpr member) read

theorem ReadsKnown.of_sorted {order : List Nat} (sorted : graph.sortedPositions = .ok order)
    : graph.ReadsKnown :=
  unknownOperand?_eq_none_iff.mp (sortedPositions_eq_ok_iff.mp sorted).1

/-- Without its outputs, a graph that reads nothing unknown has nothing unknown in it. -/
theorem ReadsKnown.closed (known : graph.ReadsKnown) (distinct : graph.defined.Nodup)
    : Closed { graph with outputs := [] } :=
  ⟨distinct, fun member => known _ member, fun _ output => absurd output List.not_mem_nil⟩

/-- A body can be sorted iff everything that is read is defined, and nothing is computed from itself.
-/
theorem exists_sortedPositions_iff (distinct : graph.defined.Nodup)
    : (∃ order, graph.sortedPositions = .ok order) ↔ graph.ReadsKnown ∧ graph.Acyclic := by
  constructor
  · rintro ⟨order, sorted⟩
    have known := ReadsKnown.of_sorted sorted
    obtain ⟨rank, falls⟩ := ((known.closed distinct).ordered_permute sorted).acyclic
    have body := filterMap_getElem?_perm (sortedPositions_perm sorted)
    exact ⟨known, rank, fun node member => falls node (body.mem_iff.mpr member)⟩
  · rintro ⟨known, acyclic⟩
    have acyclic : Acyclic { graph with outputs := [] } := acyclic
    exact acyclic.exists_sortedPositions (known.closed distinct)

-----------------------------------------------------------------------------------------
-- Other nodes
-----------------------------------------------------------------------------------------

/-- Nodes that define and read the same as the old ones stand in order as these do. -/
theorem Ordered.of_same (ordered : graph.Ordered) {body : List Node}
    (values : body.map (·.value) = graph.body.map (·.value))
    (reads : body.map Node.reads = graph.body.map Node.reads)
    : Ordered { graph with body } := by
  have before (position : Nat)
      : definedBefore { graph with body } position = graph.definedBefore position := by
    simp only [definedBefore, List.map_take, values]
  have same : defined { graph with body } = graph.defined := by simp only [defined, values]
  refine ⟨same ▸ ordered.distinct, ?_, fun value output => same ▸ ordered.outputs value output⟩
  intro position node found value read
  have there := congrArg (·[position]?) reads
  simp only [List.getElem?_map] at there found
  rw [found, Option.map_some] at there
  obtain ⟨old, stood, sameReads⟩ := Option.map_eq_some_iff.mp there.symm
  rw [before]
  exact ordered.reads stood value (sameReads ▸ read)

/-- A body stays in order without a node that nothing reads or shows. -/
theorem Ordered.eraseIdx (ordered : graph.Ordered) (found : graph.body[position]? = some node)
    (unread : ∀ other ∈ graph.body, node.value ∉ other.reads) (hidden : node.value ∉ graph.outputs)
    : Ordered { graph with body := graph.body.eraseIdx position } := by
  have kept {place : Nat} {other : Node} (there : graph.body[place]? = some other)
      (differs : other.value ≠ node.value)
      : (graph.body.eraseIdx position)[if place < position then place else place - 1]?
        = some other := by
    have apart : place ≠ position := by
      rintro rfl
      obtain rfl := Option.some.inj (there.symm.trans found)
      exact differs rfl
    rw [List.getElem?_eraseIdx]
    rcases Nat.lt_or_gt_of_ne apart with front | behind
    · rwa [if_pos front, if_pos front]
    · have stays : ¬place < position := by omega
      rw [if_neg stays, if_neg (by omega), Nat.sub_add_cancel (by omega)]
      exact there
  refine ⟨?_, ?_, ?_⟩
  · exact ordered.distinct.sublist
      (((List.eraseIdx_sublist ..).map _).append_left graph.inputs)
  · intro place other there value read
    dsimp only at there
    rw [List.getElem?_eraseIdx] at there
    have stood : graph.body[if place < position then place else place + 1]? = some other := by
      rw [← there]
      split_ifs <;> rfl
    have differs : value ≠ node.value := by
      rintro rfl
      exact unread other (List.mem_of_getElem? stood) read
    rw [mem_definedBefore]
    refine (mem_definedBefore.mp (ordered.reads stood value read)).imp_right ?_
    rintro ⟨earlier, producer, before, here, rfl⟩
    refine ⟨_, producer, ?_, kept here differs, rfl⟩
    have apart : earlier ≠ position := by
      rintro rfl
      obtain rfl := Option.some.inj (here.symm.trans found)
      exact differs rfl
    split_ifs at before ⊢ <;> omega
  · intro value output
    have differs : value ≠ node.value := fun same => hidden (same ▸ output)
    rcases List.mem_append.mp (ordered.outputs value output) with input | produced
    · exact input_mem_defined input
    · obtain ⟨producer, member, rfl⟩ := List.mem_map.mp produced
      obtain ⟨place, there⟩ := List.mem_iff_getElem?.mp member
      exact value_mem_defined (List.mem_of_getElem? (kept there differs))

/-- A new node stands in order behind what it reads. -/
theorem Ordered.insertIdx (ordered : graph.Ordered) (inside : position ≤ graph.body.length)
    (fresh : node.value ∉ graph.defined)
    (reads : ∀ value ∈ node.reads, value ∈ graph.definedBefore position)
    : Ordered { graph with body := graph.body.insertIdx position node } := by
  have body := List.perm_insertIdx node graph.body inside
  have grown
      : (defined { graph with body := graph.body.insertIdx position node }).Perm
          (node.value :: graph.defined) :=
    ((body.map _).append_left graph.inputs).trans List.perm_middle
  have kept {place : Nat} {other : Node} (there : graph.body[place]? = some other)
      : (graph.body.insertIdx position node)[if place < position then place else place + 1]?
        = some other := by
    split_ifs with before
    · rwa [List.getElem?_insertIdx_of_lt before]
    · rw [List.getElem?_insertIdx_of_gt (by omega)]
      exact there
  have before {place : Nat} {value : ValueId} (known : value ∈ graph.definedBefore place)
      : value
        ∈ definedBefore { graph with body := graph.body.insertIdx position node }
            (if place ≤ position then place else place + 1) := by
    rw [mem_definedBefore] at known ⊢
    refine known.imp_right ?_
    rintro ⟨earlier, producer, lt, there, same⟩
    refine ⟨_, producer, ?_, kept there, same⟩
    split_ifs <;> omega
  refine ⟨grown.nodup_iff.mpr (List.nodup_cons.mpr ⟨fresh, ordered.distinct⟩), ?_, ?_⟩
  · intro place other there value read
    dsimp only at there
    rcases Nat.lt_trichotomy place position with front | rfl | behind
    · rw [List.getElem?_insertIdx_of_lt front] at there
      have known := before (ordered.reads there value read)
      rwa [if_pos front.le] at known
    · rw [List.getElem?_insertIdx_self, if_pos inside] at there
      obtain rfl := Option.some.inj there
      have known := before (reads value read)
      rwa [if_pos le_rfl] at known
    · rw [List.getElem?_insertIdx_of_gt behind] at there
      refine definedBefore_mono ?_ (before (ordered.reads there value read))
      split_ifs <;> omega
  · intro value output
    exact grown.mem_iff.mpr (List.mem_cons_of_mem _ (ordered.outputs value output))

/-- A graph has no cycle if each of its nodes defines and reads the same as one of a graph without. -/
theorem Acyclic.of_nodes (acyclic : graph.Acyclic) {next : Graph}
    (nodes
      : ∀ node ∈ next.body, ∃ old ∈ graph.body, old.value = node.value ∧ old.reads = node.reads)
    : next.Acyclic := by
  obtain ⟨rank, falls⟩ := acyclic
  refine ⟨rank, fun node member value read => ?_⟩
  obtain ⟨old, listed, same, reads⟩ := nodes node member
  exact same ▸ falls old listed value (reads ▸ read)

/-- A new value is read by nothing, so no cycle goes through it: it may have a rank above everything
that it is computed from.
-/
theorem Acyclic.insertIdx (acyclic : graph.Acyclic) (known : graph.ReadsKnown)
    (inside : position ≤ graph.body.length) (fresh : node.value ∉ graph.defined)
    (reads : ∀ value ∈ node.reads, value ∈ graph.defined)
    : Acyclic { graph with body := graph.body.insertIdx position node } := by
  obtain ⟨rank, falls⟩ := acyclic
  have old {value : ValueId} (there : value ∈ graph.defined) : value ≠ node.value :=
    fun same => fresh (same ▸ there)
  refine ⟨fun value => if value = node.value then (node.reads.map rank).sum + 1 else rank value, ?_⟩
  intro other member value read
  dsimp only
  rcases (List.mem_insertIdx inside).mp member with rfl | listed
  · rw [if_neg (old (reads value read)), if_pos rfl]
    exact Nat.lt_succ_of_le (List.le_sum_of_mem (List.mem_map_of_mem read))
  · rw [if_neg (old (known other listed value read)), if_neg (old (value_mem_defined listed))]
    exact falls other listed value read

-----------------------------------------------------------------------------------------
-- Redirected reads
-----------------------------------------------------------------------------------------

variable {source target : ValueId}

/-- Nodes may read a value in the place of another one from which it is not computed: with the
values that it is computed from put in front of all others, ranks still fall.
-/
theorem Acyclic.redirect (acyclic : graph.Acyclic)
    (apart : ¬Relation.ReflTransGen graph.ReadsFrom target source)
    : Acyclic { graph with body := graph.body.map (Session.redirectNode source target) } := by
  classical
  obtain ⟨rank, falls⟩ := acyclic
  refine ⟨fun value =>
    if Relation.ReflTransGen graph.ReadsFrom target value then rank value
    else rank target + 1 + rank value, ?_⟩
  intro redirected member value read
  obtain ⟨node, listed, rfl⟩ := List.mem_map.mp member
  have value_eq : (Session.redirectNode source target node).value = node.value := rfl
  have closed
      : ∀ value ∈ node.reads,
          Relation.ReflTransGen graph.ReadsFrom target node.value
          → Relation.ReflTransGen graph.ReadsFrom target value :=
    fun value read path => path.tail ⟨node, listed, rfl, read⟩
  simp only [value_eq]
  rw [Session.reads_redirectNode] at read
  obtain ⟨old, was, rfl⟩ := List.mem_map.mp read
  by_cases same : old = source
  · subst same
    rw [if_pos rfl, if_pos .refl, if_neg fun inside => apart (closed _ was inside)]
    omega
  · rw [if_neg same]
    have lower := falls node listed _ was
    by_cases inside : Relation.ReflTransGen graph.ReadsFrom target node.value
    · rwa [if_pos (closed _ was inside), if_pos inside]
    · rw [if_neg inside]
      split_ifs with above
      · have bound : rank old ≤ rank target := by
          rcases Relation.reflTransGen_iff_eq_or_transGen.mp above with rfl | path
          · exact Nat.le_refl _
          · exact (rank_lt_of_path falls path).le
        omega
      · omega

end Dataflow.Graph
