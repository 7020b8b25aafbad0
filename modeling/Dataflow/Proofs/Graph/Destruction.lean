import Dataflow.Graph.Storage
import Dataflow.Proofs.Graph.Ordering
import Dataflow.Proofs.Table

/-!
Destroyed values. The check of storage accepts exactly the graphs in order where no class of storage
that is destroyed holds an input or an output or is read by a later node.
-/

namespace Dataflow.Graph

variable {graph : Graph} {roots : Table ValueId ValueId}

/-- No class of storage that is destroyed holds an input or an output, and none is read by a later
node. A node that destroys a value also reads it, so no class is destroyed twice.
-/
structure StorageSafe (graph : Graph) : Prop where
  ordered : graph.Ordered
  inner
    : ∀ node ∈ graph.body, ∀ target, destroyed? node = some target
      → graph.isBoundary graph.storageRoots (rootIn graph.storageRoots target) = false
  unread
    : graph.body.Pairwise fun earlier later =>
        ∀ target, destroyed? earlier = some target → ∀ value ∈ later.reads,
          rootIn graph.storageRoots value ≠ rootIn graph.storageRoots target

/-- A destroyed value is read by no later node, and no input or output is destroyed. -/
structure Disposes (graph : Graph) : Prop where
  ordered : graph.Ordered
  unread
    : ∀ {first second : Nat} {earlier later : Node} {target : ValueId},
        first < second
        → graph.body[first]? = some earlier
        → graph.body[second]? = some later
        → destroyed? earlier = some target
        → target ∉ later.reads
  notInput
    : ∀ node ∈ graph.body, ∀ target, destroyed? node = some target → target ∉ graph.inputs
  notOutput
    : ∀ node ∈ graph.body, ∀ target, destroyed? node = some target → target ∉ graph.outputs

theorem mem_reads_of_destroyed {node : Node} {target : ValueId}
    (destroyed : destroyed? node = some target)
    : target ∈ node.reads := by
  rw [destroyed?] at destroyed
  split at destroyed
  · exact Node.mem_reads_of_input? destroyed
  · cases destroyed

-----------------------------------------------------------------------------------------
-- Roots
-----------------------------------------------------------------------------------------

theorem get?_foldl_of_not_mem {body : List Node} {value : ValueId}
    (absent : ∀ node ∈ body, node.value ≠ value)
    : (body.foldl (fun roots node => roots.set node.value (rootOf roots node)) roots).get? value
      = roots.get? value := by
  induction body generalizing roots with
  | nil => rfl
  | cons node rest ih =>
      rw [List.foldl_cons, ih fun other member => absent other (List.mem_cons_of_mem _ member),
        Table.get?_set, if_neg (absent node List.mem_cons_self)]

theorem get?_foldl_inputs {inputs : List ValueId} {value : ValueId}
    (known : value ∈ inputs ∨ roots.get? value = some value)
    : (inputs.foldl (fun roots input => roots.set input input) roots).get? value
      = some value := by
  induction inputs generalizing roots with
  | nil => simpa using known
  | cons first rest ih =>
      rw [List.foldl_cons]
      apply ih
      rw [Table.get?_set]
      by_cases same : first = value
      · exact .inr (by rw [if_pos same, same])
      · rw [if_neg same]
        rcases known with member | before
        · exact .inl ((List.mem_cons.mp member).resolve_left (Ne.symm same))
        · exact .inr before

/-- An input is its own root. -/
theorem rootIn_storageRoots_input (distinct : graph.defined.Nodup) {value : ValueId}
    (input : value ∈ graph.inputs)
    : rootIn graph.storageRoots value = value := by
  rw [rootIn, storageRoots,
    get?_foldl_of_not_mem fun node member => input_ne_value distinct input member,
    get?_foldl_inputs (.inl input)]
  rfl

/-- Inputs are entered as the roots of themselves only. -/
theorem eq_of_get?_foldl_inputs {inputs : List ValueId} {value root : ValueId}
    (before : roots.get? value = some root → value = root)
    (found
      : (inputs.foldl (fun roots input => roots.set input input) roots).get? value = some root)
    : value = root := by
  induction inputs generalizing roots with
  | nil => exact before found
  | cons first rest ih =>
      refine ih (fun entered => ?_) found
      rw [Table.get?_set] at entered
      split_ifs at entered with new
      · exact new.symm.trans (Option.some.inj entered)
      · exact before entered

/-- A value without a view is entered as the root of itself only, by induction on the body. -/
theorem eq_of_get?_foldl {body : List Node} {root : ValueId}
    (unviewed
      : ∀ node ∈ body, ∀ position, node.operation.storage = .viewOf position
        → node.input? position ≠ some root)
    (before : ∀ value, roots.get? value = some root → value = root) {value : ValueId}
    (found
      : (body.foldl (fun roots node => roots.set node.value (rootOf roots node)) roots).get? value
        = some root)
    : value = root := by
  induction body generalizing roots with
  | nil => exact before value found
  | cons node rest ih =>
      obtain ⟨here, later⟩ := List.forall_mem_cons.mp unviewed
      refine ih later (fun other entered => ?_) found
      rw [Table.get?_set] at entered
      split_ifs at entered with new
      · subst new
        have rooted := Option.some.inj entered
        rw [rootOf] at rooted
        split at rooted
        · rename_i position views
          split at rooted
          · rename_i read reads
            cases known : roots.get? read with
            | none => rwa [known] at rooted
            | some other =>
                rw [known, Option.getD_some] at rooted
                subst rooted
                exact absurd (before read known ▸ reads) (here position views)
          · exact rooted
        · exact rooted
        · exact rooted
      · exact before other entered

/-- A value without a view is the root of itself only. -/
theorem eq_of_rootIn_eq {value root : ValueId}
    (unviewed
      : ∀ node ∈ graph.body, ∀ position, node.operation.storage = .viewOf position
        → node.input? position ≠ some root)
    (same : rootIn graph.storageRoots value = root)
    : value = root := by
  rw [rootIn] at same
  cases known : graph.storageRoots.get? value with
  | none => rwa [known] at same
  | some other =>
      rw [known, Option.getD_some] at same
      subst same
      refine eq_of_get?_foldl unviewed (fun input entered => ?_) known
      exact @eq_of_get?_foldl_inputs [] _ input other nofun entered

/-- The result of a node that is no view is its own root. -/
theorem rootIn_storageRoots_value (distinct : graph.defined.Nodup) {node : Node}
    (member : node ∈ graph.body)
    (owned : ∀ position, node.operation.storage ≠ .viewOf position)
    : rootIn graph.storageRoots node.value = node.value := by
  obtain ⟨front, back, split⟩ := List.append_of_mem member
  have values : (graph.body.map (·.value)).Nodup := (List.nodup_append.mp distinct).2.1
  rw [split, List.map_append, List.map_cons] at values
  have later : ∀ other ∈ back, other.value ≠ node.value := by
    intro other listed same
    have := (List.nodup_cons.mp (List.nodup_append.mp values).2.1).1
    exact this (same ▸ List.mem_map_of_mem listed)
  rw [rootIn, storageRoots, split, List.foldl_append, List.foldl_cons,
    get?_foldl_of_not_mem later, Table.get?_set, if_pos rfl, Option.getD_some, rootOf]
  split
  · exact absurd ‹_› (owned _)
  · rfl
  · rfl

-----------------------------------------------------------------------------------------
-- Destroyers
-----------------------------------------------------------------------------------------

/-- If all destroyers can be collected, those found before are kept, and every node that destroys
a value is kept as the destroyer of its class, which holds no input or output. By induction on
the body.
-/
theorem destroyers_eq_ok {found all : Destroyers} {start : Nat} {body : List Node}
    (collected : destroyers graph roots found start body = .ok all)
    : (∀ {root : ValueId} {entry : ValueId × Nat},
          found.get? root = some entry → all.get? root = some entry)
      ∧ ∀ {place : Nat} {node : Node} {target : ValueId},
          body[place]? = some node
          → destroyed? node = some target
          → graph.isBoundary roots (rootIn roots target) = false
            ∧ all.get? (rootIn roots target) = some (node.value, start + place) := by
  induction body generalizing found start with
  | nil =>
      obtain rfl : found = all := Except.ok.inj collected
      exact ⟨id, by simp⟩
  | cons first rest ih =>
      rw [destroyers] at collected
      cases destroys : destroyed? first with
      | none =>
          rw [destroys] at collected
          obtain ⟨kept, later⟩ := ih collected
          refine ⟨kept, ?_⟩
          intro place node target listed destroyed
          cases place with
          | zero =>
              obtain rfl : first = node := by simpa using listed
              exact absurd (destroys.symm.trans destroyed) (by simp)
          | succ place =>
              obtain ⟨inner, entry⟩ := later listed destroyed
              exact ⟨inner, by rw [entry, Nat.add_right_comm, Nat.add_assoc]⟩
      | some value =>
          rw [destroys] at collected
          dsimp only at collected
          split_ifs at collected with boundary
          cases twice : found.get? (rootIn roots value) with
          | some other =>
              rw [twice] at collected
              cases collected
          | none =>
              rw [twice] at collected
              obtain ⟨kept, later⟩ := ih collected
              constructor
              · intro root entry before
                apply kept
                rw [Table.get?_set, if_neg, before]
                rintro rfl
                cases twice.symm.trans before
              · intro place node target listed destroyed
                cases place with
                | zero =>
                    obtain rfl : first = node := by simpa using listed
                    obtain rfl : value = target := Option.some.inj (destroys.symm.trans destroyed)
                    exact ⟨by simpa using boundary, kept (by rw [Table.get?_set, if_pos rfl]; rfl)⟩
                | succ place =>
                    obtain ⟨inner, entry⟩ := later listed destroyed
                    exact ⟨inner, by rw [entry, Nat.add_right_comm, Nat.add_assoc]⟩

/-- Every destroyer that was collected destroys a value of its class, by induction on the body. -/
theorem exists_destroyer {found all : Destroyers} {start : Nat} {body : List Node}
    (collected : destroyers graph roots found start body = .ok all) {root : ValueId}
    {entry : ValueId × Nat} (listed : all.get? root = some entry)
    : found.get? root = some entry
      ∨ ∃ place node target,
          body[place]? = some node
          ∧ destroyed? node = some target
          ∧ rootIn roots target = root
          ∧ entry = (node.value, start + place) := by
  induction body generalizing found start with
  | nil =>
      obtain rfl : found = all := Except.ok.inj collected
      exact .inl listed
  | cons first rest ih =>
      have behind
          (later
            : ∃ place node target,
                rest[place]? = some node
                ∧ destroyed? node = some target
                ∧ rootIn roots target = root
                ∧ entry = (node.value, start + 1 + place))
          : ∃ place node target,
              (first :: rest)[place]? = some node
              ∧ destroyed? node = some target
              ∧ rootIn roots target = root
              ∧ entry = (node.value, start + place) := by
        obtain ⟨place, node, target, here, destroyed, same, rfl⟩ := later
        exact ⟨place + 1, node, target, here, destroyed, same,
          by rw [Nat.add_right_comm, Nat.add_assoc]⟩
      rw [destroyers] at collected
      cases destroys : destroyed? first with
      | none =>
          rw [destroys] at collected
          exact (ih collected).imp_right behind
      | some value =>
          rw [destroys] at collected
          dsimp only at collected
          split_ifs at collected
          cases twice : found.get? (rootIn roots value) with
          | some other =>
              rw [twice] at collected
              cases collected
          | none =>
              rw [twice] at collected
              rcases ih collected with before | later
              · rw [Table.get?_set] at before
                split_ifs at before with same
                · exact .inr ⟨0, first, value, rfl, destroys, same, (Option.some.inj before).symm⟩
                · exact .inl before
              · exact .inr (behind later)

/-- Destroyers can be collected if each class is destroyed once and holds no input or output. -/
theorem exists_destroyers {found : Destroyers} {start : Nat} {body : List Node}
    (inner
      : ∀ node ∈ body, ∀ target, destroyed? node = some target
        → graph.isBoundary roots (rootIn roots target) = false
          ∧ found.get? (rootIn roots target) = none)
    (once
      : body.Pairwise fun earlier later =>
          ∀ target, destroyed? earlier = some target → ∀ other, destroyed? later = some other
            → rootIn roots other ≠ rootIn roots target)
    : ∃ all, destroyers graph roots found start body = .ok all := by
  induction body generalizing found start with
  | nil => exact ⟨found, rfl⟩
  | cons first rest ih =>
      obtain ⟨apart, once⟩ := List.pairwise_cons.mp once
      obtain ⟨here, inner⟩ := List.forall_mem_cons.mp inner
      rw [destroyers]
      cases destroys : destroyed? first with
      | none => exact ih inner once
      | some value =>
          obtain ⟨free, new⟩ := here value destroys
          dsimp only
          rw [if_neg (Bool.eq_false_iff.mp free), new]
          refine ih (fun node member target destroyed => ?_) once
          obtain ⟨free, new⟩ := inner node member target destroyed
          refine ⟨free, ?_⟩
          rw [Table.get?_set, if_neg (apart node member value destroys target destroyed).symm, new]

-----------------------------------------------------------------------------------------
-- Reads
-----------------------------------------------------------------------------------------

/-- All reads pass iff no node reads a class that was destroyed before it. -/
theorem checkReads_eq_ok_iff {found : Destroyers} {start : Nat} {body : List Node}
    : checkReads roots found start body = .ok ()
      ↔ ∀ {place : Nat} {node : Node},
          body[place]? = some node
          → ∀ value ∈ node.reads, lateRead? roots found (start + place) value = none := by
  induction body generalizing start with
  | nil => simp [checkReads]
  | cons first rest ih =>
      rw [checkReads]
      constructor
      · intro checked place node listed value read
        split at checked
        · cases checked
        · rename_i early
          cases place with
          | zero =>
              obtain rfl : first = node := by simpa using listed
              exact List.findSome?_eq_none_iff.mp early value read
          | succ place =>
              have later := ih.mp checked listed value read
              rwa [Nat.add_right_comm, Nat.add_assoc] at later
      · intro early
        have here : first.reads.findSome? (lateRead? roots found start) = none :=
          List.findSome?_eq_none_iff.mpr fun value read => @early 0 first rfl value read
        rw [here]
        refine ih.mpr fun {place node} listed value read => ?_
        have later := @early (place + 1) node listed value read
        rwa [← Nat.add_assoc, Nat.add_right_comm] at later

/-- The check of storage accepts exactly the graphs that are safe. -/
theorem checkStorage_eq_ok_iff : graph.checkStorage = .ok () ↔ graph.StorageSafe := by
  simp only [checkStorage, Steps.bind_eq_ok_iff]
  constructor
  · rintro ⟨⟨⟩, order, found, collected, reads⟩
    obtain ⟨-, destroys⟩ := destroyers_eq_ok collected
    refine ⟨checkOrder_eq_ok_iff.mp order, fun node member target destroyed => ?_, ?_⟩
    · obtain ⟨place, listed⟩ := List.mem_iff_getElem?.mp member
      exact (destroys listed destroyed).1
    · refine List.pairwise_iff_getElem.mpr fun first second atFirst atSecond before => ?_
      intro target destroyed value read same
      have early :=
        checkReads_eq_ok_iff.mp reads (List.getElem?_eq_getElem atSecond) value read
      rw [lateRead?, same, (destroys (List.getElem?_eq_getElem atFirst) destroyed).2] at early
      simp [before] at early
  · intro safe
    have once := safe.unread.imp fun {earlier later} apart target destroyed other twice =>
      apart target destroyed other (mem_reads_of_destroyed twice)
    obtain ⟨all, collected⟩ := @exists_destroyers graph graph.storageRoots [] 0 _
      (fun node member target destroyed => ⟨safe.inner node member target destroyed, rfl⟩) once
    refine ⟨(), checkOrder_eq_ok_iff.mpr safe.ordered, all, collected, ?_⟩
    refine checkReads_eq_ok_iff.mpr fun {place node} listed value read => ?_
    rw [lateRead?]
    cases entered : all.get? (rootIn graph.storageRoots value) with
    | none => rfl
    | some entry =>
        rcases exists_destroyer collected entered with
          none | ⟨first, earlier, target, found, destroyed, same, rfl⟩
        · cases none
        · dsimp only
          split_ifs with before
          · obtain ⟨inside, rfl⟩ := List.getElem?_eq_some_iff.mp found
            obtain ⟨inside', rfl⟩ := List.getElem?_eq_some_iff.mp listed
            have apart := List.pairwise_iff_getElem.mp safe.unread first place inside inside'
              (by omega)
            exact absurd same.symm (apart target destroyed value read)
          · rfl

/-- A graph that passes the check of storage does not use what it destroyed. -/
theorem disposes_of_checkStorage (accepted : graph.checkStorage = .ok ()) : graph.Disposes := by
  have safe := checkStorage_eq_ok_iff.mp accepted
  refine ⟨safe.ordered, ?_, ?_, ?_⟩
  · intro first second earlier later target before atFirst atSecond destroyed read
    obtain ⟨inside, rfl⟩ := List.getElem?_eq_some_iff.mp atFirst
    obtain ⟨inside', rfl⟩ := List.getElem?_eq_some_iff.mp atSecond
    exact List.pairwise_iff_getElem.mp safe.unread first second inside inside' before target
      destroyed target read rfl
  · intro node member target destroyed input
    have inner := safe.inner node member target destroyed
    rw [rootIn_storageRoots_input safe.ordered.distinct input] at inner
    simp [isBoundary, input] at inner
  · intro node member target destroyed output
    have inner := safe.inner node member target destroyed
    rw [isBoundary, Bool.or_eq_false_iff, List.any_eq_false] at inner
    exact inner.2 target output (by simp)

end Dataflow.Graph
