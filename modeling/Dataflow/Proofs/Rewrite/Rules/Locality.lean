import Dataflow.Pass.Catalog
import Dataflow.Proofs.Rewrite.Edits
import Mathlib.Data.Option.Basic

/-!
What the rules of the library look at. Two sessions look alike from a node if they agree on the node
and on everything that it is computed from, up to list mutations that were promoted. The rules have
the same plans in both, those that also look at readers if these are the same.
-/

namespace Dataflow

-----------------------------------------------------------------------------------------
-- Promoted nodes
-----------------------------------------------------------------------------------------

/-- A node is the same, or it mutates a list in place that it mutated on a copy. -/
inductive Node.Promoted : Node → Node → Prop where
  | same (node : Node) : Promoted node node
  | inplace {node : Node} {mutation : ListMutation} {type : ValueType}
      (copies : node.operation = .listMutation mutation false) (before : node.type.tensor? = none)
      (after : type.tensor? = none)
    : Promoted node { node with operation := .listMutation mutation true, type }

namespace Node.Promoted

variable {before after : Node}

theorem value (promoted : before.Promoted after) : after.value = before.value := by
  cases promoted <;> rfl

theorem operands (promoted : before.Promoted after) : after.operands = before.operands := by
  cases promoted <;> rfl

theorem reads (promoted : before.Promoted after) : after.reads = before.reads := by
  cases promoted <;> rfl

/-- A mutation in place is not promoted again. -/
theorem trans {middle : Node} (first : before.Promoted middle) (second : middle.Promoted after)
    : before.Promoted after := by
  cases first with
  | same => exact second
  | inplace copies list list' =>
      cases second with
      | same => exact .inplace copies list list'
      | inplace again => cases again

theorem tensor? (promoted : before.Promoted after) : after.type.tensor? = before.type.tensor? := by
  cases promoted with
  | same => rfl
  | inplace copies before after => exact after.trans before.symm

end Node.Promoted

namespace Session

variable {within : ValueId → Prop} {session other : Session} {id : NodeId}

-----------------------------------------------------------------------------------------
-- Sessions that look alike
-----------------------------------------------------------------------------------------

/-- Two sessions have the same producers and tensors among some values. -/
structure Alike (within : ValueId → Prop) (session other : Session) : Prop where
  closed
    : ∀ {value : ValueId} {node : Node},
        within value → session.producer? value = some node → ∀ read ∈ node.reads, within read
  producer?
    : ∀ {value : ValueId},
        within value
        → Option.Rel Node.Promoted (session.producer? value) (other.producer? value)
  tensor?
    : ∀ {value : ValueId},
        within value
        → (other.index.type? value).bind ValueType.tensor?
          = (session.index.type? value).bind ValueType.tensor?

/-- Two sessions have the same node, too. -/
structure AlikeAt (within : ValueId → Prop) (session other : Session) (id : NodeId) : Prop
    extends Alike within session other where
  node? : Option.Rel Node.Promoted (session.node? id) (other.node? id)
  reads : ∀ {node : Node}, session.node? id = some node → ∀ read ∈ node.reads, within read

theorem option_bind_congr {α β : Type} {found : Option α} {next next' : α → Option β}
    (same : ∀ a, found = some a → next' a = next a)
    : (found >>= next') = (found >>= next) := by
  cases found with
  | none => rfl
  | some a => exact same a rfl

/-- Looking at related nodes gives the same, if list mutations give nothing. -/
theorem bind_eq_of_promoted {β : Type} {found found' : Option Node}
    (related : Option.Rel Node.Promoted found found')
    {next next' : Node → Option β}
    (same : ∀ node, found = some node → next' node = next node)
    (nothing
      : ∀ node mutation inplace, node.operation = .listMutation mutation inplace
        → next node = none ∧ next' node = none)
    : (found' >>= next') = (found >>= next) := by
  cases related with
  | none => rfl
  | @some before after promoted =>
      cases promoted with
      | same => exact same _ rfl
      | inplace copies =>
          exact (nothing _ _ true rfl).2.trans (nothing before _ false copies).1.symm

theorem bind_tensor?_congr {β : Type} {found found' : Option ValueType}
    (same : found'.bind ValueType.tensor? = found.bind ValueType.tensor?)
    (next : TensorType → Option β)
    : (do let type ← found'; let tensor ← type.tensor?; next tensor)
      = (do let type ← found; let tensor ← type.tensor?; next tensor) := by
  rw [← bind_assoc, ← bind_assoc]
  exact congrArg (· >>= next) same

namespace Alike

variable (alike : Alike within session other)

include alike

theorem rank? {value : ValueId} (known : within value)
    : other.rank? value = session.rank? value := by
  rw [Session.rank?, Session.rank?, alike.tensor? known]

theorem operandType? {operand : Operand} (known : ∀ read, operand.value? = some read → within read)
    : (other.operandType? operand).bind ValueType.tensor?
      = (session.operandType? operand).bind ValueType.tensor? := by
  cases operand with
  | literal content => rfl
  | value read => exact alike.tensor? (known read rfl)

theorem within_input? {value read : ValueId} {node : Node} {position : Nat} (known : within value)
    (found : session.producer? value = some node) (reads : node.input? position = some read)
    : within read :=
  alike.closed known found read (Node.mem_reads_of_input? reads)

theorem negated? {value : ValueId} (known : within value)
    : Rules.negated? other value = Rules.negated? session value := by
  refine bind_eq_of_promoted (alike.producer? known) (fun _ _ => rfl) fun node _ _ same => ?_
  constructor <;> simp [same, guard]

end Alike

namespace AlikeAt

variable (alike : AlikeAt within session other id)

include alike

theorem within_input? {node : Node} {position : Nat} {value : ValueId}
    (found : session.node? id = some node) (reads : node.input? position = some value)
    : within value :=
  alike.reads found value (Node.mem_reads_of_input? reads)

-----------------------------------------------------------------------------------------
-- Rules that look at what a node is computed from
-----------------------------------------------------------------------------------------

open Rules

theorem plan_eliminateDoubleNegation
    : eliminateDoubleNegation.plan other id = eliminateDoubleNegation.plan session id := by
  refine bind_eq_of_promoted alike.node? (fun outer found => ?_) fun node _ _ same => ?_
  · refine bind_congr fun _ => option_bind_congr fun inner reads => ?_
    rw [alike.negated? (alike.within_input? found reads)]
  · constructor <;> simp [same, guard]

theorem plan_localMaxToMin : localMaxToMin.plan other id = localMaxToMin.plan session id := by
  refine bind_eq_of_promoted alike.node? (fun outer found => ?_) fun node _ _ same => ?_
  · refine bind_congr fun _ => option_bind_congr fun reduced reads => ?_
    have known := alike.within_input? found reads
    refine bind_eq_of_promoted (alike.producer? known) (fun middle found => ?_)
      fun node _ _ same => ?_
    · refine bind_congr fun reduction => bind_congr fun dual =>
        option_bind_congr fun inner reads => ?_
      rw [alike.negated? (alike.toAlike.within_input? known found reads)]
    · constructor <;> simp [same, reduction?]
  · constructor <;> simp [same, guard]

theorem plan_eliminateIdentityShuffle
    : eliminateIdentityShuffle.plan other id = eliminateIdentityShuffle.plan session id := by
  refine bind_eq_of_promoted alike.node? (fun node found => ?_) fun node _ _ same => ?_
  · refine bind_congr fun order => option_bind_congr fun source reads => ?_
    rw [alike.rank? (alike.within_input? found reads)]
  · constructor <;> simp [same, shuffleOrder?]

theorem plan_collapseShuffleChain
    : collapseShuffleChain.plan other id = collapseShuffleChain.plan session id := by
  refine bind_eq_of_promoted alike.node? (fun outer found => ?_) fun node _ _ same => ?_
  · refine bind_congr fun outerOrder => option_bind_congr fun middle reads => ?_
    have known := alike.within_input? found reads
    refine bind_eq_of_promoted (alike.producer? known) (fun inner found => ?_)
      fun node _ _ same => ?_
    · refine bind_congr fun innerOrder => option_bind_congr fun base reads =>
        bind_congr fun order => ?_
      rw [alike.rank? (alike.toAlike.within_input? known found reads)]
    · constructor <;> simp [same, shuffleOrder?]
  · constructor <;> simp [same, shuffleOrder?]

theorem plan_shuffleOfAlloc : shuffleOfAlloc.plan other id = shuffleOfAlloc.plan session id := by
  refine bind_eq_of_promoted alike.node? (fun outer found => ?_) fun node _ _ same => ?_
  · refine bind_congr fun order => option_bind_congr fun filled reads => ?_
    have known := alike.within_input? found reads
    refine bind_eq_of_promoted (alike.producer? known) (fun inner found => ?_)
      fun node _ _ same => ?_
    · refine bind_congr fun extents => option_bind_congr fun filler first => ?_
      have typed
          : (other.operandType? filler).bind ValueType.tensor?
            = (session.operandType? filler).bind ValueType.tensor? :=
        alike.operandType? fun read same => alike.closed known found read
          (List.mem_filterMap.mpr ⟨filler, List.mem_of_head? first, same⟩)
      exact bind_tensor?_congr typed _
    · constructor <;> simp [same, allocExtents?]
  · constructor <;> simp [same, shuffleOrder?]

theorem plan_allocOfShuffle : allocOfShuffle.plan other id = allocOfShuffle.plan session id := by
  refine bind_eq_of_promoted alike.node? (fun outer found => ?_) fun node _ _ same => ?_
  · refine bind_congr fun extents => option_bind_congr fun shuffled reads => ?_
    have known := alike.within_input? found reads
    refine bind_eq_of_promoted (alike.producer? known) (fun inner found => ?_)
      fun node _ _ same => ?_
    · refine bind_congr fun order => option_bind_congr fun base reads => ?_
      rw [alike.rank? (alike.toAlike.within_input? known found reads)]
    · constructor <;> simp [same, shuffleOrder?]
  · constructor <;> simp [same, allocExtents?]

theorem plan_reshapeOfShuffle
    : reshapeOfShuffle.plan other id = reshapeOfShuffle.plan session id := by
  refine bind_eq_of_promoted alike.node? (fun outer found => ?_) fun node _ _ same => ?_
  · refine bind_congr fun extents => option_bind_congr fun shuffled reads => ?_
    refine bind_eq_of_promoted (alike.producer? (alike.within_input? found reads))
      (fun _ _ => rfl) fun node _ _ same => ?_
    constructor <;> simp [same, shuffleOrder?]
  · constructor <;> simp [same, reshapeExtents?]

theorem plan_shuffleOfReshape
    : shuffleOfReshape.plan other id = shuffleOfReshape.plan session id := by
  refine bind_eq_of_promoted alike.node? (fun outer found => ?_) fun node _ _ same => ?_
  · refine bind_congr fun order => bind_congr fun _ => option_bind_congr fun reshaped reads => ?_
    refine bind_eq_of_promoted (alike.producer? (alike.within_input? found reads))
      (fun _ _ => rfl) fun node _ _ same => ?_
    constructor <;> simp [same, reshapeExtents?]
  · constructor <;> simp [same, shuffleOrder?]

theorem plan_shuffleOfSubtensor
    : shuffleOfSubtensor.plan other id = shuffleOfSubtensor.plan session id := by
  refine bind_eq_of_promoted alike.node? (fun outer found => ?_) fun node _ _ same => ?_
  · refine bind_congr fun order => bind_congr fun _ => option_bind_congr fun sliced reads => ?_
    have known := alike.within_input? found reads
    refine bind_eq_of_promoted (alike.producer? known) (fun inner found => ?_)
      fun node _ _ same => ?_
    · refine bind_congr fun entries => ?_
      rw [alike.rank? known]
      refine bind_congr fun rank => bind_congr fun _ => option_bind_congr fun source first => ?_
      have typed
          : (other.operandType? source).bind ValueType.tensor?
            = (session.operandType? source).bind ValueType.tensor? :=
        alike.operandType? fun read same => alike.closed known found read
          (List.mem_filterMap.mpr ⟨source, List.mem_of_head? first, same⟩)
      exact bind_tensor?_congr typed _
    · constructor <;> simp [same, indexEntries?]
  · constructor <;> simp [same, shuffleOrder?]

end AlikeAt

end Session

end Dataflow
