import Dataflow.Proofs.Rewrite.Failures

/-!
Two nodes in a row and one node that does the work of both. The second node of the two may be
replaced by the new one, in a graph that goes on to have the results that it had and goes on to be
stuck if it was. The first node stays where it is, and it may lose its last reader.
-/

namespace Dataflow

-----------------------------------------------------------------------------------------
-- Outcomes
-----------------------------------------------------------------------------------------

namespace Outcome

variable {α : Type}

/-- A second outcome takes the place of a first one: it has the same result if there is one, and is
refused if the first one is.
-/
structure LowersTo (first second : Outcome α) : Prop where
  results : ∀ value, first = .ok value → second = .ok value
  refused : first.Refused → second.Refused

end Outcome

/-- On operands of some types, an operation has the outcome of two operations in a row. The outer one
has the result of the inner one as its first operand.
-/
def Backend.Fuses (backend : Backend) (inner outer fused : Operation) (types rest : List ValueType)
    : Prop :=
  ∀ ⦃inputs others : Inputs⦄, inputs.HaveTypes types → others.HaveTypes rest
    → Outcome.LowersTo
        (backend.execute inner inputs >>= fun middle => backend.execute outer (middle :: others))
        (backend.execute fused (inputs ++ others))

-----------------------------------------------------------------------------------------
-- Nodes
-----------------------------------------------------------------------------------------

namespace Interpretation

variable {backend : Backend} {i : Interpretation} {operation : Operation}
  {operands others : List Operand} {inputs rest : Inputs} {value : Value}

theorem makes_iff (unasked : Finiteness.isAskedBy operation = false)
    : i.Makes backend operation operands value
      ↔ ∃ inputs,
          operands.mapM i.operand = .ok inputs ∧ backend.execute operation inputs = .ok value := by
  simp [Makes, unasked]

theorem refuses_iff (unasked : Finiteness.isAskedBy operation = false)
    : i.Refuses backend operation operands
      ↔ ∀ inputs, operands.mapM i.operand = .ok inputs
          → (backend.execute operation inputs).Refused := by
  constructor
  · intro refuses inputs gathered
    cases executed : backend.execute operation inputs with
    | ok value => exact absurd ((makes_iff unasked).mpr ⟨_, gathered, executed⟩) (refuses.nothing _)
    | error error =>
        refine ⟨error, rfl, fun breach same => refuses.regular unasked inputs gathered breach ?_⟩
        rw [executed, same]
  · intro refused
    refine ⟨fun value made => ?_, fun _ inputs gathered breach broken => ?_⟩
    · obtain ⟨inputs, gathered, executed⟩ := (makes_iff unasked).mp made
      exact Outcome.not_refused_ok value (executed ▸ refused inputs gathered)
    · obtain ⟨error, failed, regular⟩ := refused inputs gathered
      exact regular breach (Except.error.inj (failed.symm.trans broken))

/-- Operands are gathered one list after the other. -/
theorem mapM_append_eq_ok_iff
    : (operands ++ others).mapM i.operand = .ok inputs
      ↔ ∃ first rest,
          operands.mapM i.operand = .ok first
          ∧ others.mapM i.operand = .ok rest
          ∧ inputs = first ++ rest := by
  rw [List.mapM_append]
  simp only [Steps.bind_eq_ok_iff, pure, Except.pure, Except.ok.injEq]
  constructor
  · rintro ⟨first, gathered, rest, gathered', same⟩
    exact ⟨first, rest, gathered, gathered', same.symm⟩
  · rintro ⟨first, rest, gathered, gathered', same⟩
    exact ⟨first, gathered, rest, gathered', same.symm⟩

theorem mapM_value_cons_eq_ok_iff {id : ValueId}
    : (.value id :: others).mapM i.operand = .ok inputs
      ↔ ∃ rest, others.mapM i.operand = .ok rest ∧ inputs = i id :: rest := by
  have first : i.operand (.value id) = .ok (i id) := rfl
  rw [List.mapM_cons, first, Steps.ok_bind, Steps.bind_eq_ok_iff]
  simp [pure, Except.pure, eq_comm]

end Interpretation

/-- An operation that reads a node, and a node that does the work of both. Either the operation reads
nothing else, or the node that it reads is total.
-/
structure Node.Fuses (backend : Backend) (known : Types) (inner fused : Node) (outer : Operation)
    (others : List Operand) : Prop where
  unaskedInner : Finiteness.isAskedBy inner.operation = false
  unaskedOuter : Finiteness.isAskedBy outer = false
  unaskedFused : Finiteness.isAskedBy fused.operation = false
  operands : fused.operands = inner.operands ++ others
  alone : others = [] ∨ inner.IsTotal
  fuses
    : ∃ types rest,
        List.Forall₂ (Operand.DeclaredBy known) inner.operands types
        ∧ List.Forall₂ (Operand.DeclaredBy known) others rest
        ∧ backend.Fuses inner.operation outer fused.operation types rest

namespace Node.Fuses

variable {narrow : Prop} {backend : Backend} {known : Types} {inner fused : Node} {outer : Operation}
  {others : List Operand} {i : Interpretation} {value : Value}
  (fuses : Node.Fuses backend known inner fused outer others)

include fuses

theorem mono {more : Types} (subset : known ⊆ more)
    : Node.Fuses backend more inner fused outer others where
  __ := fuses
  fuses := by
    obtain ⟨types, rest, declared, declared', lowers⟩ := fuses.fuses
    exact ⟨types, rest, declared.imp fun _ _ here => here.mono subset,
      declared'.imp fun _ _ here => here.mono subset, lowers⟩

theorem mem_reads_iff {read : ValueId}
    : read ∈ fused.reads ↔ read ∈ inner.reads ∨ read ∈ others.filterMap Operand.value? := by
  rw [reads, fuses.operands, List.filterMap_append, List.mem_append]
  rfl

theorem makes
    (typed : ∀ id ∈ fused.reads, ∀ type, (id, type) ∈ known → (i id).HasType type)
    (made : i.Makes backend inner.operation inner.operands (i inner.value))
    (makes : i.Makes backend outer (.value inner.value :: others) value)
    : i.Makes backend fused.operation fused.operands value := by
  obtain ⟨types, rest, declared, declared', lowers⟩ := fuses.fuses
  obtain ⟨inputs, gathered, executed⟩ := (Interpretation.makes_iff fuses.unaskedInner).mp made
  obtain ⟨_, all, executed'⟩ := (Interpretation.makes_iff fuses.unaskedOuter).mp makes
  obtain ⟨further, gathered', rfl⟩ := Interpretation.mapM_value_cons_eq_ok_iff.mp all
  refine (Interpretation.makes_iff fuses.unaskedFused).mpr ⟨inputs ++ further, ?_, ?_⟩
  · rw [fuses.operands]
    exact Interpretation.mapM_append_eq_ok_iff.mpr ⟨_, _, gathered, gathered', rfl⟩
  · refine (lowers ?_ ?_).results value (Steps.bind_eq_ok_iff.mpr ⟨_, executed, executed'⟩)
    · refine Interpretation.haveTypes_of_declared declared (fun id read => typed id ?_) gathered
      exact fuses.mem_reads_iff.mpr (.inl read)
    · refine Interpretation.haveTypes_of_declared declared' (fun id read => typed id ?_) gathered'
      exact fuses.mem_reads_iff.mpr (.inr read)

/-- What the operation refuses of the node that it reads is refused. -/
theorem refuses_outer
    (typed : ∀ id ∈ fused.reads, ∀ type, (id, type) ∈ known → (i id).HasType type)
    (made : i.Makes backend inner.operation inner.operands (i inner.value))
    (refuses : i.Refuses backend outer (.value inner.value :: others))
    : i.Refuses backend fused.operation fused.operands := by
  obtain ⟨types, rest, declared, declared', lowers⟩ := fuses.fuses
  refine (Interpretation.refuses_iff fuses.unaskedFused).mpr fun all gatheredAll => ?_
  rw [fuses.operands] at gatheredAll
  obtain ⟨inputs, further, gathered, gathered', rfl⟩ :=
    Interpretation.mapM_append_eq_ok_iff.mp gatheredAll
  obtain ⟨_, again, executed⟩ := (Interpretation.makes_iff fuses.unaskedInner).mp made
  obtain rfl := Except.ok.inj (gathered.symm.trans again)
  refine (lowers ?_ ?_).refused ?_
  · refine Interpretation.haveTypes_of_declared declared (fun id read => typed id ?_) gathered
    exact fuses.mem_reads_iff.mpr (.inl read)
  · refine Interpretation.haveTypes_of_declared declared' (fun id read => typed id ?_) gathered'
    exact fuses.mem_reads_iff.mpr (.inr read)
  · rw [executed]
    exact (Interpretation.refuses_iff fuses.unaskedOuter).mp refuses _
      (Interpretation.mapM_value_cons_eq_ok_iff.mpr ⟨_, gathered', rfl⟩)

/-- What the node refuses that the operation reads is refused. A total node refuses nothing, so the
operation reads nothing else then.
-/
theorem refuses_inner {type : ValueType} (faithful : backend.Faithful)
    (follows : inner.operation.Follows narrow known inner.operands type)
    (typed : ∀ id ∈ inner.reads, ∀ type, (id, type) ∈ known → (i id).HasType type)
    (refuses : i.Refuses backend inner.operation inner.operands)
    : fused.reads ⊆ inner.reads ∧ i.Refuses backend fused.operation fused.operands := by
  rcases fuses.alone with rfl | total
  · have same : fused.operands = inner.operands := fuses.operands.trans (List.append_nil _)
    refine ⟨fun read member => by rwa [reads, ← same], ?_⟩
    obtain ⟨types, rest, declared, declared', lowers⟩ := fuses.fuses
    cases declared'
    rw [Interpretation.refuses_iff fuses.unaskedInner] at refuses
    refine (Interpretation.refuses_iff fuses.unaskedFused).mpr fun inputs gathered => ?_
    rw [same] at gathered
    obtain ⟨error, failed, regular⟩ := refuses inputs gathered
    have typed := Interpretation.haveTypes_of_declared declared typed gathered
    have refused := (@lowers inputs [] typed .nil).refused ⟨error, ?_, regular⟩
    · rwa [List.append_nil] at refused
    · rw [failed]
      rfl
  · obtain ⟨value, made⟩ := total.exists_makes follows faithful typed
    exact absurd made (refuses.nothing value)

end Node.Fuses

end Dataflow
