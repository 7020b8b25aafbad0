import Dataflow.Execution.Error
import Mathlib.Data.List.Forall2

/-!
Safe outcomes: no promise is broken, and a result has some property. An outcome may still be an
error that a user sees; it is refused then.
-/

namespace Dataflow.Outcome

variable {α β : Type}

/-- No promise is broken, and a result is good. -/
structure Safe (good : α → Prop) (outcome : Outcome α) : Prop where
  holds : ∀ {value : α}, outcome = .ok value → good value
  kept : ∀ breach, outcome ≠ .error (.breach breach)

/-- A good result is safe. -/
theorem safe_ok {good : α → Prop} {value : α} (fine : good value)
    : Safe good (.ok value : Outcome α) :=
  ⟨fun same => Except.ok.inj same ▸ fine, fun _ same => nomatch same⟩

/-- An error that is no broken promise is safe. -/
theorem safe_error {good : α → Prop} {error : BackendError}
    (kept : ∀ breach, error ≠ .breach breach)
    : Safe good (.error error : Outcome α) :=
  ⟨fun same => (nomatch same), fun breach same => kept breach (Except.error.inj same)⟩

/-- Refusing is safe. -/
theorem safe_fail (good : α → Prop) (fault : KernelFault) : Safe good (fail fault) :=
  safe_error fun _ same => nomatch same

/-- Only what is there can be required. -/
theorem require_eq_ok_iff {breach : Breach} {item : Option α} {value : α}
    : require breach item = .ok value ↔ item = some value := by
  cases item <;> simp [require]

/-- Requiring what is there is safe. -/
theorem safe_require {good : α → Prop} {breach : Breach} {item : Option α} {value : α}
    (found : item = some value) (fine : good value)
    : Safe good (require breach item) := by
  subst found
  exact safe_ok fine

/-- Steps after each other are safe, if the second one is safe behind good results. -/
theorem Safe.bind {good : α → Prop} {better : β → Prop} {step : Outcome α}
    {next : α → Outcome β} (safe : Safe good step)
    (follows : ∀ value, good value → Safe better (next value))
    : Safe better (step >>= next) := by
  cases step with
  | ok value => exact follows value (safe.holds rfl)
  | error error => exact safe_error fun breach same => safe.kept breach (same ▸ rfl)

/-- Changing a result is safe, if good results become good. -/
theorem Safe.map {good : α → Prop} {better : β → Prop} {step : Outcome α} {change : α → β}
    (safe : Safe good step) (becomes : ∀ value, good value → better (change value))
    : Safe better (step.map change) := by
  cases step with
  | ok value => exact safe_ok (becomes value (safe.holds rfl))
  | error error => exact safe_error fun breach same => safe.kept breach (same ▸ rfl)

/-- A weaker property is safe too. -/
theorem Safe.mono {good weaker : α → Prop} {outcome : Outcome α} (safe : Safe good outcome)
    (implies : ∀ value, good value → weaker value)
    : Safe weaker outcome :=
  ⟨fun done => implies _ (safe.holds done), safe.kept⟩

/-- A step at every entry of a list is safe, if it is safe at each of them, by induction on the
list.
-/
theorem Safe.mapM {good : α → β → Prop} {step : α → Outcome β} {list : List α}
    (safe : ∀ entry ∈ list, Safe (good entry) (step entry))
    : Safe (List.Forall₂ good list) (list.mapM step) := by
  induction list with
  | nil => exact safe_ok .nil
  | cons first rest ih =>
      rw [List.mapM_cons]
      refine (safe first List.mem_cons_self).bind ?_
      intro result fine
      refine (ih fun entry member => safe entry (List.mem_cons_of_mem _ member)).bind ?_
      intro results allFine
      exact safe_ok (.cons fine allFine)

/-- A check of every entry of a list is safe, if it is safe at each of them; what it establishes
holds at all of them. By induction on the list.
-/
theorem Safe.forM {good : α → Prop} {check : α → Outcome Unit} {list : List α}
    (safe : ∀ entry ∈ list, Safe (fun _ => good entry) (check entry))
    : Safe (fun _ => ∀ entry ∈ list, good entry) (list.forM check) := by
  induction list with
  | nil => exact safe_ok fun entry member => absurd member List.not_mem_nil
  | cons first rest ih =>
      refine (safe first List.mem_cons_self).bind ?_
      intro _ fine
      refine (ih fun entry member => safe entry (List.mem_cons_of_mem _ member)).mono ?_
      intro _ allFine entry member
      rcases List.mem_cons.mp member with rfl | later
      · exact fine
      · exact allFine entry later

-----------------------------------------------------------------------------------------
-- Refusals
-----------------------------------------------------------------------------------------

/-- There is an error, which is no broken promise. -/
def Refused (outcome : Outcome α) : Prop :=
  ∃ error, outcome = .error error ∧ ∀ breach, error ≠ .breach breach

theorem not_refused_ok (value : α) : ¬Refused (.ok value) := by
  intro ⟨error, same, _⟩
  cases same

theorem not_refused_breach (breach : Breach) : ¬Refused (.error (.breach breach) : Outcome α) := by
  intro ⟨error, same, regular⟩
  exact regular breach (Except.error.inj same).symm

theorem not_refused_require (breach : Breach) (item : Option α) : ¬(require breach item).Refused := by
  cases item with
  | some value => exact not_refused_ok value
  | none => exact not_refused_breach breach

/-- Of two steps after each other, the first one is refused or the second one. -/
theorem refused_bind_iff {step : Outcome α} {next : α → Outcome β}
    : (step >>= next).Refused ↔ step.Refused ∨ ∃ value, step = .ok value ∧ (next value).Refused := by
  cases step with
  | ok value =>
      refine ⟨fun refused => .inr ⟨value, rfl, refused⟩, fun either => ?_⟩
      rcases either with first | ⟨_, same, second⟩
      · exact absurd first (not_refused_ok value)
      · exact Except.ok.inj same ▸ second
  | error error =>
      refine ⟨fun ⟨other, same, regular⟩ => .inl ⟨other, ?_, regular⟩, fun either => ?_⟩
      · exact congrArg Except.error (Except.error.inj same)
      · rcases either with ⟨other, same, regular⟩ | ⟨_, same, _⟩
        · exact ⟨other, congrArg Except.error (Except.error.inj same), regular⟩
        · cases same

theorem refused_map_iff {step : Outcome α} {change : α → β}
    : Refused (step.map change) ↔ step.Refused := by
  cases step with
  | ok value => exact iff_of_false (not_refused_ok _) (not_refused_ok value)
  | error error =>
      constructor <;> exact fun ⟨other, same, regular⟩ =>
        ⟨other, congrArg Except.error (Except.error.inj same), regular⟩

/-- Of a safe outcome, every error refuses. -/
theorem Safe.refused {good : α → Prop} {outcome : Outcome α} (safe : Safe good outcome)
    (none : ∀ value, outcome ≠ .ok value)
    : outcome.Refused := by
  cases outcome with
  | ok value => exact absurd rfl (none value)
  | error error => exact ⟨error, rfl, fun breach same => safe.kept breach (congrArg _ same)⟩

end Dataflow.Outcome
