import Mathlib.Data.List.Forall2

/-!
Steps that can fail. A sequence of steps has a result iff each step has one, and a step on a list
has one iff it has one at every entry. Entries and results are related lists.
-/

namespace Dataflow.Steps

variable {ε α β γ : Type}

/-- A step behind a result is the step on the result. -/
theorem ok_bind (value : α) (next : α → Except ε β)
    : (Except.ok value : Except ε α) >>= next = next value :=
  rfl

/-- Two steps after each other have a result iff the first one has one with which the second one
has it.
-/
theorem bind_eq_ok_iff {step : Except ε α} {next : α → Except ε β} {result : β}
    : step >>= next = .ok result ↔ ∃ middle, step = .ok middle ∧ next middle = .ok result := by
  cases step with
  | error error => simp [bind, Except.bind]
  | ok middle => simp [bind, Except.bind]

/-- A step behind a check has a result iff the check succeeds and the step has the result. -/
theorem check_bind_eq_ok_iff {check : Except ε Unit} {next : Unit → Except ε β} {result : β}
    : check >>= next = .ok result ↔ check = .ok () ∧ next () = .ok result := by
  rw [bind_eq_ok_iff]
  exact ⟨fun ⟨_, passed, done⟩ => ⟨passed, done⟩, fun ⟨passed, done⟩ => ⟨(), passed, done⟩⟩

/-- Two steps after each other fail iff the first one fails, or it has a result with which the
second one fails.
-/
theorem bind_eq_error_iff {step : Except ε α} {next : α → Except ε β} {error : ε}
    : step >>= next = .error error
      ↔ step = .error error ∨ ∃ middle, step = .ok middle ∧ next middle = .error error := by
  cases step with
  | error other => simp [bind, Except.bind]
  | ok middle => simp [bind, Except.bind]

/-- A step that cannot fail changes the result of the one before. -/
theorem map_eq_ok_iff {step : Except ε α} {change : α → β} {result : β}
    : change <$> step = .ok result ↔ ∃ middle, step = .ok middle ∧ change middle = result := by
  cases step with
  | error error => simp [Functor.map, Except.map]
  | ok middle => simp [Functor.map, Except.map]

/-- Changing the error of a step that has none. -/
theorem mapError_ok {ε' : Type} (result : α) (change : ε → ε')
    : (Except.ok result : Except ε α).mapError change = .ok result :=
  rfl

/-- A step with another error has the results that it had. -/
theorem mapError_eq_ok_iff {ε' : Type} {step : Except ε α} {change : ε → ε'} {result : α}
    : step.mapError change = .ok result ↔ step = .ok result := by
  cases step with
  | error error => constructor <;> rintro ⟨⟩
  | ok middle => constructor <;> rintro ⟨⟩ <;> rfl

/-- Changing a result. -/
theorem map_ok (result : α) (change : α → β)
    : (Except.ok result : Except ε α).map change = .ok (change result) :=
  rfl

/-- Changing the result of two steps after each other. -/
theorem map_bind (step : Except ε α) (next : α → Except ε β) (change : β → γ)
    : (step >>= next).map change = step >>= fun middle => (next middle).map change := by
  cases step <;> rfl

/-- A step behind a changed result. -/
theorem bind_map (step : Except ε α) (change : α → β) (next : β → Except ε γ)
    : step.map change >>= next = step >>= fun middle => next (change middle) := by
  cases step <;> rfl

/-- Changing a result twice. -/
theorem map_map (step : Except ε α) (first : α → β) (second : β → γ)
    : (step.map first).map second = step.map fun result => second (first result) := by
  cases step <;> rfl

/-- Two steps after each other agree with two others if the first ones agree, and the second ones
agree on each result.
-/
theorem bind_congr {step : Except ε α} {next other : α → Except ε β}
    (same : ∀ middle, next middle = other middle)
    : step >>= next = step >>= other := by
  rw [funext same]

/-- Steps that agree at every entry of a list agree on the list, by induction on the list. -/
theorem mapM_congr {step other : α → Except ε β} {list : List α}
    (same : ∀ entry ∈ list, step entry = other entry)
    : list.mapM step = list.mapM other := by
  induction list with
  | nil => rfl
  | cons first rest ih =>
      rw [List.mapM_cons, List.mapM_cons, same first List.mem_cons_self,
        ih fun entry member => same entry (List.mem_cons_of_mem _ member)]

/-- A step on every entry of a list has the results that it has at the entries, by induction on the
list.
-/
theorem mapM_eq_ok_iff {step : α → Except ε β} {list : List α} {results : List β}
    : list.mapM step = .ok results ↔ list.map step = results.map .ok := by
  induction list generalizing results with
  | nil =>
      cases results with
      | nil => simp [pure, Except.pure]
      | cons first rest => simp [pure, Except.pure]
  | cons first rest ih =>
      rw [List.mapM_cons, bind_eq_ok_iff]
      simp only [bind_eq_ok_iff, ih]
      cases results with
      | nil => simp [pure, Except.pure]
      | cons result others =>
          simp only [pure, Except.pure, Except.ok.injEq, List.cons.injEq, List.map_cons]
          constructor
          · rintro ⟨_, here, _, later, rfl, rfl⟩
            exact ⟨here, later⟩
          · rintro ⟨here, later⟩
            exact ⟨result, here, others, later, rfl, rfl⟩

/-- If a step on every entry of a list fails, it does so at some entry. -/
theorem exists_of_mapM_eq_error {step : α → Except ε β} {list : List α} {error : ε}
    (failed : list.mapM step = .error error)
    : ∃ entry ∈ list, step entry = .error error := by
  induction list with
  | nil => cases failed
  | cons first rest ih =>
      rw [List.mapM_cons, bind_eq_error_iff] at failed
      rcases failed with here | ⟨result, -, later⟩
      · exact ⟨first, List.mem_cons_self, here⟩
      · rcases bind_eq_error_iff.mp later with failed | ⟨results, -, added⟩
        · obtain ⟨entry, member, same⟩ := ih failed
          exact ⟨entry, List.mem_cons_of_mem _ member, same⟩
        · cases added

/-- A step on a list has results if it has one at every entry. -/
theorem exists_mapM_eq_ok {step : α → Except ε β} {list : List α}
    (each : ∀ entry ∈ list, ∃ result, step entry = .ok result)
    : ∃ results, list.mapM step = .ok results := by
  cases done : list.mapM step with
  | ok results => exact ⟨results, rfl⟩
  | error error =>
      obtain ⟨entry, member, failed⟩ := exists_of_mapM_eq_error done
      obtain ⟨result, here⟩ := each entry member
      cases failed.symm.trans here

/-- If a check of every entry of a list fails, it does so at some entry. -/
theorem exists_of_forM_eq_error {check : α → Except ε Unit} {list : List α} {error : ε}
    (failed : list.forM check = .error error)
    : ∃ entry ∈ list, check entry = .error error := by
  induction list with
  | nil => cases failed
  | cons first rest ih =>
      change (check first >>= fun _ => rest.forM check) = .error error at failed
      rcases bind_eq_error_iff.mp failed with here | ⟨_, -, later⟩
      · exact ⟨first, List.mem_cons_self, here⟩
      · obtain ⟨entry, member, same⟩ := ih later
        exact ⟨entry, List.mem_cons_of_mem _ member, same⟩

/-- A check of every entry of a list succeeds iff it does at each entry, by induction on the list. -/
theorem forM_eq_ok_iff {check : α → Except ε Unit} {list : List α}
    : list.forM check = .ok () ↔ ∀ entry ∈ list, check entry = .ok () := by
  induction list with
  | nil => simp [List.forM, pure, Except.pure]
  | cons first rest ih =>
      change (check first >>= fun _ => rest.forM check) = .ok () ↔ _
      rw [bind_eq_ok_iff, List.forall_mem_cons, ← ih]
      exact ⟨fun ⟨_, here, later⟩ => ⟨here, later⟩, fun ⟨here, later⟩ => ⟨(), here, later⟩⟩

/-- Optional results at every entry of a list are results at the entries, by induction on the list.
-/
theorem mapM_eq_some_iff {step : α → Option β} {list : List α} {results : List β}
    : list.mapM step = some results ↔ list.map step = results.map some := by
  induction list generalizing results with
  | nil =>
      cases results with
      | nil => simp
      | cons first rest => simp
  | cons first rest ih =>
      rw [List.mapM_cons]
      simp only [Option.bind_eq_bind, Option.bind_eq_some_iff, ih]
      cases results with
      | nil => simp
      | cons result others =>
          simp only [Option.pure_def, Option.some.injEq, List.cons.injEq, List.map_cons]
          constructor
          · rintro ⟨_, here, _, later, rfl, rfl⟩
            exact ⟨here, later⟩
          · rintro ⟨here, later⟩
            exact ⟨result, here, others, later, rfl, rfl⟩

/-- An entry of a list whose entries all have optional results has one. -/
theorem exists_of_mapM_eq_some {step : α → Option β} {list : List α} {results : List β}
    (all : list.mapM step = some results) {entry : α} (member : entry ∈ list)
    : ∃ result ∈ results, step entry = some result := by
  have listed : step entry ∈ results.map some :=
    mapM_eq_some_iff.mp all ▸ List.mem_map_of_mem member
  obtain ⟨result, known, same⟩ := List.mem_map.mp listed
  exact ⟨result, known, same.symm⟩

-----------------------------------------------------------------------------------------
-- Related lists
-----------------------------------------------------------------------------------------

/-- An entry of the first of two related lists has a related one in the second. -/
theorem exists_of_mem_left {relation : α → β → Prop} {as : List α} {bs : List β}
    (related : List.Forall₂ relation as bs) {a : α} (member : a ∈ as)
    : ∃ b ∈ bs, relation a b := by
  induction related with
  | nil => exact absurd member List.not_mem_nil
  | cons here _ ih =>
      rcases List.mem_cons.mp member with rfl | later
      · exact ⟨_, List.mem_cons_self, here⟩
      · obtain ⟨b, behind, found⟩ := ih later
        exact ⟨b, List.mem_cons_of_mem _ behind, found⟩

/-- An entry of the second of two related lists has a related one in the first. -/
theorem exists_of_mem_right {relation : α → β → Prop} {as : List α} {bs : List β}
    (related : List.Forall₂ relation as bs) {b : β} (member : b ∈ bs)
    : ∃ a ∈ as, relation a b :=
  exists_of_mem_left related.flip member

end Dataflow.Steps
