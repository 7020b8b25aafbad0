import Dataflow.Table
import Mathlib.Data.List.Basic

/-! What the operations of a table do to its entries, key by key, and to its list of keys. -/

namespace Dataflow.Table

variable {κ α β : Type}

/-- The keys of a table, in the order of their entries. -/
def keys (table : Table κ α) : List κ := table.map (·.1)

/-- Changing all entries keeps all keys. -/
theorem keys_map (change : κ → α → β) (table : Table κ α)
    : keys (table.map fun (key, entry) => (key, change key entry)) = keys table := by
  simp [keys]

/-- An entry at the end adds its key at the end. -/
theorem keys_append (key : κ) (entry : α) (table : Table κ α)
    : keys (table ++ [(key, entry)]) = keys table ++ [key] := by
  simp [keys]

variable [DecidableEq κ]

-----------------------------------------------------------------------------------------
-- Entries
-----------------------------------------------------------------------------------------

/-- An entry that is found is an entry of the list, by induction on the table. -/
theorem mem_of_get? {key : κ} {entry : α} {table : Table κ α}
    (found : get? key table = some entry)
    : (key, entry) ∈ table := by
  induction table with
  | nil => simp [get?] at found
  | cons head rest ih =>
      obtain ⟨other, old⟩ := head
      by_cases same : other = key
      · subst same
        obtain rfl : old = entry := by simpa [get?] using found
        exact List.mem_cons_self
      · exact List.mem_cons_of_mem _ (ih (by simpa [get?, same] using found))

/-- An entry behind a change was there before, or it is the one that was set. -/
theorem mem_of_mem_set {key : κ} {entry : α} {table : Table κ α} {pair : κ × α}
    (member : pair ∈ set key entry table)
    : pair = (key, entry) ∨ pair ∈ table := by
  induction table with
  | nil => exact .inl (List.mem_singleton.mp member)
  | cons head rest ih =>
      obtain ⟨other, old⟩ := head
      rw [set] at member
      split_ifs at member
      · rcases List.mem_cons.mp member with new | later
        · exact .inl new
        · exact .inr (List.mem_cons_of_mem _ later)
      · rcases List.mem_cons.mp member with rfl | later
        · exact .inr List.mem_cons_self
        · exact (ih later).imp id (List.mem_cons_of_mem _)

/-- An entry that is left was there before. -/
theorem mem_of_mem_erase {key : κ} {table : Table κ α} {pair : κ × α}
    (member : pair ∈ erase key table)
    : pair ∈ table := by
  induction table with
  | nil => exact member
  | cons head rest ih =>
      obtain ⟨other, old⟩ := head
      rw [erase] at member
      split_ifs at member
      · exact List.mem_cons_of_mem _ member
      · rcases List.mem_cons.mp member with rfl | later
        · exact List.mem_cons_self
        · exact List.mem_cons_of_mem _ (ih later)

/-- Without repeated keys, every entry of the list is found, by induction on the table. -/
theorem get?_of_mem {key : κ} {entry : α} {table : Table κ α} (distinct : (keys table).Nodup)
    (member : (key, entry) ∈ table)
    : get? key table = some entry := by
  induction table with
  | nil => simp at member
  | cons head rest ih =>
      obtain ⟨other, old⟩ := head
      obtain ⟨absent, distinct⟩ := List.nodup_cons.mp distinct
      rcases List.mem_cons.mp member with same | member
      · obtain ⟨rfl, rfl⟩ := Prod.mk.inj same
        simp [get?]
      · have differs : other ≠ key := by
          rintro rfl
          exact absent (List.mem_map.mpr ⟨_, member, rfl⟩)
        simpa [get?, differs] using ih distinct member

/-- Every key of the list has an entry, and no other one has. -/
theorem has_iff {key : κ} {table : Table κ α} : has key table = true ↔ key ∈ keys table := by
  induction table with
  | nil => simp [has, get?, keys]
  | cons head rest ih =>
      obtain ⟨other, old⟩ := head
      by_cases same : other = key
      · simp [has, get?, keys, same]
      · simpa [has, get?, keys, same, Ne.symm same] using ih

/-- A key without an entry is not among the keys. -/
theorem get?_eq_none_iff {key : κ} {table : Table κ α}
    : get? key table = none ↔ key ∉ keys table := by
  rw [← has_iff, has]
  cases get? key table <;> simp

/-- Setting an entry changes what is found under its key only, by induction on the table. -/
theorem get?_set (key other : κ) (entry : α) (table : Table κ α)
    : get? other (set key entry table)
      = if key = other then some entry else get? other table := by
  induction table with
  | nil => simp [set, get?]
  | cons head rest ih =>
      obtain ⟨first, old⟩ := head
      by_cases same : first = key
      · subst same
        by_cases hit : first = other <;> simp [set, get?, hit]
      · by_cases hit : first = other
        · subst hit
          simp [set, get?, same, Ne.symm same]
        · simp [set, get?, same, hit, ih]

/-- Modifying an entry changes what is found under its key only, by induction on the table. -/
theorem get?_modify (key other : κ) (change : α → α) (table : Table κ α)
    : get? other (modify key change table)
      = if key = other then (get? other table).map change else get? other table := by
  induction table with
  | nil => simp [modify, get?]
  | cons head rest ih =>
      obtain ⟨first, old⟩ := head
      by_cases same : first = key
      · subst same
        by_cases hit : first = other <;> simp [modify, get?, hit]
      · by_cases hit : first = other
        · subst hit
          simp [modify, get?, same, Ne.symm same]
        · simp [modify, get?, same, hit, ih]

/-- Without repeated keys, erasing a key leaves the other entries and none of its own, by
induction on the table.
-/
theorem get?_erase (key other : κ) {table : Table κ α} (distinct : (keys table).Nodup)
    : get? other (erase key table) = if key = other then none else get? other table := by
  induction table with
  | nil => simp [erase, get?]
  | cons head rest ih =>
      obtain ⟨first, old⟩ := head
      obtain ⟨absent, distinct⟩ := List.nodup_cons.mp distinct
      by_cases same : first = key
      · subst same
        by_cases hit : first = other
        · subst hit
          simpa [erase] using get?_eq_none_iff.mpr absent
        · simp [erase, get?, hit]
      · by_cases hit : first = other
        · subst hit
          simp [erase, get?, same, Ne.symm same]
        · simp [erase, get?, same, hit, ih distinct]

/-- Erasing a key leaves the entries of other keys. -/
theorem get?_erase_of_ne {key other : κ} (differs : key ≠ other) (table : Table κ α)
    : get? other (erase key table) = get? other table := by
  induction table with
  | nil => rfl
  | cons head rest ih =>
      obtain ⟨first, old⟩ := head
      by_cases same : first = key
      · simp [erase, get?, same, differs]
      · rw [erase, if_neg same]
        by_cases hit : first = other <;> simp [get?, hit, ih]

/-- Changing all entries changes what is found under every key. -/
theorem get?_map (key : κ) (change : κ → α → β) (table : Table κ α)
    : get? key (table.map fun (other, entry) => (other, change other entry))
      = (get? key table).map (change key) := by
  induction table with
  | nil => simp [get?]
  | cons head rest ih =>
      obtain ⟨first, old⟩ := head
      by_cases hit : first = key
      · subst hit
        simp [get?]
      · simpa [get?, hit] using ih

-----------------------------------------------------------------------------------------
-- Keys
-----------------------------------------------------------------------------------------

/-- Modifying an entry keeps all keys. -/
@[simp] theorem keys_modify (key : κ) (change : α → α) (table : Table κ α)
    : keys (modify key change table) = keys table := by
  induction table with
  | nil => rfl
  | cons head rest ih =>
      obtain ⟨first, old⟩ := head
      by_cases same : first = key
      · simp [modify, keys, same]
      · simpa [modify, keys, same] using ih

/-- Setting an entry under a new key adds it behind all others. -/
theorem set_of_new {key : κ} {table : Table κ α} (entry : α) (new : key ∉ keys table)
    : set key entry table = table ++ [(key, entry)] := by
  induction table with
  | nil => rfl
  | cons head rest ih =>
      obtain ⟨first, old⟩ := head
      obtain ⟨differs, new⟩ : key ≠ first ∧ key ∉ keys rest := by simpa [keys] using new
      simp [set, Ne.symm differs, ih new]

/-- Erasing an entry erases its key. -/
theorem keys_erase (key : κ) (table : Table κ α)
    : keys (erase key table) = (keys table).erase key := by
  induction table with
  | nil => rfl
  | cons head rest ih =>
      obtain ⟨first, old⟩ := head
      by_cases same : first = key
      · simp [erase, keys, same]
      · simpa [erase, keys, same] using ih

end Dataflow.Table
