import Dataflow.Json.Decode
import Dataflow.Proofs.Json.RoundTrip
import Dataflow.Proofs.Steps

/-!
Forms that a decoder turns back into the value they were made from. Each way of making a form
out of forms comes with its lemma, so that a codec is checked by putting these together.
-/

namespace Dataflow

open Json

-----------------------------------------------------------------------------------------
-- Depth
-----------------------------------------------------------------------------------------

namespace Json

/-- All items are within a depth iff each one is, by induction on the items. -/
theorem depthOfItems_le_iff {items : List Json} {bound : Nat}
    : depthOfItems items ≤ bound ↔ ∀ item ∈ items, item.depth ≤ bound := by
  induction items with
  | nil => simp [depthOfItems]
  | cons item items ih => rw [depthOfItems, Nat.max_le, ih, List.forall_mem_cons]

/-- All members are within a depth iff each one is, by induction on the members. -/
theorem depthOfMembers_le_iff {members : List (String × Json)} {bound : Nat}
    : depthOfMembers (members.map fun (name, value) => (some name, value)) ≤ bound
      ↔ ∀ member ∈ members, member.2.depth ≤ bound := by
  induction members with
  | nil => simp [depthOfMembers]
  | cons member members ih =>
      rw [List.map_cons, depthOfMembers, Nat.max_le, ih, List.forall_mem_cons]

/-- An array is one bracket deeper than its items. -/
theorem depth_array_le_iff {items : List Json} {bound : Nat}
    : (Json.array items).depth ≤ bound + 1 ↔ ∀ item ∈ items, item.depth ≤ bound := by
  rw [depth, Nat.add_comm, Nat.add_le_add_iff_right, depthOfItems_le_iff]

/-- A list of values has a form one bracket deeper than theirs. -/
theorem depth_array_map_le {α : Type} {encode : α → Json} {bound : Nat}
    (each : ∀ value, (encode value).depth ≤ bound) (values : List α)
    : (Json.array (values.map encode)).depth ≤ bound + 1 := by
  apply depth_array_le_iff.mpr
  simpa using fun value _ => each value

/-- An object is one brace deeper than its members. -/
theorem depth_ofMembers_le_iff {members : List (String × Json)} {bound : Nat}
    : (ofMembers members).depth ≤ bound + 1 ↔ ∀ member ∈ members, member.2.depth ≤ bound := by
  rw [ofMembers, depth, Nat.add_comm, Nat.add_le_add_iff_right, depthOfMembers_le_iff]

@[simp]
theorem depth_tagged (tag : String) (payload : Json)
    : (tagged tag payload).depth = payload.depth + 1 := by
  simp [tagged, ofMembers, depth, depthOfMembers, Nat.add_comm]

theorem depth_tagged_le {tag : String} {payload : Json} {bound : Nat}
    (within : payload.depth ≤ bound)
    : (tagged tag payload).depth ≤ bound + 1 := by
  rw [depth_tagged]
  exact Nat.succ_le_succ within

@[simp]
theorem depth_ofString (text : String) : (ofString text).depth = 0 :=
  rfl

@[simp]
theorem depth_ofNat (value : Nat) : (ofNat value).depth = 0 :=
  rfl

@[simp]
theorem depth_integer (value : Int) : (Json.integer value).depth = 0 :=
  rfl

@[simp]
theorem depth_bool (value : Bool) : (Json.bool value).depth = 0 :=
  rfl

-----------------------------------------------------------------------------------------
-- Plain forms
-----------------------------------------------------------------------------------------

/-- Items are plain if each one is, by induction on the items. -/
theorem itemsPlain_of_forall {items : List Json} (plain : ∀ item ∈ items, item.IsPlain)
    : ItemsPlain items := by
  induction items with
  | nil => trivial
  | cons head items ih =>
      exact ⟨plain head List.mem_cons_self,
        ih fun item member => plain item (List.mem_cons_of_mem _ member)⟩

/-- An object of plain members is plain, by induction on the members. -/
theorem isPlain_ofMembers {members : List (String × Json)}
    (plain : ∀ member ∈ members, member.2.IsPlain)
    : (ofMembers members).IsPlain := by
  show MembersPlain _
  induction members with
  | nil => trivial
  | cons head members ih =>
      exact ⟨rfl, plain head List.mem_cons_self,
        ih fun member isMember => plain member (List.mem_cons_of_mem _ isMember)⟩

end Json

namespace Decoder

variable {α β : Type}

-----------------------------------------------------------------------------------------
-- Brackets
-----------------------------------------------------------------------------------------

/-- A bracket may be opened where there is room for what it holds. -/
theorem exists_descend {mode : Mode} {depth : Nat} (room : depth + 1 < mode.budget)
    : ∃ inner, descend mode = some inner ∧ depth < inner.budget := by
  obtain ⟨budget, same⟩ : ∃ budget, mode.budget = budget + 2 := ⟨mode.budget - 2, by omega⟩
  refine ⟨{ mode with budget := budget + 1 }, by simp [descend, same], ?_⟩
  show depth < budget + 1
  omega

/-- No member is found by a name that no member has. -/
theorem membersNamed_of_not_mem {name : String} {members : List (String × Json)}
    (absent : name ∉ members.map (·.1))
    : membersNamed name (members.map fun (name, value) => (some name, value)) = [] := by
  apply List.filterMap_eq_nil_iff.mpr
  intro named isNamed
  rcases List.mem_map.mp isNamed with ⟨member, isMember, rfl⟩
  have other : member.1 ≠ name := fun same => absent (same ▸ List.mem_map_of_mem isMember)
  simp [other]

/-- The one member of a name is found by it, by induction on the members. -/
theorem membersNamed_of_mem {name : String} {form : Json} {members : List (String × Json)}
    (distinct : (members.map (·.1)).Nodup) (member : (name, form) ∈ members)
    : membersNamed name (members.map fun (name, value) => (some name, value)) = [form] := by
  induction members with
  | nil => simp at member
  | cons head members ih =>
      rcases List.nodup_cons.mp distinct with ⟨fresh, distinct⟩
      rcases List.mem_cons.mp member with rfl | member
      · have none := membersNamed_of_not_mem fresh
        simp only [membersNamed, List.map_cons, List.filterMap_cons] at none ⊢
        simp [none]
      · have other : head.1 ≠ name := fun same =>
          fresh (List.mem_map.mpr ⟨(name, form), member, same.symm⟩)
        have later := ih distinct member
        simp only [membersNamed, List.map_cons, List.filterMap_cons] at later ⊢
        simp [later, other]

/-- The fields of an object are its members, if no name occurs twice. -/
theorem fields_ofMembers {members : List (String × Json)}
    (distinct : (members.map (·.1)).Nodup)
    : fields (members.map (·.1)) (ofMembers members) = some (members.map (some ·.2)) := by
  have named : (members.map fun (name, value) => (some name, value)).any (·.1.isNone) = false := by
    simp
  simp only [fields, ofMembers, named, Bool.false_eq_true, if_false]
  apply Steps.mapM_eq_some_iff.mpr
  simp only [List.map_map]
  apply List.map_congr_left
  intro member isMember
  simp [membersNamed_of_mem distinct isMember]

-----------------------------------------------------------------------------------------
-- Recovery
-----------------------------------------------------------------------------------------

/-- A form that a text can spell, and from which a decoder with room for its brackets recovers
a value.
-/
structure Recovers (decode : Decoder α) (form : Json) (value : α) : Prop where
  plain : form.IsPlain
  reads : ∀ mode : Mode, form.depth < mode.budget → decode mode form = some value

/-- A recovered value is there where a field is required. -/
theorem Recovers.required {decode : Decoder α} {form : Json} {value : α}
    (recovers : decode.Recovers form value) {mode : Mode} (room : form.depth < mode.budget)
    : required decode mode (some form) = some value :=
  recovers.reads mode room

/-- What a decoder makes of a recovered value is recovered. -/
theorem Recovers.map {decode : Decoder α} {form : Json} {value : α}
    (recovers : decode.Recovers form value) (change : α → β)
    : Recovers (fun mode form => (decode mode form).map change) form (change value) :=
  ⟨recovers.plain, fun mode room => by simp [recovers.reads mode room]⟩

theorem recovers_bool (value : Bool) : bool.Recovers (.bool value) value :=
  ⟨trivial, fun _ _ => rfl⟩

theorem recovers_text (value : String) : text.Recovers (.ofString value) value :=
  ⟨rfl, fun _ _ => rfl⟩

theorem recovers_natural {limit value : Nat} (fits : value < limit)
    : (natural limit).Recovers (.ofNat value) value := by
  refine ⟨trivial, fun mode _ => ?_⟩
  simp [Json.ofNat, natural, fits]

theorem recovers_integer {low high value : Int} (fits : low ≤ value ∧ value ≤ high)
    : (integer low high).Recovers (.integer value) value :=
  ⟨trivial, fun _ _ => if_pos fits⟩

/-- Whether a number fits the word of a size. -/
def fitsSize (value : Nat) : Bool := value < sizeLimit

theorem recovers_size {value : Nat} (fits : fitsSize value)
    : size.Recovers (.ofNat value) value :=
  recovers_natural (by simpa [fitsSize] using fits)

/-- Whether a number fits a signed word. -/
def fitsSigned (value : Int) : Bool :=
  Int64.minValue.toInt ≤ value && value ≤ Int64.maxValue.toInt

theorem recovers_signed64 {value : Int} (fits : fitsSigned value)
    : signed64.Recovers (.integer value) value :=
  recovers_integer (by simpa [fitsSigned] using fits)

theorem recovers_byte (value : UInt8) : byte.Recovers (.ofNat value.toNat) value := by
  refine ⟨trivial, fun mode room => ?_⟩
  have number := (recovers_natural (UInt8.toNat_lt value)).reads mode room
  simp [byte, number]

/-- A list is recovered from the array of its entries' forms. -/
theorem recovers_list {decode : Decoder α} {encode : α → Json} {values : List α}
    (recovers : ∀ value ∈ values, decode.Recovers (encode value) value)
    : (list decode).Recovers (.array (values.map encode)) values := by
  constructor
  · apply itemsPlain_of_forall
    simpa using fun value member => (recovers value member).plain
  · intro mode room
    rw [depth, Nat.add_comm] at room
    rcases exists_descend room with ⟨inner, opened, fits⟩
    have each : (values.map encode).map (decode inner) = values.map some := by
      rw [List.map_map]
      apply List.map_congr_left
      intro value member
      apply (recovers value member).reads
      exact Nat.lt_of_le_of_lt
        (depthOfItems_le_iff.mp (Nat.le_refl _) _ (List.mem_map_of_mem member)) fits
    simp only [list, opened, Option.bind_eq_bind, Option.bind_some]
    exact Steps.mapM_eq_some_iff.mpr each

/-- An optional value is recovered, if no form of a value is taken for the absence of one. -/
theorem recovers_ofOption {decode : Decoder α} {encode : α → Json} {value? : Option α}
    (recovers : ∀ value ∈ value?, decode.Recovers (encode value) value)
    (present : ∀ value, encode value ≠ .null)
    : Recovers (fun mode form => optional decode mode (some form)) (.ofOption encode value?)
        value? := by
  cases value? with
  | none => exact ⟨trivial, fun _ _ => rfl⟩
  | some value =>
      refine ⟨(recovers value rfl).plain, fun mode room => ?_⟩
      have read := (recovers value rfl).reads mode room
      rw [Json.ofOption, optional]
      · rw [read, Option.map_some]
      · exact fun null => present value null

/-- A record is recovered from the object of its fields, if the decoder does so behind the
bracket.
-/
theorem recovers_ofMembers {decode : Decoder α} {members : List (String × Json)} {value : α}
    (distinct : (members.map (·.1)).Nodup)
    (plain : ∀ member ∈ members, member.2.IsPlain)
    (reads : ∀ mode inner : Mode,
      descend mode = some inner
      → (∀ member ∈ members, member.2.depth < inner.budget)
      → fields (members.map (·.1)) (.ofMembers members) = some (members.map (some ·.2))
      → decode mode (.ofMembers members) = some value)
    : decode.Recovers (.ofMembers members) value := by
  refine ⟨isPlain_ofMembers plain, fun mode room => ?_⟩
  rw [ofMembers, depth, Nat.add_comm] at room
  rcases exists_descend room with ⟨inner, opened, fits⟩
  apply reads mode inner opened ?_ (fields_ofMembers distinct)
  intro member isMember
  exact Nat.lt_of_le_of_lt (depthOfMembers_le_iff.mp (Nat.le_refl _) member isMember) fits

/-- A tagged value is recovered if its payload is, where the decoder reads the payload of that tag
by `part`.
-/
theorem recovers_tagged {decode : Decoder β} {part : Decoder α} {build : α → β} {tag : String}
    {form : Json} {value : α} (recovers : part.Recovers form value)
    (reads : ∀ mode whole inner payload,
      variant mode whole = some (tag, inner, payload)
      → decode mode whole = (required part inner payload).map build)
    : decode.Recovers (.tagged tag form) (build value) := by
  refine ⟨isPlain_ofMembers (by simpa using recovers.plain), fun mode room => ?_⟩
  rw [depth_tagged] at room
  rcases exists_descend room with ⟨inner, opened, fits⟩
  have split : variant mode (.tagged tag form) = some (tag, inner, some form) := by
    simp [tagged, ofMembers, variant, opened]
  simp [reads mode _ inner _ split, required, recovers.reads inner fits]

/-- A value without payload is recovered from its bare tag. -/
theorem recovers_ofString {decode : Decoder α} {tag : String} {value : α}
    (reads : ∀ mode whole inner payload,
      variant mode whole = some (tag, inner, payload)
      → decode mode whole = (unit payload).map fun _ => value)
    : decode.Recovers (.ofString tag) value :=
  ⟨rfl, fun mode _ => reads mode _ mode none rfl⟩

/-- An entry of a table is recovered from its tag. -/
theorem recovers_tag {table : List (String × α)} {name : String} {value : α}
    (found : table.lookup name = some value)
    : (tag table).Recovers (.ofString name) value := by
  apply recovers_ofString
  intro mode whole inner payload split
  cases accepted : unit payload <;> simp [tag, split, found, accepted]

/-- A record of one field is recovered if the field is. -/
theorem recovers_record {decode : Decoder α} {form : Json} {value : α}
    (recovers : decode.Recovers form value) (name : String)
    : (record name decode).Recovers (.tagged name form) value := by
  apply recovers_ofMembers (by simp) (by simpa using recovers.plain)
  intro mode inner opened room read
  simp only [List.map_cons, List.map_nil] at read
  simp [record, opened, read, recovers.required (room _ List.mem_cons_self)]

/-- The one field of a tag is recovered in either mode, as its form is an object. -/
theorem recovers_taggedField {decode : Decoder α} {form : Json} {value : α}
    (recovers : decode.Recovers form value) (name : String)
    : (taggedField name decode).Recovers (.tagged name form) value := by
  refine ⟨(recovers_record recovers name).plain, fun mode room => ?_⟩
  rw [← (recovers_record recovers name).reads mode room]
  rcases mode with ⟨budget, strict⟩
  cases strict <;> rfl

end Decoder

end Dataflow
