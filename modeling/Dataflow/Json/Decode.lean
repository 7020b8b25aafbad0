import Dataflow.Json.Basic
import Dataflow.Number.Word

/-!
Decoding of JSON values into typed data. A decoder gets the number of brackets it may still
open, so nesting is bounded where data is typed, and only there: members that a record does
not name are never looked at.

Records come as objects or as arrays of their fields in order. Tagged values come as an
object with one member; a tag without payload may stand alone. Some tags have fields of their
own; a strict decoder takes these from an object only.
-/

namespace Dataflow

/-- What a decoder accepts. -/
structure Decoder.Mode where
  /-- One more than the number of brackets that may still be opened. -/
  budget : Nat
  /-- Whether the fields of a tag come from an object only. -/
  isStrict : Bool

/-- Reads a value in some mode. -/
abbrev Decoder (α : Type) := Decoder.Mode → Json → Option α

namespace Decoder

/-- The nesting limit of a whole text: one more than the brackets it may have open. -/
def nestingLimit : Nat := 128

/-- The mode for the text of a whole program. -/
def Mode.lenient : Mode := ⟨nestingLimit, false⟩

/-- The mode for a value that is a part of something else. -/
def Mode.strict : Mode := ⟨nestingLimit, true⟩

/-- The mode inside a bracket, if there may be one. -/
def descend (mode : Mode) : Option Mode :=
  match mode.budget with
  | budget + 2 => some { mode with budget := budget + 1 }
  | _ => none

-----------------------------------------------------------------------------------------
-- Plain values
-----------------------------------------------------------------------------------------

/-- A truth value. -/
def bool : Decoder Bool
  | _, .bool value => some value
  | _, _ => none

/-- A text. -/
def text : Decoder String
  | _, .string text => text
  | _, _ => none

/-- An integer between two bounds. -/
def integer (low high : Int) : Decoder Int
  | _, .integer value => if low ≤ value ∧ value ≤ high then some value else none
  | _, _ => none

/-- A natural number below `limit`. -/
def natural (limit : Nat) : Decoder Nat
  | _, .integer value => if 0 ≤ value ∧ value < limit then some value.toNat else none
  | _, _ => none

/-- A size. -/
def size : Decoder Nat := natural sizeLimit

/-- A signed 64-bit integer. -/
def signed64 : Decoder Int := integer Int64.minValue.toInt Int64.maxValue.toInt

/-- A byte. -/
def byte : Decoder UInt8 := fun mode value =>
  (natural 256 mode value).map UInt8.ofNat

-----------------------------------------------------------------------------------------
-- Structure
-----------------------------------------------------------------------------------------

/-- An array of any length. -/
def list {α : Type} (item : Decoder α) : Decoder (List α)
  | mode, .array items => do
    let inner ← descend mode
    items.mapM (item inner)
  | _, _ => none

/-- `none` for what is absent or null. -/
def optional {α : Type} (decode : Decoder α) (mode : Mode)
    : Option Json → Option (Option α)
  | none => some none
  | some .null => some none
  | some value => (decode mode value).map some

/-- A field that must be there. -/
def required {α : Type} (decode : Decoder α) (mode : Mode) (value : Option Json)
    : Option α :=
  value.bind (decode mode)

/-- The values of the members called `name`. -/
def membersNamed (name : String) (members : List (Option String × Json)) : List Json :=
  members.filterMap fun (key, value) => if key = some name then some value else none

/-- The fields of a record, `none` for each one that is missing. A field may not occur
twice, and every member needs a name.
-/
def fields (names : List String) : Json → Option (List (Option Json))
  | .array items =>
    if items.length = names.length then some (items.map some) else none
  | .object members =>
    if members.any (·.1.isNone) then none
    else names.mapM fun name =>
      match membersNamed name members with
      | [] => some none
      | [value] => some (some value)
      | _ => none
  | _ => none

/-- A tag and its payload. -/
def variant (mode : Mode) : Json → Option (String × Mode × Option Json)
  | .string (some tag) => some (tag, mode, none)
  | .object [(some tag, payload)] => do
    let inner ← descend mode
    some (tag, inner, some payload)
  | _ => none

/-- The payload of a tag that has none. -/
def unit : Option Json → Option Unit
  | none => some ()
  | some .null => some ()
  | _ => none

/-- A tag out of a table, without payload. -/
def tag {α : Type} (table : List (String × α)) : Decoder α := fun mode value => do
  let (name, _, payload) ← variant mode value
  let result ← table.lookup name
  unit payload
  some result

/-- A record with one field. -/
def record {α : Type} (name : String) (decode : Decoder α) : Decoder α := fun mode value => do
  let inner ← descend mode
  match ← fields [name] value with
  | [field] => required decode inner field
  | _ => none

/-- The one field of a tag. -/
def taggedField {α : Type} (name : String) (decode : Decoder α) : Decoder α
  | ⟨_, true⟩, .array _ => none
  | mode, value => record name decode mode value

end Decoder

end Dataflow
