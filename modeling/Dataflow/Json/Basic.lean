/-! JSON values, as a text spells them. -/

namespace Dataflow

/-- A JSON value. Object members keep their order and their repetitions. -/
inductive Json where
  | null
  | bool (value : Bool)
  /-- A number written with digits alone, and a sign before any but zero. -/
  | integer (value : Int)
  /-- Any other number: one with a fraction or an exponent, or a zero with a sign. -/
  | decimal (token : String)
  /-- `none` when an escape leaves half of a surrogate pair, which no text can hold. -/
  | string (text : Option String)
  | array (items : List Json)
  | object (members : List (Option String × Json))

namespace Json

/-- The JSON string of a text. -/
def ofString (text : String) : Json := .string (some text)

/-- The JSON number of a size. -/
def ofNat (value : Nat) : Json := .integer value

/-- An object whose names are texts. -/
def ofMembers (members : List (String × Json)) : Json :=
  .object (members.map fun (name, value) => (some name, value))

/-- An object with one member: the form of a tagged value. -/
def tagged (tag : String) (payload : Json) : Json := ofMembers [(tag, payload)]

/-- `null` for what is absent. -/
def ofOption {α : Type} (encode : α → Json) : Option α → Json
  | none => .null
  | some value => encode value

mutual

/-- The number of brackets around the deepest part of a value. -/
def depth : Json → Nat
  | .array items => 1 + depthOfItems items
  | .object members => 1 + depthOfMembers members
  | _ => 0

/-- The depth of the deepest item. -/
def depthOfItems : List Json → Nat
  | [] => 0
  | item :: items => max item.depth (depthOfItems items)

/-- The depth of the deepest member. -/
def depthOfMembers : List (Option String × Json) → Nat
  | [] => 0
  | (_, value) :: members => max value.depth (depthOfMembers members)

end

end Json

end Dataflow
