import Dataflow.Json.Basic

/-!
JSON text of a value: a pretty form with two spaces per level and one item per line, and a
compact form without spaces. The printers work on values whose strings are texts.
-/

namespace Dataflow.Json

-----------------------------------------------------------------------------------------
-- Strings
-----------------------------------------------------------------------------------------

/-- The hexadecimal digit of a number below sixteen. -/
def hexDigit (value : Nat) : Char :=
  if value < 10 then .ofNat (48 + value) else .ofNat (87 + value)

/-- A character inside quotes. Quotes, backslashes and control characters are escaped, with
a short escape where JSON has one.
-/
def escapeChar (char : Char) : List Char :=
  if char = '\x22' then ['\\', '\x22']
  else if char = '\\' then ['\\', '\\']
  else if char = '\x08' then ['\\', 'b']
  else if char = '\x0c' then ['\\', 'f']
  else if char = '\n' then ['\\', 'n']
  else if char = '\x0d' then ['\\', 'r']
  else if char = '\t' then ['\\', 't']
  else if char.toNat < 32 then
    ['\\', 'u', '0', '0', hexDigit (char.toNat / 16), hexDigit (char.toNat % 16)]
  else [char]

/-- A quoted text. -/
def quote (text : List Char) : List Char := '\x22' :: text.flatMap escapeChar ++ ['\x22']

/-- The characters of a string value; half a surrogate pair has none. -/
def stringChars (text : Option String) : List Char := quote (text.getD "").toList

-----------------------------------------------------------------------------------------
-- The pretty form
-----------------------------------------------------------------------------------------

/-- A line break and the indentation of `level`. -/
def newLine (level : Nat) : List Char := '\n' :: List.replicate (2 * level) ' '

mutual

/-- The pretty form of a value that starts at `level`. -/
def prettyChars (level : Nat) : Json → List Char
  | .null => "null".toList
  | .bool true => "true".toList
  | .bool false => "false".toList
  | .integer value => (toString value).toList
  | .decimal token => token.toList
  | .string text => stringChars text
  | .array [] => ['[', ']']
  | .array (item :: items) =>
    '[' :: newLine (level + 1) ++ prettyChars (level + 1) item
      ++ prettyItems (level + 1) items ++ newLine level ++ [']']
  | .object [] => ['\x7b', '\x7d']
  | .object ((name, value) :: members) =>
    '\x7b' :: newLine (level + 1) ++ stringChars name ++ ':' :: ' '
      :: prettyChars (level + 1) value ++ prettyMembers (level + 1) members
      ++ newLine level ++ ['\x7d']

/-- The items after the first one, each on its own line. -/
def prettyItems (level : Nat) : List Json → List Char
  | [] => []
  | item :: items =>
    ',' :: newLine level ++ prettyChars level item ++ prettyItems level items

/-- The members after the first one, each on its own line. -/
def prettyMembers (level : Nat) : List (Option String × Json) → List Char
  | [] => []
  | (name, value) :: members =>
    ',' :: newLine level ++ stringChars name ++ ':' :: ' ' :: prettyChars level value
      ++ prettyMembers level members

end

/-- The pretty form of a value. -/
def pretty (value : Json) : String := .ofList (prettyChars 0 value)

-----------------------------------------------------------------------------------------
-- The compact form
-----------------------------------------------------------------------------------------

mutual

/-- Writes the compact form of a value in front of `rest`. -/
def compactChars (rest : List Char) : Json → List Char
  | .null => "null".toList ++ rest
  | .bool true => "true".toList ++ rest
  | .bool false => "false".toList ++ rest
  | .integer value => (toString value).toList ++ rest
  | .decimal token => token.toList ++ rest
  | .string text => stringChars text ++ rest
  | .array [] => '[' :: ']' :: rest
  | .array (item :: items) => '[' :: compactChars (compactItems (']' :: rest) items) item
  | .object [] => '\x7b' :: '\x7d' :: rest
  | .object ((name, value) :: members) =>
    '\x7b' :: stringChars name
      ++ ':' :: compactChars (compactMembers ('\x7d' :: rest) members) value

/-- Writes the items after the first one in front of `rest`. -/
def compactItems (rest : List Char) : List Json → List Char
  | [] => rest
  | item :: items => ',' :: compactChars (compactItems rest items) item

/-- Writes the members after the first one in front of `rest`. -/
def compactMembers (rest : List Char) : List (Option String × Json) → List Char
  | [] => rest
  | (name, value) :: members =>
    ',' :: stringChars name ++ ':' :: compactChars (compactMembers rest members) value

end

/-- The compact form of a value. -/
def compact (value : Json) : String := .ofList (compactChars [] value)

end Dataflow.Json
