import Dataflow.Json.Basic

/-!
Reads JSON text. Each reader takes the characters that are left and returns a value with the
characters after it. Values nest without bound here; a limit is the decoder's business.
-/

namespace Dataflow.Json

-----------------------------------------------------------------------------------------
-- Blanks and numbers
-----------------------------------------------------------------------------------------

/-- The characters that may stand between two tokens. -/
def isBlank (char : Char) : Bool :=
  char = ' ' || char = '\n' || char = '\t' || char = '\x0d'

/-- Drops the blanks in front. -/
def skipBlanks (chars : List Char) : List Char := chars.dropWhile isBlank

/-- The number that decimal digits spell. -/
def digitsValue (digits : List Char) : Nat :=
  digits.foldl (fun value digit => 10 * value + (digit.toNat - 48)) 0

/-- The digits in front and the rest; there must be one. -/
def readDigits (chars : List Char) : Option (List Char × List Char) :=
  match chars.takeWhile Char.isDigit with
  | [] => none
  | digits => some (digits, chars.dropWhile Char.isDigit)

/-- The whole part of a number: no zero in front of other digits. -/
def readWhole (chars : List Char) : Option (List Char × List Char) :=
  match readDigits chars with
  | some ('0' :: _ :: _, _) => none
  | other => other

/-- An optional fraction. -/
def readFraction : List Char → Option (List Char × List Char)
  | '.' :: chars => (readDigits chars).map fun (digits, rest) => ('.' :: digits, rest)
  | chars => some ([], chars)

/-- The optional sign of an exponent. -/
def readExponentSign : List Char → List Char × List Char
  | '+' :: chars => (['+'], chars)
  | '-' :: chars => (['-'], chars)
  | chars => ([], chars)

/-- An optional exponent. -/
def readExponent : List Char → Option (List Char × List Char)
  | mark :: chars =>
    if mark = 'e' ∨ mark = 'E' then
      let (sign, chars) := readExponentSign chars
      (readDigits chars).map fun (digits, rest) => (mark :: sign ++ digits, rest)
    else
      some ([], mark :: chars)
  | [] => some ([], [])

/-- A number without its sign. -/
def readUnsigned (negative : Bool) (chars : List Char) : Option (Json × List Char) := do
  let (whole, chars) ← readWhole chars
  let (fraction, chars) ← readFraction chars
  let (exponent, chars) ← readExponent chars
  let value := digitsValue whole
  if fraction.isEmpty && exponent.isEmpty && !(negative && value == 0) then
    some (.integer (if negative then -value else value), chars)
  else
    let sign := if negative then ['-'] else []
    some (.decimal (.ofList (sign ++ whole ++ fraction ++ exponent)), chars)

/-- A number. -/
def readNumber : List Char → Option (Json × List Char)
  | '-' :: chars => readUnsigned true chars
  | chars => readUnsigned false chars

-----------------------------------------------------------------------------------------
-- Strings
-----------------------------------------------------------------------------------------

/-- A piece of a quoted text: a character, or the code of a `\u` escape. -/
inductive Piece where
  | char (value : Char)
  | code (value : Nat)

/-- The value of a hexadecimal digit. -/
def hexValue (char : Char) : Option Nat :=
  if '0' ≤ char ∧ char ≤ '9' then some (char.toNat - 48)
  else if 'a' ≤ char ∧ char ≤ 'f' then some (char.toNat - 87)
  else if 'A' ≤ char ∧ char ≤ 'F' then some (char.toNat - 55)
  else none

/-- The value of four hexadecimal digits. -/
def hexCode (a b c d : Char) : Option Nat := do
  some (((← hexValue a) * 16 + (← hexValue b)) * 256 + (← hexValue c) * 16 + (← hexValue d))

/-- The character that a short escape stands for. -/
def shortEscape (char : Char) : Option Char :=
  match char with
  | '\x22' => some '\x22'
  | '\\' => some '\\'
  | '/' => some '/'
  | 'b' => some '\x08'
  | 'f' => some '\x0c'
  | 'n' => some '\n'
  | 'r' => some '\x0d'
  | 't' => some '\t'
  | _ => none

/-- The pieces up to the closing quote. Control characters must be escaped. -/
def readPieces : List Char → Option (List Piece × List Char)
  | [] => none
  | '\x22' :: chars => some ([], chars)
  | '\\' :: 'u' :: a :: b :: c :: d :: chars => do
    let code ← hexCode a b c d
    let (pieces, rest) ← readPieces chars
    some (.code code :: pieces, rest)
  | '\\' :: mark :: chars => do
    let char ← shortEscape mark
    let (pieces, rest) ← readPieces chars
    some (.char char :: pieces, rest)
  | char :: chars =>
    if char.toNat < 32 ∨ char = '\\' then none
    else do
      let (pieces, rest) ← readPieces chars
      some (.char char :: pieces, rest)

/-- The text of some pieces. Two escapes may form a surrogate pair; half of one is no text. -/
def assemble : List Piece → Option (List Char)
  | [] => some []
  | .char char :: pieces => (assemble pieces).map (char :: ·)
  | .code high :: .code low :: pieces =>
    if 0xd800 ≤ high ∧ high < 0xdc00 then
      if 0xdc00 ≤ low ∧ low < 0xe000 then
        (assemble pieces).map
          (Char.ofNat (0x10000 + (high - 0xd800) * 0x400 + (low - 0xdc00)) :: ·)
      else none
    else if 0xdc00 ≤ high ∧ high < 0xe000 then none
    else (assemble (.code low :: pieces)).map (Char.ofNat high :: ·)
  | .code code :: pieces =>
    if 0xd800 ≤ code ∧ code < 0xe000 then none
    else (assemble pieces).map (Char.ofNat code :: ·)

/-- A string after its opening quote. -/
def readString (chars : List Char) : Option (Option String × List Char) :=
  (readPieces chars).map fun (pieces, rest) => ((assemble pieces).map String.ofList, rest)

-----------------------------------------------------------------------------------------
-- Values
-----------------------------------------------------------------------------------------

/-- Drops `word` in front. -/
def readWord (word : List Char) (value : Json) (chars : List Char)
    : Option (Json × List Char) :=
  if word.isPrefixOf chars then some (value, chars.drop word.length) else none

mutual

/-- A value. Each bracket uses one unit of the budget; the length of a text is enough. -/
def readValue : Nat → List Char → Option (Json × List Char)
  | 0, _ => none
  | budget + 1, chars =>
    match skipBlanks chars with
    | 'n' :: rest => readWord "ull".toList .null rest
    | 't' :: rest => readWord "rue".toList (.bool true) rest
    | 'f' :: rest => readWord "alse".toList (.bool false) rest
    | '\x22' :: rest =>
      (readString rest).map fun (text, rest) => (.string text, rest)
    | '[' :: rest =>
      match skipBlanks rest with
      | ']' :: rest => some (.array [], rest)
      | rest => do
        let (items, rest) ← readItems budget rest
        some (.array items, rest)
    | '\x7b' :: rest =>
      match skipBlanks rest with
      | '\x7d' :: rest => some (.object [], rest)
      | rest => do
        let (members, rest) ← readMembers budget rest
        some (.object members, rest)
    | rest => readNumber rest

/-- At least one item and the closing bracket. -/
def readItems : Nat → List Char → Option (List Json × List Char)
  | 0, _ => none
  | budget + 1, chars => do
    let (item, rest) ← readValue budget chars
    match skipBlanks rest with
    | ']' :: rest => some ([item], rest)
    | ',' :: rest => do
      let (items, rest) ← readItems budget rest
      some (item :: items, rest)
    | _ => none

/-- At least one member and the closing bracket. -/
def readMembers : Nat → List Char → Option (List (Option String × Json) × List Char)
  | 0, _ => none
  | budget + 1, chars =>
    match skipBlanks chars with
    | '\x22' :: rest => do
      let (name, rest) ← readString rest
      match skipBlanks rest with
      | ':' :: rest => do
        let (value, rest) ← readValue budget rest
        match skipBlanks rest with
        | '\x7d' :: rest => some ([(name, value)], rest)
        | ',' :: rest => do
          let (members, rest) ← readMembers budget rest
          some ((name, value) :: members, rest)
        | _ => none
      | _ => none
    | _ => none

end

/-- The value that a whole text spells. -/
def parse? (text : String) : Option Json :=
  let chars := text.toList
  match readValue (chars.length + 1) chars with
  | some (value, rest) => if (skipBlanks rest).isEmpty then some value else none
  | none => none

end Dataflow.Json
