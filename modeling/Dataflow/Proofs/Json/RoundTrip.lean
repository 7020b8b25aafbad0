import Dataflow.Json.Printer
import Dataflow.Json.Reader

/-!
The pretty form of a value is read back as that value. Printed numbers and strings are read back from
any text they begin: a number needs to know where it ends, and a string ends at its quote. Each item
and member is read up to the separator after it, and the length of the text is budget enough for the
brackets in it.
-/

namespace Dataflow.Json

-----------------------------------------------------------------------------------------
-- Digits
-----------------------------------------------------------------------------------------

/-- Nothing in front of `rest` can be taken for a part of a number before it. -/
def EndsNumber (rest : List Char) : Prop :=
  ∀ char ∈ rest.head?, char.isDigit = false ∧ char ≠ '.' ∧ char ≠ 'e' ∧ char ≠ 'E'

theorem endsNumber_nil : EndsNumber [] := by simp [EndsNumber]

/-- A separator ends a number, as it is none of the characters that go on with one. -/
theorem endsNumber_cons {char : Char} (rest : List Char) (separates : char ∈ [',', '\n'])
    : EndsNumber (char :: rest) := by
  simp only [List.mem_cons, List.not_mem_nil, or_false] at separates
  rcases separates with rfl | rfl <;> simp [EndsNumber, Char.isDigit]

/-- Only zero is spelled with a zero in front, by strong induction on the digits. -/
theorem eq_zero_of_toDigits {number : Nat} {rest : List Char}
    (spelled : Nat.toDigits 10 number = '0' :: rest)
    : number = 0 := by
  induction number using Nat.strongRecOn generalizing rest with
  | ind number ih =>
      rcases Nat.lt_or_ge number 10 with small | large
      · rw [Nat.toDigits_of_lt_base small] at spelled
        have digit : ∀ small < 10, small.digitChar = '0' → small = 0 := by decide
        exact digit number small (List.cons.inj spelled).1
      · rw [Nat.toDigits_of_base_le (by decide) large] at spelled
        rcases List.append_eq_cons_iff.mp spelled with ⟨none, _⟩ | ⟨front, spelledFront, _⟩
        · exact absurd none Nat.toDigits_ne_nil
        · have := ih (number / 10) (by omega) spelledFront
          omega

/-- All digits in front are read, if no digit follows. -/
theorem readDigits_append {digits rest : List Char} (nonempty : digits ≠ [])
    (areDigits : ∀ char ∈ digits, char.isDigit) (ends : EndsNumber rest)
    : readDigits (digits ++ rest) = some (digits, rest) := by
  have noDigit : rest.takeWhile Char.isDigit = [] ∧ rest.dropWhile Char.isDigit = rest := by
    cases rest with
    | nil => simp
    | cons char rest => simp [(ends char rfl).1]
  simp only [readDigits, List.takeWhile_append_of_pos areDigits,
    List.dropWhile_append_of_pos areDigits, noDigit, List.append_nil]

/-- The digits of a number are read as a whole part: the first one is no spare zero. -/
theorem readWhole_toDigits (number : Nat) {rest : List Char} (ends : EndsNumber rest)
    : readWhole (Nat.toDigits 10 number ++ rest)
        = some (Nat.toDigits 10 number, rest) := by
  have read := readDigits_append Nat.toDigits_ne_nil
    (fun char => Nat.isDigit_of_mem_toDigits (b := 10) (n := number) (c := char)
      (by decide) (by decide)) ends
  simp only [readWhole, read]
  split
  · rename_i second others last spelled
    have digits := (Prod.mk.inj (Option.some.inj spelled)).1
    obtain rfl := eq_zero_of_toDigits digits
    simp at digits
  · rfl

theorem digitsValue_toDigits (number : Nat) : digitsValue (Nat.toDigits 10 number) = number :=
  Nat.ofDigitChars_ten_toDigits

-----------------------------------------------------------------------------------------
-- Numbers
-----------------------------------------------------------------------------------------

theorem readFraction_of_endsNumber {rest : List Char} (ends : EndsNumber rest)
    : readFraction rest = some ([], rest) := by
  cases rest with
  | nil => rfl
  | cons char rest =>
      rw [readFraction]
      intro digits same
      exact (ends char rfl).2.1 (List.cons.inj same).1

theorem readExponent_of_endsNumber {rest : List Char} (ends : EndsNumber rest)
    : readExponent rest = some ([], rest) := by
  cases rest with
  | nil => rfl
  | cons char rest => simp [readExponent, (ends char rfl).2.2]

/-- The digits of a number are read as that number, under a sign unless it is zero. -/
theorem readUnsigned_toDigits (negative : Bool) (number : Nat) {rest : List Char}
    (ends : EndsNumber rest) (signed : negative = true → number ≠ 0)
    : readUnsigned negative (Nat.toDigits 10 number ++ rest)
        = some (.integer (if negative then -(number : Int) else number), rest) := by
  simpa [readUnsigned, readWhole_toDigits number ends, readFraction_of_endsNumber ends,
    readExponent_of_endsNumber ends, digitsValue_toDigits] using signed

/-- The characters of an integer: its digits, with a sign in front of a negative one. -/
theorem toList_toString_int (value : Int)
    : (toString value).toList
        = if 0 ≤ value then Nat.toDigits 10 value.toNat
          else '-' :: Nat.toDigits 10 (-value).toNat := by
  rw [Int.toString_eq_repr, Int.repr_eq_if]
  split <;> simp [Nat.repr_eq_ofList_toDigits]

/-- The first character of an integer is a sign or a digit. -/
theorem toString_int_eq_cons (value : Int)
    : ∃ char chars,
        (toString value).toList = char :: chars ∧ (char = '-' ∨ char.isDigit = true) := by
  rw [toList_toString_int]
  split
  · rcases List.exists_cons_of_ne_nil (Nat.toDigits_ne_nil (n := value.toNat) (b := 10))
      with ⟨char, chars, digits⟩
    refine ⟨char, chars, digits, .inr ?_⟩
    exact Nat.isDigit_of_mem_toDigits (b := 10) (n := value.toNat) (by decide) (by decide)
      (digits ▸ List.mem_cons_self)
  · exact ⟨_, _, rfl, .inl rfl⟩

/-- A printed integer is read back, by cases on its sign. -/
theorem readNumber_toString (value : Int) {rest : List Char} (ends : EndsNumber rest)
    : readNumber ((toString value).toList ++ rest) = some (.integer value, rest) := by
  rw [toList_toString_int]
  split
  · rename_i sign
    have noMinus : ∀ chars, Nat.toDigits 10 value.toNat ++ rest ≠ '-' :: chars := by
      intro chars same
      rcases List.append_eq_cons_iff.mp same with ⟨none, _⟩ | ⟨front, digits, _⟩
      · exact Nat.toDigits_ne_nil none
      · have := Nat.isDigit_of_mem_toDigits (b := 10) (n := value.toNat) (c := '-')
          (by decide) (by decide) (digits ▸ List.mem_cons_self)
        simp [Char.isDigit] at this
    rw [readNumber]
    · have read := readUnsigned_toDigits false value.toNat ends (by simp)
      simpa [Int.toNat_of_nonneg sign] using read
    · exact noMinus
  · rename_i sign
    have read := readUnsigned_toDigits true (-value).toNat ends (by omega)
    have same : -((-value).toNat : Int) = value := by omega
    rw [if_pos rfl, same] at read
    exact read

-----------------------------------------------------------------------------------------
-- Strings
-----------------------------------------------------------------------------------------

/-- A piece stands for a character: the character itself, or the code of a control character. -/
def Piece.Spells (char : Char) : Piece → Prop
  | .char value => value = char
  | .code value => value = char.toNat ∧ value < 32

/-- How a character is printed: by a short escape, by its code, or as it is. -/
theorem escapeChar_cases (char : Char)
    : (∃ mark, escapeChar char = ['\\', mark] ∧ shortEscape mark = some char)
      ∨ (char.toNat < 32
        ∧ escapeChar char
          = ['\\', 'u', '0', '0', hexDigit (char.toNat / 16), hexDigit (char.toNat % 16)])
      ∨ (32 ≤ char.toNat ∧ char ≠ '\x22' ∧ char ≠ '\\' ∧ escapeChar char = [char]) := by
  unfold escapeChar
  iterate 7
    split
    · subst_vars
      exact .inl ⟨_, rfl, rfl⟩
  split
  · exact .inr (.inl ⟨‹_›, rfl⟩)
  · exact .inr (.inr ⟨Nat.not_lt.mp ‹_›, ‹_›, ‹_›, rfl⟩)

/-- A control character is read from its hexadecimal escape. -/
theorem hexCode_hexDigit
    : ∀ code < 32, hexCode '0' '0' (hexDigit (code / 16)) (hexDigit (code % 16)) = some code := by
  decide

/-- A short escape is read as the character it stands for; `u` is none of them. -/
theorem readPieces_shortEscape {mark char : Char} (escape : shortEscape mark = some char)
    (rest : List Char)
    : readPieces ('\\' :: mark :: rest)
        = (readPieces rest).map fun (pieces, rest) => (.char char :: pieces, rest) := by
  rw [readPieces]
  · cases readPieces rest <;> simp [escape]
  · rintro a b c d chars rfl
    simp [shortEscape] at escape

/-- An escaped character is read as one piece that stands for it. -/
theorem readPieces_escapeChar (char : Char)
    : ∃ piece : Piece,
        piece.Spells char
        ∧ ∀ rest,
            readPieces (escapeChar char ++ rest)
              = (readPieces rest).map fun (pieces, rest) => (piece :: pieces, rest) := by
  rcases escapeChar_cases char with ⟨mark, printed, escape⟩ | ⟨control, printed⟩
    | ⟨plain, noQuote, noEscape, printed⟩
  · refine ⟨.char char, rfl, fun rest => ?_⟩
    rw [printed]
    exact readPieces_shortEscape escape rest
  · refine ⟨.code char.toNat, ⟨rfl, control⟩, fun rest => ?_⟩
    rw [printed]
    cases read : readPieces rest <;> simp [readPieces, hexCode_hexDigit _ control, read]
  · refine ⟨.char char, rfl, fun rest => ?_⟩
    rw [printed]
    cases read : readPieces rest <;> simp [readPieces, noEscape, read, Nat.not_lt.mpr plain]

/-- A piece adds its character to the text: control characters are no surrogates. -/
theorem assemble_cons {piece : Piece} {char : Char} (spells : piece.Spells char)
    (pieces : List Piece)
    : assemble (piece :: pieces) = (assemble pieces).map (char :: ·) := by
  cases piece with
  | char value =>
      obtain rfl : value = char := spells
      rfl
  | code value =>
      rcases spells with ⟨rfl, control⟩
      have low : ¬ 0xd800 ≤ char.toNat ∧ ¬ 0xdc00 ≤ char.toNat := by omega
      cases pieces with
      | nil => simp [assemble, low]
      | cons piece pieces => cases piece <;> simp [assemble, low]

/-- A quoted text is read back up to its quote, by induction on the text. -/
theorem readPieces_quote (text rest : List Char)
    : ∃ pieces,
        readPieces (text.flatMap escapeChar ++ '\x22' :: rest) = some (pieces, rest)
        ∧ assemble pieces = some text := by
  induction text with
  | nil => exact ⟨[], by simp [readPieces], rfl⟩
  | cons char text ih =>
      rcases ih with ⟨pieces, read, assembled⟩
      rcases readPieces_escapeChar char with ⟨piece, spells, step⟩
      refine ⟨piece :: pieces, ?_, ?_⟩
      · rw [List.flatMap_cons, List.append_assoc, step, read]
        rfl
      · simp [assemble_cons spells, assembled]

/-- A printed string is its escaped characters between two quotes. -/
theorem stringChars_append (text : String) (rest : List Char)
    : stringChars (some text) ++ rest
        = '\x22' :: (text.toList.flatMap escapeChar ++ '\x22' :: rest) := by
  simp [stringChars, quote]

/-- A printed string is read back after its opening quote. -/
theorem readString_quote (text : String) (rest : List Char)
    : readString (text.toList.flatMap escapeChar ++ '\x22' :: rest)
        = some (some text, rest) := by
  rcases readPieces_quote text.toList rest with ⟨pieces, read, assembled⟩
  simp [readString, read, assembled]

-----------------------------------------------------------------------------------------
-- Plain values
-----------------------------------------------------------------------------------------

mutual

/-- Whether a value has only texts for strings and only integers for numbers. -/
def IsPlain : Json → Prop
  | .decimal _ => False
  | .string text => text.isSome
  | .array items => ItemsPlain items
  | .object members => MembersPlain members
  | _ => True

/-- Whether all items are plain. -/
def ItemsPlain : List Json → Prop
  | [] => True
  | item :: items => item.IsPlain ∧ ItemsPlain items

/-- Whether all members are plain, their names included. -/
def MembersPlain : List (Option String × Json) → Prop
  | [] => True
  | (name, value) :: members => name.isSome ∧ value.IsPlain ∧ MembersPlain members

end

-----------------------------------------------------------------------------------------
-- Blanks
-----------------------------------------------------------------------------------------

/-- A line break is skipped with its indentation. -/
theorem skipBlanks_newLine (level : Nat) (chars : List Char)
    : skipBlanks (newLine level ++ chars) = skipBlanks chars := by
  apply List.dropWhile_append_of_pos
  intro char member
  rcases List.mem_cons.mp member with rfl | member
  · rfl
  · rw [List.eq_of_mem_replicate member]
    rfl

theorem skipBlanks_space (chars : List Char) : skipBlanks (' ' :: chars) = skipBlanks chars :=
  rfl

/-- No blank is skipped in front of anything else. -/
theorem skipBlanks_cons (char : Char) (solid : isBlank char = false) (chars : List Char)
    : skipBlanks (char :: chars) = char :: chars := by
  simp [skipBlanks, solid]

/-- A value is read past blanks in front of it. -/
theorem readValue_congr {chars others : List Char}
    (same : skipBlanks chars = skipBlanks others) (budget : Nat)
    : readValue budget chars = readValue budget others := by
  cases budget <;> simp [readValue, same]

theorem readItems_congr {chars others : List Char}
    (same : skipBlanks chars = skipBlanks others) (budget : Nat)
    : readItems budget chars = readItems budget others := by
  cases budget <;> simp [readItems, readValue_congr same]

theorem readMembers_congr {chars others : List Char}
    (same : skipBlanks chars = skipBlanks others) (budget : Nat)
    : readMembers budget chars = readMembers budget others := by
  cases budget <;> simp [readMembers, same]

-----------------------------------------------------------------------------------------
-- Tokens
-----------------------------------------------------------------------------------------

/-- The pretty forms of the values without parts are words and pairs of brackets. -/
theorem prettyChars_word (level : Nat)
    : prettyChars level .null = "null".toList
      ∧ prettyChars level (.bool true) = "true".toList
      ∧ prettyChars level (.bool false) = "false".toList
      ∧ prettyChars level (.array []) = ['[', ']']
      ∧ prettyChars level (.object []) = ['\x7b', '\x7d'] :=
  ⟨rfl, rfl, rfl, rfl, rfl⟩

theorem prettyChars_integer (level : Nat) (value : Int)
    : prettyChars level (.integer value) = (toString value).toList := rfl

theorem prettyChars_string (level : Nat) (text : Option String)
    : prettyChars level (.string text) = stringChars text := rfl

theorem prettyChars_array (level : Nat) (item : Json) (items : List Json)
    : prettyChars level (.array (item :: items))
      = '[' :: newLine (level + 1) ++ prettyChars (level + 1) item
        ++ prettyItems (level + 1) items ++ newLine level ++ [']'] := rfl

theorem prettyChars_object (level : Nat) (name : Option String) (value : Json)
    (members : List (Option String × Json))
    : prettyChars level (.object ((name, value) :: members))
      = '\x7b' :: newLine (level + 1) ++ stringChars name ++ ':' :: ' '
        :: prettyChars (level + 1) value ++ prettyMembers (level + 1) members
        ++ newLine level ++ ['\x7d'] := rfl

/-- The pretty form of a value is read back, whatever ends it. -/
def ReadsBack (level : Nat) (value : Json) : Prop :=
  ∀ (budget : Nat) (rest : List Char),
    (prettyChars level value).length < budget
    → EndsNumber rest
    → readValue budget (prettyChars level value ++ rest) = some (value, rest)

/-- A sign or a digit is no blank. -/
theorem isBlank_of_number {char : Char} (starts : char = '-' ∨ char.isDigit = true)
    : isBlank char = false := by
  apply Bool.eq_false_iff.mpr
  intro blank
  simp only [isBlank, Bool.or_eq_true, decide_eq_true_eq] at blank
  rcases blank with ((rfl | rfl) | rfl) | rfl <;> simp [Char.isDigit] at starts

/-- A sign or a digit begins a number and no other value. -/
theorem readValue_number {char : Char} (starts : char = '-' ∨ char.isDigit = true)
    (budget : Nat) (chars : List Char)
    : readValue (budget + 1) (char :: chars) = readNumber (char :: chars) := by
  rw [readValue, skipBlanks_cons char (isBlank_of_number starts)]
  split <;> try rfl
  all_goals
    rename_i same
    obtain rfl := (List.cons.inj same).1
    simp [Char.isDigit] at starts

/-- The pretty form of an integer is read back. -/
theorem readsBack_integer (level : Nat) (value : Int) : ReadsBack level (.integer value) := by
  intro budget rest room ends
  rcases toString_int_eq_cons value with ⟨char, chars, printed, starts⟩
  obtain ⟨budget, rfl⟩ := Nat.exists_eq_add_one_of_ne_zero (Nat.ne_zero_of_lt room)
  rw [prettyChars_integer, printed, List.cons_append, readValue_number starts, ← List.cons_append,
    ← printed, readNumber_toString value ends]

/-- The pretty form of a text is read back. -/
theorem readsBack_string (level : Nat) (text : String)
    : ReadsBack level (.string (some text)) := by
  intro budget rest room _
  obtain ⟨budget, rfl⟩ := Nat.exists_eq_add_one_of_ne_zero (Nat.ne_zero_of_lt room)
  simp [prettyChars_string, stringChars_append, readValue, skipBlanks_cons, isBlank,
    readString_quote]

/-- A value without parts is read back from its word or its pair of brackets. -/
theorem readsBack_word (level : Nat) {value : Json}
    (word : value ∈ [.null, .bool true, .bool false, .array [], .object []])
    : ReadsBack level value := by
  intro budget rest room _
  obtain ⟨budget, rfl⟩ := Nat.exists_eq_add_one_of_ne_zero (Nat.ne_zero_of_lt room)
  simp only [List.mem_cons, List.not_mem_nil, or_false] at word
  rcases word with rfl | rfl | rfl | rfl | rfl <;>
    simp [prettyChars_word, readValue, skipBlanks_cons, isBlank, readWord]

/-- No pretty form begins with a blank or with a closing bracket. -/
theorem prettyChars_eq_cons (level : Nat) {value : Json} (plain : value.IsPlain)
    : ∃ char chars,
        prettyChars level value = char :: chars ∧ isBlank char = false ∧ char ≠ ']' := by
  match value with
  | .null | .bool true | .bool false | .array [] | .object [] => simp [prettyChars_word, isBlank]
  | .string _ => simp [prettyChars_string, stringChars, quote, isBlank]
  | .array (_ :: _) => simp [prettyChars_array, isBlank]
  | .object ((_, _) :: _) => simp [prettyChars_object, isBlank]
  | .integer value =>
    rcases toString_int_eq_cons value with ⟨char, chars, printed, starts⟩
    refine ⟨char, chars, by rw [prettyChars_integer, printed], isBlank_of_number starts, ?_⟩
    rintro rfl
    simp [Char.isDigit] at starts

-----------------------------------------------------------------------------------------
-- Items
-----------------------------------------------------------------------------------------

/-- An item and the ones after it are read back up to the bracket that closes them. -/
def ItemsReadBack (level : Nat) (items : List Json) : Prop :=
  ∀ (item : Json) (budget outer : Nat) (rest : List Char),
    ReadsBack level item
    → (prettyChars level item).length + (prettyItems level items).length + 1 < budget
    → readItems budget
          (prettyChars level item ++ (prettyItems level items ++ (newLine outer ++ ']' :: rest)))
        = some (item :: items, rest)

/-- The last item is read up to the closing bracket. -/
theorem itemsReadBack_nil (level : Nat) : ItemsReadBack level [] := by
  intro item budget outer rest first room
  obtain ⟨budget, rfl⟩ := Nat.exists_eq_add_one_of_ne_zero (Nat.ne_zero_of_lt room)
  have read := first budget (newLine outer ++ ']' :: rest) (by omega)
    (endsNumber_cons _ (by simp))
  simp [prettyItems, readItems, read, skipBlanks_newLine, skipBlanks_cons, isBlank]

/-- Another item is read past the comma and the line break in front of it. -/
theorem itemsReadBack_cons {level : Nat} {item : Json} {items : List Json}
    (second : ReadsBack level item) (others : ItemsReadBack level items)
    : ItemsReadBack level (item :: items) := by
  intro before budget outer rest first room
  obtain ⟨budget, rfl⟩ := Nat.exists_eq_add_one_of_ne_zero (Nat.ne_zero_of_lt room)
  simp only [prettyItems, List.cons_append, List.append_assoc, List.length_cons,
    List.length_append] at room ⊢
  have read := fun after => first budget (',' :: after) (by omega) (endsNumber_cons _ (by simp))
  have more := others item budget outer rest second (by omega)
  simp [readItems, read, skipBlanks_cons, isBlank,
    readItems_congr (skipBlanks_newLine level _), more]

/-- Items are read back with their brackets: the first one is no closing bracket. -/
theorem readsBack_array {level : Nat} {item : Json} {items : List Json} (plain : item.IsPlain)
    (first : ReadsBack (level + 1) item) (others : ItemsReadBack (level + 1) items)
    : ReadsBack level (.array (item :: items)) := by
  intro budget rest room _
  obtain ⟨budget, rfl⟩ := Nat.exists_eq_add_one_of_ne_zero (Nat.ne_zero_of_lt room)
  rcases prettyChars_eq_cons (level + 1) plain with ⟨char, chars, printed, solid, noBracket⟩
  simp only [prettyChars_array, List.cons_append, List.append_assoc, List.length_cons,
    List.length_append, List.nil_append] at room ⊢
  have read := others item budget level rest first (by omega)
  simp only [printed, List.cons_append] at read ⊢
  simp [readValue, skipBlanks_newLine, skipBlanks_cons '[' rfl, skipBlanks_cons char solid,
    noBracket, read]

-----------------------------------------------------------------------------------------
-- Members
-----------------------------------------------------------------------------------------

/-- A member and the ones after it are read back up to the brace that closes them. -/
def MembersReadBack (level : Nat) (members : List (Option String × Json)) : Prop :=
  ∀ (name : String) (value : Json) (budget outer : Nat) (rest : List Char),
    ReadsBack level value
    → (prettyChars level value).length + (prettyMembers level members).length + 1 < budget
    → readMembers budget
          (stringChars (some name)
            ++ ':' :: ' ' :: (prettyChars level value
              ++ (prettyMembers level members ++ (newLine outer ++ '\x7d' :: rest))))
        = some ((some name, value) :: members, rest)

/-- The last member is read up to the closing brace. -/
theorem membersReadBack_nil (level : Nat) : MembersReadBack level [] := by
  intro name value budget outer rest reads room
  obtain ⟨budget, rfl⟩ := Nat.exists_eq_add_one_of_ne_zero (Nat.ne_zero_of_lt room)
  have read := reads budget (newLine outer ++ '\x7d' :: rest) (by omega)
    (endsNumber_cons _ (by simp))
  simp [prettyMembers, stringChars_append, readMembers, readString_quote, skipBlanks_cons,
    isBlank, readValue_congr (skipBlanks_space _), read, skipBlanks_newLine]

/-- Another member is read past the comma and the line break in front of it. -/
theorem membersReadBack_cons {level : Nat} {name : String} {value : Json}
    {members : List (Option String × Json)}
    (second : ReadsBack level value) (others : MembersReadBack level members)
    : MembersReadBack level ((some name, value) :: members) := by
  intro before first budget outer rest reads room
  obtain ⟨budget, rfl⟩ := Nat.exists_eq_add_one_of_ne_zero (Nat.ne_zero_of_lt room)
  simp only [prettyMembers, List.cons_append, List.append_assoc, List.length_cons,
    List.length_append] at room ⊢
  have read := fun after => reads budget (',' :: after) (by omega) (endsNumber_cons _ (by simp))
  have more := others name value budget outer rest second (by omega)
  rw [stringChars_append] at more
  simp [stringChars_append, readMembers, readString_quote, skipBlanks_cons, isBlank,
    readValue_congr (skipBlanks_space _), read, readMembers_congr (skipBlanks_newLine level _),
    more]

/-- Members are read back with their braces: the first one begins with a quote. -/
theorem readsBack_object {level : Nat} {name : String} {value : Json}
    {members : List (Option String × Json)}
    (first : ReadsBack (level + 1) value) (others : MembersReadBack (level + 1) members)
    : ReadsBack level (.object ((some name, value) :: members)) := by
  intro budget rest room _
  obtain ⟨budget, rfl⟩ := Nat.exists_eq_add_one_of_ne_zero (Nat.ne_zero_of_lt room)
  simp only [prettyChars_object, List.cons_append, List.append_assoc, List.length_cons,
    List.length_append, List.nil_append] at room ⊢
  have read := others name value budget level rest first (by omega)
  rw [stringChars_append] at read ⊢
  simp [readValue, skipBlanks_newLine, skipBlanks_cons, isBlank, read]

-----------------------------------------------------------------------------------------
-- Values
-----------------------------------------------------------------------------------------

mutual

/-- A plain value is read back, by induction on its parts. -/
theorem readsBack (level : Nat) : ∀ (value : Json), value.IsPlain → ReadsBack level value
  | .null, _ | .bool true, _ | .bool false, _ | .array [], _ | .object [], _ =>
    readsBack_word level (by simp)
  | .integer value, _ => readsBack_integer level value
  | .string (some text), _ => readsBack_string level text
  | .array (item :: items), plain =>
    readsBack_array plain.1 (readsBack (level + 1) item plain.1)
      (itemsReadBack (level + 1) items plain.2)
  | .object ((some _, value) :: members), plain =>
    readsBack_object (readsBack (level + 1) value plain.2.1)
      (membersReadBack (level + 1) members plain.2.2)

/-- Plain items are read back, by induction on the items. -/
theorem itemsReadBack (level : Nat)
    : ∀ (items : List Json), ItemsPlain items → ItemsReadBack level items
  | [], _ => itemsReadBack_nil level
  | item :: items, plain =>
      itemsReadBack_cons (readsBack level item plain.1) (itemsReadBack level items plain.2)

/-- Plain members are read back, by induction on the members. -/
theorem membersReadBack (level : Nat)
    : ∀ (members : List (Option String × Json)),
        MembersPlain members → MembersReadBack level members
  | [], _ => membersReadBack_nil level
  | (some _, value) :: members, plain =>
    membersReadBack_cons (readsBack level value plain.2.1)
      (membersReadBack level members plain.2.2)

end

/-- The pretty text of a plain value spells that value. -/
theorem parse?_pretty {value : Json} (plain : value.IsPlain)
    : parse? value.pretty = some value := by
  have read := readsBack 0 value plain ((prettyChars 0 value).length + 1) []
    (Nat.lt_succ_self _) endsNumber_nil
  rw [List.append_nil] at read
  simp [parse?, pretty, read, skipBlanks]

end Dataflow.Json
