import QueryFilter.Text

/-!
# Texts of JSON

The faults that a JSON text can have, its strings, and how lists and objects are written.
-/

namespace QueryFilter

/-! ## Faults

What can be wrong with a JSON text that is read as a value of a known shape: its syntax, or the kind
of a value in it.  Text is read from left to right, so the fault of a text is the first one in it.
-/

namespace Json

/-- What a text can end inside of. -/
inductive Construct where
  | value
  | string
  | list
  | object
  deriving DecidableEq, Repr

/-- The name of a construct with its article. -/
def Construct.title : Construct → String
  | value => "a value"
  | string => "a string"
  | list => "a list"
  | object => "an object"

/-- The kinds of values, with what messages show of them. -/
inductive Found where
  | null
  | boolean (value : Bool)
  | integer (value : Int)
  | float (value : Float)
  | string (text : String)
  | sequence
  | map
  deriving Repr

/-- How messages describe a value. -/
def Found.title : Found → String
  | null => "null"
  | boolean true => "boolean `true`"
  | boolean false => "boolean `false`"
  | integer n => "integer `" ++ integerText n ++ "`"
  | float x => "floating point `" ++ FloatStyle.message.text x ++ "`"
  | string text => "string " ++ quoted text
  | sequence => "sequence"
  | map => "map"

/-- What is wrong with a text. -/
inductive Fault where
  /-- The text ends inside of something. -/
  | ended (inside : Construct)
  | expectedValue
  /-- A word that is none of the three constants. -/
  | expectedConstant
  | expectedColon
  /-- Neither a comma nor the closing bracket follows an element. -/
  | expectedListEnd
  /-- Neither a comma nor the closing brace follows a member. -/
  | expectedObjectEnd
  | keyNotString
  | trailingComma
  | trailingCharacters
  | invalidNumber
  | numberOutOfRange
  | invalidEscape
  /-- The first half of a surrogate pair without an escape after it. -/
  | unfinishedPair
  /-- A surrogate that is no half of a pair. -/
  | loneSurrogate
  | controlCharacter
  /-- A value of another kind than the one that belongs here. -/
  | invalidType (found : Found) (expected : String)
  /-- A name that is none of the known ones. -/
  | unknownVariant (name : String) (known : List String)
  | missingField (name : String)
  | duplicateField (name : String)
  /-- A list with too few elements. -/
  | invalidLength (length : Nat) (expected : String)
  deriving Repr

/-- A choice of names, as messages give it. -/
def choiceTitle (names : List String) : String :=
  match names.map fun name => "`" ++ name ++ "`" with
  | [a] => a
  | [a, b] => a ++ " or " ++ b
  | quotedNames => "one of " ++ ", ".intercalate quotedNames

/-- The message of a fault. -/
def Fault.message : Fault → String
  | ended inside => "EOF while parsing " ++ inside.title
  | expectedValue => "expected value"
  | expectedConstant => "expected ident"
  | expectedColon => "expected `:`"
  | expectedListEnd => "expected `,` or `]`"
  | expectedObjectEnd => "expected `,` or `\x7d`"
  | keyNotString => "key must be a string"
  | trailingComma => "trailing comma"
  | trailingCharacters => "trailing characters"
  | invalidNumber => "invalid number"
  | numberOutOfRange => "number out of range"
  | invalidEscape => "invalid escape"
  | unfinishedPair => "unexpected end of hex escape"
  | loneSurrogate => "lone leading surrogate in hex escape"
  | controlCharacter => "control character (\\u0000-\\u001F) found while parsing a string"
  | invalidType found expected => "invalid type: " ++ found.title ++ ", expected " ++ expected
  | unknownVariant name known =>
    "unknown variant `" ++ name ++ "`, expected " ++ choiceTitle known
  | missingField name => "missing field `" ++ name ++ "`"
  | duplicateField name => "duplicate field `" ++ name ++ "`"
  | invalidLength length expected =>
    "invalid length " ++ integerText length ++ ", expected " ++ expected

end Json

/-! ## Strings

`readText` reads the characters of a string after its opening quote, `skipText` passes over them,
and `writeText` writes a string.  A character is written by itself or as an escape; characters
outside the basic plane may be written as two escapes, which must be the two halves of a surrogate
pair.  A string that is passed over may hold halves without their other half.

The main statement is `readText_written`: what is written is read back, whatever follows it.
-/

namespace Json

/-- The character that a letter stands for after a backslash. -/
def escapedChar? : Char → Option Char
  | '"' => some '"'
  | '\\' => some '\\'
  | '/' => some '/'
  | 'b' => some '\x08'
  | 'f' => some '\x0c'
  | 'n' => some '\n'
  | 'r' => some '\r'
  | 't' => some '\t'
  | _ => none

/-- The value of a hexadecimal digit in either case. -/
def hexDigit? (c : Char) : Option Nat :=
  if c.isDigit then some (c.toNat - '0'.toNat)
  else if 'a' ≤ c ∧ c ≤ 'f' then some (c.toNat - 'a'.toNat + 10)
  else if 'A' ≤ c ∧ c ≤ 'F' then some (c.toNat - 'A'.toNat + 10)
  else none

/-- The number that hexadecimal digits spell. -/
def hexNumber? (cs : List Char) : Option Nat :=
  cs.foldlM (fun n c => (hexDigit? c).map fun d => 16 * n + d) 0

/-- The code of an escape: four hexadecimal digits.  Fewer than four bytes count as the end. -/
def readHex (s : List Char) : Except Fault (Nat × List Char) :=
  match hexNumber? (s.take 4) with
  | some n => if (s.take 4).length = 4 then .ok (n, s.drop 4) else .error (.ended .string)
  | none => if byteLength s < 4 then .error (.ended .string) else .error .invalidEscape

/-- The character whose code is made of two halves. -/
def joined (high low : Nat) : Char :=
  Char.ofNat (0x10000 + (high - 0xd800) * 0x400 + (low - 0xdc00))

/-- The second half of a character, an escape that must follow the first half at once. -/
def readLowHalf (high : Nat) : List Char → Except Fault (Char × List Char)
  | [] | ['\\'] => .error (.ended .string)
  | '\\' :: 'u' :: s =>
    match readHex s with
    | .error e => .error e
    | .ok (low, rest) =>
      if 0xdc00 ≤ low ∧ low ≤ 0xdfff then .ok (joined high low, rest) else .error .loneSurrogate
  | _ => .error .unfinishedPair

/-- The character of one or two escapes of codes, after the first `\u`. -/
def readCode (s : List Char) : Except Fault (Char × List Char) :=
  match readHex s with
  | .error e => .error e
  | .ok (code, rest) =>
    if code < 0xd800 ∨ 0xdfff < code then .ok (Char.ofNat code, rest)
    else if 0xdc00 ≤ code then .error .loneSurrogate
    else readLowHalf code rest

/-- The character of an escape, after its backslash. -/
def readEscape : List Char → Except Fault (Char × List Char)
  | [] => .error (.ended .string)
  | 'u' :: s => readCode s
  | c :: s =>
    match escapedChar? c with
    | some d => .ok (d, s)
    | none => .error .invalidEscape

/-- Pass over an escape, after its backslash. -/
def skipEscape : List Char → Except Fault (List Char)
  | [] => .error (.ended .string)
  | 'u' :: s => (readHex s).map Prod.snd
  | c :: s =>
    match escapedChar? c with
    | some _ => .ok s
    | none => .error .invalidEscape

theorem readHex_length {s rest : List Char} {n : Nat} (h : readHex s = .ok (n, rest)) :
    rest.length + 4 = s.length := by
  unfold readHex at h
  split at h
  · split at h <;> simp_all
    rename_i h4
    obtain ⟨-, rfl⟩ := h
    simp only [List.length_drop]
    omega
  · split at h <;> simp at h

theorem readLowHalf_length {high : Nat} {s rest : List Char} {c : Char}
    (h : readLowHalf high s = .ok (c, rest)) : rest.length < s.length := by
  unfold readLowHalf at h
  split at h
  · contradiction
  · contradiction
  · split at h
    · contradiction
    · rename_i low t ht
      have := readHex_length ht
      split at h <;> simp_all
      omega
  · contradiction

theorem readCode_length {s rest : List Char} {c : Char} (h : readCode s = .ok (c, rest)) :
    rest.length < s.length := by
  unfold readCode at h
  split at h
  · contradiction
  · rename_i code t ht
    have := readHex_length ht
    split at h
    · simp_all
      omega
    · split at h
      · contradiction
      · have := readLowHalf_length h
        omega

theorem readEscape_length {s rest : List Char} {c : Char} (h : readEscape s = .ok (c, rest)) :
    rest.length < s.length := by
  unfold readEscape at h
  split at h
  · contradiction
  · have := readCode_length h
    simp only [List.length_cons]
    omega
  · split at h <;> simp_all

theorem skipEscape_length {s rest : List Char} (h : skipEscape s = .ok rest) :
    rest.length < s.length := by
  unfold skipEscape at h
  split at h
  · contradiction
  · rename_i s
    match hs : readHex s with
    | .error e => simp [hs, Except.map] at h
    | .ok (n, t) =>
      have := readHex_length hs
      simp [hs, Except.map] at h
      subst h
      simp only [List.length_cons]
      omega
  · split at h <;> simp_all

/-- The characters of a string, after its opening quote, and what follows the closing one. -/
def readText : List Char → Except Fault (List Char × List Char)
  | [] => .error (.ended .string)
  | '"' :: s => .ok ([], s)
  | '\\' :: s =>
    match h : readEscape s with
    | .error e => .error e
    | .ok (c, t) =>
      have := readEscape_length h
      (readText t).map fun (cs, rest) => (c :: cs, rest)
  | c :: s =>
    if c.toNat < 0x20 then .error .controlCharacter
    else (readText s).map fun (cs, rest) => (c :: cs, rest)
termination_by s => s.length

/-- What follows a string, after its opening quote. -/
def skipText : List Char → Except Fault (List Char)
  | [] => .error (.ended .string)
  | '"' :: s => .ok s
  | '\\' :: s =>
    match h : skipEscape s with
    | .error e => .error e
    | .ok t =>
      have := skipEscape_length h
      skipText t
  | c :: s => if c.toNat < 0x20 then .error .controlCharacter else skipText s
termination_by s => s.length

/-- A character inside a string. -/
def writtenChar (c : Char) : List Char :=
  match c with
  | '"' => ['\\', '"']
  | '\\' => ['\\', '\\']
  | '\x08' => ['\\', 'b']
  | '\x0c' => ['\\', 'f']
  | '\n' => ['\\', 'n']
  | '\r' => ['\\', 'r']
  | '\t' => ['\\', 't']
  | c =>
    if c.toNat < 0x20 then
      ['\\', 'u', '0', '0', Nat.digitChar (c.toNat / 16), Nat.digitChar (c.toNat % 16)]
    else [c]

/-- The characters of a string between its quotes. -/
def written (cs : List Char) : List Char :=
  cs.flatMap writtenChar

/-- The JSON text of a string. -/
def writeText (text : String) : List Char :=
  '"' :: (written text.toList ++ ['"'])

/-! ### What is written is read back -/

@[simp] theorem readText_quote (s : List Char) : readText ('"' :: s) = .ok ([], s) := by
  simp [readText]

theorem readText_escape {s t : List Char} {c : Char} (h : readEscape s = .ok (c, t)) :
    readText ('\\' :: s) = (readText t).map fun (cs, rest) => (c :: cs, rest) := by
  rw [readText]
  split
  · simp_all
  · simp_all

theorem readText_cons {c : Char} (s : List Char) (hq : c ≠ '"') (hb : c ≠ '\\')
    (hc : 0x20 ≤ c.toNat) :
    readText (c :: s) = (readText s).map fun (cs, rest) => (c :: cs, rest) := by
  rw [readText]
  · simp [Nat.not_lt.2 hc]
  · simpa using hq
  · simpa using hb

/-- The escape of a control character stands for it. -/
theorem readCode_digits {n : Nat} (h : n < 0x20) (s : List Char) :
    readCode ('0' :: '0' :: Nat.digitChar (n / 16) :: Nat.digitChar (n % 16) :: s) =
      .ok (Char.ofNat n, s) := by
  have hall : ∀ n < 0x20,
      hexNumber? ['0', '0', Nat.digitChar (n / 16), Nat.digitChar (n % 16)] = some n := by
    decide
  simp [readCode, readHex, hall n h, show n < 0xd800 by omega]

/-- One written character is read back. -/
theorem readText_writtenChar (c : Char) (s : List Char) :
    readText (writtenChar c ++ s) = (readText s).map fun (cs, rest) => (c :: cs, rest) := by
  unfold writtenChar
  split
  case h_8 hq hb _ _ _ _ _ =>
    split
    · rename_i h
      refine readText_escape ?_
      simp [readEscape, readCode_digits h]
    · rename_i h
      exact readText_cons s hq hb (Nat.not_lt.1 h)
  all_goals exact readText_escape rfl

/-- A written string is read back up to its closing quote. -/
theorem readText_written (cs rest : List Char) :
    readText (written cs ++ '"' :: rest) = .ok (cs, rest) := by
  induction cs with
  | nil => simp [written]
  | cons c cs ih =>
    have h : written (c :: cs) = writtenChar c ++ written cs := rfl
    rw [h, List.append_assoc, readText_writtenChar, ih]
    rfl

end Json

/-! ## Writing lists and objects

Lists and objects are written without blanks, with a comma between their parts.
-/

namespace Json

/-- Texts with commas between them. -/
def commaSeparated : List (List Char) → List Char
  | [] => []
  | [part] => part
  | part :: parts => part ++ ',' :: commaSeparated parts

/-- The text of a list, from the texts of its elements. -/
def writeList (elements : List (List Char)) : List Char :=
  '[' :: (commaSeparated elements ++ [']'])

/-- The text of a member. -/
def writeMember (name : String) (value : List Char) : List Char :=
  writeText name ++ ':' :: value

/-- The text of an object, from the texts of its members. -/
def writeObject (members : List (List Char)) : List Char :=
  '{' :: (commaSeparated members ++ ['}'])

end Json

end QueryFilter
