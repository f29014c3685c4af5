import QueryFilter.Calendar.Fields

/-!
# Reading timestamps

Texts of timestamps are read part by part into fields, either in the format of RFC 3339 or against a
pattern.  A `TimestampFormat` says which of the two.
-/

namespace QueryFilter

/-! ## Scanning the parts of a date

A scan reads a part from the front of a text and leaves the rest, or fails.  Numbers are runs of
digits of bounded length; names ignore case; an offset is a sign, hours and minutes.
-/

/-- Read a part from the front of a text. -/
abbrev Scan (α : Type) := StateT (List Char) Option α

/-- The characters that count as white space. -/
def isBlank (c : Char) : Bool :=
  let n := c.toNat
  (9 ≤ n && n ≤ 13) || n == 32 || n == 0x85 || n == 0xA0 || n == 0x1680 ||
    (0x2000 ≤ n && n ≤ 0x200A) || n == 0x2028 || n == 0x2029 || n == 0x202F || n == 0x205F ||
    n == 0x3000

namespace Scan

/-- Skip white space. -/
def blanks : Scan Unit := fun cs =>
  some ((), cs.dropWhile isBlank)

/-- Skip the characters that satisfy a test. -/
def skipWhile (p : Char → Bool) : Scan Unit := fun cs =>
  some ((), cs.dropWhile p)

/-- Read a character that satisfies a test. -/
def satisfying (p : Char → Bool) : Scan Char
  | c :: cs => if p c then some (c, cs) else none
  | [] => none

/-- Read one given character. -/
def char (c : Char) : Scan Unit := do
  let _ ← satisfying (· == c)

/-- Whether the text goes on with a given character, which is then skipped. -/
def optional (c : Char) : Scan Bool
  | d :: cs => if d = c then some (true, cs) else some (false, d :: cs)
  | [] => some (false, [])

/-- Read a word, in letters of either case. -/
def word (letters : List Char) : Scan Unit := fun cs =>
  if (cs.take letters.length).map Char.toLower = letters then some ((), cs.drop letters.length)
  else none

/-- Read a word if the text goes on with it. -/
def optionalWord (letters : List Char) : Scan Unit := fun cs =>
  (word letters cs).getD ((), cs)

/-- Read a number of `least` to `most` digits.  It has to fit in 63 bits. -/
def number (least : Nat) (most : Option Nat) : Scan Int := fun cs =>
  let ds := (match most with
    | some n => cs.take n
    | none => cs).takeWhile Char.isDigit
  let n := Nat.ofDigitChars 10 ds 0
  if least ≤ ds.length ∧ n < 0x8000000000000000 then some ((n : Int), cs.drop ds.length) else none

/-- Read a fraction as nanoseconds: one or more digits, of which nine count. -/
def fraction : Scan Int := fun cs =>
  let ds := cs.takeWhile Char.isDigit
  if ds = [] then none
  else
    let counted := ds.take 9
    let nanos := Nat.ofDigitChars 10 counted 0 * Nat.pow 10 (9 - counted.length)
    some ((nanos : Int), cs.drop ds.length)

/-- Read a fraction of exactly `width` digits, at most nine, as nanoseconds. -/
def fixedFraction (width : Nat) : Scan Int := do
  let n ← number width (some width)
  return n * (Nat.pow 10 (9 - width) : Nat)

/-- Read the sign of an offset, which may also be the typographic minus. -/
def sign : Scan Bool := do
  let c ← satisfying fun c => c == '+' || c == '-' || c == '\u2212'
  return c != '+'

/-- Read an offset: a sign, two digits for the hours, what `separator` skips, and two digits for the
minutes, which are below sixty.  With `short` the minutes may be left out at the end of the text. -/
def offset (separator : Scan Unit) (short : Bool) : Scan Int := do
  let negative ← sign
  let hours ← number 2 (some 2)
  separator
  let rest ← get
  let minutes ← if short && rest.isEmpty then pure 0 else number 2 (some 2)
  guard (minutes < 60)
  let seconds := hours * 3600 + minutes * 60
  return if negative then -seconds else seconds

/-- Read an offset, or the letter `Z` for none. -/
def offsetOrZulu (separator : Scan Unit) (short : Bool) : Scan Int := fun cs =>
  match cs with
  | 'Z' :: rest | 'z' :: rest => some (0, rest)
  | _ => offset separator short cs

/-- Skip the colons and blanks between hours and minutes. -/
def colonsOrBlanks : Scan Unit :=
  skipWhile fun c => c == ':' || isBlank c

/-- Read the first name of a list that the text goes on with, and give its position.  A name is a
short form and the letters that complete it, which are read as well when `long` is set. -/
def name (names : List (List Char × List Char)) (long : Bool) : Scan Int := fun cs =>
  (names.zipIdx.findSome? fun ((short, completion), i) =>
    ((do
      word short
      if long then optionalWord completion
      return (i : Int)) : Scan Int) cs)

/-- The months, in order. -/
def months : List (List Char × List Char) :=
  [("jan", "uary"), ("feb", "ruary"), ("mar", "ch"), ("apr", "il"), ("may", ""), ("jun", "e"),
    ("jul", "y"), ("aug", "ust"), ("sep", "tember"), ("oct", "ober"), ("nov", "ember"),
    ("dec", "ember")].map fun (short, completion) => (short.toList, completion.toList)

/-- The weekdays, from Monday. -/
def weekdays : List (List Char × List Char) :=
  [("mon", "day"), ("tue", "sday"), ("wed", "nesday"), ("thu", "rsday"), ("fri", "day"),
    ("sat", "urday"), ("sun", "day")].map fun (short, completion) =>
      (short.toList, completion.toList)

/-- The halves of the day. -/
def halves : List (List Char × List Char) :=
  [(['a', 'm'], []), (['p', 'm'], [])]

/-- Read a whole text. -/
def whole? {α : Type} (scan : Scan α) (cs : List Char) : Option α :=
  match scan cs with
  | some (a, []) => some a
  | _ => none

end Scan

/-! ## Dates of RFC 3339

A date, a time and an offset, all in full: `2023-05-02T09:34:01.5+02:00`.  Every field has its fixed
number of digits, the fraction has one or more, and `Z` stands for no offset.  A blank may stand
for the `T`.  Letters may be of either case.
-/

namespace Fields

/-- Read a number of at most `most` digits and give it to a field. -/
def scanNumber (f : Fields) (k : Field) (least most : Nat) : Scan Fields := do
  let n ← Scan.number least (some most)
  f.set? k n

/-- Read a two-digit hour. -/
def scanHour (f : Fields) : Scan Fields := do
  let n ← Scan.number 2 (some 2)
  f.setHour? n

/-- Read a fraction of a second if there is a point. -/
def scanFraction (f : Fields) : Scan Fields := do
  if ← Scan.optional '.' then
    let n ← Scan.fraction
    f.set? .nanosecond n
  else
    return f

/-- Read a date and time of RFC 3339. -/
def scanInternet : Scan Fields := do
  let f ← empty.scanNumber .year 4 4
  Scan.char '-'
  let f ← f.scanNumber .month 2 2
  Scan.char '-'
  let f ← f.scanNumber .day 2 2
  let _ ← Scan.satisfying fun c => c == 'T' || c == 't' || c == ' '
  let f ← f.scanHour
  Scan.char ':'
  let f ← f.scanNumber .minute 2 2
  Scan.char ':'
  let f ← f.scanNumber .second 2 2
  let f ← f.scanFraction
  let offset ← Scan.offsetOrZulu (Scan.char ':') false
  guard (-86400 < offset ∧ offset < 86400)
  f.set? .offset offset

end Fields

/-- The timestamp that a text in the format of RFC 3339 names. -/
def Timestamp.ofInternet? (text : String) : Option Timestamp :=
  (Scan.whole? Fields.scanInternet text.toList).bind Fields.timestamp?

/-! ## Date patterns

A pattern is a text in which `%` and a letter stand for a part of a date.  Every other character
stands for itself, except that white space matches any amount of white space, including none.

Reading a text against a pattern collects fields.  A number may have white space before it and takes
as many digits as it finds, up to its width.  `%Y` and `%G` take any number of digits after a sign.
-/

/-- What is done with the number that a pattern reads. -/
inductive PatternNumber where
  /-- It is the value of a field. -/
  | field (k : Field)
  /-- It is the hour of the day. -/
  | hour
  /-- It is the hour on a clock face, from 1 to 12. -/
  | clockHour
  /-- It is the weekday, counted from Sunday, which is 0. -/
  | weekdayFromSunday
  /-- It is the weekday, counted from Monday, which is 1. -/
  | weekdayFromMonday
  deriving DecidableEq, Repr

/-- Give a number to the fields. -/
def PatternNumber.store? (f : Fields) (v : Int) : PatternNumber → Option Fields
  | .field k => f.set? k v
  | .hour => f.setHour? v
  | .clockHour => if 1 ≤ v ∧ v ≤ 12 then f.set? .hourOfHalf (v % 12) else none
  | .weekdayFromSunday => if 0 ≤ v ∧ v ≤ 6 then f.set? .weekday ((v + 6) % 7) else none
  | .weekdayFromMonday => f.set? .weekday (v - 1)

/-- A part of a pattern. -/
inductive PatternItem where
  | literal (c : Char)
  | blank
  /-- A number of at most `width` digits, or of any number where there is no width. -/
  | number (role : PatternNumber) (width : Option Nat)
  /-- A number that takes any number of digits after a sign, and four otherwise. -/
  | signedYear (k : Field)
  | monthName (long : Bool)
  | weekdayName (long : Bool)
  | half
  /-- A point and a fraction, or nothing. -/
  | fraction
  /-- A point and a fraction of `width` digits, or nothing. -/
  | fixedFraction (width : Nat)
  /-- A fraction of `width` digits without a point. -/
  | bareFraction (width : Nat)
  /-- The name of a time zone, which is skipped. -/
  | zoneName
  | offset
  /-- An offset that may be `Z` and may end after the hours. -/
  | looseOffset
  /-- A date and time that resembles RFC 3339. -/
  | internet
  deriving DecidableEq, Repr

namespace PatternItem

/-- A number of at most two digits. -/
def two (k : Field) : PatternItem :=
  number (.field k) (some 2)

/-- The items of an hour, a minute and a second. -/
def clockTime : List PatternItem :=
  [number .hour (some 2), literal ':', two .minute, literal ':', two .second]

/-- The items that a letter stands for. -/
def ofLetter? : Char → Option (List PatternItem)
  | 'A' => some [weekdayName true]
  | 'B' => some [monthName true]
  | 'C' => some [two .century]
  | 'D' | 'x' => some [two .month, literal '/', two .day, literal '/', two .yearOfCentury]
  | 'F' => some [signedYear .year, literal '-', two .month, literal '-', two .day]
  | 'G' => some [signedYear .isoYear]
  | 'H' | 'k' => some [number .hour (some 2)]
  | 'I' | 'l' => some [number .clockHour (some 2)]
  | 'M' => some [two .minute]
  | 'P' | 'p' => some [half]
  | 'R' => some [number .hour (some 2), literal ':', two .minute]
  | 'S' => some [two .second]
  | 'T' | 'X' => some clockTime
  | 'U' => some [two .weekFromSunday]
  | 'V' => some [two .isoWeek]
  | 'W' => some [two .weekFromMonday]
  | 'Y' => some [signedYear .year]
  | 'Z' => some [zoneName]
  | 'a' => some [weekdayName false]
  | 'b' | 'h' => some [monthName false]
  | 'c' => some
      ([weekdayName false, blank, monthName false, blank, two .day, blank] ++ clockTime ++
        [blank, signedYear .year])
  | 'd' | 'e' => some [two .day]
  | 'f' => some [number (.field .nanosecond) (some 9)]
  | 'g' => some [two .isoYearOfCentury]
  | 'j' => some [number (.field .ordinal) (some 3)]
  | 'm' => some [two .month]
  | 'n' | 't' => some [blank]
  | 'q' => some [number (.field .quarter) (some 1)]
  | 'r' => some
      [number .clockHour (some 2), literal ':', two .minute, literal ':', two .second, blank, half]
  | 's' => some [number (.field .unixTime) none]
  | 'u' => some [number .weekdayFromMonday (some 1)]
  | 'v' => some [two .day, literal '-', monthName false, literal '-', signedYear .year]
  | 'w' => some [number .weekdayFromSunday (some 1)]
  | 'y' => some [two .yearOfCentury]
  | 'z' => some [offset]
  | '+' => some [internet]
  | '%' => some [literal '%']
  | _ => none

/-- Whether an item is a number. -/
def isNumber : PatternItem → Bool
  | number _ _ | signedYear _ => true
  | _ => false

/-- The item that a letter stands for after a mark of padding, which only single numbers take. -/
def ofPadded? (c : Char) : Option (List PatternItem) :=
  match ofLetter? c with
  | some [item] => if item.isNumber then some [item] else none
  | _ => none

/-- The items of a pattern.  This fails at a letter that stands for nothing. -/
def ofPattern? : List Char → Option (List PatternItem)
  | [] => some []
  | '%' :: ':' :: ':' :: ':' :: 'z' :: cs => (ofPattern? cs).map (offset :: ·)
  | '%' :: ':' :: ':' :: 'z' :: cs => (ofPattern? cs).map (offset :: ·)
  | '%' :: ':' :: 'z' :: cs => (ofPattern? cs).map (offset :: ·)
  | '%' :: '#' :: 'z' :: cs => (ofPattern? cs).map (looseOffset :: ·)
  | '%' :: '.' :: 'f' :: cs => (ofPattern? cs).map (fraction :: ·)
  | '%' :: '.' :: '3' :: 'f' :: cs => (ofPattern? cs).map (fixedFraction 3 :: ·)
  | '%' :: '.' :: '6' :: 'f' :: cs => (ofPattern? cs).map (fixedFraction 6 :: ·)
  | '%' :: '.' :: '9' :: 'f' :: cs => (ofPattern? cs).map (fixedFraction 9 :: ·)
  | '%' :: '3' :: 'f' :: cs => (ofPattern? cs).map (bareFraction 3 :: ·)
  | '%' :: '6' :: 'f' :: cs => (ofPattern? cs).map (bareFraction 6 :: ·)
  | '%' :: '9' :: 'f' :: cs => (ofPattern? cs).map (bareFraction 9 :: ·)
  | '%' :: '-' :: c :: cs => do return (← ofPadded? c) ++ (← ofPattern? cs)
  | '%' :: '0' :: c :: cs => do return (← ofPadded? c) ++ (← ofPattern? cs)
  | '%' :: '_' :: c :: cs => do return (← ofPadded? c) ++ (← ofPattern? cs)
  | '%' :: c :: cs => do return (← ofLetter? c) ++ (← ofPattern? cs)
  | ['%'] => none
  | c :: cs => (ofPattern? cs).map ((if isBlank c then blank else literal c) :: ·)

end PatternItem

namespace Fields

/-- Read a number after white space and store it. -/
def scanNumeral (f : Fields) (role : PatternNumber) (width : Option Nat) : Scan Fields := do
  Scan.blanks
  let n ← Scan.number 1 width
  role.store? f n

/-- Read a year after white space: any number of digits after a sign, and four otherwise. -/
def scanYear (f : Fields) (k : Field) : Scan Fields := do
  Scan.blanks
  if ← Scan.optional '-' then
    let n ← Scan.number 1 none
    f.set? k (-n)
  else if ← Scan.optional '+' then
    let n ← Scan.number 1 none
    f.set? k n
  else
    let n ← Scan.number 1 (some 4)
    f.set? k n

/-- Read white space, a character and a two-digit number. -/
def scanPart (f : Fields) (c : Char) (role : PatternNumber) : Scan Fields := do
  Scan.blanks
  Scan.char c
  f.scanNumeral role (some 2)

/-- Read a date and time that resembles RFC 3339.  White space may stand between the parts, the year
may have a sign, and the letters `UTC` may stand for the offset. -/
def scanLooseInternet (f : Fields) : Scan Fields := do
  let f ← f.scanYear .year
  let f ← f.scanPart '-' (.field .month)
  let f ← f.scanPart '-' (.field .day)
  let _ ← Scan.satisfying fun c => c == 'T' || c == 't' || c == ' '
  let f ← f.scanNumeral .hour (some 2)
  let f ← f.scanPart ':' (.field .minute)
  let f ← f.scanPart ':' (.field .second)
  let f ← f.scanFraction
  Scan.blanks
  let offset ← (do Scan.word ['u', 't', 'c']; return 0) <|>
    Scan.offsetOrZulu Scan.colonsOrBlanks false
  f.set? .offset offset

/-- Read a fraction of exactly `width` digits. -/
def scanFixedFraction (f : Fields) (width : Nat) : Scan Fields := do
  let n ← Scan.fixedFraction width
  f.set? .nanosecond n

/-- Read an item of a pattern. -/
def scanItem (f : Fields) : PatternItem → Scan Fields
  | .literal c => do
    Scan.char c
    return f
  | .blank => do
    Scan.blanks
    return f
  | .number role width => f.scanNumeral role width
  | .signedYear k => f.scanYear k
  | .monthName long => do
    let n ← Scan.name Scan.months long
    f.set? .month (n + 1)
  | .weekdayName long => do
    let n ← Scan.name Scan.weekdays long
    f.set? .weekday n
  | .half => do
    let n ← Scan.name Scan.halves false
    f.set? .halfDay n
  | .fraction => f.scanFraction
  | .fixedFraction width => do
    if ← Scan.optional '.' then f.scanFixedFraction width else return f
  | .bareFraction width => f.scanFixedFraction width
  | .zoneName => do
    Scan.skipWhile fun c => !isBlank c
    return f
  | .offset => do
    Scan.blanks
    let n ← Scan.offset Scan.colonsOrBlanks false
    f.set? .offset n
  | .looseOffset => do
    Scan.blanks
    let n ← Scan.offsetOrZulu Scan.colonsOrBlanks true
    f.set? .offset n
  | .internet => f.scanLooseInternet

/-- The fields that a text gives when it is read against the items of a pattern. -/
def ofItems? (items : List PatternItem) (text : List Char) : Option Fields :=
  Scan.whole? (items.foldlM scanItem empty) text

/-- The fields that a text gives when it is read against a pattern. -/
def ofPattern? (pattern text : String) : Option Fields := do
  let items ← PatternItem.ofPattern? pattern.toList
  ofItems? items text.toList

end Fields

/-- The timestamp that a text names when it is read against a pattern.  Where the fields determine
no timestamp with an offset, they are read as a date and time of universal time, and where they
determine no time, as midnight of a date. -/
def Timestamp.ofPattern? (pattern text : String) : Option Timestamp := do
  let f ← Fields.ofPattern? pattern text
  f.timestamp? <|> (f.dateTime? 0).map Timestamp.universal <|>
    (f.date?.toOption.map fun d => Timestamp.universal (DateTime.midnight d))

/-! ## Timestamp formats

How the literals of timestamp keys are written: in the format of RFC 3339, or against a pattern.
-/

/-- A way to write timestamps. -/
inductive TimestampFormat where
  | internet
  | pattern (text : String)
  deriving DecidableEq, Repr, Inhabited

namespace TimestampFormat

/-- The timestamp that a literal names. -/
def read? (format : TimestampFormat) (literal : String) : Option Timestamp :=
  match format with
  | internet => Timestamp.ofInternet? literal
  | pattern text => Timestamp.ofPattern? text literal

/-- Whether reading a literal overflows: it names a day of a week in a year that has more than 32
bits.  Such a literal names no timestamp. -/
def overflows (format : TimestampFormat) (literal : String) : Bool :=
  match format with
  | internet => false
  | pattern text => (Fields.ofPattern? text literal).any Fields.overflows

/-- The name of a format in messages. -/
def title : TimestampFormat → String
  | internet => "RFC 3339"
  | pattern text => "`" ++ text ++ "`"

/-- The format with an optional pattern. -/
def ofPattern? : Option String → TimestampFormat
  | some text => pattern text
  | none => internet

end TimestampFormat

end QueryFilter
