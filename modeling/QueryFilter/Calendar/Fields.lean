import QueryFilter.Numeral

/-!
# Dates, timestamps and their fields

The calendar: days and instants, and how the fields that a text gives of a date and a time determine
them.
-/

namespace QueryFilter

/-! ## Dates

Days of the Gregorian calendar, extended without limit in both directions and counted from
1970-01-01.  The year, the day of the year, the month and the weekday are functions of that count.
Weekdays are numbered from Monday, which is `0`.

`Date.inRange` bounds the dates that the library accepts: the years `-262143` to `262142`.
-/

/-- Every fourth year is a leap year, except the centuries that 400 does not divide. -/
def isLeapYear (year : Int) : Bool :=
  year % 4 == 0 && (year % 100 != 0 || year % 400 == 0)

/-- The number of days of a year. -/
def daysInYear (year : Int) : Nat :=
  if isLeapYear year then 366 else 365

/-- The days of each month of a year. -/
def monthLengths (year : Int) : List Nat :=
  [31, if isLeapYear year then 29 else 28, 31, 30, 31, 30, 31, 31, 30, 31, 30, 31]

/-- The days of a year before a month. -/
def daysBeforeMonth (year : Int) (month : Nat) : Nat :=
  ((monthLengths year).take (month - 1)).foldl (· + ·) 0

/-- The days from 0001-01-01 to the first day of a year. -/
def daysBeforeYear (year : Int) : Int :=
  365 * (year - 1) + (year - 1) / 4 - (year - 1) / 100 + (year - 1) / 400

/-- The days from 0001-01-01 to 1970-01-01. -/
def epochDay : Int := 719162

/-- A day of the calendar. -/
structure Date where
  /-- The number of days since 1970-01-01. -/
  dayNumber : Int
  deriving DecidableEq, Repr, Inhabited

namespace Date

/-- The day of a year with a given ordinal, counted from one. -/
def ofOrdinal (year : Int) (ordinal : Int) : Date :=
  ⟨daysBeforeYear year - epochDay + ordinal - 1⟩

/-- The year of a date, found through the cycles of 400, 100, 4 and 1 years. -/
def year (d : Date) : Int :=
  let n := d.dayNumber + epochDay
  let r₄₀₀ := n % 146097
  let centuries := min (r₄₀₀ / 36524) 3
  let r₁₀₀ := r₄₀₀ - centuries * 36524
  let r₄ := r₁₀₀ % 1461
  400 * (n / 146097) + 100 * centuries + 4 * (r₁₀₀ / 1461) + min (r₄ / 365) 3 + 1

/-- The day of the year, counted from one. -/
def ordinal (d : Date) : Nat :=
  (d.dayNumber + epochDay - daysBeforeYear d.year).toNat + 1

/-- The month of the date: the first one that the day of the year does not pass. -/
def month (d : Date) : Nat :=
  ((List.range 11).filter fun m => daysBeforeMonth d.year (m + 2) < d.ordinal).length + 1

/-- The day of the month. -/
def day (d : Date) : Nat :=
  d.ordinal - daysBeforeMonth d.year d.month

/-- The weekday, as the number of days since Monday. -/
def weekday (d : Date) : Int :=
  (d.dayNumber + 3) % 7

/-- The first of January of a year. -/
def newYear (year : Int) : Date :=
  ofOrdinal year 1

/-- The dates that the library accepts. -/
def inRange (d : Date) : Bool :=
  (newYear (-262143)).dayNumber ≤ d.dayNumber && d.dayNumber < (newYear 262143).dayNumber

/-- The date itself, if it is accepted. -/
def accepted? (d : Date) : Option Date :=
  if d.inRange then some d else none

/-- The date with the given year, month and day of the month. -/
def ofYearMonthDay? (year : Int) (month day : Nat) : Option Date :=
  match (monthLengths year)[month - 1]? with
  | some length =>
    if 1 ≤ month ∧ 1 ≤ day ∧ day ≤ length then
      (ofOrdinal year (daysBeforeMonth year month + day)).accepted?
    else none
  | none => none

/-- The date with the given year and day of the year. -/
def ofYearOrdinal? (year ordinal : Int) : Option Date :=
  if 1 ≤ ordinal ∧ ordinal ≤ daysInYear year then (ofOrdinal year ordinal).accepted? else none

/-! ### Weeks -/

/-- The week of the year, when week one begins with the first day of the year that falls on
`weekStart` and the days before it belong to week zero. -/
def weekOfYear (weekStart : Int) (d : Date) : Int :=
  (d.ordinal - (d.weekday - weekStart) % 7 + 6) / 7

/-- The date with the given year, week of the year and weekday. -/
def ofYearWeek? (weekStart year week weekday : Int) : Option Date :=
  let firstWeek := 1 + (weekStart - (newYear year).weekday) % 7
  ofYearOrdinal? year (firstWeek + (week - 1) * 7 + (weekday - weekStart) % 7)

/-- The Monday of the week that holds the fourth of January, with which the weeks of a year begin in
the calendar of numbered weeks. -/
def firstMonday (isoYear : Int) : Int :=
  let fourth := ofOrdinal isoYear 4
  fourth.dayNumber - fourth.weekday

/-- The year to which the week of a date belongs: the year of its Thursday. -/
def isoYear (d : Date) : Int :=
  year ⟨d.dayNumber - d.weekday + 3⟩

/-- The number of the week to which a date belongs. -/
def isoWeek (d : Date) : Int :=
  (d.dayNumber - firstMonday d.isoYear) / 7 + 1

/-- The date with the given year, numbered week and weekday, accepted or not. -/
def ofIsoWeek? (isoYear week weekday : Int) : Option Date :=
  let monday := firstMonday isoYear + (week - 1) * 7
  if 1 ≤ week ∧ monday < firstMonday (isoYear + 1) then some ⟨monday + weekday⟩ else none

/-- The quarter of the year, from one to four. -/
def quarter (d : Date) : Nat :=
  (d.month - 1) / 3 + 1

end Date

/-! ## Timestamps

A timestamp is an instant of universal time together with an offset in seconds, which only says how
the instant is shown.  Two timestamps are equal when their instants are.

Within an instant, nanoseconds from `10 ^ 9` on belong to a leap second: they follow the second that
is counted, and the second is shown as one more.
-/

/-- A date and a time of day. -/
structure DateTime where
  date : Date
  /-- The seconds since midnight. -/
  second : Nat
  /-- The nanoseconds within the second; `10 ^ 9` and more in a leap second. -/
  nano : Nat
  deriving DecidableEq, Repr, Inhabited

namespace DateTime

/-- The seconds since 1970-01-01 at midnight. -/
def seconds (t : DateTime) : Int :=
  t.date.dayNumber * 86400 + t.second

/-- The date and time a number of seconds after 1970-01-01 at midnight. -/
def ofSeconds (seconds : Int) (nano : Nat) : DateTime :=
  ⟨⟨seconds / 86400⟩, (seconds % 86400).toNat, nano⟩

/-- The date and time a number of seconds later.  A leap second stays one. -/
def shift (t : DateTime) (seconds : Int) : DateTime :=
  ofSeconds (t.seconds + seconds) t.nano

/-- Midnight of a date. -/
def midnight (d : Date) : DateTime :=
  ⟨d, 0, 0⟩

end DateTime

/-- An instant, shown at an offset from universal time. -/
structure Timestamp where
  /-- The instant, as date and time of universal time. -/
  instant : DateTime
  /-- The seconds by which the clock that shows the instant is ahead. -/
  offset : Int
  deriving DecidableEq, Repr, Inhabited

namespace Timestamp

/-- Timestamps are compared by their instants. -/
instance : BEq Timestamp where
  beq s t := s.instant == t.instant

/-- The date and time that a clock at the offset shows. -/
def clock (t : Timestamp) : DateTime :=
  t.instant.shift t.offset

/-- The timestamp whose clock shows a date and time, if its instant has an accepted date. -/
def ofClock? (clock : DateTime) (offset : Int) : Option Timestamp :=
  let instant := clock.shift (-offset)
  if instant.date.inRange then some ⟨instant, offset⟩ else none

/-- The timestamp of a date and time of universal time. -/
def universal (instant : DateTime) : Timestamp :=
  ⟨instant, 0⟩

/-! ### Text -/

/-- The digits of a number, with zeros in front up to a width. -/
def padded (width n : Nat) : List Char :=
  List.replicate (width - (digits n).length) '0' ++ digits n

/-- A year: four digits at least, and a sign unless it lies between 0 and 9999. -/
def yearText (year : Int) : List Char :=
  if 0 ≤ year ∧ year ≤ 9999 then padded 4 year.natAbs
  else (if year < 0 then '-' else '+') :: padded 4 year.natAbs

/-- A date as year, month and day. -/
def dateText (d : Date) : List Char :=
  yearText d.year ++ '-' :: padded 2 d.month ++ '-' :: padded 2 d.day

/-- A time of day as hour, minute and second; a leap second counts one more. -/
def timeText (t : DateTime) : List Char :=
  padded 2 (t.second / 3600) ++ ':' :: padded 2 (t.second / 60 % 60) ++
    ':' :: padded 2 (t.second % 60 + t.nano / 1000000000)

/-- The fraction of a second: nothing, or the fewest of three, six and nine digits that suffice. -/
def fractionText (nano : Nat) : List Char :=
  let n := nano % 1000000000
  if n = 0 then []
  else if n % 1000000 = 0 then '.' :: padded 3 (n / 1000000)
  else if n % 1000 = 0 then '.' :: padded 6 (n / 1000)
  else '.' :: padded 9 n

/-- An offset as signed hours and minutes. -/
def offsetText (offset : Int) : List Char :=
  let minutes := offset.natAbs / 60
  (if offset < 0 then '-' else '+') :: padded 2 (minutes / 60) ++ ':' :: padded 2 (minutes % 60)

/-- The text of a timestamp in the format of RFC 3339. -/
def text (t : Timestamp) : String :=
  let c := t.clock
  String.ofList
    (dateText c.date ++ 'T' :: timeText c ++ fractionText c.nano ++ offsetText t.offset)

/-- The text of a timestamp inside a statement: microseconds are always shown, and the parts are
separated by blanks. -/
def statementText (t : Timestamp) : String :=
  let c := t.clock
  String.ofList
    (dateText c.date ++ ' ' :: timeText c ++ '.' :: padded 6 (c.nano % 1000000000 / 1000) ++
      ' ' :: offsetText t.offset)

end Timestamp

/-! ## Fields of a date

What a text says about a date and a time is a collection of fields: a year, a month, a weekday, the
seconds since 1970 and so on.  A field has a range and is given one value; a second value has to
agree with the first.

`Fields.date?`, `Fields.time?` and `Fields.dateTime?` find the date and the time that the fields
determine.  They distinguish fields that are missing from fields that contradict one another or name
no date, since missing ones can be made up for by the seconds since 1970.  A week can reach into a
year that is no year of 32 bits, and then reading the fields overflows.
-/

/-- A part of a date or a time. -/
inductive Field where
  | year
  | century
  | yearOfCentury
  | isoYear
  | isoYearOfCentury
  | quarter
  | month
  | day
  | weekFromSunday
  | weekFromMonday
  | isoWeek
  | weekday
  | ordinal
  | halfDay
  | hourOfHalf
  | minute
  | second
  | nanosecond
  | unixTime
  | offset
  deriving DecidableEq, Repr

namespace Field

/-- The least and the greatest value of a field. -/
def range : Field → Int × Int
  | year | isoYear | offset => (-0x80000000, 0x7fffffff)
  | century | yearOfCentury | isoYearOfCentury => (0, 99)
  | quarter => (1, 4)
  | month => (1, 12)
  | day => (1, 31)
  | weekFromSunday | weekFromMonday => (0, 53)
  | isoWeek => (1, 53)
  | weekday => (0, 6)
  | ordinal => (1, 366)
  | halfDay => (0, 1)
  | hourOfHalf => (0, 11)
  | minute => (0, 59)
  | second => (0, 60)
  | nanosecond => (0, 999999999)
  | unixTime => (-0x8000000000000000, 0x7fffffffffffffff)

/-- Whether a value is one of a field. -/
def admits (k : Field) (v : Int) : Bool :=
  k.range.1 ≤ v && v ≤ k.range.2

/-- Whether a date agrees with the value of a field.  Centuries are counted from year zero on. -/
def agrees (k : Field) (v : Int) (d : Date) : Bool :=
  match k with
  | year => d.year == v
  | century => 0 ≤ d.year && d.year / 100 == v
  | yearOfCentury => 0 ≤ d.year && d.year % 100 == v
  | isoYear => d.isoYear == v
  | isoYearOfCentury => 0 ≤ d.isoYear && d.isoYear % 100 == v
  | quarter => (d.quarter : Int) == v
  | month => (d.month : Int) == v
  | day => (d.day : Int) == v
  | weekFromSunday => d.weekOfYear 6 == v
  | weekFromMonday => d.weekOfYear 0 == v
  | isoWeek => d.isoWeek == v
  | weekday => d.weekday == v
  | ordinal => (d.ordinal : Int) == v
  | _ => true

end Field

/-- Why fields determine no date or time. -/
inductive FieldFault where
  /-- A field is needed and not given. -/
  | missing
  /-- The fields contradict one another, or name what does not exist. -/
  | impossible
  /-- The fields name a day of a week, and the year of the day has more than 32 bits. -/
  | overflow
  deriving DecidableEq, Repr

/-- The fields that are given, with their values. -/
structure Fields where
  given : List (Field × Int)
  deriving DecidableEq, Repr

namespace Fields

/-- No fields. -/
def empty : Fields := ⟨[]⟩

/-- The value of a field, if it is given. -/
def get? (f : Fields) (k : Field) : Option Int :=
  (f.given.find? (·.1 = k)).map (·.2)

/-- Give a field a value.  This fails when the field does not admit the value or has another one. -/
def set? (f : Fields) (k : Field) (v : Int) : Option Fields :=
  if k.admits v then
    match f.get? k with
    | some w => if v = w then some f else none
    | none => some ⟨f.given ++ [(k, v)]⟩
  else none

/-- Give an hour of the day, from 0 to 23. -/
def setHour? (f : Fields) (hour : Int) : Option Fields := do
  let f ← f.set? .halfDay (hour / 12)
  f.set? .hourOfHalf (hour % 12)

/-- A value that is needed. -/
def need (f : Fields) (k : Field) : Except FieldFault Int :=
  match f.get? k with
  | some v => .ok v
  | none => .error .missing

/-- A result that has to exist. -/
def possible {α : Type} : Option α → Except FieldFault α
  | some a => .ok a
  | none => .error .impossible

/-! ### Date -/

/-- The year that a full year, a century and a year of the century determine.  A year of the century
alone lies between 1970 and 2069; a century needs it or a full year beside it. -/
def fullYear (full century rest : Option Int) : Except FieldFault (Option Int) :=
  match full, century, rest with
  | full, none, none => .ok full
  | some y, q, r =>
    if 0 ≤ y ∧ q.getD (y / 100) = y / 100 ∧ r.getD (y % 100) = y % 100 then .ok (some y)
    else .error .impossible
  | none, some q, some r => .ok (some (q * 100 + r))
  | none, none, some r => .ok (some (r + if r < 70 then 2000 else 1900))
  | none, some _, none => .error .missing

/-- The date that the fields single out, before the other fields are compared with it.  The ways to
name a date are tried in a fixed order. -/
def candidate (f : Fields) : Except FieldFault Date := do
  let year ← fullYear (f.get? .year) (f.get? .century) (f.get? .yearOfCentury)
  let isoYear ← fullYear (f.get? .isoYear) none (f.get? .isoYearOfCentury)
  match year, f.get? .month, f.get? .day with
  | some y, some m, some d => possible (Date.ofYearMonthDay? y m.toNat d.toNat)
  | _, _, _ =>
  match year, f.get? .ordinal with
  | some y, some n => possible (Date.ofYearOrdinal? y n)
  | _, _ =>
  match year, f.get? .weekFromSunday, f.get? .weekday with
  | some y, some w, some d => possible (Date.ofYearWeek? 6 y w d)
  | _, _, _ =>
  match year, f.get? .weekFromMonday, f.get? .weekday with
  | some y, some w, some d => possible (Date.ofYearWeek? 0 y w d)
  | _, _, _ =>
  match isoYear, f.get? .isoWeek, f.get? .weekday with
  | some y, some w, some d => do
    let date ← possible (Date.ofIsoWeek? y w d)
    if Field.year.admits date.year then possible date.accepted? else .error .overflow
  | _, _, _ => .error .missing

/-- The date that the fields determine. -/
def date? (f : Fields) : Except FieldFault Date := do
  let d ← f.candidate
  if f.given.all fun (k, v) => k.agrees v d then .ok d else .error .impossible

/-- Whether reading the fields overflows. -/
def overflows (f : Fields) : Bool :=
  match f.date? with
  | .error .overflow => true
  | _ => false

/-! ### Time -/

/-- The time of day that the fields determine, on a given date.  The second may be left out, but not
when there are nanoseconds; second 60 is a leap second. -/
def time? (f : Fields) (d : Date) : Except FieldFault DateTime := do
  let half ← f.need .halfDay
  let hour ← f.need .hourOfHalf
  let minute ← f.need .minute
  let nano ← match f.get? .nanosecond with
    | some n => if (f.get? .second).isSome then .ok n else .error .missing
    | none => .ok 0
  let start := (half * 12 + hour) * 3600 + minute * 60
  match (f.get? .second).getD 0 with
  | 60 => .ok ⟨d, (start + 59).toNat, (1000000000 + nano).toNat⟩
  | s => .ok ⟨d, (start + s).toNat, nano.toNat⟩

/-- Whether seconds since 1970 agree with a date and time at an offset.  A leap second may be
counted with the second that follows it. -/
def countsAs (seconds : Int) (t : DateTime) (offset : Int) : Bool :=
  let counted := t.seconds - offset
  seconds == counted || (1000000000 ≤ t.nano && seconds == counted + 1)

/-- Give the fields that follow from a date and time, as far as they are needed to determine it.  A
leap second keeps its own second and comes with the second counted before it. -/
def complete? (f : Fields) (t : DateTime) : Option Fields := do
  let (t, f) ←
    if f.get? .second = some 60 then
      if t.second % 60 = 59 then some (t, f)
      else if t.second % 60 = 0 then some (t.shift (-1), f)
      else none
    else (f.set? .second (t.second % 60 : Nat)).map fun f => (t, f)
  let f ← f.set? .year t.date.year
  let f ← f.set? .ordinal t.date.ordinal
  let f ← f.setHour? (t.second / 3600 : Nat)
  f.set? .minute (t.second / 60 % 60 : Nat)

/-- The date and time on a clock at an offset that the fields determine.  When a field is missing,
the seconds since 1970 make up for it. -/
def dateTime? (f : Fields) (offset : Int) : Option DateTime :=
  let unix := f.get? .unixTime
  let date := f.date?
  let time := f.time? default
  match date, time with
  | .ok d, .ok t =>
    let t := { t with date := d }
    match unix with
    | some s => if countsAs s t offset then some t else none
    | none => some t
  | .error .overflow, _ | .error .impossible, _ | _, .error .impossible => none
  | _, _ => do
    let seconds ← unix
    let t := DateTime.ofSeconds (seconds + offset) 0
    guard t.date.inRange
    let f ← f.complete? t
    let d ← f.date?.toOption
    (f.time? d).toOption

/-- The timestamp that the fields determine.  Without an offset there have to be seconds since 1970,
which are counted in universal time. -/
def timestamp? (f : Fields) : Option Timestamp := do
  let offset ← (f.get? .offset).orElse fun _ => (f.get? .unixTime).map fun _ => 0
  let clock ← f.dateTime? offset
  guard (-86400 < offset ∧ offset < 86400)
  Timestamp.ofClock? clock offset

end Fields

end QueryFilter
