/-!
# Numerals

The texts of numbers: integers in decimal, decimal fractions, and floating-point numbers of 64 bits
with the nearest number that a text names and the shortest text that a number has.
-/

namespace QueryFilter

/-! ## Integers

Decimal texts of integers.  A numeral has at least one digit and may have a sign in front; leading
zeros are allowed, blanks and separators are not.  Reading a fixed-width integer fails when the
number does not fit, and an unsigned integer takes no minus sign, not even before zero.
-/

/-- The decimal digits of a natural number. -/
def digits (n : Nat) : List Char :=
  Nat.toDigits 10 n

/-- The number that a non-empty run of digits spells. -/
def natural? (cs : List Char) : Option Nat :=
  if cs ≠ [] ∧ cs.all Char.isDigit then some (Nat.ofDigitChars 10 cs 0) else none

/-- The number that digits spell after an optional plus sign. -/
def positive? : List Char → Option Nat
  | '+' :: cs => natural? cs
  | cs => natural? cs

/-- The number that digits spell after an optional sign. -/
def integer? : List Char → Option Int
  | '-' :: cs => (natural? cs).map fun n => -(n : Int)
  | cs => (positive? cs).map fun n => (n : Int)

/-- The text of an integer: a minus sign when it is negative, then its digits. -/
def integerText (n : Int) : String :=
  String.ofList (if n < 0 then '-' :: digits n.natAbs else digits n.natAbs)

/-- The number of integers of 64 bits. -/
def wordCount : Nat := 0x10000000000000000

/-- Read a signed 64-bit integer. -/
def readInt64? (text : String) : Option Int64 :=
  match integer? text.toList with
  | some n =>
    if -0x8000000000000000 ≤ n ∧ n < 0x8000000000000000 then some (Int64.ofInt n) else none
  | none => none

/-- Read an unsigned 64-bit integer. -/
def readUInt64? (text : String) : Option UInt64 :=
  match positive? text.toList with
  | some n => if n < wordCount then some (UInt64.ofNat n) else none
  | none => none

/-- The text of a signed 64-bit integer. -/
def int64Text (n : Int64) : String :=
  integerText n.toInt

/-- The text of an unsigned 64-bit integer. -/
def uint64Text (n : UInt64) : String :=
  integerText n.toNat

theorem digits_ne_nil (n : Nat) : digits n ≠ [] :=
  Nat.toDigits_ne_nil

/-- Writing a natural number and reading it back changes nothing. -/
@[simp] theorem natural?_digits (n : Nat) : natural? (digits n) = some n := by
  have hall : (digits n).all Char.isDigit = true := by
    rw [List.all_eq_true]
    intro c hc
    exact Nat.isDigit_of_mem_toDigits (by decide) (by decide) hc
  simp [natural?, digits_ne_nil, hall]
  exact Nat.ofDigitChars_toDigits (by decide) (by decide)

/-! ## Decimal fractions

Decimal texts of non-negative numbers with an optional point and an optional exponent.  At least one
digit stands before or after the point; the exponent is `e` or `E` with an integer numeral.
-/

/-- The number `digits * 10 ^ exponent`. -/
structure Decimal where
  digits : Nat
  exponent : Int
  deriving DecidableEq, Repr, Inhabited

namespace Decimal

/-- The exponent written after the digits; nothing at all means zero. -/
def exponent? : List Char → Option Int
  | [] => some 0
  | c :: cs => if c = 'e' ∨ c = 'E' then integer? cs else none

/-- The digits after a point, and what follows them. -/
def fraction : List Char → List Char × List Char
  | '.' :: cs => (cs.takeWhile Char.isDigit, cs.dropWhile Char.isDigit)
  | cs => ([], cs)

/-- Read a decimal numeral. -/
def ofChars? (cs : List Char) : Option Decimal :=
  let whole := cs.takeWhile Char.isDigit
  let (part, rest) := fraction (cs.dropWhile Char.isDigit)
  if whole = [] ∧ part = [] then none
  else
    (exponent? rest).map fun e => ⟨Nat.ofDigitChars 10 (whole ++ part) 0, e - part.length⟩

/-- The same number with no zero at the end of its digits. -/
def trim (d : Decimal) : Decimal :=
  if h : d.digits ≠ 0 ∧ d.digits % 10 = 0 then trim ⟨d.digits / 10, d.exponent + 1⟩ else d
termination_by d.digits
decreasing_by omega

end Decimal

/-! ## Floating-point numbers of 64 bits

The finite values are `mantissa * 2 ^ exponent` with a mantissa below `2 ^ 53` and an exponent from
`-1074` to `971`.  `nearestBits` rounds a quotient of natural numbers to the nearest such value and,
of two that are equally near, to the one with the even mantissa; a quotient past the greatest finite
value goes to infinity.  Everything is computed on natural numbers, so no step loses a digit.
-/

namespace Binary64

/-- The bit that holds the sign. -/
def signBit : Nat := 0x8000000000000000

/-- The least mantissa of a value with all its digits, `2 ^ 52`. -/
def leastMantissa : Nat := 0x10000000000000

/-- The bits of positive infinity.  Smaller patterns are finite, greater ones are not numbers. -/
def infinityBits : Nat := 2047 * leastMantissa

/-- A finite value without its sign: `mantissa * 2 ^ exponent`. -/
structure Magnitude where
  mantissa : Nat
  exponent : Int
  deriving DecidableEq, Repr

/-- The magnitude that a finite bit pattern stands for. -/
def magnitude (bits : Nat) : Magnitude :=
  if bits / leastMantissa = 0 then ⟨bits, -1074⟩
  else ⟨leastMantissa + bits % leastMantissa, (bits / leastMantissa : Nat) - 1075⟩

/-- The exponent `e` with `2 ^ e ≤ num / den < 2 ^ (e + 1)`. -/
def binaryExponent (num den : Nat) : Int :=
  let e : Int := (Nat.log2 num : Int) - Nat.log2 den
  if den * Nat.pow 2 e.toNat ≤ num * Nat.pow 2 (-e).toNat then e else e - 1

/-- Divide and round to the nearest natural number, a tie to the even one. -/
def roundDiv (num den : Nat) : Nat :=
  let q := num / den
  let r := num % den
  if 2 * r < den then q
  else if 2 * r = den then q + q % 2
  else q + 1

/-- The bits of the value nearest to `num / den`. -/
def nearestBits (num den : Nat) : Nat :=
  if num = 0 then 0
  else
    let q := max (binaryExponent num den - 52) (-1074)
    min ((q + 1074).toNat * leastMantissa +
        roundDiv (num * Nat.pow 2 (-q).toNat) (den * Nat.pow 2 q.toNat))
      infinityBits

/-- The bits of the value nearest to a decimal.  A number of more than 310 places before the point
is past every finite value, and one with more than 330 zeros after the point is nearest to zero. -/
def ofDecimal (d : Decimal) : Nat :=
  let places := (QueryFilter.digits d.digits).length + d.exponent
  if d.digits = 0 ∨ places < -330 then 0
  else if 310 < places then infinityBits
  else nearestBits (d.digits * Nat.pow 10 d.exponent.toNat) (Nat.pow 10 (-d.exponent).toNat)

end Binary64

/-- The floating-point number with a sign and the bits of a magnitude. -/
def floatOfBits (negative : Bool) (bits : Nat) : Float :=
  Float.ofBits (UInt64.ofNat (if negative then Binary64.signBit + bits else bits))

/-- The unsigned part of a floating-point numeral: a decimal, or a name in either case. -/
def floatBits? (cs : List Char) : Option Nat :=
  match cs.map Char.toLower with
  | ['i', 'n', 'f'] => some Binary64.infinityBits
  | ['i', 'n', 'f', 'i', 'n', 'i', 't', 'y'] => some Binary64.infinityBits
  | ['n', 'a', 'n'] => some (Binary64.infinityBits + Binary64.leastMantissa / 2)
  | _ => (Decimal.ofChars? cs).map Binary64.ofDecimal

/-- Read a floating-point number: an optional sign, then a decimal or a name. -/
def readFloat? (text : String) : Option Float :=
  match text.toList with
  | '-' :: cs => (floatBits? cs).map (floatOfBits true)
  | '+' :: cs => (floatBits? cs).map (floatOfBits false)
  | cs => (floatBits? cs).map (floatOfBits false)

/-! ## Shortest texts of floating-point numbers

The text of a floating-point number has the fewest digits that read back as that number, and among
those the nearest; a `Tie` says which of two equally near ones.  The numbers that read back form an
interval around the value, reaching half way to its neighbours; the ends belong to it when the
mantissa is even.  For each count of digits it is enough to try the two decimals next to the value.

A `FloatStyle` says which digits are chosen and how they are laid out: where a tie goes, which
numbers are written without an exponent, whether whole numbers keep a fraction, and whether an
exponent that is not negative shows its sign.
-/

/-- Which of two neighbouring whole numbers is taken for the point half way between them. -/
inductive Tie where
  | upward
  | toEven

namespace Tie

/-- Whether the point half way between `below` and `below + 1` goes to the greater one. -/
def isUpward (tie : Tie) (below : Nat) : Bool :=
  match tie with
  | upward => true
  | toEven => below % 2 == 1

end Tie

namespace Binary64

/-- The least `k` with `num / den < 10 ^ k`, for a quotient that is no negative power of ten. -/
def decimalPlaces (num den : Nat) : Int :=
  if den ≤ num then (digits (num / den)).length else 1 - ((digits (den / num)).length : Int)

/-- The decimals that read back as a given value, as an interval of quotients `x / unit`. -/
structure Interval where
  low : Nat
  value : Nat
  high : Nat
  unit : Nat
  /-- Whether the ends belong to the interval. -/
  closed : Bool

/-- The interval of a positive finite value.  Below a power of two the gap is half as wide. -/
def interval (bits : Nat) : Interval :=
  let v := magnitude bits
  let scale := Nat.pow 2 (v.exponent - 2).toNat
  { low := (if v.mantissa = leastMantissa then 4 * v.mantissa - 1 else 4 * v.mantissa - 2) * scale
    value := 4 * v.mantissa * scale
    high := (4 * v.mantissa + 2) * scale
    unit := Nat.pow 2 (2 - v.exponent).toNat
    closed := v.mantissa % 2 == 0 }

/-- Whether `num / den` lies in the interval. -/
def Interval.holds (i : Interval) (num den : Nat) : Bool :=
  if i.closed then i.low * den ≤ num * i.unit && num * i.unit ≤ i.high * den
  else i.low * den < num * i.unit && num * i.unit < i.high * den

/-- The decimal on the grid `10 ^ exponent` next to the value, if one lies in the interval. -/
def Interval.onGrid? (i : Interval) (tie : Tie) (exponent : Int) : Option Decimal :=
  let num := Nat.pow 10 exponent.toNat
  let den := Nat.pow 10 (-exponent).toNat
  let below := i.value * den / (i.unit * num)
  let above := below + 1
  let lower := i.holds (below * num) den
  let upper := i.holds (above * num) den
  let halfWay := (2 * below + 1) * num * i.unit
  let twice := 2 * i.value * den
  let nearUpper := halfWay < twice || (halfWay == twice && tie.isUpward below)
  if upper && (!lower || nearUpper) then some ⟨above, exponent⟩
  else if lower then some ⟨below, exponent⟩
  else none

/-- The shortest decimal that reads back as a positive finite value.  Seventeen digits always do. -/
def shortest (tie : Tie) (bits : Nat) : Decimal :=
  let i := interval bits
  let places := decimalPlaces i.value i.unit
  ((List.range 17).findSome? fun (n : Nat) => i.onGrid? tie (places - n - 1)).getD ⟨0, 0⟩ |>.trim

end Binary64

/-- The choice of the digits of a floating-point number, and their layout. -/
structure FloatStyle where
  /-- Which of two equally short and equally near decimals is written. -/
  tie : Tie
  /-- Whether a number with this many places before its point is written without an exponent. -/
  positional : Int → Bool
  /-- Whether a whole number written without an exponent ends in `.0`. -/
  keepsFraction : Bool
  /-- Whether an exponent that is not negative is written with a plus sign. -/
  showsPlus : Bool

namespace FloatStyle

/-- Values as they are stored: positional from `0.0001` up to below `10 ^ 16`, always a fraction or
an exponent. -/
def stored : FloatStyle where
  tie := .upward
  positional places := -3 ≤ places && places ≤ 16
  keepsFraction := true
  showsPlus := false

/-- Values inside a statement: never an exponent, and a fraction only where there is one. -/
def plain : FloatStyle where
  tie := .upward
  positional _ := true
  keepsFraction := false
  showsPlus := false

/-- Numbers in messages about a configuration: positional from `0.00001` up to below `10 ^ 16`, and
elsewhere with the sign of the exponent.  A tie goes to the even digit. -/
def message : FloatStyle where
  tie := .toEven
  positional places := -4 ≤ places && places ≤ 16
  keepsFraction := true
  showsPlus := true

/-- The text of a positive decimal. -/
def layOut (style : FloatStyle) (d : Decimal) : List Char :=
  let ds := digits d.digits
  let places : Int := ds.length + d.exponent
  if style.positional places then
    if places ≤ 0 then '0' :: '.' :: (List.replicate (-places).toNat '0' ++ ds)
    else if places < ds.length then ds.take places.toNat ++ '.' :: ds.drop places.toNat
    else
      ds ++ List.replicate d.exponent.toNat '0' ++ (if style.keepsFraction then ['.', '0'] else [])
  else
    let fraction := if ds.tail = [] then [] else '.' :: ds.tail
    let plus := if style.showsPlus && 1 ≤ places then ['+'] else []
    ds.take 1 ++ fraction ++ 'e' :: (plus ++ (integerText (places - 1)).toList)

/-- The text of a magnitude given by its bits. -/
def magnitudeText (style : FloatStyle) (bits : Nat) : List Char :=
  if bits = 0 then '0' :: (if style.keepsFraction then ['.', '0'] else [])
  else if bits = Binary64.infinityBits then ['i', 'n', 'f']
  else style.layOut (Binary64.shortest style.tie bits)

/-- The text of a floating-point number.  What is not a number has no sign. -/
def text (style : FloatStyle) (x : Float) : String :=
  let bits := x.toBits.toNat
  let size := bits % Binary64.signBit
  if Binary64.infinityBits < size then "NaN"
  else
    let digits := style.magnitudeText size
    String.ofList (if bits < Binary64.signBit then digits else '-' :: digits)

end FloatStyle

end QueryFilter
