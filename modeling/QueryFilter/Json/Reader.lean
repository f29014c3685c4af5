import QueryFilter.Json.Text

/-!
# Readers of single values

Numbers are read for messages only.  The other values have readers, which take a value of a known
shape from the front of a text.
-/

namespace QueryFilter

/-! ## Numbers

`readNumber` tells what a number is, for the message that it does not belong where it stands, and
`skipNumber` passes over one.  A number that fits into 64 bits is an integer; any other one, and
minus zero, is a floating-point number.  Its digits are taken as long as they fit into 64 bits, and
it is scaled by powers of ten of at most 308, with a rounding at each step.
-/

namespace Json

/-- The greatest unsigned number of 64 bits. -/
def maxWord : Nat := wordCount - 1

/-- The greatest exponent that is kept. -/
def maxExponent : Nat := 0x7fffffff

/-- The number that `n` and the digits after it spell, as long as it stays within a limit, and what
follows those digits. -/
def accumulate (limit n : Nat) : List Char → Nat × List Char
  | [] => (n, [])
  | c :: s =>
    let m := 10 * n + (c.toNat - '0'.toNat)
    if c.isDigit ∧ m ≤ limit then accumulate limit m s else (n, c :: s)

/-- A power of ten as a floating-point number. -/
def powerOfTen (e : Nat) : Float :=
  floatOfBits false (Binary64.ofDecimal ⟨1, e⟩)

/-- Divide by a power of ten, by at most 308 at a time. -/
def divideByPower (x : Float) (e : Nat) : Float :=
  if e ≤ 308 then x / powerOfTen e
  else if x == 0 then x
  else divideByPower (x / powerOfTen 308) (e - 308)
termination_by e
decreasing_by omega

/-- A number with a sign, digits and an exponent. -/
def scaled (negative : Bool) (digits : Nat) (exponent : Int) : Except Fault Found :=
  let x := floatOfBits false (Binary64.nearestBits digits 1)
  let signed := fun y : Float => if negative then -y else y
  if exponent < 0 then .ok (.float (signed (divideByPower x exponent.natAbs)))
  else if 308 < exponent then
    if digits = 0 then .ok (.float (signed x)) else .error .numberOutOfRange
  else
    let y := x * powerOfTen exponent.natAbs
    if y.isInf then .error .numberOutOfRange else .ok (.float (signed y))

/-- Whether an exponent is negative, and its digits. -/
def exponentSign : List Char → Bool × List Char
  | '-' :: s => (true, s)
  | '+' :: s => (false, s)
  | s => (false, s)

/-- A number from its exponent on, after the letter. -/
def readExponent (negative : Bool) (digits : Nat) (exponent : Int) (s : List Char) :
    Except Fault Found :=
  match exponentSign s with
  | (_, []) => .error (.ended .value)
  | (down, c :: t) =>
    if !c.isDigit then .error .invalidNumber
    else
      let (n, rest) := accumulate maxExponent 0 (c :: t)
      if !(rest.head?.any Char.isDigit) then
        scaled negative digits (exponent + if down then -(n : Int) else n)
      else if digits ≠ 0 ∧ !down then .error .numberOutOfRange
      else scaled negative 0 0

/-- A number from what follows its last digit on: an exponent, or nothing that belongs to it. -/
def readTail (negative : Bool) (digits : Nat) (exponent : Int) (s : List Char) :
    Except Fault Found :=
  match s with
  | c :: rest =>
    if c = 'e' ∨ c = 'E' then readExponent negative digits exponent rest
    else scaled negative digits exponent
  | [] => scaled negative digits exponent

/-- A number from its fraction on, after the point. -/
def readFraction (negative : Bool) (digits : Nat) (exponent : Int) (s : List Char) :
    Except Fault Found :=
  match s with
  | [] => .error (.ended .value)
  | c :: _ =>
    if !c.isDigit then .error .invalidNumber
    else
      let (n, rest) := accumulate maxWord digits s
      readTail negative n (exponent - (s.length - rest.length : Nat)) (rest.dropWhile Char.isDigit)

/-- A number whose whole part has more digits than fit. -/
def readLong (negative : Bool) (digits : Nat) (s : List Char) : Except Fault Found :=
  let exponent := (s.takeWhile Char.isDigit).length
  match s.dropWhile Char.isDigit with
  | '.' :: rest => readFraction negative digits exponent rest
  | rest => readTail negative digits exponent rest

/-- A whole number. -/
def wholeNumber (negative : Bool) (n : Nat) : Found :=
  if !negative then .integer n
  else if n = 0 ∨ 0x8000000000000000 < n then
    .float (-(floatOfBits false (Binary64.nearestBits n 1)))
  else .integer (-(n : Int))

/-- What a number without its sign is. -/
def readUnsigned (negative : Bool) (s : List Char) : Except Fault Found :=
  match s with
  | [] => .error (.ended .value)
  | c :: rest =>
    if !c.isDigit || (c == '0' && rest.head?.any Char.isDigit) then .error .invalidNumber
    else
      match accumulate maxWord 0 s with
      | (n, '.' :: rest) => readFraction negative n 0 rest
      | (n, d :: rest) =>
        if d.isDigit then readLong negative n (d :: rest)
        else if d = 'e' ∨ d = 'E' then readExponent negative n 0 rest
        else .ok (wholeNumber negative n)
      | (n, []) => .ok (wholeNumber negative n)

/-- What a number is. -/
def readNumber : List Char → Except Fault Found
  | '-' :: s => readUnsigned true s
  | s => readUnsigned false s

/-! ### Numbers that are passed over -/

/-- What follows a run of digits, of which there must be at least one. -/
def skipDigits (s : List Char) : Except Fault (List Char) :=
  if s.head?.any Char.isDigit then .ok (s.dropWhile Char.isDigit) else .error .invalidNumber

/-- What follows an exponent, if there is one. -/
def skipExponent : List Char → Except Fault (List Char)
  | [] => .ok []
  | c :: s => if c = 'e' ∨ c = 'E' then skipDigits (exponentSign s).2 else .ok (c :: s)

/-- What follows a fraction and an exponent, if there are any. -/
def skipParts : List Char → Except Fault (List Char)
  | '.' :: s => (skipDigits s).bind skipExponent
  | s => skipExponent s

/-- What follows a number without its sign. -/
def skipUnsigned : List Char → Except Fault (List Char)
  | '0' :: s => if s.head?.any Char.isDigit then .error .invalidNumber else skipParts s
  | s => (skipDigits s).bind skipParts

/-- What follows a number. -/
def skipNumber : List Char → Except Fault (List Char)
  | '-' :: s => skipUnsigned s
  | s => skipUnsigned s

theorem exponentSign_length (s : List Char) : (exponentSign s).2.length ≤ s.length := by
  unfold exponentSign
  split <;> simp

theorem skipDigits_length {s rest : List Char} (h : skipDigits s = .ok rest) :
    rest.length < s.length := by
  unfold skipDigits at h
  split at h
  · rename_i hd
    obtain rfl := Except.ok.inj h
    cases s with
    | nil => simp at hd
    | cons c s =>
      have hc : c.isDigit = true := by simpa using hd
      have := (List.dropWhile_suffix (l := s) Char.isDigit).length_le
      simp only [List.dropWhile_cons, hc, if_true, List.length_cons]
      omega
  · contradiction

theorem skipExponent_length {s rest : List Char} (h : skipExponent s = .ok rest) :
    rest.length ≤ s.length := by
  unfold skipExponent at h
  split at h
  · simp_all
  · rename_i c s
    split at h
    · have := skipDigits_length h
      have := exponentSign_length s
      simp only [List.length_cons]
      omega
    · simp_all

theorem skipDigits_bind_length {read : List Char → Except Fault (List Char)}
    (hread : ∀ {s rest}, read s = .ok rest → rest.length ≤ s.length) {s rest : List Char}
    (h : (skipDigits s).bind read = .ok rest) : rest.length < s.length := by
  match hs : skipDigits s with
  | .error e => simp [hs, Except.bind] at h
  | .ok t =>
    simp only [hs, Except.bind] at h
    have := skipDigits_length hs
    have := hread h
    omega

theorem skipParts_length {s rest : List Char} (h : skipParts s = .ok rest) :
    rest.length ≤ s.length := by
  unfold skipParts at h
  split at h
  · have := skipDigits_bind_length skipExponent_length h
    simp only [List.length_cons]
    omega
  · exact skipExponent_length h

theorem skipUnsigned_length {s rest : List Char} (h : skipUnsigned s = .ok rest) :
    rest.length < s.length := by
  unfold skipUnsigned at h
  split at h
  · split at h
    · contradiction
    · have := skipParts_length h
      simp only [List.length_cons]
      omega
  · exact skipDigits_bind_length skipParts_length h

/-- At least one character belongs to a number. -/
theorem skipNumber_length {s rest : List Char} (h : skipNumber s = .ok rest) :
    rest.length < s.length := by
  unfold skipNumber at h
  split at h
  · have := skipUnsigned_length h
    simp only [List.length_cons]
    omega
  · exact skipUnsigned_length h

end Json

/-! ## Readers

A reader takes a value of a known shape from the front of a JSON text and leaves the rest.  At least
one character belongs to each value, so that readers can be repeated until the text is used up; this
law is a part of the type.

The readers here are those of single values, from which readers of brackets can be built.
-/

namespace Json

/-- Whether a character may stand between the parts of a text. -/
def isSpace (c : Char) : Bool :=
  c == ' ' || c == '\n' || c == '\t' || c == '\r'

/-- The text without the blanks in front. -/
def skipBlanks (s : List Char) : List Char :=
  s.dropWhile isSpace

theorem skipBlanks_length (s : List Char) : (skipBlanks s).length ≤ s.length :=
  (List.dropWhile_suffix isSpace).length_le

/-- A text that begins with no blank is left as it is. -/
theorem skipBlanks_cons {c : Char} (s : List Char) (h : isSpace c = false) :
    skipBlanks (c :: s) = c :: s := by
  simp [skipBlanks, h]

theorem length_of_skipBlanks {s t : List Char} {c : Char} (h : skipBlanks s = c :: t) :
    t.length < s.length := by
  have := skipBlanks_length s
  rw [h, List.length_cons] at this
  omega

/-- The rest of a constant whose first letter has been read. -/
def readConstant : List Char → List Char → Except Fault (List Char)
  | [], s => .ok s
  | _ :: _, [] => .error (.ended .value)
  | l :: ls, c :: s => if c = l then readConstant ls s else .error .expectedConstant

theorem readConstant_length {letters s rest : List Char} (h : readConstant letters s = .ok rest) :
    rest.length ≤ s.length := by
  fun_induction readConstant letters s with
  | case1 => simp_all
  | case2 => contradiction
  | case3 _ _ _ ih =>
    have := ih h
    simp only [List.length_cons]
    omega
  | case4 => contradiction

/-- What the value at the front of a text is. -/
def found : List Char → Except Fault Found
  | [] => .error (.ended .value)
  | 'n' :: s => (readConstant ['u', 'l', 'l'] s).map fun _ => .null
  | 't' :: s => (readConstant ['r', 'u', 'e'] s).map fun _ => .boolean true
  | 'f' :: s => (readConstant ['a', 'l', 's', 'e'] s).map fun _ => .boolean false
  | '"' :: s => (readText s).map fun (cs, _) => .string (String.ofList cs)
  | '[' :: _ => .ok .sequence
  | '{' :: _ => .ok .map
  | c :: s => if c = '-' ∨ c.isDigit then readNumber (c :: s) else .error .expectedValue

/-- The fault of a value that is not the expected one. -/
def mismatch (expected : String) (s : List Char) : Fault :=
  match found s with
  | .ok value => .invalidType value expected
  | .error e => e

/-- The text of an object with a single member, from the quote that opens its name. -/
def openName (s : List Char) : Except Fault (List Char) :=
  match skipBlanks s with
  | [] => .error (.ended .object)
  | '"' :: t => .ok ('"' :: t)
  | '}' :: _ => .error .expectedValue
  | _ => .error .keyNotString

theorem openName_length {s t : List Char} (h : openName s = .ok t) : t.length ≤ s.length := by
  have := skipBlanks_length s
  unfold openName at h
  split at h
  · contradiction
  · rename_i u hs
    obtain rfl := Except.ok.inj h
    rwa [hs] at this
  · contradiction
  · contradiction

/-- What follows the colon between a name and its value. -/
def readColon (s : List Char) : Except Fault (List Char) :=
  match skipBlanks s with
  | [] => .error (.ended .object)
  | ':' :: rest => .ok rest
  | _ => .error .expectedColon

theorem readColon_length {s rest : List Char} (h : readColon s = .ok rest) :
    rest.length < s.length := by
  unfold readColon at h
  split at h
  · contradiction
  · rename_i t hs
    obtain rfl := Except.ok.inj h
    exact length_of_skipBlanks hs
  · contradiction

/-- What follows the brace that closes an object with a single member. -/
def readObjectEnd (s : List Char) : Except Fault (List Char) :=
  match skipBlanks s with
  | [] => .error (.ended .object)
  | '}' :: rest => .ok rest
  | _ => .error .expectedValue

theorem readObjectEnd_length {s rest : List Char} (h : readObjectEnd s = .ok rest) :
    rest.length < s.length := by
  unfold readObjectEnd at h
  split at h
  · contradiction
  · rename_i t hs
    obtain rfl := Except.ok.inj h
    exact length_of_skipBlanks hs
  · contradiction

/-- A way to read values of some shape, each of at least one character. -/
structure Reader (α : Type) where
  /-- The value at the front of a text, and what follows it. -/
  read : List Char → Except Fault (α × List Char)
  read_length : ∀ {s a rest}, read s = .ok (a, rest) → rest.length < s.length

theorem bind_eq_ok_iff {ε α β : Type} {x : Except ε α} {f : α → Except ε β} {b : β} :
    x.bind f = .ok b ↔ ∃ a, x = .ok a ∧ f a = .ok b := by
  cases x <;> simp [Except.bind]

theorem map_eq_ok_iff {ε α β : Type} {x : Except ε α} {f : α → β} {b : β} :
    x.map f = .ok b ↔ ∃ a, x = .ok a ∧ f a = b := by
  cases x <;> simp [Except.map]

theorem readText_length {s cs rest : List Char} (h : readText s = .ok (cs, rest)) :
    rest.length < s.length := by
  fun_induction readText s generalizing cs rest with
  | case1 => contradiction
  | case2 => simp_all
  | case3 => contradiction
  | case4 s c t _ hlt ih =>
    obtain ⟨⟨ds, u⟩, hu, he⟩ := map_eq_ok_iff.1 h
    obtain ⟨-, rfl⟩ := Prod.mk.inj he
    have := ih hu
    simp only [List.length_cons]
    omega
  | case5 => contradiction
  | case6 c s _ _ _ ih =>
    obtain ⟨⟨ds, u⟩, hu, he⟩ := map_eq_ok_iff.1 h
    obtain ⟨-, rfl⟩ := Prod.mk.inj he
    have := ih hu
    simp only [List.length_cons]
    omega

theorem skipText_length {s rest : List Char} (h : skipText s = .ok rest) :
    rest.length < s.length := by
  fun_induction skipText s with
  | case1 => contradiction
  | case2 => simp_all
  | case3 => contradiction
  | case4 s t _ hlt ih =>
    have := ih h
    simp only [List.length_cons]
    omega
  | case5 => contradiction
  | case6 c s _ _ _ ih =>
    have := ih h
    simp only [List.length_cons]
    omega

namespace Reader

variable {α β : Type}

/-- Read a value and turn it into another one, which may fail. -/
def refine (r : Reader α) (f : α → Except Fault β) : Reader β where
  read s := (r.read s).bind fun (a, rest) => (f a).map fun b => (b, rest)
  read_length h := by
    obtain ⟨⟨a, t⟩, ha, hb⟩ := bind_eq_ok_iff.1 h
    obtain ⟨b, -, he⟩ := map_eq_ok_iff.1 hb
    obtain ⟨-, rfl⟩ := Prod.mk.inj he
    exact r.read_length ha

/-- Read a value and turn it into another one. -/
def map (r : Reader α) (f : α → β) : Reader β where
  read s := (r.read s).map fun (a, rest) => (f a, rest)
  read_length h := by
    obtain ⟨⟨a, t⟩, ha, he⟩ := map_eq_ok_iff.1 h
    obtain ⟨-, rfl⟩ := Prod.mk.inj he
    exact r.read_length ha

/-- A string.  Messages call it by the given name where something else stands. -/
def string (expected : String) : Reader String where
  read s :=
    match skipBlanks s with
    | [] => .error (.ended .value)
    | '"' :: t => (readText t).map fun (cs, rest) => (String.ofList cs, rest)
    | t => .error (mismatch expected t)
  read_length h := by
    split at h
    · contradiction
    · rename_i t hs
      obtain ⟨⟨cs, u⟩, hu, he⟩ := map_eq_ok_iff.1 h
      obtain ⟨-, rfl⟩ := Prod.mk.inj he
      have := length_of_skipBlanks hs
      have := readText_length hu
      omega
    · contradiction

/-- The constant `null`. -/
def null : Reader Unit where
  read s :=
    match skipBlanks s with
    | [] => .error (.ended .value)
    | 'n' :: t => (readConstant ['u', 'l', 'l'] t).map fun rest => ((), rest)
    | t => .error (mismatch "unit" t)
  read_length h := by
    split at h
    · contradiction
    · rename_i t hs
      obtain ⟨u, hu, he⟩ := map_eq_ok_iff.1 h
      obtain ⟨-, rfl⟩ := Prod.mk.inj he
      have := length_of_skipBlanks hs
      have := readConstant_length hu
      omega
    · contradiction

/-- A value, or `null` in its place. -/
def optional (r : Reader α) : Reader (Option α) where
  read s :=
    match skipBlanks s with
    | 'n' :: t => (readConstant ['u', 'l', 'l'] t).map fun rest => (none, rest)
    | _ => (r.read s).map fun (a, rest) => (some a, rest)
  read_length h := by
    split at h
    · rename_i t hs
      obtain ⟨u, hu, he⟩ := map_eq_ok_iff.1 h
      obtain ⟨-, rfl⟩ := Prod.mk.inj he
      have := length_of_skipBlanks hs
      have := readConstant_length hu
      omega
    · obtain ⟨⟨a, u⟩, hu, he⟩ := map_eq_ok_iff.1 h
      obtain ⟨-, rfl⟩ := Prod.mk.inj he
      exact r.read_length hu

/-- The first of some values that has a name. -/
def named (all : List α) (nameOf : α → String) (name : String) : Except Fault α :=
  match all.find? fun a => nameOf a == name with
  | some a => .ok a
  | none => .error (.unknownVariant name (all.map nameOf))

/-- One of some values, given by its name. -/
def ofName (all : List α) (nameOf : α → String) : Reader α :=
  (string "variant identifier").refine (named all nameOf)

/-- One of some values, given by its name, or by an object with the name and `null`. -/
def choice (all : List α) (nameOf : α → String) : Reader α where
  read s :=
    match skipBlanks s with
    | [] => .error (.ended .value)
    | '"' :: _ => (ofName all nameOf).read s
    | '{' :: t =>
      (openName t).bind fun t =>
        ((ofName all nameOf).read t).bind fun (a, t) =>
          (readColon t).bind fun t =>
            (null.read t).bind fun ((), t) => (readObjectEnd t).map fun rest => (a, rest)
    | _ => .error .expectedValue
  read_length h := by
    split at h
    · contradiction
    · exact (ofName all nameOf).read_length h
    · rename_i t hs
      obtain ⟨t₀, h₀, h⟩ := bind_eq_ok_iff.1 h
      obtain ⟨⟨a, t₁⟩, h₁, h⟩ := bind_eq_ok_iff.1 h
      obtain ⟨t₂, h₂, h⟩ := bind_eq_ok_iff.1 h
      obtain ⟨⟨⟨⟩, t₃⟩, h₃, h⟩ := bind_eq_ok_iff.1 h
      obtain ⟨t₄, h₄, he⟩ := map_eq_ok_iff.1 h
      obtain ⟨-, rfl⟩ := Prod.mk.inj he
      have := length_of_skipBlanks hs
      have := openName_length h₀
      have := (ofName all nameOf).read_length h₁
      have := readColon_length h₂
      have := null.read_length h₃
      have := readObjectEnd_length h₄
      omega
    · contradiction

/-- The value of a whole text.  Only blanks may follow it. -/
def parse (r : Reader α) (text : String) : Except Fault α :=
  (r.read text.toList).bind fun (a, rest) =>
    if skipBlanks rest = [] then .ok a else .error .trailingCharacters

end Reader

end Json

end QueryFilter
