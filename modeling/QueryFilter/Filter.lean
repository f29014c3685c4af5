import QueryFilter.Calendar.Pattern
import QueryFilter.Vocabulary

/-!
# Values and filters

The values that rules compare with, the literals that they are read from, and the filters that keep
the rules.
-/

namespace QueryFilter

/-! ## Values

The values of each scalar type.  Integers are those of 64 bits, floating-point numbers compare as
numbers (so one that is not a number differs from itself), and timestamps compare by their instants.
-/

/-- The values of a scalar type. -/
abbrev ScalarType.Value : ScalarType → Type
  | .integer => Int64
  | .unsignedInteger => UInt64
  | .float => Float
  | .string => String
  | .timestamp => Timestamp

namespace ScalarType

instance (t : ScalarType) : BEq t.Value :=
  match t with
  | .integer => inferInstanceAs (BEq Int64)
  | .unsignedInteger => inferInstanceAs (BEq UInt64)
  | .float => inferInstanceAs (BEq Float)
  | .string => inferInstanceAs (BEq String)
  | .timestamp => inferInstanceAs (BEq Timestamp)

/-- The text of a value: decimal digits, the shortest text of a floating-point number with a
fraction or an exponent, the string itself, or the timestamp in the format of RFC 3339. -/
def text : (t : ScalarType) → t.Value → String
  | .integer, v => int64Text v
  | .unsignedInteger, v => uint64Text v
  | .float, v => FloatStyle.stored.text v
  | .string, v => v
  | .timestamp, v => v.text

end ScalarType

/-! ## Literals

How the text of a value is read as a value of a scalar type, and what the type is called when the
text is none.  Every string is a literal of a string key.
-/

namespace ScalarType

/-- Read a literal as a value of a type. -/
def read? (format : TimestampFormat) : (t : ScalarType) → String → Option t.Value
  | .integer, literal => readInt64? literal
  | .unsignedInteger, literal => readUInt64? literal
  | .float, literal => readFloat? literal
  | .string, literal => some literal
  | .timestamp, literal => format.read? literal

/-- Whether reading a literal as a value of a type overflows. -/
def overflows (format : TimestampFormat) : ScalarType → String → Bool
  | .timestamp, literal => format.overflows literal
  | _, _ => false

/-- What a literal of a type is called in messages. -/
def literalTitle (format : TimestampFormat) : ScalarType → String
  | .timestamp => format.title ++ " timestamp"
  | t => t.title

/-- Read literals in order; of several that are none, the first is given back. -/
def readAll (format : TimestampFormat) (t : ScalarType) : List String → Except String (List t.Value)
  | [] => .ok []
  | literal :: rest =>
    match t.read? format literal with
    | some v => (readAll format t rest).map (v :: ·)
    | none => .error literal

end ScalarType

/-! ## Filters

A filter holds the rules of its keys.  The values of all keys of one type lie side by side in an
arena, and a rule refers to its values by a range of positions in the arena of its key's type.

`Filter.add` appends one rule.  It puts the values at the end of the arena, so the positions of
earlier rules stay what they were.  A key keeps the type of its first rule; a rule of another type
is a `TypeClash`.
-/

/-- A half-open range of positions in an arena. -/
structure IndexRange where
  start : Nat
  stop : Nat
  deriving DecidableEq, Repr, Inhabited

/-- The elements of a list at the positions of a range, if all of them exist. -/
def IndexRange.slice? {α : Type} (r : IndexRange) (xs : List α) : Option (List α) :=
  if r.start ≤ r.stop ∧ r.stop ≤ xs.length then some ((xs.take r.stop).drop r.start) else none

/-- A rule as it is stored: a comparator and the positions of its values. -/
structure StoredRule where
  comparator : Comparator
  indices : IndexRange
  deriving DecidableEq, Repr, Inhabited

/-- A rule with its values. -/
structure Rule (t : ScalarType) where
  comparator : Comparator
  values : List t.Value

/-- A key, its type, and its rules in the order of their addition. -/
structure FilterKey where
  name : String
  type : ScalarType
  rules : List StoredRule
  deriving DecidableEq, Repr, Inhabited

/-- The values of a filter, one list for each type. -/
structure Arenas where
  integers : List Int64
  unsigned : List UInt64
  floats : List Float
  strings : List String
  timestamps : List Timestamp
  deriving BEq

namespace Arenas

/-- Arenas without values. -/
def empty : Arenas := ⟨[], [], [], [], []⟩

/-- The arena of a type. -/
def get (a : Arenas) : (t : ScalarType) → List t.Value
  | .integer => a.integers
  | .unsignedInteger => a.unsigned
  | .float => a.floats
  | .string => a.strings
  | .timestamp => a.timestamps

/-- Put values at the end of the arena of their type. -/
def append (a : Arenas) : (t : ScalarType) → List t.Value → Arenas
  | .integer, vs => { a with integers := a.integers ++ vs }
  | .unsignedInteger, vs => { a with unsigned := a.unsigned ++ vs }
  | .float, vs => { a with floats := a.floats ++ vs }
  | .string, vs => { a with strings := a.strings ++ vs }
  | .timestamp, vs => { a with timestamps := a.timestamps ++ vs }

@[simp] theorem get_empty (t : ScalarType) : empty.get t = [] := by
  cases t <;> rfl

@[simp] theorem get_append_self (a : Arenas) (t : ScalarType) (vs : List t.Value) :
    (a.append t vs).get t = a.get t ++ vs := by
  cases t <;> rfl

theorem get_append_of_ne (a : Arenas) {t u : ScalarType} (vs : List t.Value) (h : u ≠ t) :
    (a.append t vs).get u = a.get u := by
  cases t <;> cases u <;> first | exact absurd rfl h | rfl

end Arenas

/-- The keys of a filter, in the order of their first rules, with the values of all their rules. -/
structure Filter where
  keys : List FilterKey
  arenas : Arenas
  deriving BEq

/-- A rule was added to a key of another type. -/
structure TypeClash where
  key : String
  /-- The type of the key. -/
  declared : ScalarType
  /-- The type of the rule. -/
  added : ScalarType
  deriving DecidableEq, Repr

/-- Append a rule to the key of a name, which is created with the given type if there is none. -/
def FilterKey.insert (name : String) (type : ScalarType) (rule : StoredRule) :
    List FilterKey → List FilterKey
  | [] => [⟨name, type, [rule]⟩]
  | k :: ks =>
    if k.name = name then { k with rules := k.rules ++ [rule] } :: ks
    else k :: FilterKey.insert name type rule ks

namespace Filter

/-- The filter without keys. -/
def empty : Filter := ⟨[], .empty⟩

/-- The key of a name. -/
def key? (f : Filter) (name : String) : Option FilterKey :=
  f.keys.find? (·.name = name)

/-- The filter after a rule is added to a key, whatever the type of the key. -/
def append (f : Filter) (name : String) (type : ScalarType) (values : List type.Value)
    (comparator : Comparator) : Filter :=
  let start := (f.arenas.get type).length
  { keys := FilterKey.insert name type ⟨comparator, ⟨start, start + values.length⟩⟩ f.keys
    arenas := f.arenas.append type values }

/-- Add a rule to a key.  A key that does not exist yet is created with the type of the values. -/
def add (f : Filter) (name : String) (type : ScalarType) (values : List type.Value)
    (comparator : Comparator) : Except TypeClash Filter :=
  match f.key? name with
  | some k =>
    if k.type = type then .ok (f.append name type values comparator)
    else .error ⟨name, k.type, type⟩
  | none => .ok (f.append name type values comparator)

/-- The values of a rule, read in the arena of a type.  A rule of another filter may refer to
positions that do not exist here. -/
def values? (f : Filter) (type : ScalarType) (rule : StoredRule) : Option (List type.Value) :=
  rule.indices.slice? (f.arenas.get type)

/-- The rules of a key with their values.  A key that does not exist, or that has another type, has
no rules. -/
def get (f : Filter) (name : String) (type : ScalarType) : List (Rule type) :=
  match f.key? name with
  | some k =>
    if k.type = type then
      k.rules.map fun r => ⟨r.comparator, (f.values? type r).getD []⟩
    else []
  | none => []

/-- The number of keys. -/
def size (f : Filter) : Nat :=
  f.keys.length

/-- Whether there are no keys. -/
def isEmpty (f : Filter) : Bool :=
  f.keys.isEmpty

@[simp] theorem append_keys (f : Filter) (name : String) (type : ScalarType)
    (values : List type.Value) (comparator : Comparator) :
    (f.append name type values comparator).keys =
      FilterKey.insert name type ⟨comparator, ⟨(f.arenas.get type).length,
        (f.arenas.get type).length + values.length⟩⟩ f.keys := rfl

@[simp] theorem append_arenas (f : Filter) (name : String) (type : ScalarType)
    (values : List type.Value) (comparator : Comparator) :
    (f.append name type values comparator).arenas = f.arenas.append type values := rfl

/-- A rule can be added to a key that does not exist or has the type of the rule. -/
theorem add_eq_ok_iff (f : Filter) (name : String) (type : ScalarType) (values : List type.Value)
    (comparator : Comparator) (g : Filter) :
    f.add name type values comparator = .ok g ↔
      (∀ k, f.key? name = some k → k.type = type) ∧ g = f.append name type values comparator := by
  unfold add
  cases h : f.key? name with
  | none => simp [eq_comm]
  | some k =>
    by_cases hk : k.type = type
    · simp [hk, eq_comm]
    · simp [hk]

end Filter

end QueryFilter
