/-!
# The vocabulary of rules

The comparators that rules can have, the types that keys can have, and the profiles, which decide
which comparators take lists.
-/

namespace QueryFilter

/-! ## Comparators

The seven ways a rule can compare a column with its values, and the keywords that name them in a
query value.  `like` has two spellings; every other comparator has one.

Only `equals` and `is` test membership in a list, so only they may carry several values.
-/

/-- A comparison between a column and the values of a rule. -/
inductive Comparator where
  | equals
  | lessThan
  | greaterThan
  | lessOrEqual
  | greaterOrEqual
  | like
  | is
  deriving DecidableEq, Repr, Inhabited

namespace Comparator

/-- Every comparator, in the order of declaration. -/
def all : List Comparator :=
  [equals, lessThan, greaterThan, lessOrEqual, greaterOrEqual, like, is]

/-- The comparator that a run of characters spells.  Keywords are lower case and exact. -/
def ofChars? : List Char → Option Comparator
  | ['e', 'q'] => some equals
  | ['l', 't'] => some lessThan
  | ['g', 't'] => some greaterThan
  | ['l', 'e'] => some lessOrEqual
  | ['g', 'e'] => some greaterOrEqual
  | ['l', 'i', 'k', 'e'] => some like
  | ['l', 'k'] => some like
  | ['i', 's'] => some is
  | _ => none

/-- The comparator that a word spells. -/
def ofKeyword? (word : String) : Option Comparator :=
  ofChars? word.toList

/-- The preferred spelling of a comparator. -/
def keyword : Comparator → String
  | equals => "eq"
  | lessThan => "lt"
  | greaterThan => "gt"
  | lessOrEqual => "le"
  | greaterOrEqual => "ge"
  | like => "like"
  | is => "is"

/-- The name of a comparator in messages. -/
def title : Comparator → String
  | equals => "Equals"
  | lessThan => "LessThan"
  | greaterThan => "GreaterThan"
  | lessOrEqual => "LessOrEqual"
  | greaterOrEqual => "GreaterOrEqual"
  | like => "Like"
  | is => "Is"

/-- The name of a comparator in a configuration. -/
def name : Comparator → String
  | equals => "equals"
  | lessThan => "less_than"
  | greaterThan => "greater_than"
  | lessOrEqual => "less_or_equal"
  | greaterOrEqual => "greater_or_equal"
  | like => "like"
  | is => "is"

/-- Membership comparators may carry more than one value. -/
def isMembership : Comparator → Bool
  | equals | is => true
  | _ => false

/-- The preferred spelling reads back. -/
@[simp] theorem ofKeyword?_keyword (c : Comparator) : ofKeyword? c.keyword = some c := by
  cases c <;> simp [ofKeyword?, keyword, ofChars?]

end Comparator

/-! ## Scalar types

The five types a key can have.  The type of a key decides how its literals are decoded and where
their values are kept.
-/

/-- The type of the values of a key. -/
inductive ScalarType where
  | integer
  | unsignedInteger
  | float
  | string
  | timestamp
  deriving DecidableEq, Repr, Inhabited

namespace ScalarType

/-- Every scalar type, in the order of declaration. -/
def all : List ScalarType :=
  [integer, unsignedInteger, float, string, timestamp]

/-- The name of a scalar type in a configuration. -/
def name : ScalarType → String
  | integer => "integer"
  | unsignedInteger => "unsigned_integer"
  | float => "float"
  | string => "string"
  | timestamp => "timestamp"

/-- The name of a scalar type in messages. -/
def title : ScalarType → String
  | integer => "integer"
  | unsignedInteger => "unsigned integer"
  | float => "float"
  | string => "string"
  | timestamp => "timestamp"

end ScalarType

/-! ## Grammar profiles

Which comparators may be followed by a list of values.
-/

/-- A choice of the comparators that take lists. -/
inductive Profile where
  /-- Both membership comparators take lists. -/
  | unified
  /-- Only `is` takes lists. -/
  | strictIs
  deriving DecidableEq, Repr, Inhabited

namespace Profile

/-- Whether a comparator takes a list of values. -/
def acceptsList : Profile → Comparator → Bool
  | unified, c => c.isMembership
  | strictIs, c => c == .is

/-- The name of a profile in a configuration. -/
def name : Profile → String
  | unified => "unified"
  | strictIs => "strict_is"

/-- The comparators that take lists, as messages give them. -/
def listTitle : Profile → String
  | unified => "`eq`/`is`"
  | strictIs => "`is`"

/-- Every profile, in the order of declaration. -/
def all : List Profile :=
  [unified, strictIs]

theorem isMembership_of_acceptsList {p : Profile} {c : Comparator} (h : p.acceptsList c = true) :
    c.isMembership = true := by
  cases p <;> cases c <;> simp_all [acceptsList, Comparator.isMembership]

end Profile

end QueryFilter
