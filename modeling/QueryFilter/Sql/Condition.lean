import QueryFilter.Sql.Statement

/-!
# Conditions

A condition is the conjunction of expressions that a filter stands for, apart from any text.  A
`Query` selects the rows of a table that satisfy one.  Its text depends on the dialect, which says
how names are quoted and placeholders are written; the inline text has the values in the places of
their placeholders.
-/

namespace QueryFilter

/-- An operator between a column and a value. -/
inductive BinaryOperator where
  | equal
  | smaller
  | greater
  | smallerOrEqual
  | greaterOrEqual
  | like
  deriving DecidableEq, Repr

/-- The text of an operator. -/
def BinaryOperator.text : BinaryOperator → String
  | equal => "="
  | smaller => "<"
  | greater => ">"
  | smallerOrEqual => "<="
  | greaterOrEqual => ">="
  | like => "LIKE"

/-- An expression about a column. -/
inductive Expression where
  | binary (column : String) (operator : BinaryOperator) (value : Parameter)
  | isIn (column : String) (values : List Parameter)

/-- The operator of a comparator. -/
def BinaryOperator.ofComparator : Comparator → BinaryOperator
  | .equals | .is => equal
  | .lessThan => smaller
  | .greaterThan => greater
  | .lessOrEqual => smallerOrEqual
  | .greaterOrEqual => greaterOrEqual
  | .like => like

namespace Expression

/-- The expression of a predicate. -/
def ofPredicate : Predicate → Expression
  | .compare column comparator value => binary column (.ofComparator comparator) value
  | .member column values => isIn column values

/-- The values of an expression, in order. -/
def parameters : Expression → List Parameter
  | binary _ _ value => [value]
  | isIn _ values => values

end Expression

/-- A conjunction of expressions. -/
structure Condition where
  conjuncts : List Expression

/-- The condition that a filter stands for. -/
def Compiler.condition (c : Compiler) (f : Filter) : Except CompileError Condition :=
  (f.predicates c.columns).map fun ps => ⟨ps.map .ofPredicate⟩

/-! ### Dialects -/

/-- A dialect of the statement language. -/
inductive Dialect where
  | postgres
  | mysql
  | sqlite
  deriving DecidableEq, Repr

namespace Dialect

/-- The character around quoted names. -/
def quote : Dialect → Char
  | postgres | sqlite => '"'
  | mysql => '\x60'

/-- The text of a name: quoted, with the quote doubled inside. -/
def quoteName (d : Dialect) (name : String) : String :=
  String.ofList (d.quote ::
    (name.toList.flatMap fun c => if c = d.quote then [c, c] else [c]) ++ [d.quote])

/-- The placeholder of the value with a number, counted from one. -/
def placeholder : Dialect → Nat → String
  | postgres, n => "$" ++ integerText n
  | mysql, _ | sqlite, _ => "?"

end Dialect

/-! ### Literals -/

/-- A character of a string literal, escaped where it has to be. -/
def escapeLiteralChar (c : Char) : List Char :=
  if c = '\\' then ['\\', '\\']
  else if c = '"' then ['\\', '"']
  else if c = '\'' then ['\\', '\'']
  else if c.toNat = 0 then ['\\', '0']
  else if c.toNat = 8 then ['\\', 'b']
  else if c.toNat = 9 then ['\\', 't']
  else if c.toNat = 26 then ['\\', 'z']
  else if c.toNat = 10 then ['\\', 'n']
  else if c.toNat = 13 then ['\\', 'r']
  else [c]

/-- The literal of a string.  One with an escape is marked by an `E` in front. -/
def stringLiteral (s : String) : String :=
  let escaped := s.toList.flatMap escapeLiteralChar
  String.ofList
    ((if '\\' ∈ escaped then ['E', '\''] else ['\'']) ++ escaped ++ ['\''])

/-- The literal of a parameter. -/
def Parameter.literal : Parameter → String
  | ⟨.integer, v⟩ => int64Text v
  | ⟨.unsignedInteger, v⟩ => uint64Text v
  | ⟨.float, v⟩ => FloatStyle.plain.text v
  | ⟨.string, v⟩ => stringLiteral v
  | ⟨.timestamp, v⟩ => "'" ++ v.statementText ++ "'"

/-! ### Queries -/

/-- How a value with its number is written. -/
abbrev ValueText := Nat → Parameter → String

/-- The texts of values, the first of which has the number `next`. -/
def valueTexts (write : ValueText) (next : Nat) : List Parameter → List String
  | [] => []
  | v :: vs => write next v :: valueTexts write (next + 1) vs

/-- The text of an expression whose first value has the number `next`. -/
def Expression.text (d : Dialect) (write : ValueText) (next : Nat) : Expression → String
  | binary column operator value =>
    d.quoteName column ++ " " ++ operator.text ++ " " ++ write next value
  | isIn column values =>
    d.quoteName column ++ " IN (" ++ ", ".intercalate (valueTexts write next values) ++ ")"

namespace Condition

/-- The values of a condition, in order. -/
def parameters (c : Condition) : List Parameter :=
  c.conjuncts.flatMap Expression.parameters

/-- The texts of expressions, the first value of which has the number `next`. -/
def texts (d : Dialect) (write : ValueText) (next : Nat) : List Expression → List String
  | [] => []
  | e :: es => e.text d write next :: texts d write (next + e.parameters.length) es

/-- The text of a condition.  The empty conjunction is true. -/
def text (c : Condition) (d : Dialect) (write : ValueText) : String :=
  if c.conjuncts.isEmpty then "TRUE" else " AND ".intercalate (texts d write 1 c.conjuncts)

end Condition

/-- The selection of the rows of a table that satisfy a condition. -/
structure Query where
  table : String
  condition : Condition

namespace Query

/-- The text of a query with values written in some way. -/
def text (q : Query) (d : Dialect) (write : ValueText) : String :=
  "SELECT * FROM " ++ d.quoteName q.table ++ " WHERE " ++ q.condition.text d write

/-- The text of a query with placeholders. -/
def build (q : Query) (d : Dialect) : String :=
  q.text d fun n _ => d.placeholder n

/-- The text of a query with its values in place. -/
def inline (q : Query) (d : Dialect) : String :=
  q.text d fun _ v => v.literal

end Query

end QueryFilter
