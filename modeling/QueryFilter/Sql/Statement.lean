import QueryFilter.Dictionary
import QueryFilter.Filter

/-!
# Clauses and statements

A filter is compiled to predicates, predicates are written as a clause with placeholders, and
clauses are parts of statements.
-/

namespace QueryFilter

/-! ## Parameters

The values that a statement passes beside its text.  Under `like` every value, of whatever type,
becomes a string: its text followed by the wildcard `%`.
-/

/-- A value that stands for a placeholder of a statement. -/
structure Parameter where
  type : ScalarType
  value : type.Value

namespace Parameter

/-- A string parameter. -/
def string (s : String) : Parameter :=
  ⟨.string, s⟩

/-- The text of the value. -/
def text (p : Parameter) : String :=
  p.type.text p.value

/-- The pattern that matches what starts with the text of a value. -/
def likePattern (t : ScalarType) (v : t.Value) : Parameter :=
  string (t.text v ++ "%")

/-- The parameter of a value under a comparator. -/
def ofValue (comparator : Comparator) (t : ScalarType) (v : t.Value) : Parameter :=
  if comparator = .like then likePattern t v else ⟨t, v⟩

end Parameter

/-- The parameters of a rule.  A rule of another filter may have none. -/
def Filter.parameters (f : Filter) (type : ScalarType) (rule : StoredRule) : List Parameter :=
  ((f.values? type rule).getD []).map (Parameter.ofValue rule.comparator type)

/-! ## Predicates

Each rule of a key that has a column becomes a predicate: a comparison of the column with one value,
or its membership in a list of values.  Keys without a column are passed over.  A rule without
values, or with several values under a comparator that takes one, has no predicate.
-/

/-- Why a filter has no predicates. -/
inductive CompileError where
  /-- No columns have been set. -/
  | missingColumns
  /-- A comparator that takes one value has several. -/
  | multipleValues (key : String) (comparator : Comparator) (count : Nat)
  /-- A rule has no values. -/
  | emptyRule (key : String) (comparator : Comparator)
  deriving DecidableEq, Repr

/-- The message of a compile error. -/
def CompileError.message : CompileError → String
  | missingColumns => "column mapping is not set"
  | multipleValues key comparator count =>
    "key `" ++ key ++ "`: " ++ comparator.title ++ " takes exactly one value, got " ++
      integerText count
  | emptyRule key comparator =>
    "key `" ++ key ++ "`: " ++ comparator.title ++ " rule has no values"

/-- A condition on a column. -/
inductive Predicate where
  | compare (column : String) (comparator : Comparator) (value : Parameter)
  | member (column : String) (values : List Parameter)

namespace Predicate

/-- The parameters of a predicate, in the order of their placeholders. -/
def parameters : Predicate → List Parameter
  | compare _ _ value => [value]
  | member _ values => values

/-- The column of a predicate. -/
def column : Predicate → String
  | compare column _ _ => column
  | member column _ => column

/-- The predicate of a rule with its parameters. -/
def ofRule (key column : String) (comparator : Comparator) :
    List Parameter → Except CompileError Predicate
  | [] => .error (.emptyRule key comparator)
  | [value] => .ok (compare column comparator value)
  | values =>
    if comparator.isMembership then .ok (member column values)
    else .error (.multipleValues key comparator values.length)

end Predicate

/-- The columns of keys.  `none` stands for columns that have not been set. -/
abbrev Columns := Option (Dictionary String)

namespace Filter

/-- The predicate of a rule of a key. -/
def rulePredicate (f : Filter) (key : FilterKey) (column : String) (rule : StoredRule) :
    Except CompileError Predicate :=
  Predicate.ofRule key.name column rule.comparator (f.parameters key.type rule)

/-- The predicates of a key; none if it has no column. -/
def keyPredicates (f : Filter) (columns : Dictionary String) (key : FilterKey) :
    Except CompileError (List Predicate) :=
  match columns.get? key.name with
  | some column => key.rules.mapM (f.rulePredicate key column)
  | none => .ok []

/-- The predicates of a filter, key by key and rule by rule. -/
def predicates (f : Filter) (columns : Columns) : Except CompileError (List Predicate) :=
  match columns with
  | none => .error .missingColumns
  | some columns => (f.keys.mapM (f.keyPredicates columns)).map List.flatten

end Filter

/-! ## Clauses

The text of a `WHERE` clause with placeholders, and the parameters that belong to them.  The
predicates are joined by `AND`; a filter without predicates has an empty text.  Placeholders are
question marks, or are numbered from `$1` through the whole clause.
-/

/-- How placeholders are written. -/
inductive PlaceholderStyle where
  | positional
  | numbered
  deriving DecidableEq, Repr, Inhabited

namespace PlaceholderStyle

/-- The name of a style in a configuration. -/
def name : PlaceholderStyle → String
  | positional => "positional"
  | numbered => "numbered"

/-- Every style, in the order of declaration. -/
def all : List PlaceholderStyle :=
  [positional, numbered]

/-- The placeholder of the parameter with a number, counted from one. -/
def placeholder : PlaceholderStyle → Nat → String
  | positional, _ => "?"
  | numbered, n => "$" ++ integerText n

/-- The placeholders of `count` parameters, the first of which has the number `next`. -/
def placeholders (style : PlaceholderStyle) (next count : Nat) : List String :=
  (List.range count).map fun i => style.placeholder (next + i)

end PlaceholderStyle

/-- The operator that compares a column with a single value. -/
def Comparator.operator : Comparator → String
  | .equals | .is => "="
  | .lessThan => "<"
  | .greaterThan => ">"
  | .lessOrEqual => "<="
  | .greaterOrEqual => ">="
  | .like => "LIKE"

/-- The text of a predicate whose first parameter has the number `next`. -/
def Predicate.text (style : PlaceholderStyle) (next : Nat) : Predicate → String
  | .compare column comparator _ =>
    column ++ " " ++ comparator.operator ++ " " ++ style.placeholder next
  | .member column values =>
    column ++ " IN (" ++ ",".intercalate (style.placeholders next values.length) ++ ")"

/-- A clause: its text, and its parameters in the order of their placeholders. -/
structure Clause where
  sql : String
  params : List Parameter

namespace Clause

/-- The texts of predicates, the first parameter of which has the number `next`. -/
def texts (style : PlaceholderStyle) (next : Nat) : List Predicate → List String
  | [] => []
  | p :: ps => p.text style next :: texts style (next + p.parameters.length) ps

/-- The clause of a list of predicates. -/
def ofPredicates (style : PlaceholderStyle) (ps : List Predicate) : Clause where
  sql := if ps.isEmpty then "" else "WHERE " ++ " AND ".intercalate (texts style 1 ps)
  params := ps.flatMap Predicate.parameters

end Clause

/-- How filters are compiled: the style of placeholders, and the columns of keys. -/
structure Compiler where
  placeholder : PlaceholderStyle
  columns : Columns
  deriving Inhabited

namespace Compiler

/-- Positional placeholders, and no columns yet. -/
def initial : Compiler := ⟨.positional, none⟩

/-- The clause of a filter. -/
def render (c : Compiler) (f : Filter) : Except CompileError Clause :=
  (f.predicates c.columns).map (Clause.ofPredicates c.placeholder)

end Compiler

/-! ## Statements

A statement is put together clause by clause, one to a line, in the order in which the clauses are
given; nothing checks that order.  A filter contributes its clause, if it has predicates, and its
parameters; a filter that cannot be compiled contributes nothing.
-/

/-- The direction in which rows are sorted. -/
inductive SortOrder where
  | asc
  | desc
  deriving DecidableEq, Repr, Inhabited

namespace SortOrder

/-- The name of a direction in a configuration. -/
def name : SortOrder → String
  | asc => "asc"
  | desc => "desc"

/-- The keyword of a direction. -/
def keyword : SortOrder → String
  | asc => "ASC"
  | desc => "DESC"

/-- Every direction, in the order of declaration. -/
def all : List SortOrder :=
  [asc, desc]

end SortOrder

/-- A step in putting a statement together. -/
inductive StatementStep where
  /-- Name a statement that later clauses refer to. -/
  | define (name statement : String)
  /-- Select columns of a table, or all of them if none are given. -/
  | select (table : String) (columns : List String)
  | join (table condition : String)
  | filter (f : Filter)
  | order (direction : SortOrder) (columns : List String)
  /-- Show one page of rows; pages are counted from zero. -/
  | page (limit page : UInt64)

/-- The clauses of a statement, and the parameters of its filters. -/
structure Statement where
  segments : List String
  params : List Parameter

namespace Statement

/-- The statement without clauses. -/
def empty : Statement := ⟨[], []⟩

/-- The number of rows before a page, at most the greatest number of 64 bits. -/
def offset (limit page : UInt64) : Nat :=
  min (page.toNat * limit.toNat) (wordCount - 1)

/-- Add a line. -/
def line (s : Statement) (text : String) : Statement :=
  { s with segments := s.segments ++ [text] }

/-- Add the clause of a filter, if it has one, and its parameters. -/
def clause (s : Statement) (c : Clause) : Statement :=
  { segments := if c.sql.isEmpty then s.segments else s.segments ++ [c.sql]
    params := s.params ++ c.params }

/-- Take a step.  This fails only at a filter that cannot be compiled. -/
def step (compiler : Compiler) (s : Statement) : StatementStep → Except CompileError Statement
  | .define name statement => .ok (s.line ("WITH " ++ name ++ " AS (" ++ statement ++ ")"))
  | .select table columns =>
    let list := if columns.isEmpty then "*" else ", ".intercalate columns
    .ok (s.line ("SELECT " ++ list ++ " FROM " ++ table))
  | .join table condition => .ok (s.line ("JOIN " ++ table ++ " ON " ++ condition))
  | .filter f => (compiler.render f).map s.clause
  | .order direction columns =>
    .ok (s.line ("ORDER BY " ++ ", ".intercalate columns ++ " " ++ direction.keyword))
  | .page limit page =>
    .ok (s.line ("LIMIT " ++ uint64Text limit ++ " OFFSET " ++ integerText (offset limit page)))

/-- Take a step, or none at all if it fails. -/
def advance (compiler : Compiler) (s : Statement) (step : StatementStep) : Statement :=
  match s.step compiler step with
  | .ok t => t
  | .error _ => s

/-- Take steps in order, passing over those that fail. -/
def run (compiler : Compiler) (steps : List StatementStep) : Statement :=
  steps.foldl (advance compiler) empty

/-- The text of a statement: its clauses, one to a line. -/
def text (s : Statement) : String :=
  "\n".intercalate s.segments

end Statement

end QueryFilter
