import QueryFilter.Dictionary
import QueryFilter.Filter
import QueryFilter.Token

/-!
# Reading query values

A query value is read for a key, and the rules that it states are added to a filter.  A schema does
this for all of its keys.
-/

namespace QueryFilter

/-! ## Parse errors

What can be wrong with a query value, and the message that says so.
-/

/-- What the grammar allows at some place. -/
inductive Expectation where
  | comparator
  | mark
  | value
  | separator
  | nothing
  deriving DecidableEq, Repr

namespace Expectation

/-- What is allowed after a token of some kind, or at the start. -/
def after : Option TokenKind → Expectation
  | none | some .bar => comparator
  | some .keyword => mark
  | some .mark | some .comma => value
  | some .value => separator
  | some .stop => nothing

/-- What messages call the expectation. -/
def title : Expectation → String
  | comparator => "comparator"
  | mark => "`!`"
  | value => "value"
  | separator => "`,`, `|` or end of input"
  | nothing => "nothing"

end Expectation

/-- What is wrong with the value of a key. -/
inductive ParseError where
  /-- A token stands where the grammar allows something else. -/
  | unexpectedToken (key : String) (expected : Expectation) (found : Token)
  /-- A keyword names no comparator. -/
  | invalidComparator (key : String) (found : Token)
  /-- A comma follows a value of a comparator that takes no list. -/
  | commaNotAllowed (key : String) (comparator : Comparator) (profile : Profile) (span : Span)
  /-- A literal is not one of the type of the key. -/
  | conversion (key : String) (literal : String) (type : ScalarType) (format : TimestampFormat)
  deriving DecidableEq, Repr

/-- The message of a parse error. -/
def ParseError.message : ParseError → String
  | unexpectedToken key expected found =>
    "key `" ++ key ++ "`: expected " ++ expected.title ++ ", found " ++ found.describe ++
      " at byte " ++ integerText found.span.start
  | invalidComparator key found =>
    "key `" ++ key ++ "`: expected valid comparator, got `" ++ found.text ++ "`"
  | commaNotAllowed key comparator profile _ =>
    "key `" ++ key ++ "`: comma is only supported on the " ++ profile.listTitle ++
      " comparator, found after `" ++ comparator.keyword ++ "`"
  | conversion key literal type format =>
    "key `" ++ key ++ "`: value `" ++ literal ++ "` is an invalid " ++ type.literalTitle format

/-! ## The grammar of query values

A query value is a list of groups joined by `|`.  A group is a comparator keyword, the mark `!`, and
values joined by `,`; each group becomes one rule.  A value of a single token, or of none, is short
for an `eq` group of that text.

Tokens are read one by one, each allowed or not by the kind of the token before it.  A bar, and the
end of the input, close a group: its literals are read as values of the type of the key and the rule
is added to the filter.  An error leaves the filter as it is after the groups closed before it.
-/

/-- Whether a token of some kind may follow one of another kind, or stand at the start. -/
def TokenKind.mayFollow (kind : TokenKind) (last : Option TokenKind) : Bool :=
  match kind with
  | .keyword => last == none || last == some .bar
  | .mark => last == some .keyword
  | .value => last == some .mark || last == some .comma
  | .comma | .bar | .stop => last == some .value

/-- Why the value of a key adds no rule. -/
inductive ParseFailure where
  /-- The value is not well formed. -/
  | rejected (error : ParseError)
  /-- The key has rules of another type. -/
  | clash (clash : TypeClash)
  /-- Reading a literal overflows. -/
  | overflow (literal : String)
  deriving DecidableEq, Repr

/-- How reading a value ended, with the filter that it left. -/
structure Outcome where
  status : Except ParseFailure Unit
  filter : Filter

/-- The filter, if reading ended well. -/
def Outcome.toExcept (o : Outcome) : Except ParseFailure Filter :=
  o.status.map fun _ => o.filter

/-- The key whose value is read, and how its value is read. -/
structure Target where
  key : String
  type : ScalarType
  profile : Profile
  format : TimestampFormat
  deriving DecidableEq, Repr

/-- What has been read of a query value: the kind of the last token, the comparator and the literals
of the open group, and the filter with the rules of the closed ones. -/
structure Progress where
  last : Option TokenKind
  comparator : Comparator
  literals : List String
  filter : Filter

/-- The beginning of a query value. -/
def Progress.start (f : Filter) : Progress :=
  ⟨none, .equals, [], f⟩

namespace Target

/-- The failure at a literal that is not one of the type of the key. -/
def refusal (target : Target) (literal : String) : ParseFailure :=
  if target.type.overflows target.format literal then .overflow literal
  else .rejected (.conversion target.key literal target.type target.format)

/-- Close a group: read its literals and add its rule. -/
def close (target : Target) (comparator : Comparator) (literals : List String) (f : Filter) :
    Except ParseFailure Filter :=
  match target.type.readAll target.format literals with
  | .error literal => .error (target.refusal literal)
  | .ok values => (f.add target.key target.type values comparator).mapError .clash

/-- Read one token. -/
def step (target : Target) (p : Progress) (t : Token) : Except ParseFailure Progress :=
  if !t.kind.mayFollow p.last then
    .error (.rejected (.unexpectedToken target.key (.after p.last) t))
  else
    match t.kind with
    | .keyword =>
      match Comparator.ofKeyword? t.text with
      | some c => .ok { p with last := some .keyword, comparator := c }
      | none => .error (.rejected (.invalidComparator target.key t))
    | .mark => .ok { p with last := some .mark }
    | .value => .ok { p with last := some .value, literals := p.literals ++ [t.text] }
    | .comma =>
      if target.profile.acceptsList p.comparator then .ok { p with last := some .comma }
      else
        .error (.rejected (.commaNotAllowed target.key p.comparator target.profile t.span))
    | .bar | .stop =>
      (target.close p.comparator p.literals p.filter).map fun f =>
        { p with last := some t.kind, literals := [], filter := f }

/-- Read tokens up to the first error. -/
def run (target : Target) (p : Progress) : List Token → Outcome
  | [] => ⟨.ok (), p.filter⟩
  | t :: ts =>
    match target.step p t with
    | .ok q => run target q ts
    | .error e => ⟨.error e, p.filter⟩

/-- Read the short form, which is a single literal. -/
def readBare (target : Target) (literal : String) (f : Filter) : Outcome :=
  match target.close .equals [literal] f with
  | .ok g => ⟨.ok (), g⟩
  | .error e => ⟨.error e, f⟩

/-- Read a query value and add its rules to a filter. -/
def readInto (target : Target) (raw : String) (f : Filter) : Outcome :=
  match tokenize raw with
  | [] => target.readBare "" f
  | [t] => target.readBare t.text f
  | tokens =>
    target.run (.start f) (tokens ++ [Token.endOfInput (byteLength raw.toList)])

end Target

/-! ## Schemas

A schema declares the keys that are read from a source, each with its type, and how their values are
read.  The values of the declared keys that the source has are read one after another, in the order
of declaration, into one filter; the first failure ends the reading.  A key that is declared several
times is read as often.
-/

/-- The declared keys, and how their values are read. -/
structure Schema where
  keys : List (String × ScalarType)
  format : TimestampFormat
  profile : Profile
  deriving DecidableEq, Repr, Inhabited

namespace Schema

/-- The schema without keys. -/
def empty : Schema := ⟨[], .internet, .unified⟩

/-- Declare a key. -/
def declare (s : Schema) (key : String) (type : ScalarType) : Schema :=
  { s with keys := s.keys ++ [(key, type)] }

/-- The key of a given type as the schema reads it. -/
def target (s : Schema) (key : String) (type : ScalarType) : Target :=
  ⟨key, type, s.profile, s.format⟩

/-- Read one value and add its rules to a filter. -/
def parseKey (s : Schema) (key : String) (type : ScalarType) (raw : String) (f : Filter) :
    Outcome :=
  (s.target key type).readInto raw f

/-- Read the value of a declared key, if the source has one. -/
def parseEntry (s : Schema) (source : Source) (f : Filter) (entry : String × ScalarType) :
    Except ParseFailure Filter :=
  match source.lookup entry.1 with
  | none => .ok f
  | some raw => (s.parseKey entry.1 entry.2 raw f).toExcept

/-- Read the values of all declared keys that the source has. -/
def parse (s : Schema) (source : Source) : Except ParseFailure Filter :=
  s.keys.foldlM (s.parseEntry source) .empty

end Schema

end QueryFilter
