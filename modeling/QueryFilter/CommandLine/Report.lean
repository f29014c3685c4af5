import QueryFilter.CommandLine.Arguments
import QueryFilter.Config

/-!
# Runs of the command line

A run reads the pairs as query values, renders their filter as a `WHERE` clause, and prints its text
and its parameters.  With a configuration file, the file declares the keys.  Without one, each key
is declared as a string, in the order of first appearance, and its column has its name.

A run that does not come to its end reports a fault, or it panics: reading the pairs does when a key
is given two types and when a literal overflows the calendar.
-/

namespace QueryFilter

/-- The keys of pairs, each once, in the order of first appearance. -/
def distinctKeys (pairs : List (String × String)) : List String :=
  (pairs.map Prod.fst).eraseDups

/-- How the values of a filter are read and how the filter is compiled. -/
structure Setup where
  schema : Schema
  compiler : Compiler

namespace Setup

/-- Every key is a string and its own column. -/
def untyped (keys : List String) (placeholder : PlaceholderStyle) : Setup where
  schema := { Schema.empty with keys := keys.map fun key => (key, .string) }
  compiler := ⟨placeholder, some (.ofPairs (keys.map fun key => (key, key)))⟩

/-- The schema and the compiler of a configuration. -/
def ofConfig (c : Config) : Setup :=
  ⟨c.schema, c.compiler⟩

end Setup

/-- Why a run fails. -/
inductive RunFault where
  | loading (path : String) (fault : ConfigFault)
  | parsing (error : ParseError)
  | rendering (error : CompileError)

/-- The message of a run that failed, followed by what is behind it. -/
def RunFault.message : RunFault → String
  | loading path fault => "loading " ++ path ++ ": " ++ fault.message ++ ": " ++ fault.cause
  | parsing error => "parsing filter: " ++ error.message
  | rendering error => "rendering filter: " ++ error.message

/-- Why a run panics. -/
inductive Panic where
  /-- The configuration declares a key with two types, and both were used. -/
  | clash (clash : TypeClash)
  /-- A literal overflows the calendar. -/
  | overflow (literal : String)

namespace Invocation

/-- The placeholders that are asked for. -/
def placeholder (i : Invocation) : PlaceholderStyle :=
  if i.numbered then .numbered else .positional

/-- What the pairs are read and rendered with, given the contents of files. -/
def setup (i : Invocation) (contents : String → Except FileFault ByteArray) :
    Except RunFault Setup :=
  match i.config with
  | some path =>
    ((Config.loadFile path (contents path)).map Setup.ofConfig).mapError (.loading path)
  | none => .ok (.untyped (distinctKeys i.pairs) i.placeholder)

end Invocation

/-- What the output shows of a parameter: its kind and its value. -/
def Parameter.listing (p : Parameter) : String :=
  match p.type with
  | .integer => "BigInt(Some(" ++ p.text ++ "))"
  | .unsignedInteger => "BigUnsigned(Some(" ++ p.text ++ "))"
  | .float => "Double(Some(" ++ p.text ++ "))"
  | .string => "String(Some(" ++ quoted p.text ++ "))"
  | .timestamp => "ChronoDateTimeWithTimeZone(Some(" ++ p.text ++ "))"

/-- The lines of parameters, the first of which has the number `next`. -/
def parameterLines (next : Nat) : List Parameter → List String
  | [] => []
  | p :: ps => ("  " ++ integerText next ++ ": " ++ p.listing) :: parameterLines (next + 1) ps

/-- The lines of a clause: its text, and a line for each parameter. -/
def Clause.lines (c : Clause) : List String :=
  c.sql :: parameterLines 1 c.params

/-- The text of lines. -/
def linesText (lines : List String) : String :=
  String.join (lines.map (· ++ "\n"))

/-- How a run ends. -/
inductive Report where
  /-- The run is well and prints a text. -/
  | printed (text : String)
  /-- The arguments are faulty. -/
  | refused (fault : UsageFault)
  /-- The run fails. -/
  | failed (fault : RunFault)
  /-- The run panics. -/
  | panicked (cause : Panic)

/-- The text of the help. -/
def helpText : String :=
  linesText [
    "Render query filter values as a SQL WHERE clause",
    "",
    "Usage: qfl [OPTIONS] <PAIRS>...",
    "",
    "Arguments:",
    "  <PAIRS>...  Query pairs, e.g. `salary=gt!1000.0|lt!10000.0`",
    "",
    "Options:",
    "  -c, --config <CONFIG>  Path to a JSON filter config",
    "      --numbered         Use `$n` placeholders when no config is given",
    "  -h, --help             Print help",
    "  -V, --version          Print version"]

/-- The text of the version. -/
def versionText : String :=
  linesText ["qfl 0.1.0"]

namespace Report

/-- The end of a run whose pairs are not read. -/
def ofParseFailure : ParseFailure → Report
  | .rejected error => .failed (.parsing error)
  | .clash c => .panicked (.clash c)
  | .overflow literal => .panicked (.overflow literal)

/-- The end of the run of an invocation. -/
def ofInvocation (i : Invocation) (contents : String → Except FileFault ByteArray) : Report :=
  match i.setup contents with
  | .error fault => .failed fault
  | .ok setup =>
    match setup.schema.parse (.ofList i.pairs) with
    | .error failure => .ofParseFailure failure
    | .ok f =>
      match setup.compiler.render f with
      | .error error => .failed (.rendering error)
      | .ok c => .printed (linesText c.lines)

/-- The end of a run with some arguments. -/
def ofArguments (arguments : List String) (contents : String → Except FileFault ByteArray) :
    Report :=
  match Invocation.ofArguments arguments with
  | .ok i => ofInvocation i contents
  | .error .help => .printed helpText
  | .error .version => .printed versionText
  | .error (.faulty fault) => .refused fault

/-- The exit code. -/
def code : Report → UInt8
  | printed _ => 0
  | failed _ => 1
  | refused _ => 2
  | panicked _ => 101

/-- What is printed to the standard output. -/
def output : Report → String
  | printed text => text
  | failed _ | refused _ | panicked _ => ""

/-- What the run prints to the standard error.  A panic is reported there by the runtime, and the
run itself prints nothing. -/
def error : Report → String
  | printed _ | panicked _ => ""
  | failed fault => linesText ["", "Error: " ++ fault.message, ""]
  | refused fault =>
    Terminal.plain <| linesText <|
      ["error: " ++ fault.message, ""] ++
        (if fault.showsUsage then ["Usage: qfl [OPTIONS] <PAIRS>...", ""] else []) ++
        ["For more information, try '" ++ Terminal.emphasized "--help" ++ "'."]

end Report

end QueryFilter
