/-!
# Arguments of the command line

How the arguments of a run are read, and what is said of faulty ones.
-/

namespace QueryFilter

/-! ## Texts for terminals

A text for a terminal may hold control sequences, which change the look of what follows them and are
not seen themselves.  Where no terminal reads the text, it is written without them: `plain` leaves
the sequences out, and all other control characters but white space.

A sequence begins with the escape character.  A `[` opens parameters, which a letter or a mark from
`@` to `~` ends; a `]` opens a command, which the bell ends; `P`, `X`, `^` and `_` open a string,
which a character with the byte `0x9c` ends.  Otherwise the sequence is a single character, perhaps
after marks from the blank to `/`.  The next escape character breaks a sequence off, and white space
ends one, except that it belongs to commands and strings.
-/

namespace Terminal

/-- How far a control sequence has been read. -/
inductive Stage where
  /-- No sequence has begun. -/
  | text
  /-- After the escape character. -/
  | escape
  /-- After the escape character and a mark. -/
  | marked
  | parameters
  | command
  | string
  deriving DecidableEq, Repr

/-- Whether a character is the white space that texts keep. -/
def isKept (c : Char) : Bool :=
  c == '\t' || c == '\n' || c == '\x0c' || c == '\r'

/-- Whether a character is seen by itself, outside of sequences. -/
def isSeen (c : Char) : Bool :=
  isKept c || (' ' ≤ c && c != '\x7f')

namespace Stage

/-- The stage after a character that the text loses. -/
def next (stage : Stage) (c : Char) : Stage :=
  if c = '\x1b' then escape
  else if c = '\x18' ∨ c = '\x1a' then text
  else
    match stage with
    | text => text
    | escape =>
      if c = '[' then parameters
      else if c = ']' then command
      else if c = 'P' ∨ c = 'X' ∨ c = '^' ∨ c = '_' then string
      else if ' ' ≤ c ∧ c ≤ '/' then marked
      else if '0' ≤ c ∧ c ≤ '~' then text
      else escape
    | marked => if '0' ≤ c ∧ c ≤ '~' then text else marked
    | parameters => if '@' ≤ c ∧ c ≤ '~' then text else parameters
    | command => if c = '\x07' then text else command
    | string => if (String.utf8EncodeChar c).contains 0x9c then text else string

/-- Whether the text keeps a character. -/
def keeps (stage : Stage) (c : Char) : Bool :=
  match stage with
  | text => isSeen c
  | escape | marked | parameters => isKept c
  | command | string => false

/-- What a text keeps from some stage on. -/
def strip : Stage → List Char → List Char
  | _, [] => []
  | stage, c :: cs => if stage.keeps c then c :: strip text cs else strip (stage.next c) cs

end Stage

/-- A text without control sequences and the control characters that are no white space. -/
def plain (s : String) : String :=
  String.ofList (Stage.strip .text s.toList)

/-- A text in yellow. -/
def highlighted (s : String) : String :=
  "\x1b[33m" ++ s ++ "\x1b[0m"

/-- A text in heavy letters. -/
def emphasized (s : String) : String :=
  "\x1b[1m" ++ s ++ "\x1b[0m"

end Terminal

/-! ## Pairs and options

The arguments are pairs `key=value` and options, in any order.  An option with a name of its own
takes its value from the next argument or after `=`; the short form takes it also directly after its
letter.  After `--` every argument is a pair.

The values of an option, and a run of pairs, are checked when something known follows them, or at
the end.  So an argument that is not known is reported before a faulty pair in front of it.
-/

/-- What the command line asks to render. -/
structure Invocation where
  config : Option String
  numbered : Bool
  pairs : List (String × String)
  deriving DecidableEq, Repr, Inhabited

/-- What is wrong with the arguments. -/
inductive UsageFault where
  | unexpectedArgument (argument : String)
  | unexpectedValue (option value : String)
  | missingValue (option : String)
  | repeated (option : String)
  | notPair (argument : String)
  | noPairs
  deriving DecidableEq, Repr

namespace UsageFault

/-- The message of a usage fault, for a terminal. -/
def message : UsageFault → String
  | unexpectedArgument argument =>
    "unexpected argument '" ++ Terminal.highlighted argument ++ "' found"
  | unexpectedValue option value =>
    "unexpected value '" ++ Terminal.highlighted value ++ "' for '" ++ option ++
      "' found; no more were expected"
  | missingValue option => "a value is required for '" ++ option ++ "' but none was supplied"
  | repeated option => "the argument '" ++ option ++ "' cannot be used multiple times"
  | notPair argument =>
    "invalid value '" ++ Terminal.highlighted argument ++
      "' for '<PAIRS>...': expected `key=value`, got `" ++ argument ++ "`"
  | noPairs => "the following required arguments were not provided:\n  <PAIRS>..."

/-- Whether the usage of the program is shown with a fault, which it is unless a value is bad. -/
def showsUsage : UsageFault → Bool
  | missingValue _ | notPair _ => false
  | _ => true

end UsageFault

/-- Why nothing is rendered. -/
inductive Stop where
  /-- The help is asked for. -/
  | help
  /-- The version is asked for. -/
  | version
  /-- The arguments are faulty. -/
  | faulty (fault : UsageFault)
  deriving DecidableEq, Repr

/-- A text cut at the first equals sign. -/
def splitAtEquals? (cs : List Char) : Option (List Char × List Char) :=
  match cs.dropWhile (· != '=') with
  | [] => none
  | _ :: value => some (cs.takeWhile (· != '='), value)

/-- The pair that an argument spells. -/
def pairOf (argument : String) : Except UsageFault (String × String) :=
  match splitAtEquals? argument.toList with
  | some (key, value) => .ok (String.ofList key, String.ofList value)
  | none => .error (.notPair argument)

/-- What has been read but not checked yet. -/
inductive Pending where
  | nothing
  /-- The configuration option, with its value if that has been read. -/
  | config (value : Option String)
  /-- A run of pairs. -/
  | pairs (arguments : List String)
  deriving DecidableEq, Repr

namespace Invocation

/-- The invocation without any argument. -/
def empty : Invocation :=
  ⟨none, false, []⟩

/-- What messages call the configuration option. -/
def configTitle : String := "--config <CONFIG>"

/-- The invocation with a configuration file, which must be the first one and have a name. -/
def withConfig (i : Invocation) (path : String) : Except UsageFault Invocation :=
  if i.config.isSome then .error (.repeated configTitle)
  else if path.isEmpty then .error (.missingValue configTitle)
  else .ok { i with config := some path }

/-- The invocation with numbered placeholders, which may be asked for once. -/
def withNumbered (i : Invocation) : Except UsageFault Invocation :=
  if i.numbered then .error (.repeated "--numbered") else .ok { i with numbered := true }

/-- The invocation with more pairs. -/
def withPairs (i : Invocation) (arguments : List String) : Except UsageFault Invocation :=
  (arguments.mapM pairOf).map fun pairs => { i with pairs := i.pairs ++ pairs }

/-- The invocation with what was not checked yet. -/
def settle (i : Invocation) : Pending → Except UsageFault Invocation
  | .nothing => .ok i
  | .config none => .error (.missingValue configTitle)
  | .config (some path) => i.withConfig path
  | .pairs arguments => i.withPairs arguments

end Invocation

/-- What has been read of the arguments. -/
structure ArgumentState where
  invocation : Invocation
  pending : Pending
  /-- Whether `--` has been read. -/
  onlyPairs : Bool
  deriving DecidableEq, Repr

namespace ArgumentState

/-- Nothing has been read. -/
def start : ArgumentState :=
  ⟨.empty, .nothing, false⟩

/-- The invocation so far, with everything checked. -/
def settled (s : ArgumentState) : Except Stop Invocation :=
  (s.invocation.settle s.pending).mapError .faulty

/-- Read an option that changes the invocation. -/
def change (s : ArgumentState) (f : Invocation → Except UsageFault Invocation) :
    Except Stop ArgumentState :=
  s.settled.bind fun i =>
    ((f i).mapError .faulty).map fun i => { s with invocation := i, pending := .nothing }

/-- Read the name of the configuration option, with its value if it is attached. -/
def readConfig (s : ArgumentState) : Option String → Except Stop ArgumentState
  | some path => s.change fun i => i.withConfig path
  | none => s.settled.map fun i => { s with invocation := i, pending := .config none }

/-- Read an option that takes no value. -/
def readFlag (s : ArgumentState) (name : String) (value : Option String)
    (read : ArgumentState → Except Stop ArgumentState) : Except Stop ArgumentState :=
  match value with
  | some v => .error (.faulty (.unexpectedValue name v))
  | none => read s

/-- Read the end of the options at something that stops the run, if all before it is well. -/
def stopWith (stop : Stop) (s : ArgumentState) : Except Stop ArgumentState :=
  s.settled.bind fun _ => .error stop

/-- Read an option given by its name. -/
def readLong (s : ArgumentState) (name : String) (value : Option String) :
    Except Stop ArgumentState :=
  match name with
  | "config" => s.readConfig value
  | "numbered" => s.readFlag "--numbered" value fun s => s.change Invocation.withNumbered
  | "help" => s.readFlag "--help" value (stopWith .help)
  | "version" => s.readFlag "--version" value (stopWith .version)
  | _ => .error (.faulty (.unexpectedArgument ("--" ++ name)))

/-- Read an option given by its letter. -/
def readShort (s : ArgumentState) (letter : Char) (rest : List Char) : Except Stop ArgumentState :=
  match letter, rest with
  | 'c', [] => s.readConfig none
  | 'c', '=' :: value => s.readConfig (some (String.ofList value))
  | 'c', value => s.readConfig (some (String.ofList value))
  | 'h', _ => s.stopWith .help
  | 'V', _ => s.stopWith .version
  | _, _ => .error (.faulty (.unexpectedArgument (String.ofList ['-', letter])))

/-- Read a pair. -/
def readPair (s : ArgumentState) (argument : String) : Except Stop ArgumentState :=
  match s.pending with
  | .pairs arguments => .ok { s with pending := .pairs (arguments ++ [argument]) }
  | _ => s.settled.map fun i => { s with invocation := i, pending := .pairs [argument] }

/-- Read an argument that is no option. -/
def readPlain (s : ArgumentState) (argument : String) : Except Stop ArgumentState :=
  match s.pending with
  | .config none => .ok { s with pending := .config (some argument) }
  | _ => s.readPair argument

/-- Read one argument. -/
def read (s : ArgumentState) (argument : String) : Except Stop ArgumentState :=
  if s.onlyPairs then s.readPair argument
  else
    match argument.toList with
    | ['-', '-'] => .ok { s with onlyPairs := true }
    | '-' :: '-' :: cs =>
      match splitAtEquals? cs with
      | some (name, value) => s.readLong (String.ofList name) (some (String.ofList value))
      | none => s.readLong (String.ofList cs) none
    | '-' :: letter :: rest => s.readShort letter rest
    | _ => s.readPlain argument

end ArgumentState

/-- The invocation that the arguments spell.  It has at least one pair. -/
def Invocation.ofArguments (arguments : List String) : Except Stop Invocation :=
  (arguments.foldlM ArgumentState.read .start).bind fun s =>
    s.settled.bind fun i => if i.pairs = [] then .error (.faulty .noPairs) else .ok i

end QueryFilter
