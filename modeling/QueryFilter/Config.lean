import QueryFilter.Grammar
import QueryFilter.Json.Record
import QueryFilter.Sql.Statement

/-!
# Configurations

A configuration declares keys with their types and columns.  It is read from the JSON text of a file
and written back as such a text.
-/

namespace QueryFilter

/-! ## Schema and compiler of a configuration

A configuration declares the keys of a filter with their types and columns, and how a filter is read
and compiled.  It is both a schema, for the values of the keys, and a compiler, for the filters that
the schema reads.  An entry without a column has the column that is named like its key; of several
entries of a key the last one decides on the column.
-/

/-- The declaration of a key. -/
structure KeyEntry where
  name : String
  type : ScalarType
  column : Option String
  deriving DecidableEq, Repr, Inhabited

/-- The column of a key. -/
def KeyEntry.columnName (entry : KeyEntry) : String :=
  entry.column.getD entry.name

/-- The declarations of keys, and options. -/
structure Config where
  placeholder : PlaceholderStyle
  profile : Profile
  timestampPattern : Option String
  keys : List KeyEntry
  deriving DecidableEq, Repr, Inhabited

namespace Config

/-- The configuration without keys and with the first choice for every option. -/
def initial : Config :=
  ⟨.positional, .unified, none, []⟩

/-- The schema that reads the declared keys. -/
def schema (c : Config) : Schema where
  keys := c.keys.map fun entry => (entry.name, entry.type)
  format := .ofPattern? c.timestampPattern
  profile := c.profile

/-- The columns of the declared keys. -/
def columns (c : Config) : Dictionary String :=
  .ofPairs (c.keys.map fun entry => (entry.name, entry.columnName))

/-- The compiler of filters with the declared keys. -/
def compiler (c : Config) : Compiler :=
  ⟨c.placeholder, some c.columns⟩

end Config

/-! ## The text of a configuration

A configuration is a JSON object with the members `placeholder`, `profile`, `timestamp_format` and
`keys`, each of which may be left out.  A key is an object with `name`, `type` and `column`, of
which only the last may be left out.  Other members are ignored, and a list of the values in that
order may stand for either object.
-/

section Text

open Json

/-- What has been read of a key. -/
structure KeyDraft where
  name : Option String
  type : Option ScalarType
  column : Option (Option String)

namespace KeyDraft

/-- The key of a draft, with a fault for each value that it must have. -/
def finish (d : KeyDraft) (noName noType : Fault) : Except Fault KeyEntry :=
  match d.name, d.type with
  | none, _ => .error noName
  | some _, none => .error noType
  | some name, some type => .ok ⟨name, type, d.column.join⟩

end KeyDraft

/-- The shape of a key. -/
def KeyEntry.shape : RecordShape KeyDraft KeyEntry where
  title := "struct KeyConfig"
  fields := [
    ⟨"name", fun d => d.name.isSome,
      (Reader.string "a string").map fun v d => { d with name := some v }⟩,
    ⟨"type", fun d => d.type.isSome,
      (Reader.choice ScalarType.all ScalarType.name).map fun v d => { d with type := some v }⟩,
    ⟨"column", fun d => d.column.isSome,
      (Reader.string "a string").optional.map fun v d => { d with column := some v }⟩]
  empty := ⟨none, none, none⟩
  ofMembers d := d.finish (.missingField "name") (.missingField "type")
  ofElements d :=
    let short := fun length => Fault.invalidLength length "struct KeyConfig with 3 elements"
    d.finish (short 0) (short 1)

/-- What has been read of a configuration. -/
structure ConfigDraft where
  placeholder : Option PlaceholderStyle
  profile : Option Profile
  timestampPattern : Option (Option String)
  keys : Option (List KeyEntry)

/-- The configuration of a draft.  What is left out is as in the initial one. -/
def ConfigDraft.finish (d : ConfigDraft) : Config where
  placeholder := d.placeholder.getD Config.initial.placeholder
  profile := d.profile.getD Config.initial.profile
  timestampPattern := d.timestampPattern.getD Config.initial.timestampPattern
  keys := d.keys.getD Config.initial.keys

namespace Config

/-- The shape of a configuration. -/
def shape : RecordShape ConfigDraft Config where
  title := "struct FilterConfig"
  fields := [
    ⟨"placeholder", fun d => d.placeholder.isSome,
      (Reader.choice PlaceholderStyle.all PlaceholderStyle.name).map fun v d =>
        { d with placeholder := some v }⟩,
    ⟨"profile", fun d => d.profile.isSome,
      (Reader.choice Profile.all Profile.name).map fun v d => { d with profile := some v }⟩,
    ⟨"timestamp_format", fun d => d.timestampPattern.isSome,
      (Reader.string "a string").optional.map fun v d => { d with timestampPattern := some v }⟩,
    ⟨"keys", fun d => d.keys.isSome,
      (Reader.record KeyEntry.shape).list.map fun v d => { d with keys := some v }⟩]
  empty := ⟨none, none, none, none⟩
  ofMembers d := .ok d.finish
  ofElements d := .ok d.finish

/-- The configuration that a JSON text holds. -/
def ofText (text : String) : Except Fault Config :=
  (Reader.record shape).parse text

end Config

/-! ### Writing -/

/-- A member that is written only if there is a value. -/
def optionalMember (name : String) (value : Option String) : List (List Char) :=
  value.toList.map fun text => writeMember name (writeText text)

/-- The text of a key. -/
def KeyEntry.write (entry : KeyEntry) : List Char :=
  writeObject
    (writeMember "name" (writeText entry.name)
      :: writeMember "type" (writeText entry.type.name)
      :: optionalMember "column" entry.column)

/-- The text of a configuration. -/
def Config.text (c : Config) : String :=
  String.ofList
    (writeObject
      (writeMember "placeholder" (writeText c.placeholder.name)
        :: writeMember "profile" (writeText c.profile.name)
        :: (optionalMember "timestamp_format" c.timestampPattern
          ++ [writeMember "keys" (writeList (c.keys.map KeyEntry.write))])))

end Text

/-! ## Configuration files

A configuration is loaded from the bytes of a file, which must be a text in UTF-8.
-/

/-- Why a file gives no text. -/
inductive FileFault where
  /-- The system refuses to read it, with a reason and a code. -/
  | system (reason : String) (code : Nat)
  /-- Its bytes are not a text in UTF-8. -/
  | notText
  deriving DecidableEq, Repr

namespace FileFault

/-- There is no such file. -/
def missing : FileFault :=
  system "No such file or directory" 2

/-- A file stands in the place of a directory. -/
def notDirectory : FileFault :=
  system "Not a directory" 20

/-- A directory stands in the place of the file. -/
def isDirectory : FileFault :=
  system "Is a directory" 21

/-- A name in the path is too long. -/
def nameTooLong : FileFault :=
  system "File name too long" 36

/-- The message of a file fault. -/
def message : FileFault → String
  | system reason code => reason ++ " (os error " ++ integerText code ++ ")"
  | notText => "stream did not contain valid UTF-8"

end FileFault

/-- Why a configuration is not loaded. -/
inductive ConfigFault where
  /-- The file at a path gives no text. -/
  | file (path : String) (fault : FileFault)
  /-- The text is no configuration. -/
  | text (fault : Json.Fault)

namespace ConfigFault

/-- The message of the fault that is behind a configuration fault. -/
def cause : ConfigFault → String
  | file _ fault => fault.message
  | text fault => fault.message

/-- The message of a configuration fault. -/
def message : ConfigFault → String
  | file path fault => "cannot read config file " ++ path ++ ": " ++ fault.message
  | text fault => "cannot parse config: " ++ fault.message

end ConfigFault

/-- The text of the bytes of a file. -/
def textOfBytes (bytes : ByteArray) : Except FileFault String :=
  match String.fromUTF8? bytes with
  | some text => .ok text
  | none => .error .notText

namespace Config

/-- Load a configuration from its text. -/
def load (text : String) : Except ConfigFault Config :=
  (ofText text).mapError .text

/-- Load the configuration of the file at a path, from what reading the file gave. -/
def loadFile (path : String) (content : Except FileFault ByteArray) : Except ConfigFault Config :=
  match content.bind textOfBytes with
  | .ok text => load text
  | .error fault => .error (.file path fault)

end Config

end QueryFilter
