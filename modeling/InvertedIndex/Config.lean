/-
The configuration of an index, read from a JSON text. Every field has a default. The
text is an object, whose other members are ignored, or an array with the fields in
order; a field may be given once and only with a value of its own kind.
-/

import InvertedIndex.Build
import InvertedIndex.Json.Printer
import InvertedIndex.Json.Value
import InvertedIndex.Reader

namespace InvertedIndex

/-- Which backend is asked for. -/
inductive BackendChoice where
  /-- The best one for the machine. -/
  | auto
  | scalar
  deriving Repr, DecidableEq

namespace BackendChoice

/-- The word for a choice. -/
def name : BackendChoice → String
  | .auto => "auto"
  | .scalar => "scalar"

/-- The choice with this name. -/
def ofName? (name : String) : Option BackendChoice :=
  [BackendChoice.auto, .scalar].find? fun choice => choice.name = name

/-- The backend that a choice stands for. -/
def backend : BackendChoice → Backend
  | .auto => .vector
  | .scalar => .scalar

end BackendChoice

/-- The configuration of an index. -/
structure Config where
  /-- The name of the directory file within the directory of the index. -/
  wordsFile : String
  /-- The name of the postings file within the directory of the index. -/
  docsFile : String
  /-- Where preindexes go; the output directory by default. -/
  tempDirectory : Option Path
  backend : BackendChoice
  /-- The ratio of postings to documents from which on metadata is searched for. -/
  mergeRatio : Nat
  deriving Repr, DecidableEq

/-- The fields of a configuration in order. -/
inductive ConfigField where
  | wordsFile
  | docsFile
  | tempDirectory
  | backend
  | mergeRatio
  deriving Repr, DecidableEq

namespace ConfigField

/-- The key of a field. -/
def key : ConfigField → String
  | .wordsFile => "words_file"
  | .docsFile => "docs_file"
  | .tempDirectory => "tmp_dir"
  | .backend => "backend"
  | .mergeRatio => "query_merge_ratio"

/-- All fields in order. -/
def all : List ConfigField := [.wordsFile, .docsFile, .tempDirectory, .backend, .mergeRatio]

end ConfigField

namespace Config

/-- The configuration with every field at its default. -/
def default : Config where
  wordsFile := "words.dat"
  docsFile := "docs.dat"
  tempDirectory := none
  backend := .auto
  mergeRatio := defaultMergeRatio

/-- The text of a JSON string. -/
def textOf? : Json.Value → Option String
  | .string pieces => Json.text? pieces
  | _ => none

/-- The choice that a JSON value names, alone or as the key of a single null. -/
def backendOf? : Json.Value → Option BackendChoice
  | .string pieces => do BackendChoice.ofName? (← Json.text? pieces)
  | .object [(key, .null)] => do BackendChoice.ofName? (← Json.text? key)
  | _ => none

/-- The configuration with a field set from a JSON value. -/
def set (config : Config) (value : Json.Value) : ConfigField → Option Config
  | .wordsFile => do return { config with wordsFile := ← textOf? value }
  | .docsFile => do return { config with docsFile := ← textOf? value }
  | .tempDirectory =>
    match value with
    | .null => some { config with tempDirectory := none }
    | value => do return { config with tempDirectory := some (Path.ofText (← textOf? value)) }
  | .backend => do return { config with backend := ← backendOf? value }
  | .mergeRatio =>
    match value with
    | .number literal => do
      let ratio ← literal.natural?
      if ratio < wordLimit then return { config with mergeRatio := ratio } else none
    | _ => none

/-- Takes the members of an object one by one; `given` are the fields set already. -/
def setMembers (config : Config) (given : List ConfigField) :
    List (List Json.Piece × Json.Value) → Option Config
  | [] => some config
  | (key, value) :: rest => do
    let name ← Json.text? key
    match ConfigField.all.find? fun field => field.key = name with
    | none => config.setMembers given rest
    | some field =>
      if given.contains field then none
      else (← config.set value field).setMembers (field :: given) rest

/-- Takes the elements of an array as the fields in order. -/
def setElements (config : Config) : List ConfigField → List Json.Value → Option Config
  | _, [] => some config
  | [], _ :: _ => none
  | field :: fields, value :: rest => do (← config.set value field).setElements fields rest

/-- The configuration that a JSON value describes. -/
def ofValue? : Json.Value → Option Config
  | .object members => default.setMembers [] members
  | .array elements => default.setElements ConfigField.all elements
  | _ => none

/-- The configuration that a text describes. -/
def ofBytes? (bytes : List UInt8) : Option Config := do ofValue? (← Json.Value.ofBytes? bytes)

/-- Reads a configuration from a file. -/
def load (path : Path) : Action TracedError Config :=
  Action.inspect fun files =>
    match files.read path with
    | .error reason => .error ⟨[.openConfig path], .files reason⟩
    | .ok .directory => .error ⟨[.readConfig path], .malformed⟩
    | .ok (.file contents) =>
      match ofBytes? contents with
      | some config => .ok config
      | none => .error ⟨[.readConfig path], .malformed⟩

/-- The configuration as a JSON document. -/
def toDocument (config : Config) : Json.Document :=
  .record [
    ("words_file", .text config.wordsFile),
    ("docs_file", .text config.docsFile),
    ("tmp_dir", (config.tempDirectory.map fun path => Json.Document.text path.text).getD .null),
    ("backend", .text config.backend.name),
    ("query_merge_ratio", .natural config.mergeRatio)]

/-- The directory file of the index in a directory. -/
def wordsPath (config : Config) (directory : Path) : Path := directory.join config.wordsFile

/-- The postings file of the index in a directory. -/
def docsPath (config : Config) (directory : Path) : Path := directory.join config.docsFile

/-- Where the preindexes of a build into a directory go. -/
def tempDirectoryFor (config : Config) (directory : Path) : Path :=
  config.tempDirectory.getD directory

/-- How an index with this configuration is read. -/
def readerOptions (config : Config) : ReaderOptions :=
  { backend := config.backend.backend, mergeRatio := config.mergeRatio }

/-- A build of an index with this configuration into a directory. -/
def builder (config : Config) (directory : Path) (source : Journal.ShardSource)
    (renumber : DocId → DocId) : Builder where
  docsTarget := config.docsPath directory
  wordsTarget := config.wordsPath directory
  tempDirectory := config.tempDirectoryFor directory
  source := source
  renumber := renumber
  backend := config.backend.backend

end Config

end InvertedIndex
