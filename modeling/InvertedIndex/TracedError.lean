/-
Errors of the operations that join several others, such as a build. Such an error
has a cause and a chain of contexts that say what was being done, the outermost
first. The causes and the contexts are kept as data; their wording is here.
-/

import InvertedIndex.World

namespace InvertedIndex

/-- What was being done when something failed. -/
inductive Context where
  | openConfig (path : Path)
  | readConfig (path : Path)
  | listShards (directory : Path)
  | createTempDirectory (directory : Path)
  | openShard (shard : Path)
  | indexShard (shard : Path)
  | openMergeInput
  | mergePreindexes
  | deleteMergeInputs
  | cleanUpAfterAbort
  | openMerged
  | writeIndex (docs words : Path)
  | deleteMerged
  | openIndex (words : Path)
  | openGeneration (words : Path)
  | removeRetired (path : Path)
  | createOutputDirectory (directory : Path)
  | openIndexIn (directory : Path)
  deriving Repr, DecidableEq

def Context.message : Context → String
  | .openConfig path => s!"Failed to open config {path}"
  | .readConfig path => s!"Invalid config {path}"
  | .listShards directory => s!"Failed to list journal shards in {directory}"
  | .createTempDirectory directory => s!"Failed to create temp dir {directory}"
  | .openShard shard => s!"CONSTRUCT: failed to open shard {shard}"
  | .indexShard shard => s!"CONSTRUCT: failed to index shard {shard}"
  | .openMergeInput => "MERGE: failed to open preindex"
  | .mergePreindexes => "MERGE: failed to merge preindexes"
  | .deleteMergeInputs => "MERGE: failed to delete merged inputs"
  | .cleanUpAfterAbort => "Failed to clean up after abort"
  | .openMerged => "FINALIZE: failed to open preindex"
  | .writeIndex docs words => s!"FINALIZE: failed to write {docs} and {words}"
  | .deleteMerged => "FINALIZE: failed to delete preindex"
  | .openIndex words => s!"Failed to open reverse index {words}"
  | .openGeneration words => s!"Failed to open new generation {words}"
  | .removeRetired path => s!"Failed to remove retired {path}"
  | .createOutputDirectory directory => s!"Failed to create output dir {directory}"
  | .openIndexIn directory => s!"Failed to open index in {directory}"

/-- What failed. -/
inductive Cause where
  /-- An operation of the storage layer. -/
  | storage (error : StorageError)
  /-- An operation on files. -/
  | files (reason : FileError)
  /-- A text is not what its format asks for. -/
  | malformed
  /-- The build was called off before a shard. -/
  | abortedBefore (shard : Path)
  /-- The build was called off. -/
  | aborted
  /-- A generation that was to be installed is not there. -/
  | generationMissing (words : Path)
  /-- A directory holds no shards. -/
  | noShards (directory : Path)
  /-- A directory holds no index. -/
  | noIndex (directory : Path)
  deriving Repr, DecidableEq

/-- The text of a cause, if it has one of its own. -/
def Cause.message? : Cause → Option String
  | .storage error => some error.message
  | .files reason => some reason.name
  | .malformed => none
  | .abortedBefore shard => some s!"Index construction aborted before shard {shard}"
  | .aborted => some "Index construction aborted"
  | .generationMissing words => some s!"New generation {words} is missing"
  | .noShards directory => some s!"No journal files found in {directory}"
  | .noIndex directory => some s!"No index found in {directory}. Run 'rindex build' first."

/-- A cause with its contexts, the outermost first. -/
structure TracedError where
  contexts : List Context
  cause : Cause
  deriving Repr, DecidableEq

namespace TracedError

/-- An error without a context. -/
def of (cause : Cause) : TracedError := ⟨[], cause⟩

/-- The error with one more context around it. -/
def within (context : Context) (error : TracedError) : TracedError :=
  { error with contexts := context :: error.contexts }

/-- The texts of the contexts and of the cause, the outermost first. -/
def messages (error : TracedError) : List String :=
  error.contexts.map Context.message ++ error.cause.message?.toList

/-- The whole chain on one line. -/
def message (error : TracedError) : String := ": ".intercalate error.messages

end TracedError

namespace Action

variable {α : Type}

/-- An operation of the storage layer, done as part of something larger. -/
def during (context : Context) (action : Action StorageError α) : Action TracedError α :=
  action.mapError fun error => ⟨[context], .storage error⟩

/-- An operation on files, done as part of something larger. -/
def filesDuring (context : Context) (action : Action FileError α) : Action TracedError α :=
  action.mapError fun reason => ⟨[context], .files reason⟩

/-- Fails with a cause and no context. -/
def stop (cause : Cause) : Action TracedError α := Action.refuse (.of cause)

end Action

end InvertedIndex
