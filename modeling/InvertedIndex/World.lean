/-
What the operations of the index read and change: the files, the names that the
system hands out for temporary files, the requests that it refuses, the log, and which
degraded readers have already warned. The names are part of the state, so a statement
about an operation can be made for every name that it may be given. So are the refusals:
whatever the files are, a request to create, to write or to move a file may fail, because
a disk is full or fails, and a statement about an operation can be made for every request
at which it may be stopped. Reading and removing files and making directories only fail
for reasons that lie in the files. An `Action` is an operation on this state that can fail; what it changed before
it failed stays changed.
-/

import InvertedIndex.Error
import InvertedIndex.Fault

namespace InvertedIndex

/-- How important a line of the log is. -/
inductive Level where
  | error
  | warn
  | info
  | debug
  deriving Repr, DecidableEq

/-- The word that stands for a level in the log. -/
def Level.name : Level → String
  | .error => "ERROR"
  | .warn => "WARN"
  | .info => "INFO"
  | .debug => "DEBUG"

/-- A line of the log. -/
structure LogLine where
  level : Level
  text : String
  deriving Repr, DecidableEq

/-- A refusal for a reason that does not lie in the files. -/
structure Refusal where
  reason : FileError
  /-- How much of what was to be written is in the file all the same, in bytes. -/
  written : Nat
  deriving Repr, DecidableEq

/-- The state that the operations of the index act on. -/
structure World where
  files : FileSystem
  /-- The names for temporary files, in the order in which they are handed out. -/
  stems : Nat → String
  /-- How many names have been handed out. -/
  drawn : Nat
  /-- The log, the earliest line first. -/
  log : List LogLine
  /-- How many readers have been opened. -/
  opened : Nat
  /-- The degraded readers that have warned. -/
  warned : List Nat
  /-- Which requests to create, to write or to move a file the system refuses, in the order
  in which they are made. By default it refuses none. -/
  refusals : Nat → Option Refusal := fun _ => none
  /-- How many such requests have been made. -/
  requests : Nat := 0

/-- The state once one more request was made. -/
def World.requested (world : World) : World := { world with requests := world.requests + 1 }

/-- An operation on the state that can fail. -/
abbrev Action (ε : Type) := ExceptT (Failure ε) (StateM World)

namespace Action

variable {ε δ α : Type}

/-- Runs an operation. -/
def perform (action : Action ε α) (world : World) : Except (Failure ε) α × World := action world

/-- Fails with an error. -/
def refuse (cause : ε) : Action ε α := fun world => (.error (.error cause), world)

/-- An operation that can fail and changes nothing. -/
def ofResult (result : Except (Failure ε) α) : Action ε α := fun world => (result, world)

/-- A computation that can only fault. -/
def ofChecked (result : Except Fault α) : Action ε α :=
  ofResult (monadLift result : Except (Failure ε) α)

/-- The same operation with its errors seen as errors of another type. -/
def mapError (change : ε → δ) (action : Action ε α) : Action δ α := fun world =>
  match action world with
  | (.ok value, after) => (.ok value, after)
  | (.error failure, after) => (.error (failure.map change), after)

/-- The outcome of an operation as a value. -/
def outcome (action : Action ε α) : Action δ (Except (Failure ε) α) := fun world =>
  match action world with
  | (result, after) => (.ok result, after)

/-- The same operation, followed by a change of the state when it fails. -/
def cleaningUp (action : Action ε α) (cleanUp : World → World) : Action ε α := fun world =>
  match action world with
  | (.ok value, after) => (.ok value, after)
  | (.error failure, after) => (.error failure, cleanUp after)

/-- A look at the files. -/
def inspect (look : FileSystem → Except ε α) : Action ε α := fun world =>
  match look world.files with
  | .ok value => (.ok value, world)
  | .error cause => (.error (.error cause), world)

/-- A change of the files that is made whole or not at all. -/
def change (operation : FileSystem → Except ε FileSystem) : Action ε Unit := fun world =>
  match operation world.files with
  | .ok files => (.ok (), { world with files })
  | .error cause => (.error (.error cause), world)

/-- Creates a directory and the directories above it. -/
def makeDirectories (path : Path) : Action FileError Unit := fun world =>
  match world.files.makeDirectories path with
  | (.ok (), files) => (.ok (), { world with files })
  | (.error cause, files) => (.error (.error cause), { world with files })

/-- A path from the root, so that it stays the same wherever it is used. -/
def fromRoot (path : Path) : Action ε Path := fun world =>
  (.ok (path.fromRoot world.files.workingDirectory), world)

/-- Writes a line to the log. -/
def log (level : Level) (text : String) : Action ε Unit := fun world =>
  (.ok (), { world with log := world.log ++ [⟨level, text⟩] })

/-- Makes a request, and says whether the system refuses it. -/
def request : Action ε (Option Refusal) := fun world =>
  (.ok (world.refusals world.requests), world.requested)

/-- A change of the files that the system is asked for, and that it may refuse. -/
def requestChange (operation : FileSystem → Except FileError FileSystem) :
    Action FileError Unit := do
  match ← request with
  | none => change operation
  | some refusal => refuse refusal.reason

/-- Creates an empty file that must not exist yet. -/
def createNew (path : Path) : Action FileError Unit :=
  requestChange fun files => files.createNew path []

/-- Moves a file to another place, over the file that may be there. -/
def rename (source target : Path) : Action FileError Unit :=
  requestChange fun files => files.rename source target

/-- Writes the contents of a file. When the system refuses to go on, what was written until
then stays in the file. -/
def write (path : Path) (contents : List UInt8) : Action FileError Unit := do
  match ← request with
  | none => change fun files => files.write path contents
  | some refusal =>
    change fun files => files.write path (contents.take refusal.written)
    refuse refusal.reason

/-- Creates an empty file under a name that was not taken, made of a lead, a stem that
the system hands out, and a trail. The result is the lead and the stem. -/
def createUnique (directory : Path) (lead trail : String) : Nat → Action FileError String
  | 0 => refuse .alreadyExists
  | attempts + 1 => fun world =>
    let base := lead ++ world.stems world.drawn
    match createNew (directory.child (base ++ trail)) { world with drawn := world.drawn + 1 } with
    | (.ok (), after) => (.ok base, after)
    | (.error (.error .alreadyExists), after) =>
      createUnique directory lead trail attempts after
    | (.error failure, after) => (.error failure, after)

/-- How many names are tried for one temporary file. -/
def attempts : Nat := 65536

end Action

/-- A refused operation on files is an error of the storage layer. -/
instance : MonadLift (Action FileError) (Action StorageError) where
  monadLift action := action.mapError .files

/-- Removes a file where that is possible. -/
def World.removeIfPossible (path : Path) (world : World) : World :=
  match world.files.remove path with
  | .ok files => { world with files }
  | .error _ => world

end InvertedIndex
