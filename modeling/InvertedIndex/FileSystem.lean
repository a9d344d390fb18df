/-
The files that the program reads and writes, as a value. A file system is a finite
map from locations to nodes, where a location is the list of names that leads to the
root, the innermost name first, so that the directory of a location is its tail. The
root is always a directory. Paths are resolved step by step, every step from a
directory. Each operation returns the changed file system or the reason why nothing
was changed. Such a reason lies in the files; a system that refuses an operation for
another one, with a disk that is full or fails, is a part of the `World`.

Names and whole paths are limited in length, counted in bytes. A path that is too long
is refused before anything is looked up, a name that is too long only where it is looked
up, after the steps before it have succeeded.

Names are texts. An entry of a directory whose name is no text in UTF-8 has no counterpart
here, and where the program lists a directory it passes over such entries.
-/

import InvertedIndex.Path

namespace InvertedIndex

/-- Why an operation on files was refused. -/
inductive FileError where
  | notFound
  | alreadyExists
  | notADirectory
  | isADirectory
  | resourceBusy
  /-- A name or a path is too long. -/
  | invalidFilename
  /-- A path holds the character that ends a text for the system. -/
  | invalidInput
  /-- A directory has no contents that could be mapped. -/
  | notMappable
  /-- There is no room left. -/
  | storageFull
  /-- The system has failed in some other way. -/
  | systemFailed
  deriving Repr, DecidableEq

/-- The name that messages give to the refusal. -/
def FileError.name : FileError → String
  | .notFound => "NotFound"
  | .alreadyExists => "AlreadyExists"
  | .notADirectory => "NotADirectory"
  | .isADirectory => "IsADirectory"
  | .resourceBusy => "ResourceBusy"
  | .invalidFilename => "InvalidFilename"
  | .invalidInput => "InvalidInput"
  | .notMappable => "Uncategorized"
  | .storageFull => "StorageFull"
  | .systemFailed => "Uncategorized"

/-- What a location holds. -/
inductive Node where
  | file (contents : List UInt8)
  | directory
  deriving Repr, DecidableEq

/-- The names that lead to a node, the innermost first. -/
abbrev Location := List String

/-- A tree of files and directories, and the place where relative paths start. -/
structure FileSystem where
  nodes : List (Location × Node)
  workingDirectory : Location
  deriving Repr

namespace FileSystem

/-- A directory and the directories above it, as nodes. -/
def directoriesTo : Location → List (Location × Node)
  | [] => []
  | name :: holder => (name :: holder, .directory) :: directoriesTo holder

/-- A file system that holds only its working directory and the directories above it. -/
def withWorkingDirectory (location : Location) : FileSystem where
  nodes := directoriesTo location
  workingDirectory := location

/-- The node at a location. -/
def lookup (files : FileSystem) (location : Location) : Option Node :=
  match location with
  | [] => some .directory
  | _ :: _ => (files.nodes.find? fun entry => entry.1 = location).map (·.2)

/-- The file system without the node at a location. -/
def erase (files : FileSystem) (location : Location) : FileSystem :=
  { files with nodes := files.nodes.filter fun entry => entry.1 ≠ location }

/-- The file system with a node put at a location, in place of what was there. -/
def put (files : FileSystem) (location : Location) (node : Node) : FileSystem :=
  { files with nodes := (location, node) :: (files.erase location).nodes }

/-- The most bytes that a name can have. -/
def nameLimit : Nat := 255

/-- The most bytes that a path can have. -/
def pathLimit : Nat := 4095

/-- A path that can be looked up at all. -/
def accept (path : Path) : Except FileError Unit :=
  if path.holdsNul then .error .invalidInput
  else if path.text = "" then .error .notFound
  else if pathLimit < path.text.utf8ByteSize then .error .invalidFilename
  else .ok ()

/-- What an entry of a directory holds, if it exists. -/
def entry (files : FileSystem) (location : Location) : Except FileError (Option Node) :=
  if nameLimit < (location.headD "").utf8ByteSize then .error .invalidFilename
  else .ok (files.lookup location)

/-- Follows steps from a location; every step starts from a directory and, on the way
down, arrives at something that exists. -/
def walk (files : FileSystem) : Location → List Step → Except FileError Location
  | location, [] => .ok location
  | location, step :: rest =>
    match files.lookup location with
    | some .directory =>
      match step with
      | .up => files.walk location.tail rest
      | .into name =>
        match files.entry (name :: location) with
        | .error reason => .error reason
        | .ok none => .error .notFound
        | .ok (some _) => files.walk (name :: location) rest
    | some (.file _) => .error .notADirectory
    | none => .error .notFound

/-- The location at which the steps of a path start. -/
def origin (files : FileSystem) (path : Path) : Location :=
  if path.absolute then [] else files.workingDirectory

/-- The location and the node that a path names. -/
def resolve (files : FileSystem) (path : Path) : Except FileError (Location × Node) := do
  accept path
  let location ← files.walk (files.origin path) path.steps
  match files.lookup location with
  | none => .error .notFound
  | some .directory => .ok (location, .directory)
  | some (.file contents) =>
    if path.ending = .name then .ok (location, .file contents) else .error .notADirectory

/-- The node that a path names. -/
def read (files : FileSystem) (path : Path) : Except FileError Node :=
  (files.resolve path).map (·.2)

/-- A path names something. -/
def exists? (files : FileSystem) (path : Path) : Bool := (files.resolve path).isOk

/-- A path names a directory. -/
def isDirectory (files : FileSystem) (path : Path) : Bool :=
  match files.read path with
  | .ok .directory => true
  | _ => false

/-- The place of an entry that a path names, whether or not it exists: its location,
whose tail is a directory. The outcome is `none` for a path that names no entry of its
own, such as one that ends in dots. -/
def place (files : FileSystem) (path : Path) : Except FileError (Option Location) := do
  accept path
  match path.steps.getLast?, path.ending with
  | some (.into name), .name | some (.into name), .slash =>
    let directory ← files.walk (files.origin path) path.steps.dropLast
    match files.lookup directory with
    | some .directory => .ok (some (name :: directory))
    | some (.file _) => .error .notADirectory
    | none => .error .notFound
  | _, _ =>
    let _place ← files.resolve path
    .ok none

/-- Creates a file that must not exist yet. -/
def createNew (files : FileSystem) (path : Path) (contents : List UInt8) :
    Except FileError FileSystem := do
  match ← files.place path with
  | none => .error .alreadyExists
  | some location =>
    if path.ending = .slash then .error .isADirectory
    else if (← files.entry location).isSome then .error .alreadyExists
    else .ok (files.put location (.file contents))

/-- Creates a file or replaces the contents of one. -/
def write (files : FileSystem) (path : Path) (contents : List UInt8) :
    Except FileError FileSystem := do
  match ← files.place path with
  | none => .error .isADirectory
  | some location =>
    if path.ending = .slash then .error .isADirectory
    else if (← files.entry location) = some .directory then .error .isADirectory
    else .ok (files.put location (.file contents))

/-- Removes a file. -/
def remove (files : FileSystem) (path : Path) : Except FileError FileSystem := do
  match ← files.place path with
  | none => .error .isADirectory
  | some location =>
    match ← files.entry location with
    | none => .error .notFound
    | some .directory => .error .isADirectory
    | some (.file _) =>
      if path.ending = .slash then .error .notADirectory else .ok (files.erase location)

/-- Removes a file, or a directory with everything below it. -/
def removeTree (files : FileSystem) (path : Path) : Except FileError FileSystem := do
  let (location, _) ← files.resolve path
  .ok { files with nodes := files.nodes.filter fun entry => !location.isSuffixOf entry.1 }

/-- Moves a file to another place, over the file that may be there. -/
def rename (files : FileSystem) (source target : Path) : Except FileError FileSystem := do
  if target.holdsNul then .error .invalidInput
  match ← files.place source, ← files.place target with
  | some first, some second =>
    match ← files.entry first with
    | none => .error .notFound
    | some .directory => .error .isADirectory
    | some (.file contents) =>
      let present ← files.entry second
      if source.ending = .slash ∨ target.ending = .slash then .error .notADirectory
      else if present = some .directory then .error .isADirectory
      else if first = second then .ok files
      else .ok ((files.erase first).put second (.file contents))
  | _, _ => .error .resourceBusy

/-- Creates a directory that must not exist yet. -/
def makeDirectory (files : FileSystem) (path : Path) : Except FileError FileSystem := do
  match ← files.place path with
  | none => .error .alreadyExists
  | some location =>
    if (← files.entry location).isSome then .error .alreadyExists
    else .ok (files.put location .directory)

/-- Creates a directory where a directory that is already there will do as well. -/
def ensureDirectory (files : FileSystem) (path : Path) : Except FileError Unit × FileSystem :=
  match files.makeDirectory path with
  | .ok changed => (.ok (), changed)
  | .error reason => if files.isDirectory path then (.ok (), files) else (.error reason, files)

/-- Creates a directory and, before it, the directories above it that are missing.
Those that were created stay when a later one is refused. -/
def makeDirectories (files : FileSystem) (path : Path) : Except FileError Unit × FileSystem :=
  if path.text = "" then (.ok (), files)
  else match files.ensureDirectory path with
    | (.error .notFound, _) =>
      if deeper : path.steps = [] then (.error .notFound, files)
      else
        have shorter : path.parent.steps.length < path.steps.length := by
          have : path.steps.length ≠ 0 := fun empty => deeper (List.eq_nil_of_length_eq_zero empty)
          simp only [Path.parent, if_neg deeper, List.length_dropLast]
          omega
        match files.makeDirectories path.parent with
        | (.ok (), changed) => changed.ensureDirectory path
        | refused => refused
    | result => result
termination_by path.steps.length

/-- The entries of a directory by name, in the order of their names. -/
def list (files : FileSystem) (path : Path) : Except FileError (List (String × Node)) := do
  match ← files.resolve path with
  | (_, .file _) => .error .notADirectory
  | (directory, .directory) =>
    let entries := files.nodes.filterMap fun entry =>
      match entry.1 with
      | name :: holder => if holder = directory then some (name, entry.2) else none
      | [] => none
    .ok (entries.mergeSort fun first second => first.1 ≤ second.1)

end FileSystem

end InvertedIndex
