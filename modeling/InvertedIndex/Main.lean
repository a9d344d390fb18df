/-
The program. It copies from the disk what a request can touch, carries the request out
on the copy, and brings the disk to the state of the copy. All decisions are made in
`Command.execute`; here is only the exchange with the disk and the terminal.
-/

import InvertedIndex.Command.Run

namespace InvertedIndex.Program

/-- The text of a location. -/
def locationText (location : Location) : String := "/" ++ "/".intercalate location.reverse

/-- The path of a location for the operations on the disk. -/
def diskPath (location : Location) := do
  let start ← IO.currentDir
  return start / locationText location

/-- Copies what is at a location; a directory is copied without its entries. -/
def copyNode (files : FileSystem) (location : Location) : IO FileSystem := do
  let path ← diskPath location
  if ← path.isDir then return files.put location .directory
  else if ← path.pathExists then
    return files.put location (.file (← IO.FS.readBinFile path).toList)
  else return files

/-- Copies what a path names, the directories on the way, and the entries of a directory
that it names. -/
def copyPath (files : FileSystem) (path : Path) : IO FileSystem := do
  let (reached, files) ← path.steps.foldlM (fun (location, files) step => do
      let next := match step with
        | .up => location.tail
        | .into name => name :: location
      return (next, ← copyNode files next))
    (files.origin path, files)
  if files.lookup reached = some .directory then
    (← (← diskPath reached).readDir).foldlM
      (fun files entry => copyNode files (entry.fileName :: reached)) files
  else return files

/-- The files of the index in a directory. -/
def indexPaths (config : Config) (directory : Path) : List Path :=
  [directory, config.wordsPath directory, config.docsPath directory]

/-- The paths that a request can touch. -/
def requestPaths (config : Config) : Command.Request → List Path
  | .build input output tempDirectory _ _ =>
    input :: tempDirectory.getD (config.tempDirectoryFor output) :: indexPaths config output
  | .stats directory _ | .query directory _ _ _ _ | .metadata directory _ _ =>
    indexPaths config directory

/-- A name of six letters and digits for a number. -/
def stem (number : Nat) : String :=
  let characters := "0123456789ABCDEFGHIJKLMNOPQRSTUVWXYZabcdefghijklmnopqrstuvwxyz".toList
  String.ofList ((List.range 6).map fun place =>
    characters[number / Nat.pow 62 place % 62]?.getD '0')

/-- The state in which a program starts. -/
def startingWorld : IO World := do
  let start := (toString (← IO.currentDir)).splitOn "/" |>.filter (· ≠ "")
  let seed ← IO.rand 0 (Nat.pow 62 6 - 1)
  return {
    files := FileSystem.withWorkingDirectory start.reverse
    stems := fun drawn => stem (seed + drawn)
    drawn := 0
    log := []
    opened := 0
    warned := [] }

/-- The state with a copy of all that an invocation can touch. -/
def copyFor (invocation : Command.Invocation) (world : World) : IO World := do
  let (config, files) ← match invocation.config with
    | none => pure (Config.default, world.files)
    | some path => do
      let files ← copyPath world.files path
      match ((Config.load path).perform { world with files }).1 with
      | .ok config => pure (config, files)
      | .error _ => pure (Config.default, files)
  let files ← (requestPaths config invocation.request).foldlM copyPath files
  return { world with files }

/-- Brings the disk from one state of the files to another. -/
def update (before after : FileSystem) : IO Unit := do
  before.nodes.forM fun (location, _) => do
    if (after.lookup location).isNone then IO.FS.removeFile (← diskPath location)
  after.nodes.reverse.forM fun (location, node) => do
    if before.lookup location ≠ some node then
      let path ← diskPath location
      match node with
      | .directory => IO.FS.createDirAll path
      | .file contents => IO.FS.writeBinFile path (ByteArray.mk contents.toArray)

end InvertedIndex.Program

/-- Runs the command line and ends with its code. -/
def main (arguments : List String) : IO UInt32 := do
  let start ← InvertedIndex.Program.startingWorld
  let world ← match InvertedIndex.Command.CommandLine.of arguments with
    | .invocation invocation => InvertedIndex.Program.copyFor invocation start
    | .help _ | .usage => pure start
  let (result, ended) := InvertedIndex.Command.execute arguments world
  InvertedIndex.Program.update world.files ended.files
  IO.print result.output
  IO.eprint result.errors
  if result.code = 2 then
    IO.eprint (InvertedIndex.Command.HelpTopic.text .program)
  return result.code.toUInt32
