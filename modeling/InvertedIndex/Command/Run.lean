/-
Running a request of the command line: what it prints, what it logs, and the code it
ends with. A failed request prints what it had to say before it failed.
-/

import InvertedIndex.ByteSize
import InvertedIndex.Command.Help
import InvertedIndex.Config
import InvertedIndex.PlainText
import InvertedIndex.Query
import InvertedIndex.Stats

namespace InvertedIndex.Command

/-- The world and the lines printed so far. -/
structure Console where
  world : World
  printed : List String

/-- A part of a request. -/
abbrev Running := ExceptT (Failure TracedError) (StateM Console)

/-- An operation of the index as part of a request. -/
def act {α : Type} (action : Action TracedError α) : Running α := fun console =>
  match action console.world with
  | (result, world) => (result, { console with world })

/-- Prints a line. -/
def print (line : String) : Running Unit :=
  modify fun console => { console with printed := console.printed ++ [line] }

/-- Prints some lines. -/
def printAll (lines : List String) : Running Unit :=
  modify fun console => { console with printed := console.printed ++ lines }

/-- Logs which backend was detected. -/
def announceBackend : Running Unit := act (Action.log .debug "search backend: avx2")

/-- A build report as a JSON document. -/
def reportDocument (report : Report) : Json.Document :=
  .record [("terms", .natural report.terms), ("postings", .natural report.postings),
    ("words_bytes", .natural report.wordsBytes), ("docs_bytes", .natural report.docsBytes)]

/-- The summary of an index as a JSON document. -/
def statsDocument (stats : IndexStats) : Json.Document :=
  .record [("terms", .natural stats.terms), ("postings", .natural stats.postings),
    ("words_bytes", .natural stats.wordsBytes), ("docs_bytes", .natural stats.docsBytes),
    ("largest_terms", .list (stats.largest.map fun (term, count) =>
      .list [.natural term.toNat, .natural count]))]

/-- Builds the index of the shards in a directory. -/
def build (config : Config) (input output : Path) (json : Bool) : Running Unit := do
  act ((Action.makeDirectories output).filesDuring (.createOutputDirectory output))
  if !json then print s!"Indexing: {input}"
  announceBackend
  let builder := config.builder output Journal.ShardSource.files id
  let console ← get
  let (result, run) :=
    Builder.run (builder.buildDirectory (fun _ => false) [] input) false console.world
  set { console with world := run.world }
  match ← act (Action.ofResult result) with
  | .noInput => act (Action.stop (.noShards input))
  | .built report =>
    if json then print (reportDocument report).pretty
    else print (s!"Indexed {report.terms} terms, {report.postings} postings " ++
      s!"({ByteSize.text report.wordsBytes} + {ByteSize.text report.docsBytes})")

/-- Opens the index in a directory, which has to be there. -/
def openReader (config : Config) (directory : Path) : Running IndexReader := do
  if config.backend = .auto then announceBackend
  let reader ← act ((IndexReader.open (config.wordsPath directory) (config.docsPath directory)
    config.readerOptions).during (.openIndexIn directory))
  if !reader.isReady then act (Action.stop (.noIndex directory))
  return reader

/-- A text at the right end of a field of this width. -/
def rightAligned (width : Nat) (text : String) : String :=
  String.ofList (List.replicate (width - text.length) ' ') ++ text

/-- How many of the largest terms a summary shows. -/
def shownTerms : Nat := 15

/-- The lines of a summary. -/
def statsLines (directory : Path) (stats : IndexStats) : List String :=
  let more := stats.terms - stats.largest.length
  ["Index Statistics", "================", "",
    s!"Index location:   {directory}",
    s!"Terms:            {stats.terms}",
    s!"Postings:         {stats.postings}",
    s!"Words file:       {ByteSize.text stats.wordsBytes}",
    s!"Docs file:        {ByteSize.text stats.docsBytes}"] ++
  if stats.largest.isEmpty then []
  else ["", "Largest terms:"] ++
    (stats.largest.map fun (term, count) => s!"  {rightAligned 20 (toString term)} {count}") ++
    if 0 < more then [s!"  ... and {more} more"] else []

/-- Shows the summary of the index in a directory. -/
def showStats (config : Config) (directory : Path) (json : Bool) : Running Unit := do
  let reader ← openReader config directory
  let stats ← act (IndexStats.collect reader shownTerms)
  if json then print (statsDocument stats).pretty else printAll (statsLines directory stats)

/-- The documents without repeats in ascending order. -/
def distinctSorted (docs : List DocId) : List DocId :=
  ((docs.mergeSort fun first second => first ≤ second).splitBy (· == ·)).filterMap List.head?

/-- A word in hexadecimal. -/
def hexadecimal (value : UInt64) : String := "0x" ++ String.ofList (Nat.toDigits 16 value.toNat)

/-- The line that shows a document. -/
def documentLine (doc : DocId) : String := s!"{doc}\t{domainOf doc}:{ordinalOf doc}"

/-- Prints the documents of a term that list the other terms `also` and none of the terms
`never`, as many as the limit says. -/
def printDocuments (reader : IndexReader) (term : Term) (also never : List Term) (limit : Nat) :
    Running Unit := do
  let filter ← act (reader.queryFilter also never)
  act (Action.log .info s!"Query {term} filtered by {filter.describe}")
  let source ← act (reader.documents term)
  let docs ← act (Action.ofChecked (queryDocuments filter limit source))
  printAll (docs.map documentLine)

/-- Lists the documents of a term in the index in a directory. -/
def query (config : Config) (directory : Path) (term : Term) (also never : List Term)
    (limit : Option Nat) : Running Unit := do
  let reader ← openReader config directory
  printDocuments reader term also never (limit.getD (wordLimit - 1))

/-- Shows the metadata of a term in some documents. -/
def showMetadata (config : Config) (directory : Path) (term : Term) (docs : List DocId) :
    Running Unit := do
  let reader ← openReader config directory
  let docs := distinctSorted docs
  let metadata ← act (reader.metadata term docs)
  printAll ((docs.zip metadata).map fun (doc, flags) => s!"{doc}\t{hexadecimal flags}")

/-- Carries out a request. -/
def carryOut (invocation : Invocation) : Running Unit := do
  let config ← match invocation.config with
    | some path => act (Config.load path)
    | none => pure Config.default
  match invocation.request with
  | .build input output tempDirectory scalar json =>
    let placed := match tempDirectory with
      | some directory => { config with tempDirectory := some directory }
      | none => config
    build (if scalar then { placed with backend := .scalar } else placed) input output json
  | .stats directory json => showStats config directory json
  | .query directory term also never limit => query config directory term also never limit
  | .metadata directory term docs => showMetadata config directory term docs

/-- What a command line printed and how it ended. -/
structure CommandResult where
  code : Nat
  /-- The text for the standard output. -/
  output : String
  /-- The text for the standard error: the lines of the log that are shown, then the
  error. -/
  errors : String
  deriving Repr, DecidableEq

/-- A line of the log is shown at a verbosity. -/
def shown (verbosity : Nat) (line : LogLine) : Bool :=
  match line.level with
  | .error | .warn => true
  | .info => 1 ≤ verbosity
  | .debug => 2 ≤ verbosity

/-- A line of the log as it is shown. -/
def logText (line : LogLine) : String := plainText s!"{line.level.name}: {line.text}\n"

/-- Lines as one text. -/
def textOfLines (lines : List String) : String := String.join (lines.map fun line => line ++ "\n")

/-- Runs a request. -/
def runInvocation (invocation : Invocation) (world : World) : CommandResult × World :=
  let (result, console) := carryOut invocation { world := { world with log := [] }, printed := [] }
  let log := String.join ((console.world.log.filter (shown invocation.verbosity)).map logText)
  let output := textOfLines console.printed
  let ended := { console.world with log := world.log ++ console.world.log }
  match result with
  | .ok () => ({ code := 0, output, errors := log }, ended)
  | .error (.error cause) =>
    let message := cause.messages.headD ""
    ({ code := 1, output, errors := log ++ s!"Error: {message}\n" }, ended)
  | .error (.fault _) => ({ code := 101, output, errors := log }, ended)

/-- Runs a command line. -/
def execute (arguments : List String) (world : World) : CommandResult × World :=
  match CommandLine.of arguments with
  | .usage => ({ code := 2, output := "", errors := "" }, world)
  | .help topic => ({ code := 0, output := topic.text, errors := "" }, world)
  | .invocation invocation => runInvocation invocation world

end InvertedIndex.Command
