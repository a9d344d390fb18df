/-
The help texts of the command line. A text says what a command is for and how it is
used, and lists its arguments and options in two columns. The options that every
command has stand after those of its own.
-/

import InvertedIndex.Command.Arguments

namespace InvertedIndex.Command

/-- What the program is called. -/
def programName : String := "rindex-cli"

/-- An entry of a list with its explanation, the explanations starting two blanks after
the widest entry. -/
def entryLine (width : Nat) (entry explanation : String) : String :=
  "  " ++ entry ++ String.ofList (List.replicate (width - entry.length + 2) ' ') ++ explanation

/-- A list of entries under a title; nothing where there are none. -/
def helpSection (title : String) (entries : List (String × String)) : String :=
  let width := entries.foldl (fun width entry => max width entry.1.length) 0
  if entries.isEmpty then ""
  else "\n" ++ title ++ ":\n" ++
    String.join (entries.map fun entry => entryLine width entry.1 entry.2 ++ "\n")

/-- A help text: what a command is for, how it is used after the name of the program, and
its lists. -/
def helpText (about usage : String) (sections : List String) : String :=
  about ++ "\n\nUsage: " ++ programName ++ " " ++ usage ++ "\n" ++ String.join sections

/-- The options of a command: its own, then those that every command has. -/
def optionSection (own : List (String × String)) : String :=
  helpSection "Options" (own ++ [
    ("-c, --config <CONFIG>", "Index configuration (JSON)"),
    ("-v, --verbose...", "Increase log output (-v info, -vv debug)"),
    ("-h, --help", "Print help")])

/-- What a subcommand is for. -/
def Verb.about : Verb → String
  | .build => "Build an index from the journal shards in a directory"
  | .stats => "Show index statistics"
  | .query => "List documents containing a term"
  | .metadata => "Show a term's metadata for some documents"

/-- What the subcommand that prints help texts is for. -/
def aboutHelp : String := "Print this message or the help of the given subcommand(s)"

/-- The help text of a subcommand. -/
def Verb.help (verb : Verb) : String :=
  match verb with
  | .build => helpText verb.about "build [OPTIONS] <INPUT> <OUTPUT>" [
      helpSection "Arguments" [
        ("<INPUT>", "Directory holding page-index-NNNN.dat shards"),
        ("<OUTPUT>", "Directory to write words.dat and docs.dat into")],
      optionSection [
        ("    --tmp-dir <TMP_DIR>", "Directory for intermediate files"),
        ("    --scalar", "Force the portable search backend"),
        ("    --json", "Print the build report as JSON")]]
  | .stats => helpText verb.about "stats [OPTIONS] [PATH]" [
      helpSection "Arguments" [("[PATH]", "Index directory [default: .]")],
      optionSection [("    --json", "Print as JSON")]]
  | .query => helpText verb.about "query [OPTIONS] <PATH> <TERM>" [
      helpSection "Arguments" [("<PATH>", "Index directory"), ("<TERM>", "Term id")],
      optionSection [
        ("    --also <TERM>", "Only documents that also contain this term"),
        ("    --not <TERM>", "Drop documents that contain this term"),
        ("-l, --limit <LIMIT>", "Stop after this many documents")]]
  | .metadata => helpText verb.about "meta [OPTIONS] <PATH> <TERM> <DOCS>..." [
      helpSection "Arguments" [("<PATH>", "Index directory"), ("<TERM>", "Term id"),
        ("<DOCS>...", "Document ids")],
      optionSection []]

/-- The help text on a topic. -/
def HelpTopic.text : HelpTopic → String
  | .program => helpText "Build and query on-disk reverse indexes" "[OPTIONS] <COMMAND>" [
      helpSection "Commands"
        (Verb.all.map (fun verb => (verb.name, verb.about)) ++ [("help", aboutHelp)]),
      optionSection []]
  | .verb subcommand => subcommand.help
  | .help => helpText aboutHelp "help [COMMAND]..." [
      helpSection "Arguments" [("[COMMAND]...", "Print help for the subcommand(s)")]]

end InvertedIndex.Command
