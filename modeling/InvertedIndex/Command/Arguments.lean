/-
The command line: a subcommand with its arguments, and options that may stand anywhere
among them. Each subcommand has a grammar, a list of options and of positional
arguments, and one reader serves all grammars.

An option whose value is an argument of its own is pending until the program or the
subcommand that it belongs to meets its next argument, and only then is it accepted or
refused. So an asked-for help text is given only when nothing before it at the same level
was wrong, but the last option before a subcommand is looked at only after everything
that the subcommand takes, and a help text of the subcommand comes before its refusal.
-/

import InvertedIndex.Fault
import InvertedIndex.Path

namespace InvertedIndex.Command

/-- What a value has to be. -/
inductive ValueKind where
  /-- Any text but the empty one. -/
  | path
  /-- A natural number that fits in a word. -/
  | word
  deriving Repr, DecidableEq

/-- How an option is used. -/
inductive OptionUse where
  /-- Given at most once. -/
  | flag
  /-- Given any number of times, and counted. -/
  | count
  /-- Given at most once, with a value. -/
  | value (kind : ValueKind)
  /-- Given any number of times, with a value each time. -/
  | values (kind : ValueKind)
  /-- Asks for a help text. -/
  | help
  deriving Repr, DecidableEq

/-- An option by its long name, which is also what it is called, and its short one. -/
structure OptionRule where
  long : String
  short : Option Char
  use : OptionUse
  deriving Repr, DecidableEq

/-- What a subcommand takes. -/
structure Grammar where
  options : List OptionRule
  /-- The positional arguments. -/
  positionals : List ValueKind
  /-- How many of them must be given. -/
  required : Nat
  /-- The last positional argument may be given again. -/
  repeated : Bool
  deriving Repr, DecidableEq

/-- The options of every subcommand. -/
def globalOptions : List OptionRule := [
  ⟨"config", some 'c', .value .path⟩,
  ⟨"verbose", some 'v', .count⟩,
  ⟨"help", some 'h', .help⟩]

/-- The subcommands. -/
inductive Verb where
  | build
  | stats
  | query
  | metadata
  deriving Repr, DecidableEq

namespace Verb

/-- The word for a subcommand. -/
def name : Verb → String
  | .build => "build"
  | .stats => "stats"
  | .query => "query"
  | .metadata => "meta"

/-- All subcommands. -/
def all : List Verb := [.build, .stats, .query, .metadata]

/-- The subcommand with this name. -/
def ofName? (name : String) : Option Verb := all.find? fun verb => verb.name = name

/-- What a subcommand takes. -/
def grammar : Verb → Grammar
  | .build =>
    { options := globalOptions ++ [⟨"tmp-dir", none, .value .path⟩, ⟨"scalar", none, .flag⟩,
        ⟨"json", none, .flag⟩]
      positionals := [.path, .path], required := 2, repeated := false }
  | .stats =>
    { options := globalOptions ++ [⟨"json", none, .flag⟩]
      positionals := [.path], required := 0, repeated := false }
  | .query =>
    { options := globalOptions ++ [⟨"also", none, .values .word⟩, ⟨"not", none, .values .word⟩,
        ⟨"limit", some 'l', .value .word⟩]
      positionals := [.path, .word], required := 2, repeated := false }
  | .metadata =>
    { options := globalOptions
      positionals := [.path, .word, .word], required := 3, repeated := true }

end Verb

/-- Why arguments were not accepted. -/
inductive Refusal where
  /-- They do not follow the grammar. -/
  | usage
  /-- A help text was asked for. -/
  | help
  deriving Repr, DecidableEq

/-- The number that a text of decimal digits spells, with an optional plus in front,
when it fits in a word. -/
def wordOf? (text : String) : Option Nat :=
  let digits := match text.toList with
    | '+' :: rest => rest
    | characters => characters
  if digits.isEmpty || !digits.all Char.isDigit then none
  else
    let value := digits.foldl (fun value digit => 10 * value + (digit.toNat - 48)) 0
    if value < wordLimit then some value else none

/-- A text is a value of this kind. -/
def ValueKind.admits (kind : ValueKind) (text : String) : Bool :=
  match kind with
  | .path => text ≠ ""
  | .word => (wordOf? text).isSome

/-- What has been given so far, in order. -/
structure Given where
  /-- The accepted options with their values. -/
  options : List (String × String)
  positionals : List String
  /-- An option with its value that is neither accepted nor refused yet. -/
  pending : Option (OptionRule × String)
  deriving Repr, DecidableEq

namespace Given

/-- Nothing at all. -/
def none : Given := { options := [], positionals := [], pending := Option.none }

/-- The values of an accepted option, in order. -/
def values (given : Given) (option : String) : List String :=
  (given.options.filter fun entry => entry.1 = option).map (·.2)

/-- The option was accepted. -/
def has (given : Given) (option : String) : Bool := !(given.values option).isEmpty

/-- Accepts an option with a value; a value of the wrong kind and an option that was
accepted before and may not be repeated are refused. -/
def accept (given : Given) (rule : OptionRule) (value : String) : Except Refusal Given :=
  let added := { given with options := given.options ++ [(rule.long, value)] }
  let once (accepted : Bool) : Except Refusal Given :=
    if accepted && !given.has rule.long then .ok added else .error .usage
  match rule.use with
  | .flag => once true
  | .count => .ok added
  | .value kind => once (kind.admits value)
  | .values kind => if kind.admits value then .ok added else .error .usage
  | .help => .error .help

/-- Decides on the pending option. -/
def settle (given : Given) : Except Refusal Given :=
  match given.pending with
  | some (rule, value) => { given with pending := Option.none }.accept rule value
  | Option.none => .ok given

/-- Takes an option with what is attached to it. -/
def addOption (given : Given) (rule : OptionRule) (value : String) : Except Refusal Given := do
  (← given.settle).accept rule value

/-- Takes an option whose value is an argument of its own, and leaves it pending. -/
def postpone (given : Given) (rule : OptionRule) (value : String) : Except Refusal Given := do
  return { ← given.settle with pending := some (rule, value) }

/-- Takes a positional argument. -/
def addPositional (given : Given) (grammar : Grammar) (value : String) :
    Except Refusal Given := do
  let given ← given.settle
  let kind := match grammar.positionals[given.positionals.length]? with
    | some kind => some kind
    | Option.none => if grammar.repeated then grammar.positionals.getLast? else Option.none
  match kind with
  | some kind =>
    if kind.admits value then .ok { given with positionals := given.positionals ++ [value] }
    else .error .usage
  | Option.none => .error .usage

end Given

/-- An option takes a value. -/
def OptionUse.takesValue : OptionUse → Bool
  | .value _ | .values _ => true
  | .flag | .count | .help => false

/-- A text that is an option rather than a value: a dash with something after it. -/
def looksLikeOption (text : String) : Bool :=
  match text.toList with
  | '-' :: _ :: _ => true
  | _ => false

/-- An argument, told apart by its first characters. -/
inductive Argument where
  /-- Two dashes: only positional arguments follow. -/
  | endOfOptions
  /-- An option by its long name, perhaps with a value after an equals sign. -/
  | long (name : String) (value : Option String)
  /-- Options by their short names, the last perhaps with its value. -/
  | short (characters : List Char)
  | plain (text : String)
  deriving Repr, DecidableEq

/-- What kind of argument a text is. -/
def Argument.of (text : String) : Argument :=
  match text.toList with
  | ['-', '-'] => .endOfOptions
  | '-' :: '-' :: rest =>
    let name := String.ofList (rest.takeWhile (· ≠ '='))
    match rest.dropWhile (· ≠ '=') with
    | [] => .long name none
    | _ :: value => .long name (some (String.ofList value))
  | '-' :: first :: rest => .short (first :: rest)
  | _ => .plain text

/-- Takes options by their short names, and the arguments after them where an option
needs a value that is not attached. The rest of the arguments is returned. -/
def takeShort (rules : List OptionRule) (given : Given) (following : List String) :
    List Char → Except Refusal (Given × List String)
  | [] => .ok (given, following)
  | character :: rest =>
    match rules.find? fun rule => rule.short = some character with
    | none => .error .usage
    | some rule =>
      if rule.use.takesValue then
        match rest, following with
        | '=' :: value, _ => do return (← given.addOption rule (String.ofList value), following)
        | first :: value, _ => do
          return (← given.addOption rule (String.ofList (first :: value)), following)
        | [], next :: later =>
          if looksLikeOption next then .error .usage
          else do return (← given.postpone rule next, later)
        | [], [] => .error .usage
      else do takeShort rules (← given.addOption rule "") following rest

/-- Takes an option by its long name. -/
def takeLong (rules : List OptionRule) (given : Given) (following : List String) (name : String)
    (value : Option String) : Except Refusal (Given × List String) :=
  match rules.find? fun rule => rule.long = name with
  | none => .error .usage
  | some rule =>
    if rule.use.takesValue then
      match value, following with
      | some value, _ => do return (← given.addOption rule value, following)
      | none, next :: later =>
        if looksLikeOption next then .error .usage
        else do return (← given.postpone rule next, later)
      | none, [] => .error .usage
    else match value with
      | some _ => .error .usage
      | none => do return (← given.addOption rule "", following)

theorem length_takeShort {rules : List OptionRule} {given after : Given}
    {following remaining : List String} {characters : List Char}
    (taken : takeShort rules given following characters = .ok (after, remaining)) :
    remaining.length ≤ following.length := by
  fun_induction takeShort rules given following characters generalizing after remaining <;>
    simp_all [bind, Except.bind, pure, Except.pure] <;> grind

theorem length_takeLong {rules : List OptionRule} {given after : Given}
    {following remaining : List String} {name : String} {value : Option String}
    (taken : takeLong rules given following name value = .ok (after, remaining)) :
    remaining.length ≤ following.length := by
  unfold takeLong at taken
  simp only [bind, Except.bind, pure, Except.pure] at taken
  grind

/-- Ends the arguments of a subcommand: nothing may be pending or missing. -/
def finish (grammar : Grammar) (given : Given) : Except Refusal Given := do
  let given ← given.settle
  if given.positionals.length < grammar.required then .error .usage else .ok given

/-- Takes the arguments of a subcommand. -/
def takeAll (grammar : Grammar) (given : Given) (arguments : List String) :
    Except Refusal Given :=
  match arguments with
  | [] => finish grammar given
  | argument :: following =>
    match Argument.of argument with
    | .endOfOptions => do
      let complete ← following.foldlM (fun given value => given.addPositional grammar value) given
      finish grammar complete
    | .plain text => do takeAll grammar (← given.addPositional grammar text) following
    | .long name value =>
      match taken : takeLong grammar.options given following name value with
      | .error refusal => .error refusal
      | .ok (after, remaining) =>
        have : remaining.length ≤ following.length := length_takeLong taken
        takeAll grammar after remaining
    | .short characters =>
      match taken : takeShort grammar.options given following characters with
      | .error refusal => .error refusal
      | .ok (after, remaining) =>
        have : remaining.length ≤ following.length := length_takeShort taken
        takeAll grammar after remaining
termination_by arguments.length

/-- What the command line asks for. -/
inductive Request where
  | build (input output : Path) (tempDirectory : Option Path) (scalar json : Bool)
  | stats (directory : Path) (json : Bool)
  | query (directory : Path) (term : UInt64) (also never : List UInt64) (limit : Option Nat)
  | metadata (directory : Path) (term : UInt64) (docs : List UInt64)
  deriving Repr, DecidableEq

/-- A request with the options that every subcommand has. -/
structure Invocation where
  config : Option Path
  /-- How much of the log is shown. -/
  verbosity : Nat
  request : Request
  deriving Repr, DecidableEq

/-- A help text that was asked for. -/
inductive HelpTopic where
  | program
  | verb (verb : Verb)
  | help
  deriving Repr, DecidableEq

/-- What a command line comes to. -/
inductive CommandLine where
  | invocation (invocation : Invocation)
  | help (topic : HelpTopic)
  | usage
  deriving Repr, DecidableEq

/-- A value that was found to be a number. -/
def wordValue (text : String) : UInt64 := UInt64.ofNat ((wordOf? text).getD 0)

/-- The request that a subcommand makes with these arguments. -/
def Verb.request (verb : Verb) (given : Given) : Request :=
  let path (place : Nat) : Path := Path.ofText (given.positionals[place]?.getD ".")
  let term : UInt64 := wordValue (given.positionals[1]?.getD "")
  match verb with
  | .build => .build (path 0) (path 1) ((given.values "tmp-dir").head?.map Path.ofText)
      (given.has "scalar") (given.has "json")
  | .stats => .stats (path 0) (given.has "json")
  | .query => .query (path 0) term ((given.values "also").map wordValue)
      ((given.values "not").map wordValue) ((given.values "limit").head?.bind wordOf?)
  | .metadata => .metadata (path 0) term ((given.positionals.drop 2).map wordValue)

/-- Reads the arguments after a subcommand, and then decides on what is pending from
before it. An option of the program that stands on both sides of the subcommand counts
where it stands last. -/
def readVerb (before : Given) (verb : Verb) (arguments : List String) : CommandLine :=
  match takeAll verb.grammar .none arguments, before.settle with
  | .error .usage, _ => .usage
  | .error .help, _ => .help (.verb verb)
  | .ok _, .error _ => .usage
  | .ok given, .ok before =>
    let latest (option : String) : List String :=
      if given.has option then given.values option else before.values option
    .invocation {
      config := (latest "config").head?.map Path.ofText
      verbosity := (latest "verbose").length
      request := verb.request given }

/-- Reads the arguments after the word that asks for help. -/
def readHelp : List String → CommandLine
  | [] => .help .program
  | [name] =>
    match Verb.ofName? name with
    | some verb => .help (.verb verb)
    | none => if name = "help" then .help .help else .usage
  | _ => .usage

/-- Reads a command line; `given` are the options before the subcommand. -/
def readFrom (given : Given) (arguments : List String) : CommandLine :=
  match arguments with
  | [] => .usage
  | argument :: following =>
    match Argument.of argument with
    | .endOfOptions => .usage
    | .plain text =>
      if text = "help" then readHelp following
      else match Verb.ofName? text with
        | some verb => readVerb given verb following
        | none => .usage
    | .long name value =>
      match taken : takeLong globalOptions given following name value with
      | .error .usage => .usage
      | .error .help => .help .program
      | .ok (after, remaining) =>
        have : remaining.length ≤ following.length := length_takeLong taken
        readFrom after remaining
    | .short characters =>
      match taken : takeShort globalOptions given following characters with
      | .error .usage => .usage
      | .error .help => .help .program
      | .ok (after, remaining) =>
        have : remaining.length ≤ following.length := length_takeShort taken
        readFrom after remaining
termination_by arguments.length

/-- Reads a command line. -/
def CommandLine.of (arguments : List String) : CommandLine := readFrom .none arguments

end InvertedIndex.Command
