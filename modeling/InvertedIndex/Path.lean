/-
A path keeps its spelling, which messages show, and what the spelling says: whether
it starts at the root, and the steps that lead from there. Empty pieces and single
dots between slashes are no steps. How a path ends is kept as well, because a path
that ends in a slash asks for a directory, and one that ends in dots names no entry
of its own.
-/

namespace InvertedIndex

/-- One step along a path. -/
inductive Step where
  /-- To the entry of this name. -/
  | into (name : String)
  /-- To the directory that holds the present one. -/
  | up
  deriving Repr, DecidableEq

/-- How the spelling of a path ends. -/
inductive Ending where
  | name
  | slash
  | dots
  deriving Repr, DecidableEq

/-- A path with its spelling. -/
structure Path where
  text : String
  /-- The steps start at the root and not at the working directory. -/
  absolute : Bool
  /-- The spelling starts with a single dot. -/
  dotted : Bool
  steps : List Step
  ending : Ending
  deriving Repr, DecidableEq

namespace Path

/-- The pieces of a text between its slashes. -/
def pieces : List Char → List (List Char)
  | [] => [[]]
  | character :: rest =>
    if character = '/' then [] :: pieces rest
    else match pieces rest with
      | [] => [[character]]
      | piece :: more => (character :: piece) :: more

/-- The step that a piece stands for, if any. -/
def stepOf : List Char → Option Step
  | [] => none
  | ['.'] => none
  | ['.', '.'] => some .up
  | name => some (.into (String.ofList name))

/-- How a path with these pieces ends. -/
def endingOf (pieces : List (List Char)) : Ending :=
  match (pieces.filter (· ≠ [])).getLast? with
  | some ['.'] | some ['.', '.'] => .dots
  | _ => if pieces.getLast? = some [] then .slash else .name

/-- The path that a text spells. -/
def ofText (text : String) : Path :=
  let parts := pieces text.toList
  { text
    absolute := text.toList.head? = some '/'
    dotted := parts.head? = some ['.']
    steps := parts.filterMap stepOf
    ending := endingOf parts }

/-- The working directory. -/
def here : Path := ofText "."

/-- The text of a path below another: an absolute text stands for itself, and otherwise
a slash is put between the two unless one is there or nothing precedes it. -/
def joinedText (base below : String) : String :=
  if below.toList.head? = some '/' then below
  else if base = "" || base.toList.getLast? = some '/' then base ++ below
  else base ++ "/" ++ below

/-- The path that a text spells below another path. -/
def join (base : Path) (below : String) : Path := ofText (joinedText base.text below)

/-- The entry of a directory with a plain name. -/
def child (directory : Path) (name : String) : Path :=
  { text := joinedText directory.text name
    absolute := directory.absolute
    dotted := directory.dotted
    steps := directory.steps ++ [.into name]
    ending := .name }

/-- The pieces up to the last one that is a step. -/
def upToStep (parts : List (List Char)) : List (List Char) :=
  (parts.reverse.dropWhile fun part => (stepOf part).isNone).reverse

/-- The spelling of the directory that holds what a text names: the text before its last
step, or the start of the path when no other step is left. -/
def parentText (text : String) : String :=
  match upToStep (upToStep (pieces text.toList)).dropLast with
  | [] => if text.toList.head? = some '/' then "/" else "."
  | parts => "/".intercalate (parts.map String.ofList)

/-- The directory that holds what the path names; the working directory for a path
with no steps. -/
def parent (path : Path) : Path :=
  if path.steps = [] then here
  else { ofText (parentText path.text) with steps := path.steps.dropLast }

/-- Two paths with the same steps from the same start. Their spellings may still
differ in empty pieces and dots, and different steps may lead to the same entry. -/
def sameSteps (first second : Path) : Bool :=
  first.absolute == second.absolute && first.dotted == second.dotted &&
    first.steps == second.steps

/-- The same path from the root, when it is otherwise taken from the directory that these
names lead to, the innermost first. -/
def fromRoot (location : List String) (path : Path) : Path :=
  if path.absolute then path
  else
    { text := joinedText ("/" ++ "/".intercalate location.reverse) path.text
      absolute := true
      dotted := false
      steps := location.reverse.map .into ++ path.steps
      ending := path.ending }

/-- The spelling holds the character that ends a text for the system. -/
def holdsNul (path : Path) : Bool := path.text.toList.contains '\x00'

instance : ToString Path := ⟨Path.text⟩

end Path

end InvertedIndex
