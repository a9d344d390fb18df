/-
Writing JSON, either without blanks or with one member to a line and two blanks for
each level.
-/

namespace InvertedIndex.Json

/-- A JSON document to be written. -/
inductive Document where
  | null
  | natural (value : Nat)
  | text (value : String)
  | list (elements : List Document)
  | record (members : List (String × Document))

namespace Document

/-- The digits of a byte in hexadecimal, two of them. -/
def twoHexDigits (value : Nat) : String :=
  String.ofList [Nat.digitChar (value / 16), Nat.digitChar (value % 16)]

/-- A character as it stands in a string: quotes, backslashes and control characters
are escaped. -/
def escaped (character : Char) : String :=
  if character = '"' then "\\\""
  else if character = '\\' then "\\\\"
  else if character = '\x08' then "\\b"
  else if character = '\x0c' then "\\f"
  else if character = '\n' then "\\n"
  else if character = '\r' then "\\r"
  else if character = '\t' then "\\t"
  else if character.toNat < 32 then "\\u00" ++ twoHexDigits character.toNat
  else character.toString

/-- A text between quotes. -/
def quoted (value : String) : String :=
  "\"" ++ String.join (value.toList.map escaped) ++ "\""

mutual

/-- The document without blanks. -/
def compact : Document → String
  | null => "null"
  | natural value => toString value
  | text value => quoted value
  | list elements => "[" ++ ",".intercalate (compactEach elements) ++ "]"
  | record members => "\x7b" ++ ",".intercalate (compactMembers members) ++ "\x7d"

/-- Some documents without blanks. -/
def compactEach : List Document → List String
  | [] => []
  | element :: rest => element.compact :: compactEach rest

/-- Some members without blanks. -/
def compactMembers : List (String × Document) → List String
  | [] => []
  | (key, value) :: rest => (quoted key ++ ":" ++ value.compact) :: compactMembers rest

end

/-- The start of a line at a level. -/
def lineStart (level : Nat) : String := "\n" ++ String.ofList (List.replicate (2 * level) ' ')

/-- Lines between two marks, or the marks alone when there are none. -/
def block (level : Nat) (first last : String) (lines : List String) : String :=
  if lines.isEmpty then first ++ last
  else first ++ lineStart (level + 1) ++ ("," ++ lineStart (level + 1)).intercalate lines ++
    lineStart level ++ last

mutual

/-- The document with one member to a line, as it stands at a level. -/
def prettyAt (level : Nat) : Document → String
  | null => "null"
  | natural value => toString value
  | text value => quoted value
  | list elements => block level "[" "]" (prettyEach (level + 1) elements)
  | record members => block level "\x7b" "\x7d" (prettyMembers (level + 1) members)

/-- Some documents with one member to a line. -/
def prettyEach (level : Nat) : List Document → List String
  | [] => []
  | element :: rest => element.prettyAt level :: prettyEach level rest

/-- Some members, each on a line of its own. -/
def prettyMembers (level : Nat) : List (String × Document) → List String
  | [] => []
  | (key, value) :: rest =>
    (quoted key ++ ": " ++ value.prettyAt level) :: prettyMembers level rest

end

/-- The document with one member to a line. -/
def pretty (document : Document) : String := document.prettyAt 0

end Document

end InvertedIndex.Json
