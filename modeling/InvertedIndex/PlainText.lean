/-
The part of a text that is shown when there is no terminal to show it. What a terminal
would act on is left out: control characters, apart from those that lay out a text, and
the sequences that an escape character starts. A string that is not finished takes the
rest of the text with it.

A character that lays out the text is shown inside a sequence too, and suspends it: what
follows is shown as well, up to the next control character of another kind, and there
the sequence goes on. A character beyond the first 128 gives up a suspended sequence.
-/

namespace InvertedIndex

/-- Where a reader of such a text stands. -/
inductive TerminalState where
  /-- Outside of sequences. -/
  | text
  /-- Behind an escape character. -/
  | escape
  /-- In a sequence that any letter, digit or sign ends. -/
  | short
  /-- In a sequence of parameters that a letter ends. -/
  | parameters
  /-- At the start of a string for a device. -/
  | device
  /-- Among the parameters of a string for a device. -/
  | deviceParameters
  /-- Behind the parameters of a string for a device. -/
  | deviceIntermediate
  /-- In a string that has a byte of its own for its end. -/
  | string
  /-- In a string that a bell ends. -/
  | command
  deriving Repr, DecidableEq

namespace TerminalState

/-- A control character that lays out a text. -/
def isLayout (character : Char) : Bool :=
  character = '\t' || character = '\n' || character = '\x0c' || character = '\r'

/-- A character that is shown outside of sequences. -/
def isVisible (character : Char) : Bool :=
  isLayout character || (' ' ≤ character && character ≠ '\x7f')

/-- A character that is neither a control character nor beyond the first 128. -/
def isPlain (character : Char) : Bool := ' ' ≤ character && character ≤ '~'

/-- Goes on inside a sequence: a character that lays out the text is shown and leaves the
sequence as it is. -/
def within (state : TerminalState) (character : Char) (ends : Bool) : TerminalState × Bool :=
  (if ends then .text else state, isLayout character)

/-- Takes a character that is part of what was begun, and tells whether it is shown. -/
def next (state : TerminalState) (character : Char) : TerminalState × Bool :=
  if character = '\x1b' then (.escape, false)
  else if character = '\x18' ∨ character = '\x1a' then (.text, false)
  else match state with
    | .text => (.text, isVisible character)
    | .escape =>
      if isPlain character && character < '0' then (.short, false)
      else match character with
        | '[' => (.parameters, false)
        | ']' => (.command, false)
        | 'P' => (.device, false)
        | 'X' | '^' | '_' => (.string, false)
        | _ => within .escape character (isPlain character)
    | .short => within .short character (isPlain character && '0' ≤ character)
    | .parameters => within .parameters character (isPlain character && '@' ≤ character)
    | .device =>
      (if !isPlain character then .device
        else if character < '0' then .deviceIntermediate
        else if character < '@' then .deviceParameters
        else .string, false)
    | .deviceParameters =>
      (if !isPlain character then .deviceParameters
        else if character < '0' then .deviceIntermediate
        else if character < '<' then .deviceParameters
        else .string, false)
    | .deviceIntermediate =>
      (if isPlain character && '0' ≤ character then .string else .deviceIntermediate, false)
    | .string =>
      (if (String.utf8EncodeChar character).contains 0x9c then .text else .string, false)
    | .command => (if character = '\x07' then .text else .command, false)

end TerminalState

/-- A reader that shows what is visible. -/
structure PlainReader where
  state : TerminalState
  /-- The last character was shown, so a sequence that was begun is suspended. -/
  showing : Bool
  deriving Repr, DecidableEq

namespace PlainReader

/-- A reader at the start of a text. -/
def start : PlainReader := { state := .text, showing := false }

/-- Takes a character and tells whether it is shown. -/
def next (reader : PlainReader) (character : Char) : PlainReader × Bool :=
  if reader.showing && TerminalState.isVisible character then
    ({ reader with state := if '\x7f' < character then .text else reader.state }, true)
  else
    let (state, showing) := reader.state.next character
    ({ state, showing }, showing)

/-- The characters that are shown. -/
def shown (reader : PlainReader) : List Char → List Char
  | [] => []
  | character :: rest =>
    match reader.next character with
    | (after, true) => character :: after.shown rest
    | (after, false) => after.shown rest

end PlainReader

/-- The part of a text that is shown without a terminal. -/
def plainText (text : String) : String := String.ofList (PlainReader.start.shown text.toList)

end InvertedIndex
