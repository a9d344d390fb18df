/-
A JSON text as a value. The tokens are read one after the other with a stack of the
arrays and objects that are still open, so nesting may be as deep as it likes.
-/

import InvertedIndex.Json.Token

namespace InvertedIndex.Json

/-- A JSON value with its strings and numbers as they are written. -/
inductive Value where
  | null
  | boolean (value : Bool)
  | number (literal : Number)
  | string (pieces : List Piece)
  | array (elements : List Value)
  | object (members : List (List Piece × Value))

/-- An array or object that is still open, with what it holds so far, the latest
first. -/
inductive Frame where
  | array (elements : List Value)
  | object (members : List (List Piece × Value)) (key : List Piece)

/-- What the reader can take next. -/
inductive Awaiting where
  | value
  | elementOrEnd
  | memberOrEnd
  | member
  | colon
  | commaOrEnd
  /-- The document is complete. -/
  | nothing (document : Value)

/-- A reader of tokens. -/
structure Reading where
  frames : List Frame
  awaiting : Awaiting

namespace Reading

/-- A reader that has taken nothing yet. -/
def start : Reading := { frames := [], awaiting := .value }

/-- The reader after a value is complete. -/
def complete (frames : List Frame) (value : Value) : Reading :=
  match frames with
  | [] => { frames := [], awaiting := .nothing value }
  | .array elements :: outer =>
    { frames := .array (value :: elements) :: outer, awaiting := .commaOrEnd }
  | .object members key :: outer =>
    { frames := .object ((key, value) :: members) [] :: outer, awaiting := .commaOrEnd }

/-- The reader after a token that starts a value. -/
def begin (frames : List Frame) : Token → Option Reading
  | .null => some (complete frames .null)
  | .boolean value => some (complete frames (.boolean value))
  | .number literal => some (complete frames (.number literal))
  | .string pieces => some (complete frames (.string pieces))
  | .openArray => some { frames := .array [] :: frames, awaiting := .elementOrEnd }
  | .openObject => some { frames := .object [] [] :: frames, awaiting := .memberOrEnd }
  | _ => none

/-- The reader after the token that ends the innermost array or object. -/
def finish (frames : List Frame) : Token → Option Reading
  | .closeArray =>
    match frames with
    | .array elements :: outer => some (complete outer (.array elements.reverse))
    | _ => none
  | .closeObject =>
    match frames with
    | .object members _ :: outer => some (complete outer (.object members.reverse))
    | _ => none
  | _ => none

/-- The reader after the key of a member. -/
def takeKey (frames : List Frame) : Token → Option Reading
  | .string pieces =>
    match frames with
    | .object members _ :: outer =>
      some { frames := .object members pieces :: outer, awaiting := .colon }
    | _ => none
  | _ => none

/-- The reader after one more token, unless the token cannot stand here. -/
def step (reading : Reading) (token : Token) : Option Reading :=
  match reading.awaiting, token with
  | .value, token => begin reading.frames token
  | .elementOrEnd, .closeArray => finish reading.frames token
  | .elementOrEnd, token => begin reading.frames token
  | .memberOrEnd, .closeObject => finish reading.frames token
  | .memberOrEnd, token => takeKey reading.frames token
  | .member, token => takeKey reading.frames token
  | .colon, .colon => some { reading with awaiting := .value }
  | .commaOrEnd, .comma =>
    match reading.frames with
    | .array _ :: _ => some { reading with awaiting := .value }
    | .object _ _ :: _ => some { reading with awaiting := .member }
    | [] => none
  | .commaOrEnd, token => finish reading.frames token
  | _, _ => none

end Reading

/-- The value that a JSON text spells. -/
def Value.ofBytes? (bytes : List UInt8) : Option Value := do
  let reading ← (← tokens bytes).foldlM Reading.step Reading.start
  match reading.awaiting with
  | .nothing document => some document
  | _ => none

/-- The bytes that encode a code point. -/
def encodedCodePoint (value : Nat) : List UInt8 := String.utf8EncodeChar (Char.ofNat value)

/-- The bytes of a string: code units below the surrogates stand for themselves, and
two surrogates in the right order stand for one code point together. -/
def stringBytes? : List Piece → Option (List UInt8)
  | [] => some []
  | .byte value :: rest => (stringBytes? rest).map (value :: ·)
  | .unit value :: rest =>
    if value < 0xD800 ∨ 0xDFFF < value then (stringBytes? rest).map (encodedCodePoint value ++ ·)
    else if value < 0xDC00 then
      match rest with
      | .unit second :: rest =>
        if 0xDC00 ≤ second ∧ second ≤ 0xDFFF then
          let point := 0x10000 + 1024 * (value - 0xD800) + (second - 0xDC00)
          (stringBytes? rest).map (encodedCodePoint point ++ ·)
        else none
      | _ => none
    else none

/-- The text of a string; none when its bytes encode no text. -/
def text? (pieces : List Piece) : Option String := do
  String.fromUTF8? (← stringBytes? pieces).toByteArray

end InvertedIndex.Json
