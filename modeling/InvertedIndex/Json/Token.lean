/-
The tokens of a JSON text. A string token keeps its pieces as they were written and
is decoded only where its value is wanted, so a string whose value nobody asks for
may hold bytes that are no text. A run of bytes is split into tokens without regard
to their order; what order makes a document is decided afterwards.
-/

namespace InvertedIndex.Json

/-- A piece of a string as it is written. -/
inductive Piece where
  /-- A byte that stands for itself or was written with a short escape. -/
  | byte (value : UInt8)
  /-- A code unit of sixteen bits, written as four hexadecimal digits. -/
  | unit (value : Nat)
  deriving Repr, DecidableEq

/-- A number as it is written, as far as its value matters here. -/
structure Number where
  negative : Bool
  /-- The digits before a decimal point or an exponent. -/
  whole : List UInt8
  /-- There is neither a decimal point nor an exponent. -/
  isInteger : Bool
  deriving Repr, DecidableEq

/-- The tokens of a JSON text. -/
inductive Token where
  | openArray
  | closeArray
  | openObject
  | closeObject
  | comma
  | colon
  | null
  | boolean (value : Bool)
  | number (literal : Number)
  | string (pieces : List Piece)
  deriving Repr, DecidableEq

/-- The byte of an ASCII character. -/
def ascii (character : Char) : UInt8 := UInt8.ofNat character.toNat

/-- A decimal digit. -/
def isDigit (byte : UInt8) : Bool := ascii '0' ≤ byte && byte ≤ ascii '9'

/-- The value of a hexadecimal digit of either case. -/
def hexValue? (byte : UInt8) : Option Nat :=
  if isDigit byte then some (byte.toNat - 48)
  else if ascii 'a' ≤ byte && byte ≤ ascii 'f' then some (byte.toNat - 97 + 10)
  else if ascii 'A' ≤ byte && byte ≤ ascii 'F' then some (byte.toNat - 65 + 10)
  else none

/-- The byte that a short escape stands for. -/
def shortEscape? (byte : UInt8) : Option UInt8 :=
  if byte = ascii '"' ∨ byte = ascii '\\' ∨ byte = ascii '/' then some byte
  else if byte = ascii 'b' then some 8
  else if byte = ascii 'f' then some 12
  else if byte = ascii 'n' then some 10
  else if byte = ascii 'r' then some 13
  else if byte = ascii 't' then some 9
  else none

/-- The pieces of a string up to its closing quote, and what follows it. A control
character may not stand in a string. -/
def takeString : List UInt8 → Option (List Piece × List UInt8)
  | [] => none
  | byte :: rest =>
    if byte = ascii '"' then some ([], rest)
    else if byte = ascii '\\' then
      match rest with
      | [] => none
      | escape :: afterEscape =>
        if escape = ascii 'u' then
          match afterEscape with
          | first :: second :: third :: fourth :: afterUnit => do
            let value := 4096 * (← hexValue? first) + 256 * (← hexValue? second) +
              16 * (← hexValue? third) + (← hexValue? fourth)
            let (pieces, remaining) ← takeString afterUnit
            return (.unit value :: pieces, remaining)
          | _ => none
        else do
          let value ← shortEscape? escape
          let (pieces, remaining) ← takeString afterEscape
          return (.byte value :: pieces, remaining)
    else if byte < 32 then none
    else do
      let (pieces, remaining) ← takeString rest
      return (.byte byte :: pieces, remaining)

/-- An exponent after its letter: an optional sign and at least one digit, to the end. -/
def isExponent : List UInt8 → Bool
  | [] => false
  | byte :: rest =>
    let digits := if byte = ascii '+' ∨ byte = ascii '-' then rest else byte :: rest
    !digits.isEmpty && digits.all isDigit

/-- What may follow the whole part of a number. -/
def isNumberTail : List UInt8 → Bool
  | [] => true
  | byte :: rest =>
    if byte = ascii '.' then
      match rest.takeWhile isDigit, rest.dropWhile isDigit with
      | [], _ => false
      | _, [] => true
      | _, mark :: exponent => (mark = ascii 'e' ∨ mark = ascii 'E') && isExponent exponent
    else (byte = ascii 'e' ∨ byte = ascii 'E') && isExponent rest

/-- The number that a run of bytes spells: an optional minus, a whole part without
needless zeros in front, then a fraction and an exponent, both optional. -/
def number? (spelling : List UInt8) : Option Number :=
  let negative := spelling.head? = some (ascii '-')
  let unsigned := if negative then spelling.drop 1 else spelling
  let whole := unsigned.takeWhile isDigit
  let tail := unsigned.dropWhile isDigit
  if whole.isEmpty || (whole.head? = some (ascii '0') && whole.length ≠ 1) || !isNumberTail tail
  then none
  else some { negative, whole, isInteger := tail.isEmpty }

/-- The value of a number written as a natural number. -/
def Number.natural? (number : Number) : Option Nat :=
  if number.negative || !number.isInteger then none
  else some (number.whole.foldl (fun value digit => 10 * value + (digit.toNat - 48)) 0)

/-- A byte that belongs to a number or to one of the literal names. -/
def isWordByte (byte : UInt8) : Bool :=
  isDigit byte || (ascii 'a' ≤ byte && byte ≤ ascii 'z') ||
    (ascii 'A' ≤ byte && byte ≤ ascii 'Z') || byte = ascii '+' || byte = ascii '-' ||
    byte = ascii '.'

/-- The token that a run of such bytes spells. -/
def wordToken? (spelling : List UInt8) : Option Token :=
  if spelling = "null".toList.map ascii then some .null
  else if spelling = "true".toList.map ascii then some (.boolean true)
  else if spelling = "false".toList.map ascii then some (.boolean false)
  else (number? spelling).map .number

/-- The token that a single byte stands for. -/
def mark? (byte : UInt8) : Option Token :=
  if byte = ascii '[' then some .openArray
  else if byte = ascii ']' then some .closeArray
  else if byte = 123 then some .openObject
  else if byte = 125 then some .closeObject
  else if byte = ascii ',' then some .comma
  else if byte = ascii ':' then some .colon
  else none

/-- White space between tokens. -/
def isBlank (byte : UInt8) : Bool := byte = 32 || byte = 10 || byte = 9 || byte = 13

theorem length_takeString {bytes remaining : List UInt8} {pieces : List Piece}
    (taken : takeString bytes = some (pieces, remaining)) : remaining.length < bytes.length := by
  fun_induction takeString bytes generalizing pieces remaining <;>
    simp_all [Option.bind_eq_some_iff] <;> grind

theorem length_dropWhile_le {α : Type} (test : α → Bool) (elements : List α) :
    (elements.dropWhile test).length ≤ elements.length :=
  (List.dropWhile_sublist test).length_le

/-- The tokens of a run of bytes. -/
def tokens (bytes : List UInt8) : Option (List Token) :=
  match bytes with
  | [] => some []
  | byte :: rest =>
    if isBlank byte then tokens rest
    else if byte = ascii '"' then
      match taken : takeString rest with
      | none => none
      | some (pieces, remaining) =>
        have : remaining.length < rest.length := length_takeString taken
        (tokens remaining).map (.string pieces :: ·)
    else match mark? byte with
      | some token => (tokens rest).map (token :: ·)
      | none =>
        have : (rest.dropWhile isWordByte).length ≤ rest.length := length_dropWhile_le _ _
        if isWordByte byte then do
          let token ← wordToken? (byte :: rest.takeWhile isWordByte)
          (tokens (rest.dropWhile isWordByte)).map (token :: ·)
        else none
termination_by bytes.length

end InvertedIndex.Json
