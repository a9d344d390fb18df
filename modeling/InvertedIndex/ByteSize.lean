/-
Sizes in bytes for people to read. A size below 1024 is given exactly; a larger one is
given in the largest unit that it reaches, with two decimals. The size is first taken
to the nearest number with 53 significant bits, and a half goes to the even neighbour
both there and in the last decimal.
-/

namespace InvertedIndex.ByteSize

/-- The quotient rounded to the nearest whole number, a half to the even one. -/
def roundQuotient (numerator denominator : Nat) : Nat :=
  let quotient := numerator / denominator
  let twice := 2 * (numerator % denominator)
  if twice < denominator then quotient
  else if denominator < twice then quotient + 1
  else if quotient % 2 = 0 then quotient else quotient + 1

/-- The nearest number with 53 significant bits. -/
def significant (value : Nat) : Nat :=
  let scale := Nat.pow 2 (value.log2 + 1 - 53)
  roundQuotient value scale * scale

/-- A number of hundredths with two decimals. -/
def hundredthsText (hundredths : Nat) : String :=
  let decimals := toString (hundredths % 100)
  toString (hundredths / 100) ++ "." ++ (if decimals.length = 1 then "0" else "") ++ decimals

/-- A size in a unit. -/
def inUnit (bytes unit : Nat) (name : String) : String :=
  hundredthsText (roundQuotient (100 * significant bytes) unit) ++ " " ++ name

/-- The text of a size. -/
def text (bytes : Nat) : String :=
  if 1073741824 ≤ bytes then inUnit bytes 1073741824 "GB"
  else if 1048576 ≤ bytes then inUnit bytes 1048576 "MB"
  else if 1024 ≤ bytes then inUnit bytes 1024 "KB"
  else s!"{bytes} bytes"

end InvertedIndex.ByteSize
