/-
Three ways a computation can end other than with a value are kept apart in this
library. A *fault* means that a caller broke a precondition or that an internal
assertion did not hold: the computation stops and there is nothing to report but
the assertion. An *error* is an ordinary outcome with a cause. A computation that
knows both ends with a `Failure`. Positions and sizes are natural numbers below
`wordLimit`; `checkedAdd` and `checkedMul` fault where a sum or a product would
leave that range.
-/

namespace InvertedIndex

/-- Broken preconditions and failed assertions. -/
inductive Fault where
  /-- A position or a range lies outside the words it addresses. -/
  | outOfRange
  /-- A sum or a product of sizes does not fit in a word. -/
  | overflow
  /-- A store shape with records or blocks of no size at all. -/
  | emptyShape
  /-- A store was opened as already validated, and its header is not valid. -/
  | invalidHeader
  /-- A batch lookup asked for a column the records do not have. -/
  | columnOutOfWidth (column : Nat)
  /-- The keys of a batch lookup are not strictly ascending. -/
  | keysNotAscending
  /-- The document ids of a metadata lookup are not strictly ascending. -/
  | docIdsNotAscending
  /-- The candidates given to a filter are not sorted. -/
  | candidatesNotSorted
  /-- The terms written to a preindex are not strictly ascending. -/
  | termsNotAscending
  /-- A sort of pairs was given an odd number of words. -/
  | unpairedWord
  deriving Repr, DecidableEq

/-- The text of the assertions that are stated in words. -/
def Fault.message? : Fault → Option String
  | .columnOutOfWidth column => some s!"column {column} out of record width"
  | .keysNotAscending => some "query keys must be strictly ascending"
  | .docIdsNotAscending => some "doc ids must be strictly ascending"
  | .unpairedWord => some "128-bit sort needs whole pairs"
  | _ => none

/-- How a computation with errors of type `ε` can fail. -/
inductive Failure (ε : Type) where
  | error (cause : ε)
  | fault (reason : Fault)
  deriving Repr, DecidableEq

/-- The same failure with its error seen as an error of another type. -/
def Failure.map {ε δ : Type} (change : ε → δ) : Failure ε → Failure δ
  | .error cause => .error (change cause)
  | .fault reason => .fault reason

/-- A computation that can only fault runs inside one that can also report errors. -/
instance {ε : Type} : MonadLift (Except Fault) (Except (Failure ε)) where
  monadLift
    | .ok value => .ok value
    | .error reason => .error (.fault reason)

/-- Positions, sizes and keys all fit in a word of 64 bits. -/
def wordLimit : Nat := 18446744073709551616

/-- The sum of two sizes, where it fits in a word. -/
def checkedAdd (first second : Nat) : Except Fault Nat :=
  if first + second < wordLimit then .ok (first + second) else .error .overflow

/-- The product of two sizes, where it fits in a word. -/
def checkedMul (first second : Nat) : Except Fault Nat :=
  if first * second < wordLimit then .ok (first * second) else .error .overflow

/-- The sum of two sizes, or the largest size where it does not fit in a word. -/
def saturatingAdd (first second : Nat) : Nat := min (first + second) (wordLimit - 1)

/-- The product of two sizes, or the largest size where it does not fit in a word. -/
def saturatingMul (first second : Nat) : Nat := min (first * second) (wordLimit - 1)

/-- The words from `start` up to `stop`; a fault when that range is not inside the array. -/
def slice (words : Array UInt64) (start stop : Nat) : Except Fault (Array UInt64) :=
  if start ≤ stop ∧ stop ≤ words.size then .ok (words.extract start stop) else .error .outOfRange

/-- The word at a position; a fault when there is none. -/
def wordAt (words : Array UInt64) (position : Nat) : Except Fault UInt64 :=
  if inside : position < words.size then .ok words[position] else .error .outOfRange

end InvertedIndex
