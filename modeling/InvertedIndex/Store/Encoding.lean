/-
Writing a store: header, block index and records, in this order. The records come in
key order already; a run of words that is no whole number of records, or whose keys
are not strictly ascending, is refused before anything is written.
-/

import InvertedIndex.Store.Header

namespace InvertedIndex

/-- What writing a store produced. -/
structure WrittenStore where
  /-- The words written, in order. -/
  words : Array UInt64
  /-- The size reported to the caller. -/
  size : Nat
  deriving Repr, DecidableEq

namespace Shape

/-- The first entry whose key does not exceed the key before it, with that key. -/
def firstDescent (shape : Shape) (records : Array UInt64) (entry : Nat) :
    Option (UInt64 × Nat) :=
  if more : (entry + 1) * shape.width < records.size then
    have : entry * shape.width < records.size :=
      Nat.lt_of_le_of_lt (Nat.mul_le_mul_right _ (Nat.le_succ _)) more
    if records[(entry + 1) * shape.width] ≤ records[entry * shape.width] then
      some (records[(entry + 1) * shape.width], entry + 1)
    else shape.firstDescent records (entry + 1)
  else none
termination_by records.size - entry
decreasing_by
  have : entry + 1 ≤ (entry + 1) * shape.width := Nat.le_mul_of_pos_right _ shape.width_pos
  omega

/-- The last key of a block of the records. -/
def lastKey (shape : Shape) (records : Array UInt64) (entries block : Nat) :
    Except Fault UInt64 := do
  let blockEnd ← checkedMul (block + 1) shape.blockEntries
  let last := min blockEnd entries - 1
  wordAt records (← checkedMul last shape.width)

/-- The block index of a run of records. -/
def blockIndex (shape : Shape) (records : Array UInt64) (entries : Nat) :
    Except Fault (List UInt64) :=
  (List.range (shape.indexWords entries)).mapM (shape.lastKey records entries)

/-- Writes the store that holds these records. -/
def write (shape : Shape) (records : Array UInt64) :
    Except (Failure StorageError) WrittenStore := do
  if records.size % shape.width ≠ 0 then
    .error (.error (.records (.ragged records.size shape.width)))
  match shape.firstDescent records 0 with
  | some (key, entry) => .error (.error (.records (.keyNotGreater key entry)))
  | none =>
    let entries := records.size / shape.width
    let header ← (Header.forEntries shape entries : Except Fault Header)
    let index ← (shape.blockIndex records entries : Except Fault (List UInt64))
    let size ← (header.storeWords : Except Fault Nat)
    return { words := header.toWords.toArray ++ index.toArray ++ records, size }

end Shape

end InvertedIndex
