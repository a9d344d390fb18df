/-
A store is a run of words that can sit at any offset inside a larger region: five
header words, a block index with the last key of each block, and the records, whose
first words are their keys in strictly ascending order.

    word 0   magic
    word 1   tag of the family of stores
    word 2   number of entries
    word 3   words in a record
    word 4   offset of the records from word 0
    word 5   block index, then the records

A header is checked once, when its store is opened. It is accepted exactly when it
is the header that a store of its entry count would be given and that whole store
fits into the region; the lookups then rely on it.
-/

import InvertedIndex.Error
import InvertedIndex.Fault

namespace InvertedIndex

/-- What the stores of one family have in common. -/
structure Shape where
  tag : UInt64
  /-- The words in a record. -/
  width : Nat
  /-- The entries in a block of the block index. -/
  blockEntries : Nat
  width_pos : 0 < width
  block_pos : 0 < blockEntries

namespace Shape

/-- The shape with these parameters; a fault when records or blocks would be empty. -/
def of (tag : UInt64) (width blockEntries : Nat) : Except Fault Shape :=
  if sizes : 0 < width ∧ 0 < blockEntries then
    .ok { tag, width, blockEntries, width_pos := sizes.1, block_pos := sizes.2 }
  else .error .emptyShape

/-- The term directory: a record is a term and the offset of its postings store. -/
def terms : Shape where
  tag := 0x57444952
  width := 2
  blockEntries := 64
  width_pos := by decide
  block_pos := by decide

/-- The postings of a term: a record is a document and its metadata. -/
def postings : Shape where
  tag := 0x43444952
  width := 2
  blockEntries := 64
  width_pos := by decide
  block_pos := by decide

/-- The number of blocks that this many entries take. -/
def indexWords (shape : Shape) (entries : Nat) : Nat :=
  (entries + (shape.blockEntries - 1)) / shape.blockEntries

end Shape

/-- The words of a header. -/
def headerWords : Nat := 5

/-- The first word of every store. -/
def storeMagic : UInt64 := 3544425550666025298

/-- The offset at which a store of this many entries keeps its records. -/
def Shape.dataOffset (shape : Shape) (entries : Nat) : Except Fault Nat :=
  checkedAdd headerWords (shape.indexWords entries)

/-- The header of a store, decoded. -/
structure Header where
  tag : UInt64
  entries : Nat
  width : Nat
  dataOffset : Nat
  deriving Repr, DecidableEq

namespace Header

/-- The header of a store of this many entries. -/
def forEntries (shape : Shape) (entries : Nat) : Except Fault Header := do
  return { tag := shape.tag, entries, width := shape.width,
           dataOffset := ← shape.dataOffset entries }

/-- The five words of a header. -/
def toWords (header : Header) : List UInt64 :=
  [storeMagic, header.tag, UInt64.ofNat header.entries, UInt64.ofNat header.width,
    UInt64.ofNat header.dataOffset]

/-- The words that the whole store takes, its header included. -/
def storeWords (header : Header) : Except Fault Nat := do
  checkedAdd header.dataOffset (← checkedMul header.entries header.width)

/-- Reads and checks the header at an offset of a region. -/
def read (words : Array UInt64) (offset : Nat) (shape : Shape) :
    Except (Failure StorageError) Header := do
  let refuse {α : Type} (defect : HeaderDefect) : Except (Failure StorageError) α :=
    .error (.error (.header offset defect))
  if inside : offset + headerWords ≤ words.size then
    have : offset + 5 ≤ words.size := inside
    if words[offset] ≠ storeMagic then refuse .badMagic
    else if words[offset + 1] ≠ shape.tag then refuse .tagMismatch
    else
      let entries := words[offset + 2].toNat
      let width := words[offset + 3].toNat
      let dataOffset := words[offset + 4].toNat
      let available := words.size - offset
      if width ≠ shape.width then refuse .widthMismatch
      else if available < entries then refuse .tooManyEntries
      else
        let expected ← (shape.dataOffset entries : Except Fault Nat)
        if dataOffset ≠ expected then refuse .offsetInconsistent
        else if wordLimit ≤ entries * width + dataOffset then refuse .sizeOverflow
        else if available < entries * width + dataOffset then refuse .dataCutShort
        else return { tag := words[offset + 1], entries, width, dataOffset }
  else refuse .headerCutShort

end Header

/-- The words that a store of this many entries takes. -/
def Shape.storeWords (shape : Shape) (entries : Nat) : Except Fault Nat := do
  (← Header.forEntries shape entries).storeWords

end InvertedIndex
