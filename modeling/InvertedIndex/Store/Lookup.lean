/-
Reading a store. A key is found through the block index: a binary search over the
last keys of the blocks gives the block, and a linear search inside the block gives
the entry. Opening checks the header and nothing else, so the block index and the
keys may hold anything; every access is checked and would fault, not read beyond the
store.
-/

import InvertedIndex.Search.Backend
import InvertedIndex.Store.Header

namespace InvertedIndex

/-- A store opened inside a region. -/
structure Store where
  shape : Shape
  header : Header
  /-- The last key of each block. -/
  index : Array UInt64
  /-- The records, end to end. -/
  data : Array UInt64
  backend : Backend

namespace Store

/-- Cuts a store with this header out of a region. -/
def ofHeader (words : Array UInt64) (offset : Nat) (header : Header) (shape : Shape)
    (backend : Backend) : Except Fault Store := do
  let indexStart ← checkedAdd offset headerWords
  let dataStart ← checkedAdd offset header.dataOffset
  let dataStop ← checkedAdd dataStart (← checkedMul header.entries header.width)
  return { shape, header, backend
           index := ← slice words indexStart dataStart
           data := ← slice words dataStart dataStop }

/-- Opens the store at an offset of a region once its header is checked. -/
def «open» (words : Array UInt64) (offset : Nat) (shape : Shape) (backend : Backend) :
    Except (Failure StorageError) Store := do
  let header ← Header.read words offset shape
  (ofHeader words offset header shape backend : Except Fault Store)

/-- Opens a store whose header was checked before; a fault when it is not valid. -/
def openTrusted (words : Array UInt64) (offset : Nat) (shape : Shape) (backend : Backend) :
    Except Fault Store :=
  match Header.read words offset shape with
  | .ok header => ofHeader words offset header shape backend
  | .error (.error _) => .error .invalidHeader
  | .error (.fault reason) => .error reason

/-- The number of records. -/
def entries (store : Store) : Nat := store.header.entries

/-- The words that the store takes, its header included. -/
def sizeWords (store : Store) : Except Fault Nat := store.header.storeWords

/-- The key of an entry. -/
def keyAt (store : Store) (entry : Nat) : Except Fault UInt64 := do
  wordAt store.data (← checkedMul entry store.shape.width)

/-- The words of a record; the first is its key. -/
def record (store : Store) (entry : Nat) : Except Fault (Array UInt64) := do
  let start ← checkedMul entry store.shape.width
  slice store.data start (← checkedAdd start store.shape.width)

/-- The keys in order: every word of the records that starts one. -/
def keys (store : Store) : List UInt64 :=
  (List.range ((store.data.size + (store.shape.width - 1)) / store.shape.width)).filterMap
    fun entry => store.data[entry * store.shape.width]?

/-- Halves the entries from `low` up to `high`, for records that no backend knows. -/
def halve (store : Store) (key : UInt64) (low high : Nat) : Except Fault Nat :=
  if more : low < high then do
    let middle := low + (high - low) / 2
    if (← store.keyAt middle) < key then store.halve key (middle + 1) high
    else store.halve key low middle
  else return low
termination_by high - low

/-- Looks for a key among the entries from `start` up to `stop`, by walking them or by
halving them. Records of one and of two words are searched by the backend. -/
def searchEntries (store : Store) (key : UInt64) (start stop : Nat) (walk : Bool) :
    Except Fault Position :=
  match store.shape.width, walk with
  | 1, true => store.backend.linearSearch .keys key store.data start stop
  | 1, false => store.backend.binarySearch .keys key store.data start stop
  | 2, true => store.backend.linearSearch .pairs key store.data start stop
  | 2, false => store.backend.binarySearch .pairs key store.data start stop
  | _, _ => do
    let entry ← store.halve key start stop
    if entry < stop then return .at ((← store.keyAt entry) == key) entry
    else return .insertion entry

/-- The entry that holds a key. -/
def find (store : Store) (key : UInt64) : Except Fault (Option Nat) := do
  if store.entries = 0 then return none
  let position ← store.backend.binarySearch .keys key store.index 0 store.index.size
  let block := position.entry
  if block = store.index.size then return none
  let start ← checkedMul block store.shape.blockEntries
  let stop := min (← checkedAdd start store.shape.blockEntries) store.entries
  match ← store.searchEntries key start stop true with
  | .found entry => return some entry
  | .insertion _ => return none

/-- Some record has the key. -/
def contains (store : Store) (key : UInt64) : Except Fault Bool := do
  return (← store.find key).isSome

end Store

end InvertedIndex
