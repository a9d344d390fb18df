/-
A backend is one of the two implementations of searching and sorting. They give the
same answers, so an index may be built with one and read with the other. This file
is the entry to both: checked searches over words, and the sorts.
-/

import InvertedIndex.Search.Scalar
import InvertedIndex.Search.Vector

namespace InvertedIndex

/-- The implementations of searching and sorting. -/
inductive Backend where
  /-- Runs on every machine. -/
  | scalar
  /-- Compares four words at once. -/
  | vector
  deriving Repr, DecidableEq

namespace Backend

/-- The range that a search runs over; a fault when it is not inside the words. -/
def range : Backend → (layout : Layout) → (data : Array UInt64) → Nat → Nat →
    Except Fault (EntryRange layout data)
  | .scalar => Scalar.range
  | .vector => Vector.range

/-- Looks for a key by walking the entries from `start` up to `stop`, which are ascending. -/
def linearSearch (backend : Backend) (layout : Layout) (key : UInt64) (data : Array UInt64)
    (start stop : Nat) : Except Fault Position := do
  let range ← backend.range layout data start stop
  match backend with
  | .scalar => return Scalar.linearSearch range key
  | .vector => return Vector.linearSearch range key

/-- Looks for a key by halving the entries from `start` up to `stop`, which are ascending. -/
def binarySearch (backend : Backend) (layout : Layout) (key : UInt64) (data : Array UInt64)
    (start stop : Nat) : Except Fault Position := do
  let range ← backend.range layout data start stop
  match backend with
  | .scalar => return Scalar.binarySearch range key
  | .vector => return Vector.binarySearch range key

/-- From this many elements on, the two halves of a list are sorted on their own. -/
def parallelThreshold : Nat := 65536

/-- The elements in ascending order of `le`. The vector backend sorts the halves of a
long list side by side and merges them. -/
def sort {α : Type} (le : α → α → Bool) : Backend → List α → List α
  | .scalar, elements => elements.mergeSort le
  | .vector, elements =>
    if elements.length < parallelThreshold then elements.mergeSort le
    else
      let half := elements.length / 2
      List.merge ((elements.take half).mergeSort le) ((elements.drop half).mergeSort le) le

/-- Plain keys in ascending order. -/
def sortKeys (backend : Backend) (data : Array UInt64) : Array UInt64 :=
  (backend.sort (fun first second => decide (first ≤ second)) data.toList).toArray

end Backend

/-- A key with its payload. -/
structure Pair where
  key : UInt64
  payload : UInt64
  deriving Repr, DecidableEq

namespace Pair

/-- The order of pairs by key, then by payload. -/
def le (first second : Pair) : Bool :=
  first.key < second.key || (first.key == second.key && first.payload ≤ second.payload)

/-- Appends to `pairs` the pairs that consecutive words form; a last word without a
partner is left out. -/
def ofWordsOnto (pairs : Array Pair) : List UInt64 → Array Pair
  | key :: payload :: rest => ofWordsOnto (pairs.push ⟨key, payload⟩) rest
  | _ => pairs

/-- The pairs that consecutive words form; a last word without a partner is left out. -/
def ofWords (words : List UInt64) : List Pair := (ofWordsOnto #[] words).toList

/-- The words of a run of pairs, each key before its payload. -/
def toWords (pairs : List Pair) : List UInt64 := pairs.flatMap fun pair => [pair.key, pair.payload]

end Pair

/-- Interleaved pairs in ascending order; a fault when a word is left without a partner. -/
def Backend.sortPairs (backend : Backend) (data : Array UInt64) : Except Fault (Array UInt64) :=
  if data.size % 2 = 0 then
    .ok (Pair.toWords (backend.sort Pair.le (Pair.ofWords data.toList))).toArray
  else .error .unpairedWord

end InvertedIndex
