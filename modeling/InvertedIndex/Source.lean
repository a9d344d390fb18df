/-
The documents of a term as a stream. A source hands out the documents in ascending
order, one at a time or in batches, and counts how many are left.
-/

import InvertedIndex.Posting
import InvertedIndex.Store.Lookup

namespace InvertedIndex

/-- A stream of the documents that list a term. -/
structure PostingsSource where
  term : Term
  /-- The documents not handed out yet. -/
  docs : List DocId
  /-- How many documents are left, by the count of the store. -/
  remaining : Nat
  deriving Repr, DecidableEq

namespace PostingsSource

/-- All documents of a postings store. -/
def ofStore (term : Term) (postings : Store) : PostingsSource :=
  { term, docs := postings.keys, remaining := postings.entries }

/-- The source of a term without postings. -/
def empty (term : Term) : PostingsSource := { term, docs := [], remaining := 0 }

/-- Some document is left. -/
def hasMore (source : PostingsSource) : Bool := 0 < source.remaining

/-- Hands out the next document. -/
def next (source : PostingsSource) : Except Fault (Option DocId × PostingsSource) :=
  match source.docs with
  | [] => .ok (none, source)
  | doc :: rest =>
    if source.remaining = 0 then .error .overflow
    else .ok (some doc, { source with docs := rest, remaining := source.remaining - 1 })

/-- Hands out up to `limit` documents: their number, the documents, and the source
after them. -/
def read (source : PostingsSource) (limit : Nat) : Nat × List DocId × PostingsSource :=
  let count := min limit source.remaining
  (count, source.docs.take count,
    { source with docs := source.docs.drop count, remaining := source.remaining - count })

/-- Appends up to `limit` documents to a buffer: their number, the buffer with them, and
the source after them. -/
def readInto (source : PostingsSource) (buffer : List DocId) (limit : Nat) :
    Nat × List DocId × PostingsSource :=
  let (count, docs, after) := source.read limit
  (count, buffer ++ docs, after)

/-- The bounds on how many documents are left, the lower and the upper one. -/
def sizeHint (source : PostingsSource) : Nat × Option Nat :=
  (source.remaining, some source.remaining)

/-- How many documents are left, by the lower of the bounds. -/
def length (source : PostingsSource) : Nat := source.sizeHint.1

/-- Hands out everything that is left. -/
def rest (source : PostingsSource) : Except Fault (List DocId × PostingsSource) :=
  if source.remaining < source.docs.length then .error .overflow
  else .ok (source.docs,
    { source with docs := [], remaining := source.remaining - source.docs.length })

end PostingsSource

end InvertedIndex
