/-
A finished index in memory: a directory with one record for each term, and the
postings stores that the records point to. `check` accepts an index when its
directory is the whole first file, its terms are strictly ascending, and every record
points to a valid postings store; queries then open stores without checking them
again.
-/

import InvertedIndex.Filter
import InvertedIndex.Source

namespace InvertedIndex

/-- How an index is read. -/
structure ReaderOptions where
  backend : Backend
  /-- The ratio of postings to documents from which on metadata is searched for. -/
  mergeRatio : Nat
  deriving Repr, DecidableEq

/-- The words of the two files of an index. -/
structure Index where
  words : Array UInt64
  docs : Array UInt64
  options : ReaderOptions

namespace Index

/-- The record at an entry of the directory: a term and the offset of its postings. -/
def directoryRecord (directory : Store) (entry : Nat) : Except Fault (Term × Nat) := do
  let record ← directory.record entry
  return (← wordAt record 0, (← wordAt record 1).toNat)

/-- Checks one record of the directory. -/
def checkRecord (index : Index) (wordsPath : Path) (directory : Store) (entry : Nat) :
    Except (Failure StorageError) Unit := do
  let (term, offset) ← (directoryRecord directory entry : Except Fault (Term × Nat))
  if 0 < entry then
    let previous ← (directory.keyAt (entry - 1) : Except Fault UInt64)
    if term ≤ previous then .error (.error (.file wordsPath .termsNotAscending))
  let _header ← Header.read index.docs offset Shape.postings

/-- Checks the directory and every record in it. -/
def check (index : Index) (wordsPath : Path) : Except (Failure StorageError) Unit := do
  let directory ← Store.open index.words 0 Shape.terms index.options.backend
  let covered ← (directory.sizeWords : Except Fault Nat)
  if covered ≠ index.words.size then
    .error (.error (.file wordsPath (.directoryCovers covered index.words.size)))
  (List.range directory.entries).forM (index.checkRecord wordsPath directory)

/-- The term directory. -/
def directory (index : Index) : Except Fault Store :=
  Store.openTrusted index.words 0 Shape.terms index.options.backend

/-- The postings store at an offset. -/
def postingsAt (index : Index) (offset : Nat) : Except Fault Store :=
  Store.openTrusted index.docs offset Shape.postings index.options.backend

/-- The postings of a term, if it is indexed. -/
def postings (index : Index) (term : Term) : Except Fault (Option Store) := do
  let directory ← index.directory
  match ← directory.find term with
  | none => return none
  | some entry =>
    let (_, offset) ← directoryRecord directory entry
    return some (← index.postingsAt offset)

/-- The documents that list a term, in ascending order. -/
def documents (index : Index) (term : Term) : Except Fault PostingsSource := do
  match ← index.postings term with
  | some postings => return .ofStore term postings
  | none => return .empty term

/-- The number of documents that list a term. -/
def numDocuments (index : Index) (term : Term) : Except Fault Nat := do
  match ← index.postings term with
  | some postings => return postings.entries
  | none => return 0

/-- Passes the documents that list a term; an unindexed term passes nothing. -/
def retainFilter (index : Index) (term : Term) : Except Fault Filter := do
  match ← index.postings term with
  | some postings => return .retain term postings
  | none => return .noPass

/-- Passes the documents that do not list a term; an unindexed term passes everything. -/
def rejectFilter (index : Index) (term : Term) : Except Fault Filter := do
  match ← index.postings term with
  | some postings => return .reject term postings
  | none => return .letThrough

/-- The metadata of a term in each of the documents, 0 where the term is not listed. -/
def metadata (index : Index) (term : Term) (docs : List DocId) :
    Except Fault (List Metadata) := do
  match ← index.postings term with
  | some postings =>
    let strategy := Strategy.choose docs.length postings.entries index.options.mergeRatio
    postings.columnWith strategy docs 1
  | none => return docs.map fun _ => 0

/-- The number of indexed terms. -/
def numTerms (index : Index) : Except Fault Nat := do return (← index.directory).entries

/-- Each indexed term with the number of its documents, in ascending order of terms. -/
def termCounts (index : Index) : Except Fault (List (Term × Nat)) := do
  let directory ← index.directory
  (List.range directory.entries).mapM fun entry => do
    let (term, offset) ← directoryRecord directory entry
    return (term, (← index.postingsAt offset).entries)

end Index

end InvertedIndex
