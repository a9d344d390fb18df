/-
Reading an index from its files. When one of the two files is not there the reader is
degraded: it answers every query as an empty index would, and warns on the first one.
Files that are there but do not hold an index are refused when they are opened; once a
reader is open its queries depend on nothing but what was read then.
-/

import InvertedIndex.Index
import InvertedIndex.Region

namespace InvertedIndex

/-- The reader of an index. -/
structure IndexReader where
  /-- The index, or nothing for a degraded reader. -/
  index : Option Index
  wordsPath : Path
  docsPath : Path
  /-- Tells this reader from every other one. -/
  serial : Nat

namespace IndexReader

/-- The reader can answer queries from an index. -/
def isReady (reader : IndexReader) : Bool := reader.index.isSome

/-- Reads and checks the two files of an index. -/
def load (words docs : Path) (options : ReaderOptions) (files : FileSystem) :
    Except (Failure StorageError) Index := do
  let wordsRegion ← (Region.map words files).mapError .error
  let docsRegion ← (Region.map docs files).mapError .error
  let index : Index := { words := wordsRegion.words, docs := docsRegion.words, options }
  index.check words
  return index

/-- Opens the reader of the index in two files. -/
def «open» (words docs : Path) (options : ReaderOptions) : Action StorageError IndexReader := do
  let world ← get
  let index ←
    if !world.files.exists? words || !world.files.exists? docs then do
      Action.log .info
        s!"Reverse index files not present ({words}, {docs}), starting degraded"
      pure none
    else do
      Action.log .info "Switching reverse index"
      let index ← Action.ofResult (load words docs options world.files)
      pure (some index)
  let serial := (← get).opened
  modify fun world => { world with opened := world.opened + 1 }
  return { index, wordsPath := words, docsPath := docs, serial }

variable {ε α : Type}

/-- Warns that a degraded reader was asked, unless it has warned before. -/
def warn (reader : IndexReader) : Action ε Unit := do
  if !(← get).warned.contains reader.serial then
    Action.log .warn "Reverse index is not ready, dropping queries"
    modify fun world => { world with warned := reader.serial :: world.warned }

/-- Asks the index, or gives the answer of an empty one with a warning. -/
def consult (reader : IndexReader) (emptyAnswer : α) (ask : Index → Except Fault α) :
    Action ε α :=
  match reader.index with
  | some index => Action.ofChecked (ask index)
  | none => do
    reader.warn
    return emptyAnswer

/-- The documents that list a term, in ascending order. -/
def documents (reader : IndexReader) (term : Term) : Action ε PostingsSource :=
  reader.consult (.empty term) fun index => index.documents term

/-- The number of documents that list a term. -/
def numDocuments (reader : IndexReader) (term : Term) : Action ε Nat :=
  reader.consult 0 fun index => index.numDocuments term

/-- Passes the documents that list a term; an unindexed term passes nothing. -/
def retainFilter (reader : IndexReader) (term : Term) : Action ε Filter :=
  reader.consult .noPass fun index => index.retainFilter term

/-- Passes the documents that do not list a term; an unindexed term passes everything. -/
def rejectFilter (reader : IndexReader) (term : Term) : Action ε Filter :=
  reader.consult .letThrough fun index => index.rejectFilter term

/-- The metadata of a term in each of the strictly ascending documents, 0 where the term
is not listed. -/
def metadata (reader : IndexReader) (term : Term) (docs : List DocId) :
    Action ε (List Metadata) := do
  if !strictlyAscending docs then Action.ofChecked (.error .docIdsNotAscending)
  reader.consult (docs.map fun _ => 0) fun index => index.metadata term docs

/-- The number of indexed terms. -/
def numTerms (reader : IndexReader) : Action ε Nat :=
  reader.consult 0 fun index => index.numTerms

/-- Each indexed term with the number of its documents, in ascending order of terms. -/
def termCounts (reader : IndexReader) : Action ε (List (Term × Nat)) :=
  reader.consult [] fun index => index.termCounts

/-- The sizes in bytes of the directory and of the postings. -/
def sizeBytes (reader : IndexReader) : Nat × Nat :=
  match reader.index with
  | some index => (index.words.size * 8, index.docs.size * 8)
  | none => (0, 0)

end IndexReader

end InvertedIndex
