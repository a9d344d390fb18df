/-
A preindex holds the postings of some shards by term, in term order, in three files
that share a stem: the terms, the number of postings of each term, and the postings
end to end. It is built from the entries of a shard, united with another one, and at
last turned into the two files of an index. A preindex owns its files: every
operation that consumes one, or that fails while it creates one, removes exactly the
files it owns. Opening checks that the three files fit together.
-/

import InvertedIndex.Journal.Entry
import InvertedIndex.Region
import InvertedIndex.Store.Batch
import InvertedIndex.Store.Encoding

namespace InvertedIndex

/-- The files of a preindex: a directory and the stem that the three names share. -/
structure PreindexFiles where
  directory : Path
  stem : String
  deriving Repr, DecidableEq

namespace PreindexFiles

/-- The file with this extension. -/
def path (files : PreindexFiles) (extension : String) : Path :=
  files.directory.child (files.stem ++ "." ++ extension)

/-- The file of the terms in ascending order. -/
def words (files : PreindexFiles) : Path := files.path "words"

/-- The file with the number of postings of each term. -/
def counts (files : PreindexFiles) : Path := files.path "counts"

/-- The file of the postings, grouped by term in term order. -/
def docs (files : PreindexFiles) : Path := files.path "docs"

/-- All three files. -/
def all (files : PreindexFiles) : List Path := [files.words, files.counts, files.docs]

/-- Removes the files that can be removed. -/
def discard (files : PreindexFiles) (world : World) : World :=
  files.all.foldl (fun world path => world.removeIfPossible path) world

/-- Removes all three files; the first refusal other than for a missing file is
reported once all have been tried. -/
def delete (files : PreindexFiles) : Action StorageError Unit := fun world =>
  let attempt (state : Option FileError × World) (path : Path) : Option FileError × World :=
    match state.2.files.remove path with
    | .ok changed => (state.1, { state.2 with files := changed })
    | .error .notFound => state
    | .error reason => (state.1.or (some reason), state.2)
  match files.all.foldl attempt (none, world) with
  | (none, after) => (.ok (), after)
  | (some reason, after) => (.error (.error (.files reason)), after)

/-- Creates the other two files beside the file of the terms. -/
def createOthers (files : PreindexFiles) : Action FileError Unit := do
  Action.createNew files.counts
  Action.createNew files.docs

/-- Reserves a stem in a directory by creating the file of the terms, and creates the
other two files beside it. -/
def create (directory : Path) : Action StorageError PreindexFiles := do
  let directory ← Action.fromRoot directory
  let stem ← Action.createUnique directory "preindex-" ".words" Action.attempts
  let files : PreindexFiles := { directory, stem }
  files.createOthers.cleaningUp files.discard
  return files

/-- Writes terms with their postings to the three files, one after the other. A writer that is
stopped may have come further in another file, which shows in none of the results: the files of
a preindex that could not be written are removed. -/
def fill (files : PreindexFiles) (lists : List (Term × List Posting)) :
    Action StorageError Unit := do
  if !strictlyAscending (lists.map (·.1)) then Action.ofChecked (.error .termsNotAscending)
  Action.write files.words (wordsToBytes (lists.map (·.1)))
  Action.write files.counts (wordsToBytes (lists.map fun list => UInt64.ofNat list.2.length))
  Action.write files.docs (wordsToBytes (lists.flatMap fun list => Pair.toWords list.2))

end PreindexFiles

/-- An open preindex. -/
structure Preindex where
  files : PreindexFiles
  /-- The terms in ascending order. -/
  terms : Array UInt64
  /-- The postings as words, grouped by term. -/
  docs : Array UInt64
  /-- Where the postings of each term start, and at last where they end. -/
  offsets : Array Nat

/-- A preindex that is set aside with its files on disk and nothing open. -/
structure ParkedPreindex where
  files : PreindexFiles
  deriving Repr, DecidableEq

/-- The size of a finished index. -/
structure Report where
  terms : Nat
  postings : Nat
  wordsBytes : Nat
  docsBytes : Nat
  deriving Repr, DecidableEq

namespace Preindex

/-- The running ends of groups with these numbers of pairs, from `start` on. -/
def runningOffsets (start : Nat) : List UInt64 → List Nat
  | [] => [start]
  | count :: rest =>
    start :: runningOffsets (saturatingAdd start (saturatingMul count.toNat 2)) rest

/-- Reads the three files and checks that they fit together. -/
def load (owned : PreindexFiles) (files : FileSystem) : Except StorageError Preindex := do
  let words ← Region.map owned.words files
  let counts ← Region.map owned.counts files
  let docs ← Region.map owned.docs files
  if words.words.size ≠ counts.words.size then
    .error (.file owned.counts (.countsForTerms counts.words.size words.words.size))
  if !strictlyAscending words.words.toList then
    .error (.file owned.words .termsNotAscending)
  let offsets := runningOffsets 0 counts.words.toList
  let covered := offsets.getLastD 0
  if covered ≠ docs.words.size then
    .error (.file owned.docs (.countsCover covered docs.words.size))
  return { files := owned, terms := words.words, docs := docs.words, offsets := offsets.toArray }

/-- Opens the preindex in these files, which go away when that fails. -/
def openFiles (files : PreindexFiles) : Action StorageError Preindex :=
  (Action.inspect (load files)).cleaningUp files.discard

/-- The number of terms. -/
def numTerms (preindex : Preindex) : Nat := preindex.terms.size

/-- The number of postings of all terms. -/
def numPostings (preindex : Preindex) : Nat := preindex.docs.size / 2

/-- The postings of the term at an index, as interleaved words. -/
def postings (preindex : Preindex) (index : Nat) : Except Fault (Array UInt64) := do
  let some start := preindex.offsets[index]? | .error .outOfRange
  let some stop := preindex.offsets[index + 1]? | .error .outOfRange
  slice preindex.docs start stop

/-- All terms with their postings. -/
def lists (preindex : Preindex) : Except Fault (List (Term × List Posting)) :=
  (List.range preindex.numTerms).mapM fun index => do
    return (← wordAt preindex.terms index, Pair.ofWords (← preindex.postings index).toList)

/-- Writes terms with their postings to a new preindex, whose files go away when that fails. -/
def writeNew (directory : Path) (lists : List (Term × List Posting)) :
    Action StorageError Preindex := do
  let files ← PreindexFiles.create directory
  (files.fill lists).cleaningUp files.discard
  openFiles files

/-- The postings of some entries by term: the documents are renumbered, each list is
sorted, and the postings of a document that occur more than once are combined. -/
def listsOf (entries : List Entry) (renumber : DocId → DocId) (backend : Backend) :
    List (Term × List Posting) :=
  let postings := entries.flatMap fun entry =>
    entry.terms.map fun (term, metadata) => (term, (⟨renumber entry.doc, metadata⟩ : Posting))
  (groupByTerm postings).map fun (term, postings) =>
    (term, (collapse (backend.sort Pair.le postings).toArray).toList)

/-- Builds a preindex from the entries of a shard; the first error among them is
returned before any file is created. -/
def construct (entries : List (Except StorageError Entry)) (renumber : DocId → DocId)
    (directory : Path) (backend : Backend) : Action StorageError Preindex :=
  match entries.mapM id with
  | .error cause => Action.refuse cause
  | .ok entries => writeNew directory (listsOf entries renumber backend)

/-- The union of two preindexes, which stay as they are. -/
def merge (directory : Path) (left right : Preindex) : Action StorageError Preindex := do
  let leftLists ← Action.ofChecked left.lists
  let rightLists ← Action.ofChecked right.lists
  writeNew directory (uniteTerms leftLists rightLists)

/-! ### The finished index -/

/-- The two files of an index while they are put together. -/
structure Draft where
  /-- A record of a term and the offset of its postings store, for each term. -/
  directory : Array UInt64
  /-- The postings stores, end to end. -/
  docs : Array UInt64
  /-- The size of the postings stores so far, as reported when they were written. -/
  offset : Nat

/-- An index without terms. -/
def Draft.empty : Draft := { directory := #[], docs := #[], offset := 0 }

/-- The draft with the postings of one more term. -/
def Draft.add (draft : Draft) (term : Term) (postings : Array UInt64) :
    Except (Failure StorageError) Draft := do
  let written ← Shape.postings.write postings
  let offset ← (checkedAdd draft.offset written.size : Except Fault Nat)
  return {
    directory := draft.directory ++ #[term, UInt64.ofNat draft.offset]
    docs := draft.docs ++ written.words
    offset }

/-- The draft with the postings of the term at an index. -/
def addTerm (preindex : Preindex) (draft : Draft) (index : Nat) :
    Except (Failure StorageError) Draft := do
  let term ← (wordAt preindex.terms index : Except Fault UInt64)
  let postings ← (preindex.postings index : Except Fault (Array UInt64))
  draft.add term postings

/-- The postings stores and the term directory of the finished index. -/
def draft (preindex : Preindex) : Except (Failure StorageError) Draft :=
  (List.range preindex.numTerms).foldlM preindex.addTerm Draft.empty

/-- Writes words to a file, once they could be put together. -/
def fillSibling (sibling : Path) (contents : Except (Failure StorageError) (Array UInt64)) :
    Action StorageError Unit := do
  let words ← Action.ofResult contents
  Action.write sibling (Region.toBytes words)

/-- Writes a temporary file beside a target, ready to be moved over it. -/
def writeSibling (target : Path) (contents : Except (Failure StorageError) (Array UInt64)) :
    Action StorageError Path := do
  let directory ← Action.fromRoot target.parent
  let name ← Action.createUnique directory ".tmp" "" Action.attempts
  let sibling := directory.child name
  (fillSibling sibling contents).cleaningUp fun world => world.removeIfPossible sibling
  return sibling

/-- Moves a finished temporary file over its target. -/
def persist (sibling target : Path) : Action FileError Unit := Action.rename sibling target

/-- Writes the postings and the term directory to temporary files and moves them into
place, the postings first. Neither target changes before both files are complete. -/
def finalize (preindex : Preindex) (docsTarget wordsTarget : Path) :
    Action StorageError Report := do
  let planned := preindex.draft
  let docsSibling ← writeSibling docsTarget (planned.map (·.docs))
  let rest : Action StorageError Report := do
    let draft ← Action.ofResult planned
    let directory := Shape.terms.write draft.directory
    let wordsSibling ← writeSibling wordsTarget (directory.map (·.words))
    let install : Action StorageError Report := do
      let written ← Action.ofResult directory
      persist docsSibling docsTarget
      persist wordsSibling wordsTarget
      return {
        terms := preindex.numTerms
        postings := preindex.numPostings
        wordsBytes := written.size * 8
        docsBytes := draft.offset * 8 }
    install.cleaningUp fun world => world.removeIfPossible wordsSibling
  rest.cleaningUp fun world => world.removeIfPossible docsSibling

/-! ### Ownership -/

/-- Sets a preindex aside. -/
def park (preindex : Preindex) : ParkedPreindex := ⟨preindex.files⟩

/-- Removes a preindex. -/
def delete (preindex : Preindex) : Action StorageError Unit := preindex.files.delete

/-- Lets go of a preindex without a report. -/
def discard (preindex : Preindex) (world : World) : World := preindex.files.discard world

end Preindex

namespace ParkedPreindex

/-- Opens a preindex again; its files go away when that fails. -/
def reopen (parked : ParkedPreindex) : Action StorageError Preindex :=
  Preindex.openFiles parked.files

/-- Removes a preindex without opening it. -/
def delete (parked : ParkedPreindex) : Action StorageError Unit := parked.files.delete

/-- Lets go of a preindex without a report. -/
def discard (parked : ParkedPreindex) (world : World) : World := parked.files.discard world

end ParkedPreindex

end InvertedIndex
