/-
The errors of the storage layer, each with its cause. What a message says is decided
here alone, one text for each cause.
-/

import InvertedIndex.FileSystem

namespace InvertedIndex

/-- Why the header of a store was refused. -/
inductive HeaderDefect where
  | headerCutShort
  | badMagic
  | tagMismatch
  | widthMismatch
  | tooManyEntries
  | offsetInconsistent
  | sizeOverflow
  | dataCutShort
  deriving Repr, DecidableEq

def HeaderDefect.message : HeaderDefect → String
  | .headerCutShort => "header extends past end of region"
  | .badMagic => "bad magic"
  | .tagMismatch => "context tag mismatch"
  | .widthMismatch => "record width mismatch"
  | .tooManyEntries => "entry count exceeds region"
  | .offsetInconsistent => "data offset inconsistent with entry count"
  | .sizeOverflow => "store size overflow"
  | .dataCutShort => "data region extends past end of region"

/-- Why the contents of a file were refused. -/
inductive FileDefect where
  /-- The file is not a whole number of words. -/
  | partialWord (bytes : Nat)
  /-- The term directory is not the whole file. -/
  | directoryCovers (covered words : Nat)
  | termsNotAscending
  /-- There is not one count for each term. -/
  | countsForTerms (counts terms : Nat)
  /-- The counts do not add up to the postings. -/
  | countsCover (covered words : Nat)
  deriving Repr, DecidableEq

def FileDefect.message : FileDefect → String
  | .partialWord bytes => s!"length {bytes} is not a multiple of 8"
  | .directoryCovers covered words => s!"directory covers {covered} of {words} words"
  | .termsNotAscending => "terms not strictly ascending"
  | .countsForTerms counts terms => s!"{counts} counts for {terms} terms"
  | .countsCover covered words => s!"counts cover {covered} words but file has {words}"

/-- Why records cannot be written as a store. -/
inductive RecordDefect where
  /-- The words do not divide into records. -/
  | ragged (words width : Nat)
  /-- The key of an entry does not exceed the key before it. -/
  | keyNotGreater (key : UInt64) (entry : Nat)
  deriving Repr, DecidableEq

def RecordDefect.message : RecordDefect → String
  | .ragged words width => s!"{words} words is not a whole number of width-{width} records"
  | .keyNotGreater key entry =>
    s!"key {key} at entry {entry} is not greater than its predecessor"

/-- Why a journal shard was refused. -/
inductive JournalDefect where
  | missingHeader
  | badMagic
  | missingCount
  | truncatedEntry
  /-- An entry promises more terms than a document may have. -/
  | tooManyTerms (doc count : UInt64)
  /-- A source of shards knows no shard of this name. -/
  | unknownShard
  deriving Repr, DecidableEq

def JournalDefect.message : JournalDefect → String
  | .missingHeader => "missing header"
  | .badMagic => "bad magic"
  | .missingCount => "missing entry count"
  | .truncatedEntry => "truncated entry"
  | .tooManyTerms doc count => s!"document {doc} claims {count} terms"
  | .unknownShard => "no such shard"

/-- The errors of stores, preindexes and journals. -/
inductive StorageError where
  | files (reason : FileError)
  | header (offset : Nat) (defect : HeaderDefect)
  | file (path : Path) (defect : FileDefect)
  | records (defect : RecordDefect)
  | journal (path : Path) (defect : JournalDefect)
  deriving Repr, DecidableEq

namespace StorageError

/-- The text of an error. -/
def message : StorageError → String
  | .files reason => s!"io error: {reason.name}"
  | .header offset defect =>
    s!"corrupt block store header at word {offset}: {defect.message}"
  | .file path defect => s!"corrupt file {path}: {defect.message}"
  | .records defect => s!"invalid input: {defect.message}"
  | .journal path defect => s!"journal {path}: {defect.message}"

/-- The error comes from what is stored, and not from a caller or from the system. -/
def isCorruption : StorageError → Bool
  | .header _ _ | .file _ _ | .journal _ _ => true
  | .files _ | .records _ => false

end StorageError

end InvertedIndex
