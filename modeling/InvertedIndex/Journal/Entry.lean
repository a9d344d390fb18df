/-
A journal shard lists documents with their terms, in no particular order. It is a run
of words: a magic word, the number of entries, and for each entry the document, its
metadata word, the number of its terms, and each term with its metadata. Reading
trusts no count: every word must be there, and a document may not claim more terms
than `maxTerms`. A shard yields its entries in order and ends with the first defect.
-/

import InvertedIndex.Error
import InvertedIndex.Posting
import InvertedIndex.Word

namespace InvertedIndex

/-- A document with the terms it lists. -/
structure Entry where
  doc : DocId
  docMetadata : UInt64
  terms : List (Term × Metadata)
  deriving Repr, DecidableEq

namespace Journal

/-- The first word of every shard. -/
def magic : UInt64 := 3552867635303827794

/-- The most terms that an entry may claim. -/
def maxTerms : Nat := 16777216

/-! ### Writing -/

/-- The words of an entry. -/
def entryWords (entry : Entry) : List UInt64 :=
  [entry.doc, entry.docMetadata, UInt64.ofNat entry.terms.length] ++
    entry.terms.flatMap fun term => [term.1, term.2]

/-- A shard that is being written. The number of entries is put in front when the
writer finishes; until then the shard says that it has none. -/
structure Writer where
  /-- The entries put so far, the latest first. -/
  put : List Entry

namespace Writer

/-- A shard without entries. -/
def empty : Writer := ⟨[]⟩

/-- The shard with one more entry. -/
def add (writer : Writer) (entry : Entry) : Writer := ⟨entry :: writer.put⟩

/-- The bytes of a shard with this count in front. -/
def bytes (writer : Writer) (count : UInt64) : List UInt8 :=
  wordsToBytes (magic :: count :: writer.put.reverse.flatMap entryWords)

/-- The bytes left by a writer that never finished. -/
def abandon (writer : Writer) : List UInt8 := writer.bytes 0

/-- The number of entries, and the bytes of the finished shard. -/
def finish (writer : Writer) : Nat × List UInt8 :=
  (writer.put.length, writer.bytes (UInt64.ofNat writer.put.length))

end Writer

/-! ### Reading -/

/-- Reads this many terms with their metadata. -/
def takeTerms : Nat → List UInt8 → Option (List (Term × Metadata) × List UInt8)
  | 0, bytes => some ([], bytes)
  | count + 1, bytes => do
    let (term, afterTerm) ← takeWord bytes
    let (metadata, afterMetadata) ← takeWord afterTerm
    let (terms, rest) ← takeTerms count afterMetadata
    return ((term, metadata) :: terms, rest)

/-- Reads one entry. -/
def takeEntry (bytes : List UInt8) : Except JournalDefect (Entry × List UInt8) := do
  let some (doc, afterDoc) := takeWord bytes | .error .truncatedEntry
  let some (docMetadata, afterMetadata) := takeWord afterDoc | .error .truncatedEntry
  let some (count, afterCount) := takeWord afterMetadata | .error .truncatedEntry
  if maxTerms < count.toNat then .error (.tooManyTerms doc count)
  let some (terms, rest) := takeTerms count.toNat afterCount | .error .truncatedEntry
  return ({ doc, docMetadata, terms }, rest)

/-- A shard that is being read. -/
structure Reader where
  path : Path
  input : List UInt8
  /-- The entries promised and not read yet. -/
  remaining : Nat
  /-- A defect was met, and nothing more is read. -/
  failed : Bool
  deriving Repr

namespace Reader

/-- Starts to read the bytes of a shard. -/
def «open» (path : Path) (bytes : List UInt8) : Except StorageError Reader := do
  let some (first, afterMagic) := takeWord bytes | .error (.journal path .missingHeader)
  if first ≠ magic then .error (.journal path .badMagic)
  let some (count, input) := takeWord afterMagic | .error (.journal path .missingCount)
  return { path, input, remaining := count.toNat, failed := false }

/-- The next entry, or the defect found in its place, and the reader after it. -/
def next (reader : Reader) : Option (Except StorageError Entry × Reader) :=
  if reader.remaining = 0 ∨ reader.failed then none
  else match takeEntry reader.input with
    | .ok (entry, rest) =>
      some (.ok entry, { reader with input := rest, remaining := reader.remaining - 1 })
    | .error defect =>
      some (.error (.journal reader.path defect),
        { reader with remaining := reader.remaining - 1, failed := true })

theorem remaining_lt_of_next {reader after : Reader} {item : Except StorageError Entry}
    (step : reader.next = some (item, after)) : after.remaining < reader.remaining := by
  unfold next at step
  split at step
  · cases step
  · rename_i going
    split at step <;>
    · simp only [Option.some.injEq, Prod.mk.injEq] at step
      obtain ⟨-, rfl⟩ := step
      simp only
      omega

/-- Everything that the reader still yields: entries, and at most one defect at the end. -/
def items (reader : Reader) : List (Except StorageError Entry) :=
  match step : reader.next with
  | none => []
  | some (item, after) =>
    have : after.remaining < reader.remaining := remaining_lt_of_next step
    item :: after.items
termination_by reader.remaining

end Reader

end Journal

end InvertedIndex
