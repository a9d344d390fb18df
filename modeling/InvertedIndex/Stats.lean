/-
A summary of an index: how many terms and postings it has, how large its files are,
and which terms have the most documents.
-/

import InvertedIndex.Reader

namespace InvertedIndex

/-- The summary of an index. -/
structure IndexStats where
  terms : Nat
  postings : Nat
  wordsBytes : Nat
  docsBytes : Nat
  /-- The terms with the most documents, the largest first and equal ones by term. -/
  largest : List (Term × Nat)
  deriving Repr, DecidableEq

namespace IndexStats

/-- The order of terms by number of documents, the largest first, then by term. -/
def largerFirst (first second : Term × Nat) : Bool :=
  second.2 < first.2 || (first.2 == second.2 && first.1 ≤ second.1)

/-- The summary of a reader's index with this many of its largest terms. -/
def collect {ε : Type} (reader : IndexReader) (top : Nat) : Action ε IndexStats := do
  let counts ← reader.termCounts
  let terms ← reader.numTerms
  let (wordsBytes, docsBytes) := reader.sizeBytes
  return {
    terms
    postings := counts.foldl (fun total entry => total + entry.2) 0
    wordsBytes
    docsBytes
    largest := (counts.mergeSort largerFirst).take top }

end IndexStats

end InvertedIndex
