/-
A posting says that a document lists a term. It is a pair whose key is the document
and whose payload is the metadata word of the term in that document. Metadata words
are sets of flags, so two words for the same term and document are combined by or.
The main operations collapse the postings of one term to one posting for each
document, and unite two such lists.
-/

import InvertedIndex.Search.Backend

namespace InvertedIndex

/-- The identifier of a term. -/
abbrev Term := UInt64

/-- The identifier of a document: a domain in the upper half and the number of the
document within its domain in the lower half. -/
abbrev DocId := UInt64

/-- The flags of a term in a document. -/
abbrev Metadata := UInt64

/-- A document that lists a term, with the metadata of the term there. -/
abbrev Posting := Pair

/-- The domain of a document. -/
def domainOf (doc : DocId) : UInt32 := (doc >>> 32).toUInt32

/-- The number of a document within its domain. -/
def ordinalOf (doc : DocId) : UInt32 := (doc &&& 0xFFFFFFFF).toUInt32

/-- The document with this number within a domain. -/
def docId (domain ordinal : UInt32) : DocId := domain.toUInt64 <<< 32 ||| ordinal.toUInt64

/-- The metadata of a term that was seen twice in the same document. -/
def combine (first second : Metadata) : Metadata := first ||| second

/-- Collapses adjacent postings of the same document within the array. The first `kept`
places hold what has been collapsed so far, and the places from `read` on are still to
come, so no place is overwritten before it has been read. -/
def collapseFrom (postings : Array Posting) (kept read : Nat) (behind : kept ≤ read) :
    Array Posting :=
  if more : read < postings.size then
    let posting := postings[read]
    if same : 0 < kept ∧ (postings[kept - 1]?.map (·.key)) = some posting.key then
      have inside : kept - 1 < postings.size := by omega
      let combined := combine postings[kept - 1].payload posting.payload
      collapseFrom (postings.set (kept - 1) ⟨posting.key, combined⟩) kept (read + 1) (by omega)
    else
      collapseFrom (postings.set kept posting) (kept + 1) (read + 1) (by omega)
  else postings.extract 0 kept
termination_by postings.size - read
decreasing_by all_goals simp only [Array.size_set]; omega

/-- One posting for each run of adjacent postings of the same document. -/
def collapse (postings : Array Posting) : Array Posting := collapseFrom postings 0 0 (Nat.le_refl 0)

/-- The union of two lists in document order. A document on both sides keeps the
combined metadata. -/
def unite : List Posting → List Posting → List Posting
  | [], right => right
  | left, [] => left
  | first :: left, second :: right =>
    if first.key < second.key then first :: unite left (second :: right)
    else if second.key < first.key then second :: unite (first :: left) right
    else ⟨first.key, combine first.payload second.payload⟩ :: unite left right
termination_by left right => left.length + right.length

/-- The postings of a shard grouped by term, the terms in ascending order. -/
def groupByTerm (postings : List (Term × Posting)) : List (Term × List Posting) :=
  let byTerm := postings.mergeSort fun first second => first.1 ≤ second.1
  (byTerm.splitBy fun first second => first.1 == second.1).filterMap fun group =>
    group.head?.map fun entry => (entry.1, group.map (·.2))

/-- The union of two lists of postings by term, both in ascending order of their terms.
The postings of a term on one side only are taken over unchanged. -/
def uniteTerms : List (Term × List Posting) → List (Term × List Posting) →
    List (Term × List Posting)
  | [], right => right
  | left, [] => left
  | first :: left, second :: right =>
    if first.1 < second.1 then first :: uniteTerms left (second :: right)
    else if second.1 < first.1 then second :: uniteTerms (first :: left) right
    else (first.1, unite first.2 second.2) :: uniteTerms left right
termination_by left right => left.length + right.length

end InvertedIndex
