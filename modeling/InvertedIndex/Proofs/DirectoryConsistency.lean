/-
This file proves how the list of terms and the answers about single terms go together. The list
is read off the records of the directory, and a term is looked up through its block index.
Opening an index checks the records but not the block index, so a lookup comes to the record of
the term or to nothing, as for a term that is not listed. Where the block index holds the last
term of each block no term is missed.
-/

import InvertedIndex.Proofs.FilterAlgebra

namespace InvertedIndex

open FileSystem

namespace Index.Accepted

/-! ### Looking up a term -/

variable {index : Index} {terms : Nat}

/-- The terms ascend, not only from one record to the next. -/
theorem key_lt (accepted : index.Accepted terms) {first second : Nat} (before : first < second)
    (below : second < terms) :
    (index.termStore terms).key first < (index.termStore terms).key second := by
  induction second with
  | zero => exact absurd before (Nat.not_lt_zero first)
  | succ second inductionHypothesis =>
    have step := accepted.ascending (second + 1) (Nat.succ_pos second) below
    rcases Nat.eq_or_lt_of_le (Nat.le_of_lt_succ before) with rfl | earlier
    · exact step
    · exact UInt64.lt_trans (inductionHypothesis earlier (Nat.lt_of_succ_lt below)) step

theorem ascendingOn (accepted : index.Accepted terms) :
    AscendingOn (index.termStore terms).key 0 terms := by
  intro first second _ before below
  rcases Nat.eq_or_lt_of_le before with rfl | before
  · exact UInt64.le_refl _
  · exact UInt64.le_of_lt (accepted.key_lt before below)

/-- A lookup comes to the record of the term, or to none. -/
theorem find_cases (accepted : index.Accepted terms) (term : Term) :
    (index.termStore terms).find term = .ok none ∨
      ∃ entry, (index.termStore terms).find term = .ok (some entry) ∧ entry < terms ∧
        (index.termStore terms).key entry = term := by
  obtain ⟨found, located, inside⟩ := accepted.directory_sound.find_inside term
  cases found with
  | none => exact .inl located
  | some entry =>
    obtain ⟨below, isKey⟩ := inside entry rfl
    exact .inr ⟨entry, located, below, isKey accepted.ascendingOn⟩

/-- In a directory in order it does not come to none where there is such a record. -/
theorem find_of_inOrder (accepted : index.Accepted terms)
    (inOrder : (index.termStore terms).InOrder) {entry : Nat} (below : entry < terms) :
    (index.termStore terms).find ((index.termStore terms).key entry) = .ok (some entry) :=
  (accepted.directory_sound.ordered inOrder).find_eq_some_iff.mpr ⟨below, rfl⟩

/-- The terms are listed in ascending order. -/
theorem keys_pairwise (accepted : index.Accepted terms) :
    ((List.range terms).map (index.termStore terms).key).Pairwise (· < ·) := by
  rw [List.pairwise_map]
  refine List.pairwise_lt_range.imp_of_mem fun _ member before => ?_
  exact accepted.key_lt before (List.mem_range.mp member)

end Index.Accepted

namespace IndexReader

/-! ### Answers about a term -/

/-- The reader counts this many documents that list the term, and hands out as many. -/
structure Lists (reader : IndexReader) (ε : Type) (term : Term) (count : Nat) : Prop where
  numDocuments : (reader.numDocuments term : Action ε Nat).Yields fun documents =>
    documents = count
  documents : (reader.documents term : Action ε PostingsSource).Yields fun source =>
    source.remaining = count ∧
      ∃ docs after, docs.length = count ∧ source.rest = .ok (docs, after)

/-- The reader answers every question about the term as an empty index would. -/
structure Omits (reader : IndexReader) (ε : Type) (term : Term) : Prop
    extends reader.Lists ε term 0 where
  retain : (reader.retainFilter term : Action ε Filter).Yields fun filter =>
    filter.Decides fun _ => false
  reject : (reader.rejectFilter term : Action ε Filter).Yields fun filter =>
    filter.Decides fun _ => true

variable {reader : IndexReader} {ε : Type} {term : Term} {index : Index} {terms : Nat}

theorem lists_of_postings (isIndex : reader.index = some index) {postings : Store}
    (asked : index.postings term = .ok (some postings)) (sound : postings.Sound) :
    reader.Lists ε term postings.entries where
  numDocuments := by
    rw [numDocuments, consult, isIndex]
    refine .of_checked ?_ rfl
    rw [Index.numDocuments, asked]
    rfl
  documents := by
    obtain ⟨after, handed, -⟩ := (PostingsSource.counted_ofStore sound term).rest
    rw [documents, consult, isIndex]
    refine .of_checked ?_ ⟨rfl, _, after, PostingsSource.counted_ofStore sound term, handed⟩
    rw [Index.documents, asked]
    rfl

theorem omits_of_absent
    (asked : ∀ index, reader.index = some index → index.postings term = .ok none) :
    reader.Omits ε term where
  numDocuments := consult_yields rfl fun index isIndex =>
    ⟨0, by rw [Index.numDocuments, asked index isIndex]; rfl, rfl⟩
  documents := consult_yields ⟨rfl, [], _, rfl, rfl⟩ fun index isIndex =>
    ⟨.empty term, by rw [Index.documents, asked index isIndex]; rfl, rfl, [], _, rfl, rfl⟩
  retain := consult_yields Filter.decides_noPass fun index isIndex =>
    ⟨.noPass, by rw [Index.retainFilter, asked index isIndex]; rfl, Filter.decides_noPass⟩
  reject := consult_yields Filter.decides_letThrough fun index isIndex =>
    ⟨.letThrough, by rw [Index.rejectFilter, asked index isIndex]; rfl, Filter.decides_letThrough⟩

theorem omits_of_find (isIndex : reader.index = some index) (accepted : index.Accepted terms)
    (absent : (index.termStore terms).find term = .ok none) : reader.Omits ε term := by
  refine omits_of_absent fun other isOther => ?_
  rw [isIndex] at isOther
  cases isOther
  exact accepted.postings_of_absent absent

/-- A term that a lookup comes to is counted as it is listed. -/
theorem lists_of_find (isIndex : reader.index = some index) (accepted : index.Accepted terms)
    {entry count : Nat} (found : (index.termStore terms).find term = .ok (some entry))
    (below : entry < terms)
    (stands : Shape.postings.StandsAt index.docs (index.postingsOffset terms entry) count) :
    reader.Lists ε term count :=
  lists_of_postings isIndex (accepted.postings_of_found found below stands)
    (accepted.postingsStore_sound stands)

/-- What an opened reader says of its terms: which are listed, and which are not missed. -/
structure TermsHold (reader : IndexReader) (ε : Type) (counts : List (Term × Nat)) : Prop where
  termCounts : (reader.termCounts : Action ε (List (Term × Nat))).Yields fun answer =>
    answer = counts
  ascending : (counts.map Prod.fst).Pairwise (· < ·)
  listed : ∀ term count, (term, count) ∈ counts →
    reader.Lists ε term count ∨ reader.Omits ε term
  unlisted : ∀ term, term ∉ counts.map Prod.fst → reader.Omits ε term
  found : (∀ index directory, reader.index = some index → index.directory = .ok directory →
      directory.InOrder) →
    ∀ term count, (term, count) ∈ counts → reader.Lists ε term count

theorem termsHold_of_accepted (isIndex : reader.index = some index)
    (accepted : index.Accepted terms) : ∃ counts, reader.TermsHold ε counts := by
  obtain ⟨counts, counted, isTerms, records⟩ := accepted.termCounts_eq
  refine ⟨counts, ?_, isTerms ▸ accepted.keys_pairwise, fun term count member => ?_,
    fun term outside => ?_, fun inOrder term count member => ?_⟩
  · rw [IndexReader.termCounts, consult, isIndex]
    exact .of_checked counted rfl
  · obtain ⟨entry, below, isKey, stands⟩ := records term count member
    rcases accepted.find_cases term with absent | ⟨other, found, otherBelow, isOther⟩
    · exact .inr (omits_of_find isIndex accepted absent)
    · obtain rfl := Store.eq_of_keys_eq (fun _ _ => accepted.key_lt) otherBelow below
        (isOther.trans isKey.symm)
      exact .inl (lists_of_find isIndex accepted found below stands)
  · rcases accepted.find_cases term with absent | ⟨entry, -, below, isKey⟩
    · exact omits_of_find isIndex accepted absent
    · refine absurd ?_ outside
      rw [isTerms]
      exact List.mem_map.mpr ⟨entry, List.mem_range.mpr below, isKey⟩
  · obtain ⟨entry, below, rfl, stands⟩ := records term count member
    have found := accepted.find_of_inOrder (inOrder index _ isIndex accepted.directory_eq) below
    exact lists_of_find isIndex accepted found below stands

/-- A degraded reader lists no terms. -/
theorem termsHold_of_degraded (degraded : reader.index = none) : reader.TermsHold ε [] where
  termCounts := consult_yields rfl fun index isIndex => by
    rw [degraded] at isIndex
    cases isIndex
  ascending := .nil
  listed _ _ member := absurd member List.not_mem_nil
  unlisted _ _ := omits_of_absent fun index isIndex => by
    rw [degraded] at isIndex
    cases isIndex
  found _ _ _ member := absurd member List.not_mem_nil

end IndexReader

/-- The list of terms and the answers about each term go together as far as the block index of
the directory allows. Whatever two files a reader was opened on, its terms ascend; a term that
is not listed has no documents, its one filter passes nothing and the other everything; and a
listed term has as many documents as the list says, or else a lookup misses it and every answer
is that of a term that is not listed. With a directory in order no listed term is missed. -/
theorem terms_hold_where_found {words docs : Path} {options : ReaderOptions}
    {before opened : World} {reader : IndexReader} (ε : Type)
    (wordsMappable : before.files.Mappable words) (docsMappable : before.files.Mappable docs)
    (opens : (IndexReader.open words docs options).perform before = (.ok reader, opened)) :
    ∃ counts, reader.TermsHold ε counts := by
  cases isIndex : reader.index with
  | none => exact ⟨[], IndexReader.termsHold_of_degraded isIndex⟩
  | some index =>
    obtain ⟨terms, accepted⟩ :=
      IndexReader.accepted_of_open wordsMappable docsMappable opens index isIndex
    exact IndexReader.termsHold_of_accepted isIndex accepted

/-! ### A term that is missed -/

/-- The index of a directory whose block index does not hold its term. -/
def strayIndex : Index := ⟨strayDirectory.toArray, strayPostings.toArray, ⟨.scalar, 32⟩⟩

namespace strayIndex

/-- The reader of the two files. -/
def reader : IndexReader where
  index := some strayIndex
  wordsPath := rootFile "words"
  docsPath := rootFile "docs"
  serial := 0

theorem opens : ∃ opened, (IndexReader.open (rootFile "words") (rootFile "docs")
    ⟨.scalar, 32⟩).perform strayWorld = (.ok reader, opened) :=
  ⟨_, IndexReader.open_of_words strayWorld_words strayWorld_docs rfl⟩

theorem words_mappable : strayWorld.files.Mappable (rootFile "words") :=
  mappable_of_words (by decide) strayWorld_words

theorem docs_mappable : strayWorld.files.Mappable (rootFile "docs") :=
  mappable_of_words (by decide) strayWorld_docs

/-- The term is listed with three documents. -/
theorem termCounts_yields :
    (reader.termCounts : Action StorageError (List (Term × Nat))).Yields
      fun answer => answer = [(5, 3)] :=
  .of_checked (show strayIndex.termCounts = .ok [(5, 3)] from rfl) rfl

/-- No documents are counted when it is asked for. -/
theorem numDocuments_yields :
    (reader.numDocuments 5 : Action StorageError Nat).Yields fun documents => documents = 0 :=
  .of_checked (show strayIndex.numDocuments 5 = .ok 0 by decide +kernel) rfl

end strayIndex

theorem terms_hold_where_found_in_stray_records :
    ∃ opened, (IndexReader.open (rootFile "words") (rootFile "docs") ⟨.scalar, 32⟩).perform
        strayWorld = (.ok strayIndex.reader, opened) ∧
      strayIndex.reader.Omits StorageError 6 ∧
      (strayIndex.reader.Lists StorageError 5 3 ∨ strayIndex.reader.Omits StorageError 5) := by
  obtain ⟨opened, opens⟩ := strayIndex.opens
  obtain ⟨counts, holds⟩ := terms_hold_where_found StorageError strayIndex.words_mappable
    strayIndex.docs_mappable opens
  obtain rfl := holds.termCounts.unique strayIndex.termCounts_yields strayWorld
  exact ⟨opened, opens, holds.unlisted 6 (by decide), holds.listed 5 3 List.mem_cons_self⟩

/-- So a term that is listed need not be found. -/
theorem listed_term_can_be_missed :
    ¬ ∀ (words docs : Path) (options : ReaderOptions) (before opened : World)
      (reader : IndexReader) (counts : List (Term × Nat)),
      before.files.Mappable words → before.files.Mappable docs →
      (IndexReader.open words docs options).perform before = (.ok reader, opened) →
      (reader.termCounts : Action StorageError (List (Term × Nat))).Yields
        (fun answer => answer = counts) →
      ∀ term count, (term, count) ∈ counts →
        (reader.numDocuments term : Action StorageError Nat).Yields
          fun documents => documents = count := by
  intro claim
  obtain ⟨opened, opens⟩ := strayIndex.opens
  have counted := claim _ _ _ _ _ _ _ strayIndex.words_mappable strayIndex.docs_mappable opens
    strayIndex.termCounts_yields 5 3 List.mem_cons_self
  exact absurd (counted.unique strayIndex.numDocuments_yields strayWorld) (by decide)

end InvertedIndex
