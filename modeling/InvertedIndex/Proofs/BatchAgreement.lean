/-
This file compares batch lookups with single ones. In a store that was written, both
strategies come to the list of what one lookup after another finds, for any ascending keys;
what is found does not depend on the backend either. So neither the ratio by which a reader
chooses a strategy nor its backend shows in an answer about metadata.
-/

import InvertedIndex.Proofs.FilterAlgebra
import InvertedIndex.Proofs.StoreRoundTrip

namespace InvertedIndex

/-- A list of operations ends with the values that they have one by one. -/
theorem mapM_of_forall₂ {ε α β : Type} {operation : α → Except ε β} {inputs : List α}
    {values : List β}
    (each : List.Forall₂ (fun input value => operation input = .ok value) inputs values) :
    inputs.mapM operation = .ok values := by
  induction each with
  | nil => rfl
  | cons first _ inductionHypothesis =>
    rw [List.mapM_cons, first, ok_bind, inductionHypothesis, ok_bind]
    rfl

/-! ### One store -/

namespace Store

/-- A word of the record that a single lookup finds for a key, or 0 where it finds none. -/
def lookUp (store : Store) (column : Nat) (key : UInt64) : Except Fault UInt64 := do
  match ← store.find key with
  | none => return 0
  | some entry => wordAt (← store.record entry) column

/-- All ways of looking up one word for each of some keys come to these answers. -/
structure AnswersColumn (store : Store) (column : Nat) (keys answers : List UInt64) : Prop where
  single : keys.mapM (store.lookUp column) = .ok answers
  batch : ∀ strategy, store.columnWith strategy keys column = .ok answers
  chosen : store.column keys column = .ok answers

/-- All ways of asking which candidates are keys of the store come to these entries. -/
structure AnswersPresence (store : Store) (candidates : List UInt64)
    (found : List (Option Nat)) : Prop where
  single : candidates.mapM store.find = .ok found
  contains : candidates.mapM store.contains = .ok (found.map Option.isSome)
  batch : ∀ strategy, store.locate strategy candidates = .ok found
  retain : store.retain candidates =
    .ok (((candidates.zip found).filter fun entry => entry.2.isSome).map (·.1))
  reject : store.reject candidates =
    .ok (((candidates.zip found).filter fun entry => entry.2.isNone).map (·.1))

namespace Ordered

variable {store : Store} {column : Nat}

/-- The right answer to a lookup is the one that it gives. -/
theorem find_of_finds (ordered : store.Ordered) {key : UInt64} {found : Option Nat}
    (finds : store.Finds key found) : store.find key = .ok found := by
  cases found with
  | none => exact ordered.find_eq_none_iff.mpr finds
  | some entry => exact ordered.find_eq_some_iff.mpr finds

theorem mapM_find (ordered : store.Ordered) {keys : List UInt64} {found : List (Option Nat)}
    (finds : List.Forall₂ store.Finds keys found) : keys.mapM store.find = .ok found :=
  mapM_of_forall₂ (finds.imp fun _ _ => ordered.find_of_finds)

theorem lookUp_of_finds (ordered : store.Ordered) (inside : column < store.shape.width)
    {key : UInt64} {found : Option Nat} (finds : store.Finds key found) :
    store.lookUp column key = .ok (store.columnOf column found) := by
  rw [lookUp, ordered.find_of_finds finds, ok_bind]
  cases found with
  | none => rfl
  | some entry =>
    dsimp only
    rw [ordered.record_eq finds.1, ok_bind, ordered.wordAt_record finds.1 inside]
    rfl

theorem mapM_lookUp (ordered : store.Ordered) (inside : column < store.shape.width)
    {keys : List UInt64} {found : List (Option Nat)}
    (finds : List.Forall₂ store.Finds keys found) :
    keys.mapM (store.lookUp column) = .ok (found.map (store.columnOf column)) := by
  refine mapM_of_forall₂ ?_
  rw [List.forall₂_map_right_iff]
  exact finds.imp fun _ _ => ordered.lookUp_of_finds inside

/-- Entries that are right for the keys of a batch are the ones that any strategy locates. -/
theorem locate_of_finds (ordered : store.Ordered) {keys : List UInt64}
    {found : List (Option Nat)} (ascending : keys.Pairwise (· ≤ ·))
    (finds : List.Forall₂ store.Finds keys found) (strategy : Strategy) :
    store.locate strategy keys = .ok found := by
  obtain ⟨others, located, -, right⟩ := ordered.locate_eq strategy keys
  rw [located, ← ordered.mapM_find (right ordered ascending), ordered.mapM_find finds]

theorem select_of_finds (ordered : store.Ordered) {candidates : List UInt64}
    {found : List (Option Nat)} (sorted : candidates.Pairwise (· ≤ ·))
    (finds : List.Forall₂ store.Finds candidates found) (present : Bool) :
    store.select present candidates =
      .ok (((candidates.zip found).filter fun entry => entry.2.isSome == present).map (·.1)) := by
  rw [select, ascending_iff.mpr sorted, Bool.not_true, if_neg Bool.false_ne_true]
  dsimp only
  rw [ordered.locate_of_finds sorted finds]
  rfl

theorem columnWith_of_finds (ordered : store.Ordered) (inside : column < store.shape.width)
    {keys : List UInt64} {found : List (Option Nat)} (ascending : keys.Pairwise (· < ·))
    (finds : List.Forall₂ store.Finds keys found) (strategy : Strategy) :
    store.columnWith strategy keys column = .ok (found.map (store.columnOf column)) := by
  obtain ⟨others, answered, right⟩ := ordered.columnWith_eq strategy ascending inside
  rw [answered, ← ordered.mapM_lookUp inside (right ordered), ordered.mapM_lookUp inside finds]

theorem answersColumn (ordered : store.Ordered) (inside : column < store.shape.width)
    {keys : List UInt64} {found : List (Option Nat)} (ascending : keys.Pairwise (· < ·))
    (finds : List.Forall₂ store.Finds keys found) :
    store.AnswersColumn column keys (found.map (store.columnOf column)) where
  single := ordered.mapM_lookUp inside finds
  batch := ordered.columnWith_of_finds inside ascending finds
  chosen := ordered.columnWith_of_finds inside ascending finds _

theorem answersPresence (ordered : store.Ordered) {candidates : List UInt64}
    {found : List (Option Nat)} (sorted : candidates.Pairwise (· ≤ ·))
    (finds : List.Forall₂ store.Finds candidates found) :
    store.AnswersPresence candidates found where
  single := ordered.mapM_find finds
  contains := by
    refine mapM_of_forall₂ ?_
    rw [List.forall₂_map_right_iff]
    refine finds.imp fun key entry right => ?_
    rw [contains, ordered.find_of_finds right]
    rfl
  batch := ordered.locate_of_finds sorted finds
  retain := by
    rw [Store.retain, ordered.select_of_finds sorted finds]
    simp only [beq_true]
  reject := by
    rw [Store.reject, ordered.select_of_finds sorted finds]
    simp only [beq_false, Option.not_isSome]

/-- There is a right answer for each of any keys. -/
theorem exists_finds (ordered : store.Ordered) (keys : List UInt64) :
    ∃ found, List.Forall₂ store.Finds keys found := by
  induction keys with
  | nil => exact ⟨[], .nil⟩
  | cons key rest inductionHypothesis =>
    obtain ⟨first, -, finds⟩ := ordered.find_eq key
    obtain ⟨others, findsOthers⟩ := inductionHypothesis
    exact ⟨first :: others, .cons finds findsOthers⟩

end Ordered

end Store

/-! ### Stores that were written -/

/-- A store that was written stands at an offset of a region. -/
def Shape.WrittenAt (shape : Shape) (region : Array UInt64) (offset : Nat) : Prop :=
  ∃ (records : Array UInt64) (written : WrittenStore) (before after : Array UInt64),
    shape.write records = .ok written ∧ region = before ++ written.words ++ after ∧
      before.size = offset

namespace Shape

variable {shape : Shape} {records region : Array UInt64} {offset : Nat}

/-- A store that was written can be opened where it stands, with any backend, and finds its
keys. -/
theorem WrittenAt.ordered (writtenAt : shape.WrittenAt region offset) (sized : shape.Sized)
    (small : region.size < regionLimit) :
    ∃ entries, shape.StandsAt region offset entries ∧
      ∀ backend, (Store.cut region offset shape entries backend).Ordered := by
  obtain ⟨records, written, before, after, isWritten, rfl, rfl⟩ := writtenAt
  rw [Array.size_append, Array.size_append] at small
  obtain ⟨accepts, isStore⟩ := storeOf_of_write sized isWritten (by omega)
  rw [isStore, size_storeOf accepts.whole] at small
  rw [isStore]
  exact ⟨_, storeOf_standsAt accepts.whole before after,
    cut_storeOf_ordered sized accepts before after small⟩

/-- At one place of a region there stands at most one store of a shape. -/
theorem StandsAt.entries_unique {entries others : Nat} (sized : shape.Sized)
    (small : region.size < regionLimit) (stands : shape.StandsAt region offset entries)
    (standsToo : shape.StandsAt region offset others) : entries = others := by
  have same := (Header.read_of_standsAt sized small stands).symm.trans
    (Header.read_of_standsAt sized small standsToo)
  exact congrArg Header.entries (Except.ok.inj same)

/-- So a store that stands where one was written finds its keys. -/
theorem WrittenAt.ordered_of_standsAt (writtenAt : shape.WrittenAt region offset)
    (sized : shape.Sized) (small : region.size < regionLimit) {entries : Nat}
    (stands : shape.StandsAt region offset entries) (backend : Backend) :
    (Store.cut region offset shape entries backend).Ordered := by
  obtain ⟨others, standsToo, ordered⟩ := writtenAt.ordered sized small
  rw [stands.entries_unique sized small standsToo]
  exact ordered backend

end Shape

/-! ### Readers -/

/-- The metadata that single lookups find for a term in a document, or 0 where there is
none. -/
def Index.lookUp (index : Index) (term : Term) (doc : DocId) : Except Fault Metadata := do
  match ← index.postings term with
  | some postings => postings.lookUp 1 doc
  | none => return 0

/-- The same of a reader; a degraded one finds nothing. -/
def IndexReader.lookUp (reader : IndexReader) (term : Term) (doc : DocId) :
    Except Fault Metadata :=
  match reader.index with
  | some index => index.lookUp term doc
  | none => .ok 0

/-- The stores of an index were written: its directory, and the postings that each record of
the directory points to. -/
structure Index.Written (index : Index) : Prop where
  directory : Shape.terms.WrittenAt index.words 0
  postings : ∀ directory entry term offset, index.directory = .ok directory →
    entry < directory.entries → directoryRecord directory entry = .ok (term, offset) →
      Shape.postings.WrittenAt index.docs offset

namespace Index

variable {index : Index} {terms : Nat}

/-- Such is every index that a build puts together. -/
theorem written_ofLists {lists : List (Term × List Posting)} (publishable : Publishable lists)
    (options : ReaderOptions) : (Index.ofLists lists options).Written where
  directory := by
    refine ⟨_, _, #[], #[], Preindex.write_directory publishable.finishable, ?_, rfl⟩
    rw [Array.empty_append, Array.append_empty]
    rfl
  postings directory entry term offset isDirectory below isRecord := by
    have accepted := accepted_ofLists options publishable
    cases isDirectory.symm.trans accepted.directory_eq
    have inside : entry < lists.length := below
    cases isRecord.symm.trans (accepted.directoryRecord_eq inside)
    have written := Preindex.write_postings publishable.finishable.toBounded inside
      (publishable.docs _ (List.getElem_mem inside))
    exact ⟨_, _, _, _, written, docsFile_eq inside, (postingsOffset_eq publishable inside).symm⟩

/-- An index is accepted whatever options it is read with. -/
theorem Accepted.withOptions (accepted : index.Accepted terms) (options : ReaderOptions) :
    Accepted { index with options } terms where
  words_small := accepted.words_small
  docs_small := accepted.docs_small
  directory := accepted.directory
  whole := accepted.whole
  ascending := accepted.ascending
  postings := accepted.postings

/-- What an index of written stores answers about the metadata of a term is what single
lookups find, whatever options it is read with. -/
theorem Accepted.metadata_agrees (accepted : index.Accepted terms) (written : index.Written)
    (term : Term) {docs : List DocId} (ascending : docs.Pairwise (· < ·)) :
    ∃ answers, ∀ options, Index.metadata { index with options } term docs = .ok answers ∧
      docs.mapM (Index.lookUp { index with options } term) = .ok answers := by
  have directory (backend : Backend) := written.directory.ordered_of_standsAt Shape.terms_sized
    accepted.words_small accepted.directory backend
  -- Which entry is right says nothing of the backend, so it may be sought with any one.
  obtain ⟨entry, -, finds⟩ := (directory .scalar).find_eq term
  cases entry with
  | none =>
    refine ⟨docs.map fun _ => 0, fun options => ?_⟩
    have absent := (accepted.withOptions options).postings_of_absent
      ((directory options.backend).find_of_finds finds)
    refine ⟨?_, mapM_eq_ok fun doc _ => ?_⟩
    · rw [metadata, absent]
      rfl
    · rw [lookUp, absent]
      rfl
  | some entry =>
    have below : entry < terms := finds.1
    obtain ⟨documents, stands⟩ := accepted.postings entry below
    have postings (backend : Backend) := Shape.WrittenAt.ordered_of_standsAt
      (written.postings _ _ _ _ accepted.directory_eq below (accepted.directoryRecord_eq below))
      Shape.postings_sized accepted.docs_small stands backend
    obtain ⟨found, findsDocs⟩ := (postings .scalar).exists_finds docs
    refine ⟨found.map ((index.postingsStore (index.postingsOffset terms entry)
      documents).columnOf 1), fun options => ?_⟩
    have listed := (accepted.withOptions options).postings_of_found
      ((directory options.backend).find_of_finds finds) below stands
    have inside : 1 < Shape.postings.width := by decide
    refine ⟨?_, ?_⟩
    · rw [metadata, listed]
      exact (postings options.backend).columnWith_of_finds inside ascending findsDocs _
    · have each (doc : DocId) : Index.lookUp { index with options } term doc =
          (Store.cut index.docs (index.postingsOffset terms entry) Shape.postings documents
            options.backend).lookUp 1 doc := by
        rw [lookUp, listed]
        rfl
      rw [show Index.lookUp { index with options } term = _ from funext each]
      exact (postings options.backend).mapM_lookUp inside findsDocs

end Index

namespace IndexReader

variable {words docs : Path} {options others : ReaderOptions} {files : FileSystem} {ε : Type}

/-- What is read from two files with some options is read with others as well. -/
theorem load_withOptions {index : Index} (wordsMappable : files.Mappable words)
    (docsMappable : files.Mappable docs) (loaded : load words docs options files = .ok index) :
    load words docs others files = .ok { index with options := others } := by
  obtain ⟨terms, accepted⟩ := accepted_of_load wordsMappable docsMappable loaded
  obtain ⟨wordsRegion, wordsMapped, afterWords⟩ := bind_eq_ok.mp loaded
  obtain ⟨docsRegion, docsMapped, afterDocs⟩ := bind_eq_ok.mp afterWords
  obtain ⟨_, -, same⟩ := bind_eq_ok.mp afterDocs
  cases same
  have acceptedToo := accepted.withOptions others
  have passes := (Index.check_eq_ok_iff words acceptedToo.words_small acceptedToo.docs_small).mpr
    ⟨terms, acceptedToo⟩
  rw [load, wordsMapped, ok_bind, docsMapped, ok_bind]
  dsimp only
  rw [passes, ok_bind]
  rfl

/-- So a reader that opens with some options opens with all, on the same index. -/
theorem open_withOptions (others : ReaderOptions) {before after world : World}
    {reader : IndexReader}
    (wordsMappable : before.files.Mappable words) (docsMappable : before.files.Mappable docs)
    (opened : (IndexReader.open words docs options).perform before = (.ok reader, after))
    (same : world.files = before.files) :
    ∃ other afterOther,
      (IndexReader.open words docs others).perform world = (.ok other, afterOther) ∧
        other.index = reader.index.map fun index => { index with options := others } := by
  have result := open_result words docs options before
  have otherResult := open_result words docs others world
  rw [opened] at result
  dsimp only at result
  rw [readIndex] at result otherResult
  rw [same] at otherResult
  split at result
  · rename_i missing
    cases result
    rw [if_pos missing] at otherResult
    exact ⟨_, _, Prod.ext otherResult rfl, rfl⟩
  · rename_i present
    rw [if_neg present] at otherResult
    cases loaded : load words docs options before.files with
    | error failure =>
      rw [loaded] at result
      cases result
    | ok index =>
      rw [loaded] at result
      cases result
      rw [load_withOptions wordsMappable docsMappable loaded] at otherResult
      exact ⟨_, _, Prod.ext otherResult rfl, rfl⟩

/-- A reader asks its index about ascending documents, and a degraded one finds nothing. -/
theorem metadata_yields {reader : IndexReader} {term : Term} {documents : List DocId}
    {answers : List Metadata} (ascending : documents.Pairwise (· < ·))
    (degraded : reader.index = none → (documents.map fun _ => 0) = answers)
    (ready : ∀ index, reader.index = some index → index.metadata term documents = .ok answers) :
    (reader.metadata term documents : Action ε (List Metadata)).Yields (· = answers) := by
  rw [metadata, strictlyAscending_iff.mpr ascending, if_neg (by decide), consult]
  split
  · exact .of_checked (ready _ ‹_›) rfl
  · exact warn_yields.bind fun _ _ => .pure (degraded ‹_›)

/-- The answers to a question about metadata, as a reader gives them and as single lookups
find them. -/
structure AnswersMetadata (reader : IndexReader) (ε : Type) (term : Term)
    (documents : List DocId) (answers : List Metadata) : Prop where
  batch : (reader.metadata term documents : Action ε (List Metadata)).Yields (· = answers)
  single : documents.mapM (reader.lookUp term) = .ok answers

/-- Readers of one index of written stores give one answer, whatever their options. -/
theorem answersMetadata_agree {index : Option Index}
    (accepted : ∀ found, index = some found → ∃ terms, found.Accepted terms)
    (written : ∀ found, index = some found → found.Written) (term : Term)
    {documents : List DocId} (ascending : documents.Pairwise (· < ·)) :
    ∃ answers, ∀ (options : ReaderOptions) (reader : IndexReader),
      (reader.index = index.map fun found => { found with options }) →
        reader.AnswersMetadata ε term documents answers := by
  cases index with
  | none =>
    refine ⟨documents.map fun _ => 0, fun options reader isIndex => ⟨?_, ?_⟩⟩
    · exact metadata_yields ascending (fun _ => rfl) fun found isFound =>
        nomatch isIndex.symm.trans isFound
    · refine mapM_eq_ok fun doc _ => ?_
      rw [lookUp, isIndex]
      rfl
  | some found =>
    obtain ⟨terms, isAccepted⟩ := accepted found rfl
    obtain ⟨answers, agrees⟩ := isAccepted.metadata_agrees (written found rfl) term ascending
    refine ⟨answers, fun options reader isIndex => ⟨?_, ?_⟩⟩
    · refine metadata_yields ascending (fun absent => nomatch isIndex.symm.trans absent)
        fun other isOther => ?_
      cases isIndex.symm.trans isOther
      exact (agrees options).1
    · have each : reader.lookUp term = Index.lookUp { found with options } term := by
        funext doc
        rw [lookUp, isIndex]
        rfl
      rw [each]
      exact (agrees options).2

end IndexReader

/-! ### Batches and single lookups -/

/-- Batch lookups agree with single ones. In a store that was written, wherever it lies in a
region of less than 2^60 words and whatever its width and its blocks, both strategies come to
the list of what single lookups find for ascending keys, the same with each backend. So do the
presence answers for sorted candidates that may repeat. A reader of stores that were written
answers a question about metadata in one way, with whatever options it is opened. -/
theorem batches_agree_with_lookups :
    (∀ (shape : Shape) (region : Array UInt64) (offset : Nat), shape.Sized →
      region.size < regionLimit → shape.WrittenAt region offset →
      (∀ (keys : List UInt64) (column : Nat), keys.Pairwise (· < ·) → column < shape.width →
        ∃ answers, ∀ backend, ∃ store, Store.open region offset shape backend = .ok store ∧
          store.AnswersColumn column keys answers) ∧
      (∀ candidates : List UInt64, candidates.Pairwise (· ≤ ·) →
        ∃ found, ∀ backend, ∃ store, Store.open region offset shape backend = .ok store ∧
          store.AnswersPresence candidates found)) ∧
    (∀ (words docs : Path) (options : ReaderOptions) (before after : World)
      (reader : IndexReader) (ε : Type),
      before.files.Mappable words → before.files.Mappable docs →
      (IndexReader.open words docs options).perform before = (.ok reader, after) →
      (∀ index, reader.index = some index → index.Written) →
      ∀ (others : ReaderOptions) (world : World), world.files = before.files →
        ∃ other afterOther,
          (IndexReader.open words docs others).perform world = (.ok other, afterOther) ∧
            ∀ (term : Term) (documents : List DocId), documents.Pairwise (· < ·) →
              ∃ answers, reader.AnswersMetadata ε term documents answers ∧
                other.AnswersMetadata ε term documents answers) := by
  constructor
  · intro shape region offset sized small writtenAt
    obtain ⟨entries, stands, ordered⟩ := writtenAt.ordered sized small
    refine ⟨fun keys column ascending inside => ?_, fun candidates sorted => ?_⟩
    · obtain ⟨found, finds⟩ := (ordered .scalar).exists_finds keys
      exact ⟨found.map ((Store.cut region offset shape entries .scalar).columnOf column),
        fun backend => ⟨_, Store.open_of_standsAt sized small stands backend,
          (ordered backend).answersColumn inside ascending finds⟩⟩
    · obtain ⟨found, finds⟩ := (ordered .scalar).exists_finds candidates
      exact ⟨found, fun backend => ⟨_, Store.open_of_standsAt sized small stands backend,
        (ordered backend).answersPresence sorted finds⟩⟩
  · intro words docs options before after reader ε wordsMappable docsMappable opened written
      others world same
    obtain ⟨other, afterOther, reopened, isIndex⟩ :=
      IndexReader.open_withOptions others wordsMappable docsMappable opened same
    -- The reader itself is one of those that open on its files.
    obtain ⟨_, _, openedAgain, isOwnIndex⟩ :=
      IndexReader.open_withOptions options wordsMappable docsMappable opened rfl
    cases opened.symm.trans openedAgain
    refine ⟨other, afterOther, reopened, fun term documents ascending => ?_⟩
    obtain ⟨answers, agree⟩ := IndexReader.answersMetadata_agree
      (IndexReader.accepted_of_open wordsMappable docsMappable opened) written term ascending
    exact ⟨answers, agree options reader isOwnIndex, agree others other isIndex⟩

/-! ### Records of three words -/

/-- Records of three words, two of them in a block. -/
def triples : Shape where
  tag := 7
  width := 3
  blockEntries := 2
  width_pos := by decide
  block_pos := Nat.two_pos

/-- Three such records behind a foreign word. -/
def tripleRegion : Array UInt64 :=
  #[9, storeMagic, 7, 3, 3, 7, 20, 30, 10, 1, 2, 20, 3, 4, 30, 5, 6]

theorem batches_agree_with_lookups_of_triples :
    (triples.WrittenAt tripleRegion 1 ∧
      ∃ store, Store.open tripleRegion 1 triples .vector = .ok store ∧
        store.AnswersColumn 2 [5, 20, 30, 40] [0, 4, 6, 0] ∧
        store.AnswersPresence [5, 20, 20, 30] [none, some 1, some 1, some 2]) ∧
    ∃ reader after, (IndexReader.open (rootFile "words") (rootFile "docs")
        ⟨.scalar, 0⟩).perform twoTermsWorld = (.ok reader, after) ∧
      reader.AnswersMetadata StorageError 5 [1, 3, 8, 9] [0, 1, 2, 0] := by
  obtain ⟨stores, readers⟩ := batches_agree_with_lookups
  have sized : triples.Sized := ⟨by decide, by decide⟩
  have accepts : triples.Accepts #[10, 1, 2, 20, 3, 4, 30, 5, 6] := ⟨by decide, by decide⟩
  have writtenAt : triples.WrittenAt tripleRegion 1 :=
    ⟨_, _, #[9], #[], Shape.write_eq sized accepts (by decide), rfl, rfl⟩
  obtain ⟨columns, presence⟩ := stores triples tripleRegion 1 sized (by decide) writtenAt
  constructor
  · have opened : Store.open tripleRegion 1 triples .vector =
        .ok (Store.cut tripleRegion 1 triples 3 .vector) := rfl
    obtain ⟨answers, answered⟩ := columns [5, 20, 30, 40] 2 (by decide) (by decide)
    obtain ⟨found, located⟩ := presence [5, 20, 20, 30] (by decide)
    obtain ⟨_, openedFirst, column⟩ := answered .vector
    obtain ⟨_, openedNext, present⟩ := located .vector
    cases opened.symm.trans openedFirst
    cases opened.symm.trans openedNext
    have areAnswers : [5, 20, 30, 40].mapM ((Store.cut tripleRegion 1 triples 3 .vector).lookUp 2) =
        .ok [0, 4, 6, 0] := by decide +kernel
    have areFound : [5, 20, 20, 30].mapM (Store.cut tripleRegion 1 triples 3 .vector).find =
        .ok [none, some 1, some 1, some 2] := by decide +kernel
    cases areAnswers.symm.trans column.single
    cases areFound.symm.trans present.single
    exact ⟨writtenAt, _, opened, column, present⟩
  · obtain ⟨opened, opens⟩ := twoTermsWorld.opens
    have written (index : Index) (isIndex : twoTermsWorld.reader.index = some index) :
        index.Written := by
      cases isIndex
      exact Index.written_ofLists twoTermsWorld.publishable _
    obtain ⟨reader, after, reopened, agree⟩ := readers _ _ _ _ _ _ StorageError
      (twoTermsWorld.mappable twoTermsWorld.publishable.words_small twoTermsWorld.words_file)
      (twoTermsWorld.mappable twoTermsWorld.publishable.docs_small twoTermsWorld.docs_file)
      opens written ⟨.scalar, 0⟩ twoTermsWorld rfl
    obtain ⟨answers, first, other⟩ := agree 5 [1, 3, 8, 9] (by decide)
    have areAnswers : [1, 3, 8, 9].mapM (twoTermsWorld.reader.lookUp 5) = .ok [0, 1, 2, 0] := by
      decide +kernel
    cases areAnswers.symm.trans first.single
    exact ⟨reader, after, reopened, other⟩

end InvertedIndex
