/-
This file proves that queries never fail. Opening a store checks its header and nothing
else, and opening an index checks its directory and the headers that the directory points
to; the block indexes and the keys may hold anything. Still every question that may be
asked afterwards comes to a value: what was checked bounds every position that a search,
a batch lookup or a filter computes.
-/

import InvertedIndex.Proofs.AcceptedIndex
import InvertedIndex.Proofs.Actions
import InvertedIndex.Proofs.Files
import InvertedIndex.Proofs.Words
import InvertedIndex.Reader

namespace InvertedIndex

/-! ### Stores -/

/-- A store that comes to a value whatever it is asked. -/
structure Store.Answers (store : Store) : Prop where
  find : ∀ key, ∃ found, store.find key = .ok found ∧
    ∀ entry, found = some entry → entry < store.entries
  contains : ∀ key, ∃ present, store.contains key = .ok present
  record : ∀ entry, entry < store.entries →
    ∃ words, store.record entry = .ok words ∧ words.size = store.shape.width
  keyAt : ∀ entry, entry < store.entries → ∃ key, store.keyAt entry = .ok key
  keys : store.keys.length = store.entries
  sizeWords : ∃ size, store.sizeWords = .ok size
  columnWith : ∀ strategy (keys : List UInt64) column, keys.Pairwise (· < ·) →
    column < store.shape.width → ∃ values, store.columnWith strategy keys column = .ok values
  column : ∀ (keys : List UInt64) column, keys.Pairwise (· < ·) →
    column < store.shape.width → ∃ values, store.column keys column = .ok values
  retain : ∀ candidates : List UInt64, candidates.Pairwise (· ≤ ·) →
    ∃ kept, store.retain candidates = .ok kept
  reject : ∀ candidates : List UInt64, candidates.Pairwise (· ≤ ·) →
    ∃ kept, store.reject candidates = .ok kept

theorem Store.Sound.answers {store : Store} (sound : store.Sound) : store.Answers where
  find key := sound.find_eq key
  contains key := sound.contains_eq key
  record entry below := by
    have inside := sound.record_inside below
    refine ⟨_, sound.record_eq below, ?_⟩
    rw [Array.size_extract]
    omega
  keyAt entry below := ⟨_, sound.keyAt_eq below⟩
  keys := by rw [sound.keys_eq, List.length_map, List.length_range]
  sizeWords := ⟨_, sound.sizeWords_eq⟩
  columnWith strategy keys column ascending inside := by
    obtain ⟨found, answered, -⟩ := sound.columnWith_eq strategy ascending inside
    exact ⟨_, answered⟩
  column keys column ascending inside := by
    obtain ⟨found, answered, -⟩ := sound.columnWith_eq
      (.choose keys.length store.entries defaultMergeRatio) ascending inside
    exact ⟨_, answered⟩
  retain candidates ascending := by
    obtain ⟨found, answered, -⟩ := sound.select_eq true ascending
    exact ⟨_, answered⟩
  reject candidates ascending := by
    obtain ⟨found, answered, -⟩ := sound.select_eq false ascending
    exact ⟨_, answered⟩

/-! ### Filters and sources -/

/-- A filter that tests every document and narrows every ascending list of candidates. -/
structure Filter.Answers (filter : Filter) : Prop where
  test : ∀ doc, ∃ passes, filter.test doc = .ok passes
  apply : ∀ candidates : List DocId, candidates.Pairwise (· ≤ ·) →
    ∃ kept, filter.apply candidates = .ok kept

namespace Filter

theorem answers_retain {postings : Store} (sound : postings.Sound) (term : Term) :
    (retain term postings).Answers where
  test doc := by
    rw [test]
    exact sound.contains_eq doc
  apply candidates ascending := by
    rw [apply]
    exact sound.answers.retain candidates ascending

theorem answers_reject {postings : Store} (sound : postings.Sound) (term : Term) :
    (reject term postings).Answers where
  test doc := by
    obtain ⟨present, contained⟩ := sound.contains_eq doc
    rw [test, contained]
    exact ⟨_, rfl⟩
  apply candidates ascending := by
    rw [apply]
    exact sound.answers.reject candidates ascending

theorem answers_noPass : noPass.Answers where
  test _ := ⟨false, by rw [test]; rfl⟩
  apply _ _ := ⟨[], by rw [apply]; rfl⟩

theorem answers_letThrough : letThrough.Answers where
  test _ := ⟨true, by rw [test]; rfl⟩
  apply candidates _ := ⟨candidates, by rw [apply]; rfl⟩

end Filter

namespace PostingsSource

/-- A source that holds as many documents as it counts. -/
def Counted (source : PostingsSource) : Prop := source.docs.length = source.remaining

theorem counted_ofStore {postings : Store} (sound : postings.Sound) (term : Term) :
    (ofStore term postings).Counted := sound.answers.keys

theorem counted_empty (term : Term) : (empty term).Counted := rfl

/-- A counted source hands out its next document, and stays counted. -/
theorem Counted.next {source : PostingsSource} (counted : source.Counted) :
    ∃ doc after, source.next = .ok (doc, after) ∧ after.Counted := by
  unfold PostingsSource.next
  split
  · exact ⟨none, source, rfl, counted⟩
  · rename_i doc rest isNext
    rw [Counted, isNext, List.length_cons] at counted
    rw [if_neg (by omega)]
    refine ⟨some doc, _, rfl, ?_⟩
    show rest.length = source.remaining - 1
    omega

/-- A counted source hands out everything it has. -/
theorem Counted.rest {source : PostingsSource} (counted : source.Counted) :
    ∃ after, source.rest = .ok (source.docs, after) ∧ after.Counted := by
  rw [PostingsSource.rest, if_neg (Nat.not_lt_of_le (Nat.le_of_eq counted))]
  refine ⟨_, rfl, ?_⟩
  show 0 = source.remaining - source.docs.length
  rw [counted, Nat.sub_self]

end PostingsSource

/-! ### Readers -/

/-- The file at a path, if there is one, is short enough to be mapped as one run of words. -/
def FileSystem.Mappable (files : FileSystem) (path : Path) : Prop :=
  ∀ contents, files.read path = .ok (.file contents) → contents.length < 8 * regionLimit

/-- A file of few enough words can be mapped. -/
theorem FileSystem.mappable_of_words {files : FileSystem} {path : Path} {words : List UInt64}
    (small : words.length < regionLimit)
    (isFile : files.read path = .ok (.file (wordsToBytes words))) : files.Mappable path := by
  intro contents found
  cases isFile.symm.trans found
  rw [length_wordsToBytes]
  omega

/-- The words of a file that can be mapped are few enough. -/
theorem FileSystem.Mappable.size_lt {files : FileSystem} {path : Path} {words : Array UInt64}
    (mappable : files.Mappable path)
    (isFile : files.read path = .ok (.file (Region.toBytes words))) : words.size < regionLimit := by
  have short := mappable _ isFile
  rw [Region.length_toBytes] at short
  omega

namespace IndexReader

/-- A reader that comes to a value whatever it is asked. -/
structure Answers (reader : IndexReader) (ε : Type) : Prop where
  documents : ∀ term,
    (reader.documents term : Action ε PostingsSource).Yields PostingsSource.Counted
  numDocuments : ∀ term, (reader.numDocuments term : Action ε Nat).Yields fun _ => True
  retainFilter : ∀ term, (reader.retainFilter term : Action ε Filter).Yields Filter.Answers
  rejectFilter : ∀ term, (reader.rejectFilter term : Action ε Filter).Yields Filter.Answers
  metadata : ∀ term (docs : List DocId), docs.Pairwise (· < ·) →
    (reader.metadata term docs : Action ε (List Metadata)).Yields fun _ => True
  numTerms : (reader.numTerms : Action ε Nat).Yields fun _ => True
  termCounts : (reader.termCounts : Action ε (List (Term × Nat))).Yields fun _ => True
  /-- Every store that a query opens without a check has a valid header. -/
  trusted : ∀ index, reader.index = some index → ∃ directory, index.directory = .ok directory ∧
    ∀ entry, entry < directory.entries → ∃ term offset postings,
      Index.directoryRecord directory entry = .ok (term, offset) ∧
        index.postingsAt offset = .ok postings

section Opening

variable (words docs : Path) (options : ReaderOptions) (world : World)

/-- The index that opening a reader comes to: none when one of the files is missing. -/
def readIndex : Except (Failure StorageError) (Option Index) :=
  if !world.files.exists? words || !world.files.exists? docs then .ok none
  else (load words docs options world.files).map some

theorem open_result :
    ((IndexReader.open words docs options).perform world).1 =
      (readIndex words docs options world).map fun index =>
        { index, wordsPath := words, docsPath := docs, serial := world.opened } := by
  rw [Action.perform, IndexReader.open, bind_apply, readIndex]
  show ((ite _ _ _ : Action StorageError IndexReader) world).1 = _
  split
  · rfl
  · cases load words docs options world.files <;> rfl

variable {words docs options world}

theorem size_lt_of_map {path : Path} {files : FileSystem} (mappable : files.Mappable path)
    {region : Region} (mapped : Region.map path files = .ok region) :
    region.words.size < regionLimit := mappable.size_lt (Region.read_of_map mapped)

/-- Two files of words are read as the index that they hold when it passes the check. -/
theorem load_of_words {files : FileSystem} {wordsWords docsWords : List UInt64}
    (wordsHolds : files.read words = .ok (.file (wordsToBytes wordsWords)))
    (docsHolds : files.read docs = .ok (.file (wordsToBytes docsWords)))
    (passes : Index.check ⟨wordsWords.toArray, docsWords.toArray, options⟩ words = .ok ()) :
    load words docs options files =
      .ok ⟨wordsWords.toArray, docsWords.toArray, options⟩ := by
  rw [load, Region.map_eq wordsHolds, Region.map_eq docsHolds]
  show (do
    Index.check ⟨wordsWords.toArray, docsWords.toArray, options⟩ words
    return ⟨wordsWords.toArray, docsWords.toArray, options⟩ :
      Except (Failure StorageError) Index) = _
  rw [passes]
  rfl

/-- A reader of this index is opened, and the log says so. -/
theorem open_of_words {wordsWords docsWords : List UInt64}
    (wordsHolds : world.files.read words = .ok (.file (wordsToBytes wordsWords)))
    (docsHolds : world.files.read docs = .ok (.file (wordsToBytes docsWords)))
    (passes : Index.check ⟨wordsWords.toArray, docsWords.toArray, options⟩ words = .ok ()) :
    (IndexReader.open words docs options).perform world =
      (.ok { index := some ⟨wordsWords.toArray, docsWords.toArray, options⟩
             wordsPath := words, docsPath := docs, serial := world.opened },
        { world with
          log := world.log ++ [⟨.info, "Switching reverse index"⟩]
          opened := world.opened + 1 }) := by
  have present : (!world.files.exists? words || !world.files.exists? docs) = false := by
    rw [FileSystem.exists?_eq, FileSystem.exists?_eq, wordsHolds, docsHolds]
    rfl
  rw [Action.perform, IndexReader.open, bind_apply]
  show (ite _ _ _ : Action StorageError IndexReader) world = _
  rw [present, if_neg Bool.false_ne_true, load_of_words wordsHolds docsHolds passes]
  rfl

/-- What is read as an index are the words of two files that pass the check. -/
theorem regions_of_load {files : FileSystem} {index : Index}
    (loaded : load words docs options files = .ok index) :
    ∃ wordsRegion docsRegion, Region.map words files = .ok wordsRegion ∧
      Region.map docs files = .ok docsRegion ∧
      index = ⟨wordsRegion.words, docsRegion.words, options⟩ ∧ index.check words = .ok () := by
  obtain ⟨wordsRegion, wordsMapped, afterWords⟩ := bind_eq_ok.mp loaded
  obtain ⟨docsRegion, docsMapped, afterDocs⟩ := bind_eq_ok.mp afterWords
  obtain ⟨_, passed, same⟩ := bind_eq_ok.mp afterDocs
  cases same
  cases wordsCase : Region.map words files with
  | error cause =>
    rw [wordsCase] at wordsMapped
    cases wordsMapped
  | ok first =>
    cases docsCase : Region.map docs files with
    | error cause =>
      rw [docsCase] at docsMapped
      cases docsMapped
    | ok second =>
      rw [wordsCase] at wordsMapped
      rw [docsCase] at docsMapped
      cases wordsMapped
      cases docsMapped
      exact ⟨_, _, rfl, rfl, rfl, passed⟩

/-- An index that was read from two files was accepted. -/
theorem accepted_of_load {files : FileSystem} {index : Index} (wordsMappable : files.Mappable words)
    (docsMappable : files.Mappable docs)
    (loaded : load words docs options files = .ok index) : ∃ terms, index.Accepted terms := by
  obtain ⟨wordsRegion, docsRegion, wordsMapped, docsMapped, rfl, passed⟩ := regions_of_load loaded
  exact (Index.check_eq_ok_iff words (size_lt_of_map wordsMappable wordsMapped)
    (size_lt_of_map docsMappable docsMapped)).mp passed

/-- The index of a reader that was opened was read from its files. -/
theorem load_of_open {after : World} {reader : IndexReader}
    (opened : (IndexReader.open words docs options).perform world = (.ok reader, after))
    {index : Index} (isIndex : reader.index = some index) :
    load words docs options world.files = .ok index := by
  have result := open_result words docs options world
  rw [opened] at result
  dsimp only at result
  rw [readIndex] at result
  split at result
  · cases result
    cases isIndex
  · cases loaded : load words docs options world.files with
    | error failure =>
      rw [loaded] at result
      cases result
    | ok read =>
      rw [loaded] at result
      cases result
      cases isIndex
      rfl

/-- So it was accepted. -/
theorem accepted_of_open {after : World} {reader : IndexReader}
    (wordsMappable : world.files.Mappable words) (docsMappable : world.files.Mappable docs)
    (opened : (IndexReader.open words docs options).perform world = (.ok reader, after))
    (index : Index) (isIndex : reader.index = some index) : ∃ terms, index.Accepted terms :=
  accepted_of_load wordsMappable docsMappable (load_of_open opened isIndex)

end Opening

variable {reader : IndexReader} {ε α : Type}

theorem warn_yields : (reader.warn : Action ε Unit).Yields fun _ => True := by
  intro world
  have result : ((reader.warn : Action ε Unit).perform world).1 = .ok () := by
    rw [Action.perform, warn, bind_apply]
    show ((ite _ _ _ : Action ε Unit) world).1 = _
    split <;> rfl
  exact ⟨(), _, Prod.ext result rfl, trivial⟩

/-- A query yields a good value when every index does and the empty answer is good. -/
theorem consult_yields {good : α → Prop} {emptyAnswer : α} {ask : Index → Except Fault α}
    (degraded : good emptyAnswer)
    (ready : ∀ index, reader.index = some index → ∃ value, ask index = .ok value ∧ good value) :
    (reader.consult emptyAnswer ask : Action ε α).Yields good := by
  rw [consult]
  split
  · rename_i index isIndex
    obtain ⟨value, asked, isGood⟩ := ready index isIndex
    exact .of_checked asked isGood
  · exact warn_yields.bind fun _ _ => .pure degraded

/-- A query about a term yields a good value when every sound store of postings gives one, no
postings give one and the empty answer is good. -/
theorem consult_postings_yields
    (accepted : ∀ index, reader.index = some index → ∃ terms, index.Accepted terms) (term : Term)
    {good : α → Prop} {emptyAnswer : α} {next : Index → Option Store → Except Fault α}
    (degraded : good emptyAnswer)
    (listed : ∀ index store, store.Sound → store.shape = Shape.postings →
      ∃ value, next index (some store) = .ok value ∧ good value)
    (unlisted : ∀ index, ∃ value, next index none = .ok value ∧ good value) :
    (reader.consult emptyAnswer fun index => index.postings term >>= next index :
      Action ε α).Yields good := by
  refine consult_yields degraded fun index isIndex => ?_
  obtain ⟨terms, holds⟩ := accepted index isIndex
  obtain ⟨answer, answered, sound⟩ := holds.postings_eq term
  rw [answered, ok_bind]
  cases answer with
  | some postings =>
    obtain ⟨isSound, shape⟩ := sound postings rfl
    exact listed index postings isSound shape
  | none => exact unlisted index

/-- A reader answers everything when its index, if it has one, was accepted. -/
theorem answers_of_accepted
    (accepted : ∀ index, reader.index = some index → ∃ terms, index.Accepted terms) :
    reader.Answers ε where
  documents term := consult_postings_yields accepted term (PostingsSource.counted_empty term)
    (fun _ _ sound _ => ⟨_, rfl, PostingsSource.counted_ofStore sound term⟩)
    fun _ => ⟨_, rfl, PostingsSource.counted_empty term⟩
  numDocuments term := consult_postings_yields accepted term trivial
    (fun _ _ _ _ => ⟨_, rfl, trivial⟩) fun _ => ⟨_, rfl, trivial⟩
  retainFilter term := consult_postings_yields accepted term Filter.answers_noPass
    (fun _ _ sound _ => ⟨_, rfl, Filter.answers_retain sound term⟩)
    fun _ => ⟨_, rfl, Filter.answers_noPass⟩
  rejectFilter term := consult_postings_yields accepted term Filter.answers_letThrough
    (fun _ _ sound _ => ⟨_, rfl, Filter.answers_reject sound term⟩)
    fun _ => ⟨_, rfl, Filter.answers_letThrough⟩
  metadata term docs ascending := by
    rw [metadata, strictlyAscending_iff.mpr ascending, if_neg (by decide)]
    refine consult_postings_yields accepted term trivial (fun index postings sound shape => ?_)
      fun _ => ⟨_, rfl, trivial⟩
    obtain ⟨found, looked, -⟩ := sound.columnWith_eq
      (.choose docs.length postings.entries index.options.mergeRatio) ascending
      (show 1 < postings.shape.width by rw [shape]; decide)
    exact ⟨_, looked, trivial⟩
  numTerms := by
    refine consult_yields trivial fun index isIndex => ?_
    obtain ⟨terms, holds⟩ := accepted index isIndex
    exact ⟨_, holds.numTerms_eq, trivial⟩
  termCounts := by
    refine consult_yields trivial fun index isIndex => ?_
    obtain ⟨terms, holds⟩ := accepted index isIndex
    obtain ⟨counts, counted, -⟩ := holds.termCounts_eq
    exact ⟨_, counted, trivial⟩
  trusted index isIndex := by
    obtain ⟨terms, holds⟩ := accepted index isIndex
    refine ⟨_, holds.directory_eq, fun entry below => ?_⟩
    obtain ⟨documents, stands⟩ := holds.postings entry below
    exact ⟨_, _, _, holds.directoryRecord_eq below, holds.postingsAt_eq stands⟩

end IndexReader

/-! ### Nothing that was opened fails -/

/-- Queries never fail once they have something to ask. Any store that opens, wherever it
lies in a region of less than 2^60 words and whatever its block index and keys hold, answers
every lookup and every batch of sorted keys with either backend and either strategy; and any
reader that opens on two files that can be mapped answers every query about every term. -/
theorem queries_never_fail :
    (∀ (words : Array UInt64) (offset : Nat) (shape : Shape) (backend : Backend) (store : Store),
      words.size < regionLimit → shape.Sized →
      Store.open words offset shape backend = .ok store → store.Answers) ∧
    (∀ (words docs : Path) (options : ReaderOptions) (before after : World)
      (reader : IndexReader) (ε : Type),
      before.files.Mappable words → before.files.Mappable docs →
      (IndexReader.open words docs options).perform before = (.ok reader, after) →
      reader.Answers ε) := by
  constructor
  · intro words offset shape backend store small sized opened
    obtain ⟨entries, stands, rfl⟩ := Store.standsAt_of_open small opened
    exact (Store.cut_sound sized small stands backend).answers
  · intro words docs options before after reader ε wordsMappable docsMappable opened
    exact IndexReader.answers_of_accepted
      (IndexReader.accepted_of_open wordsMappable docsMappable opened)

/-! ### Records in no order -/

/-- A directory of one term whose block index does not hold that term. -/
def strayDirectory : List UInt64 := [storeMagic, Shape.terms.tag, 1, 2, 6, 0, 5, 0]

/-- Postings in no order, with a block index that holds none of their documents. -/
def strayPostings : List UInt64 := [storeMagic, Shape.postings.tag, 3, 2, 6, 8, 30, 1, 10, 2, 20, 4]

/-- The file of this name below the root. -/
def rootFile (name : String) : Path :=
  { text := "/" ++ name, absolute := true, dotted := false, steps := [.into name], ending := .name }

/-- Two files that open as an index although no lookup in it can be right. -/
def strayWorld : World where
  files := {
    nodes := [(["words"], .file (wordsToBytes strayDirectory)),
      (["docs"], .file (wordsToBytes strayPostings))]
    workingDirectory := [] }
  stems := fun _ => ""
  drawn := 0
  log := []
  opened := 0
  warned := []

theorem strayWorld_words :
    strayWorld.files.read (rootFile "words") = .ok (.file (wordsToBytes strayDirectory)) := rfl

theorem strayWorld_docs :
    strayWorld.files.read (rootFile "docs") = .ok (.file (wordsToBytes strayPostings)) := rfl

theorem queries_never_fail_on_stray_records :
    (∃ store, Store.open strayPostings.toArray 0 Shape.postings .vector = .ok store ∧
      store.Answers) ∧
    (∃ reader after, (IndexReader.open (rootFile "words") (rootFile "docs")
        ⟨.scalar, 32⟩).perform strayWorld = (.ok reader, after) ∧
      reader.isReady = true ∧ reader.Answers StorageError) := by
  constructor
  · refine ⟨_, rfl, ?_⟩
    exact queries_never_fail.1 strayPostings.toArray 0 Shape.postings .vector _ (by decide)
      Shape.postings_sized rfl
  · have result : ((IndexReader.open (rootFile "words") (rootFile "docs")
        ⟨.scalar, 32⟩).perform strayWorld).1 =
        .ok { index := some ⟨strayDirectory.toArray, strayPostings.toArray, ⟨.scalar, 32⟩⟩
              wordsPath := rootFile "words", docsPath := rootFile "docs", serial := 0 } := by
      rw [IndexReader.open_result, IndexReader.readIndex, IndexReader.load,
        Region.map_eq strayWorld_words, Region.map_eq strayWorld_docs]
      rfl
    have wordsMappable : strayWorld.files.Mappable (rootFile "words") := by
      intro contents isFile
      cases strayWorld_words.symm.trans isFile
      simp +decide
    have docsMappable : strayWorld.files.Mappable (rootFile "docs") := by
      intro contents isFile
      cases strayWorld_docs.symm.trans isFile
      simp +decide
    refine ⟨_, _, Prod.ext result rfl, rfl, ?_⟩
    exact queries_never_fail.2 _ _ _ _ _ _ _ wordsMappable docsMappable (Prod.ext result rfl)

end InvertedIndex
