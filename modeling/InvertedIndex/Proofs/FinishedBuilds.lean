/-
This file proves that whatever a build has finished is an index in order. Nothing is assumed of
the shards, of the order of events or of the names that the system hands out. The last preindex
was checked when it was opened again, its draft was only made because the documents under each
term ascend, and the files under the targets hold all of its postings; so once these files can
be mapped they are the two files of lists by term in which terms and documents ascend. Where
both targets lead to one file, that is an index only when it has no terms.
-/

import InvertedIndex.Proofs.BuiltIndex
import InvertedIndex.Proofs.FailedFinalization
import InvertedIndex.Proofs.FilterAlgebra
import InvertedIndex.Proofs.OpenPreindexes

namespace InvertedIndex

open FileSystem

namespace Preindex

variable {preindex : Preindex} {draft : Draft}

/-! ### What a draft holds -/

/-- The postings of a term are the words between two offsets. -/
theorem size_postings {index : Nat} {words : Array UInt64}
    (asked : preindex.postings index = .ok words) :
    ∃ start, preindex.offsets[index]? = some start ∧
      preindex.offsets[index + 1]? = some (start + words.size) := by
  rw [postings] at asked
  split at asked
  · rename_i start isStart
    split at asked
    · rename_i stop isStop
      rw [slice] at asked
      split at asked
      · rename_i inside
        cases asked
        refine ⟨start, isStart, ?_⟩
        rw [isStop, Array.size_extract]
        exact congrArg some (by omega)
      · cases asked
    · cases asked
  · cases asked

/-- A term adds a record and a store. The record points to the end of the stores before, and the
store has the postings of the term behind its header. -/
theorem addTerm_eq_ok {index : Nat} {after : Draft}
    (added : preindex.addTerm draft index = .ok after) :
    ∃ (term : Term) (postings : Array UInt64) (header : Header) (blocks : Array UInt64),
      preindex.postings index = .ok postings ∧ header.tag = Shape.postings.tag ∧
      after.directory = draft.directory ++ #[term, UInt64.ofNat draft.offset] ∧
      after.docs = draft.docs ++ (header.toWords.toArray ++ blocks ++ postings) := by
  obtain ⟨term, -, rest⟩ := bind_eq_ok.mp added
  obtain ⟨words, asked, stored⟩ := bind_eq_ok.mp rest
  obtain ⟨written, isWritten, counted⟩ := bind_eq_ok.mp stored
  obtain ⟨offset, -, same⟩ := bind_eq_ok.mp counted
  cases same
  obtain ⟨header, blocks, tag, parts⟩ := Shape.exists_parts_of_write isWritten
  cases isPostings : preindex.postings index with
  | error reason =>
    rw [isPostings] at asked
    cases asked
  | ok postings =>
    rw [isPostings] at asked
    cases asked
    exact ⟨term, _, header, blocks, rfl, tag, rfl, congrArg (draft.docs ++ ·) parts⟩

/-- A term adds one record to the directory and at least its postings to the stores. -/
theorem size_addTerm {index : Nat} {after : Draft}
    (added : preindex.addTerm draft index = .ok after) :
    after.directory.size = draft.directory.size + 2 ∧
      ∃ start stop, preindex.offsets[index]? = some start ∧
        preindex.offsets[index + 1]? = some stop ∧
        stop + draft.docs.size ≤ start + after.docs.size := by
  obtain ⟨term, postings, header, blocks, isPostings, -, directory, docs⟩ := addTerm_eq_ok added
  obtain ⟨start, isStart, isStop⟩ := size_postings isPostings
  refine ⟨by rw [directory, Array.size_append]; rfl, start, _, isStart, isStop, ?_⟩
  rw [docs, Array.size_append, Array.size_append]
  omega

/-- By induction on the number of terms, a draft has a record for each of them and all
postings up to the offset of the next one. -/
theorem size_draft_upTo (first : preindex.offsets[0]? = some 0) {count : Nat}
    (added : (List.range count).foldlM preindex.addTerm Draft.empty = .ok draft) :
    draft.directory.size = 2 * count ∧
      ∀ stop, preindex.offsets[count]? = some stop → stop ≤ draft.docs.size := by
  induction count generalizing draft with
  | zero =>
    cases added
    refine ⟨rfl, fun stop isStop => ?_⟩
    rw [first] at isStop
    cases isStop
    exact Nat.zero_le _
  | succ count inductionHypothesis =>
    rw [List.range_succ, List.foldlM_append] at added
    obtain ⟨before, earlier, last⟩ := bind_eq_ok.mp added
    obtain ⟨after, isLast, same⟩ := bind_eq_ok.mp last
    cases same
    obtain ⟨records, covers⟩ := inductionHypothesis earlier
    obtain ⟨record, start, stop, isStart, isStop, grows⟩ := size_addTerm isLast
    refine ⟨by omega, fun other isOther => ?_⟩
    have reached := covers start isStart
    rw [isStop] at isOther
    cases isOther
    omega

/-- A draft holds at least as much as its preindex. -/
theorem size_draft {owned : PreindexFiles} {files : FileSystem}
    (loaded : load owned files = .ok preindex) (planned : preindex.draft = .ok draft) :
    draft.directory.size = 2 * preindex.terms.size ∧ preindex.docs.size ≤ draft.docs.size := by
  obtain ⟨counts, paired, -, isOffsets, covered⟩ := checks_of_load loaded
  have length := length_runningOffsets 0 counts
  have first : preindex.offsets[0]? = some 0 := by
    rw [isOffsets, List.getElem?_toArray]
    cases counts <;> rfl
  have last : preindex.offsets[preindex.numTerms]? = some preindex.docs.size := by
    have nonempty : runningOffsets 0 counts ≠ [] := List.ne_nil_of_length_eq_add_one length
    rw [isOffsets, List.getElem?_toArray, numTerms, ← paired, ← covered, List.getLastD_eq_getLast?,
      List.getLast?_eq_getElem?, length, Nat.add_sub_cancel, List.getElem?_eq_getElem (by omega)]
    rfl
  obtain ⟨records, covers⟩ := size_draft_upTo first planned
  exact ⟨records, covers _ last⟩

/-- When the files that were made of a preindex can be mapped, they are the two files of its
lists, which are in order. -/
theorem exists_publishable {owned : PreindexFiles} {files : FileSystem}
    {directory : WrittenStore} (loaded : load owned files = .ok preindex)
    (planned : preindex.draft = .ok draft)
    (written : Shape.terms.write draft.directory = .ok directory)
    (docsSmall : draft.docs.size < regionLimit)
    (wordsSmall : directory.words.size < regionLimit) :
    ∃ lists, Publishable lists ∧ preindex = ofLists preindex.files lists ∧
      draft = draftOf lists ∧ directory = ⟨wordsFile lists, (wordsFile lists).size⟩ := by
  obtain ⟨records, covers⟩ := size_draft loaded planned
  obtain ⟨header, index, -, isFront⟩ := Shape.exists_parts_of_write written
  have termsSmall : preindex.terms.size < regionLimit := by
    rw [isFront, Array.size_append] at wordsSmall
    omega
  obtain ⟨lists, isPreindex, terms, bounded⟩ :=
    exists_bounded_of_load loaded termsSmall (Nat.lt_of_le_of_lt covers docsSmall)
  have isDraft := planned
  rw [isPreindex] at isDraft
  have docs : ∀ list ∈ lists, AscendingBy Pair.key list.2 := by
    by_contra descends
    obtain ⟨key, entry, refused⟩ := draft_of_descent preindex.files bounded descends
    rw [refused] at isDraft
    cases isDraft
  have finishable : Finishable lists := { bounded with terms, docs }
  rw [draft_eq finishable] at isDraft
  cases isDraft
  rw [write_directory finishable] at written
  cases written
  exact ⟨lists, ⟨terms, docs, wordsSmall, docsSmall⟩, isPreindex, rfl, rfl⟩

/-- The report on an index that was finished. -/
theorem report_of_finalize {docsTarget wordsTarget : Path} {world after : World} {report : Report}
    {directory : WrittenStore}
    (finished : (preindex.finalize docsTarget wordsTarget).perform world = (.ok report, after))
    (planned : preindex.draft = .ok draft)
    (written : Shape.terms.write draft.directory = .ok directory) :
    report = {
      terms := preindex.numTerms
      postings := preindex.numPostings
      wordsBytes := directory.size * 8
      docsBytes := draft.offset * 8 } := by
  rw [finalize, planned] at finished
  obtain ⟨docsSibling, first, -, rest⟩ := bind_apply_eq_ok finished
  have drafted := Action.cleaningUp_apply_eq_ok rest
  obtain ⟨_, _, isDraft, rest⟩ := bind_apply_eq_ok drafted
  cases isDraft
  rw [written] at rest
  obtain ⟨wordsSibling, second, -, rest⟩ := bind_apply_eq_ok rest
  have installed := Action.cleaningUp_apply_eq_ok rest
  obtain ⟨_, _, isDirectory, rest⟩ := bind_apply_eq_ok installed
  cases isDirectory
  obtain ⟨_, _, -, rest⟩ := bind_apply_eq_ok rest
  obtain ⟨_, _, -, rest⟩ := bind_apply_eq_ok rest
  cases rest
  rfl

/-! ### One file for both -/

/-- The postings of a draft begin with a store, and its first record points there. -/
structure Begun (draft : Draft) : Prop where
  tag : draft.docs[1]? = some Shape.postings.tag
  first : draft.directory[1]? = some 0

theorem begun_addTerm {index : Nat} {after : Draft} (before : draft = .empty ∨ Begun draft)
    (added : preindex.addTerm draft index = .ok after) : Begun after := by
  obtain ⟨term, postings, header, blocks, -, tag, directory, docs⟩ := addTerm_eq_ok added
  rcases before with rfl | begun
  · have long : 1 < header.toWords.toArray.size := Nat.one_lt_succ_succ 3
    refine ⟨?_, by rw [directory]; rfl⟩
    rw [docs, Draft.empty, Array.empty_append, Array.append_assoc,
      Array.getElem?_append_left long, ← tag]
    rfl
  · obtain ⟨docsInside, -⟩ := Array.getElem?_eq_some_iff.mp begun.tag
    obtain ⟨recordInside, -⟩ := Array.getElem?_eq_some_iff.mp begun.first
    constructor
    · rw [docs, Array.getElem?_append_left docsInside, begun.tag]
    · rw [directory, Array.getElem?_append_left recordInside, begun.first]

/-- A draft has no terms, or it begins with the first of them. -/
theorem empty_or_begun (planned : preindex.draft = .ok draft) : draft = .empty ∨ Begun draft := by
  have begins (indices : List Nat) (start : Draft) (before : start = .empty ∨ Begun start)
      (added : indices.foldlM preindex.addTerm start = .ok draft) :
      draft = .empty ∨ Begun draft := by
    induction indices generalizing start with
    | nil =>
      cases added
      exact before
    | cons index rest inductionHypothesis =>
      rw [List.foldlM_cons] at added
      obtain ⟨next, isNext, others⟩ := bind_eq_ok.mp added
      exact inductionHypothesis next (.inr (begun_addTerm before isNext)) others
  exact begins _ _ (.inl rfl) planned

/-- A file that is both the postings and the directory of a draft is an index without terms: its
first record would point to its own header, which is not that of postings. -/
theorem no_terms_of_one_file {directory : WrittenStore} (planned : preindex.draft = .ok draft)
    (written : Shape.terms.write draft.directory = .ok directory) {index : Index} {terms : Nat}
    (accepted : index.Accepted terms) (isOne : index.words = index.docs)
    (isFile : index.words = draft.docs ∨ index.words = directory.words) : terms = 0 := by
  have tag : index.words[1]? = some Shape.terms.tag := accepted.directory.spelled 1 (by decide)
  rcases isFile with isDocs | isWords
  · rw [isDocs] at tag
    rcases empty_or_begun planned with rfl | begun
    · cases tag
    · exact absurd (begun.tag.symm.trans tag) (by decide)
  obtain ⟨accepts, isStore⟩ := Shape.storeOf_of_write Shape.terms_sized written
    (isWords ▸ accepted.words_small)
  have parts : index.words = #[] ++ Shape.terms.storeOf draft.directory ++ #[] := by
    rw [isWords, isStore, Array.empty_append, Array.append_empty]
  have stands : Shape.terms.StandsAt index.words 0 _ :=
    parts ▸ Shape.storeOf_standsAt accepts.whole #[] #[]
  have counted : terms = draft.directory.size / Shape.terms.width := by
    have read := Header.read_of_standsAt Shape.terms_sized accepted.words_small accepted.directory
    rw [Header.read_of_standsAt Shape.terms_sized accepted.words_small stands] at read
    exact (congrArg Header.entries (Except.ok.inj read)).symm
  rcases empty_or_begun planned with rfl | begun
  · exact counted
  by_contra terms_ne_zero
  obtain ⟨documents, points⟩ := accepted.postings 0 (Nat.pos_of_ne_zero terms_ne_zero)
  have offset : index.postingsOffset terms 0 = 0 := by
    have records : (index.termStore terms).data = draft.directory := by
      rw [Index.termStore, parts, counted]
      exact congrArg Store.data (Shape.cut_storeOf accepts.whole #[] #[] index.options.backend)
    rw [Index.postingsOffset, Store.word, records, Nat.zero_mul, Nat.zero_add, begun.first]
    rfl
  have other : index.docs[index.postingsOffset terms 0 + 1]? = some Shape.postings.tag :=
    points.spelled 1 (by decide)
  rw [offset, ← isOne, Nat.zero_add, tag] at other
  exact absurd other (by decide)

end Preindex

/-! ### The last preindex of a build -/

/-- An outcome that is kept as a value is what the operation ended with. -/
theorem Action.perform_of_outcome {ε δ α : Type} {action : Action ε α}
    {result : Except (Failure ε) α} {world after : World}
    (kept : (action.outcome : Action δ _).perform world = (.ok result, after)) :
    action.perform world = (result, after) := by
  rw [perform, outcome] at kept
  rw [perform]
  cases kept
  rfl

/-- Deleting a preindex changes the files as letting go of it does, whatever it reports. -/
theorem PreindexFiles.delete_world (owned : PreindexFiles) (world : World) :
    (owned.delete.perform world).2 = owned.discard world := by
  unfold Action.perform delete
  extract_lets attempt
  have attempts (state : Option FileError × World) (paths : List Path) :
      (paths.foldl attempt state).2 = state.2.removeAll paths := by
    induction paths generalizing state with
    | nil => rfl
    | cons path rest inductionHypothesis =>
      rw [List.foldl_cons, inductionHypothesis, World.removeAll_cons]
      congr 1
      dsimp only [attempt]
      rw [World.removeIfPossible]
      rcases state.2.files.remove path with reason | files
      · cases reason <;> rfl
      · rfl
  have performed := attempts (none, world) owned.all
  split <;> rename_i isEnd <;> rw [isEnd] at performed <;> exact performed

/-- What the targets hold they still hold when other files have been removed. -/
theorem Preindex.Delivers.removeAll {docsTarget wordsTarget : Path} {docs words : Array UInt64}
    {world : World} (delivers : Delivers docsTarget wordsTarget docs words world.files)
    (paths : List Path) :
    Delivers docsTarget wordsTarget docs words (world.removeAll paths).files := by
  obtain ⟨docsPlace, wordsPlace, docsNames, wordsNames, holds⟩ := delivers
  have same := world.removeAll_sameDirectories paths
  have before {place : Location} {contents : List UInt8}
      (isFile : (world.removeAll paths).files.lookup place = some (.file contents)) :
      world.files.lookup place = some (.file contents) := by
    rcases World.lookup_removeAll_or paths world place with kept | ⟨gone, -⟩
    · rwa [kept] at isFile
    · rw [gone] at isFile
      cases isFile
  exact ⟨docsPlace, wordsPlace, docsNames.of_sameDirectories same,
    wordsNames.of_sameDirectories same, fun docsBytes wordsBytes docsFile wordsFile =>
      holds docsBytes wordsBytes (before docsFile) (before wordsFile)⟩

namespace Builder

variable {builder : Builder} {merged : ParkedPreindex} {world after : World} {report : Report}

/-- A preindex was finished when this is reported, and afterwards it was removed. -/
theorem finalizeMerged_eq_ok
    (done : (builder.finalizeMerged merged).perform world = (.ok report, after)) :
    ∃ (preindex : Preindex) (between : World),
      Preindex.load merged.files world.files = .ok preindex ∧
      (preindex.finalize builder.docsTarget builder.wordsTarget).perform world =
        (.ok report, between) ∧
      after = between.removeAll preindex.files.all := by
  obtain ⟨preindex, opened, reopened, rest⟩ := bind_apply_eq_ok done
  have loaded : Preindex.load merged.files world.files = .ok preindex ∧ opened = world := by
    have performed := Action.perform_mapError_eq_ok reopened
    rw [Action.perform, ParkedPreindex.reopen, Preindex.openFiles, Action.cleaningUp,
      Action.inspect] at performed
    cases isLoaded : Preindex.load merged.files world.files with
    | error cause =>
      rw [isLoaded] at performed
      cases performed
    | ok found =>
      rw [isLoaded] at performed
      cases performed
      exact ⟨rfl, rfl⟩
  obtain ⟨isLoaded, rfl⟩ := loaded
  obtain ⟨finalized, between, isFinalized, rest⟩ := bind_apply_eq_ok rest
  obtain ⟨removed, last, isRemoved, rest⟩ := bind_apply_eq_ok rest
  obtain ⟨reported, later, isReported, rest⟩ := bind_apply_eq_ok rest
  obtain ⟨_, ended, isDeleted, rest⟩ := bind_apply_eq_ok rest
  cases rest
  -- What was kept as a value has to be a success, or the report would be missing.
  replace isFinalized := Action.perform_of_outcome isFinalized
  replace isRemoved := Action.perform_of_outcome isRemoved
  cases Action.perform_mapError_eq_ok isReported
  cases Action.perform_mapError_eq_ok isDeleted
  have deleted := preindex.files.delete_world between
  rw [show preindex.files.delete.perform between = _ from isRemoved] at deleted
  exact ⟨preindex, between, isLoaded, isFinalized, deleted⟩

/-- So was the preindex that a build concludes with when it reports an index. -/
theorem conclude_eq_ok {listener : BuildStep → Bool} {run : BuildRun}
    (built : (builder.conclude listener merged run).1 = .ok (.built report)) :
    ∃ (preindex : Preindex) (world between : World),
      Preindex.load merged.files world.files = .ok preindex ∧
      (preindex.finalize builder.docsTarget builder.wordsTarget).perform world =
        (.ok report, between) ∧
      (builder.conclude listener merged run).2.world.files =
        (between.removeAll preindex.files.all).files := by
  by_cases aborted : run.aborted = true
  · exact absurd built (conclude_of_aborted aborted report)
  obtain ⟨log, concludes⟩ := builder.conclude_eq listener merged run
    (Bool.eq_false_iff.mpr aborted)
  rcases performed : (builder.finalizeMerged merged).perform { run.world with log } with
    ⟨failure | other, after⟩
  · obtain ⟨last, concluded, -⟩ := concludes _ _ performed
    rw [concluded] at built
    cases built
  · obtain ⟨last, concluded, files⟩ := concludes _ _ performed
    obtain ⟨preindex, between, loaded, finalized, rfl⟩ := finalizeMerged_eq_ok performed
    rw [concluded] at built ⊢
    cases built
    exact ⟨preindex, _, between, loaded, finalized, files⟩

end Builder

namespace Build

variable {build : Build} {report : Report}

/-- A build that reports an index has finished some preindex, and the last thing that it did to
the files was to remove those of the preindex. -/
theorem finalizes (built : build.result = .ok (.built report)) :
    ∃ (owned : PreindexFiles) (preindex : Preindex) (world between : World),
      Preindex.load owned world.files = .ok preindex ∧
      (preindex.finalize build.builder.docsTarget build.builder.wordsTarget).perform world =
        (.ok report, between) ∧
      build.finish.files = (between.removeAll preindex.files.all).files := by
  rw [result, Builder.run] at built
  rw [finish, Builder.run]
  cases isEmpty : build.shards.isEmpty with
  | true =>
    rw [Builder.buildFrom, if_pos isEmpty] at built
    cases built
  | false =>
    rcases prepared : build.builder.prepare build.listener build.shards
      ⟨build.start, build.aborted, []⟩ with ⟨failure | ⟨⟩, next⟩
    · rw [Builder.buildFrom, if_neg (by simp [isEmpty]), bind_apply, prepared] at built
      cases built
    · rw [Builder.buildFrom_eq _ isEmpty prepared] at built ⊢
      split at built
      · obtain ⟨preindex, world, between, finalized⟩ := Builder.conclude_eq_ok built
        exact ⟨_, preindex, world, between, finalized⟩
      · cases built
      · cases built

/-- So the targets hold the draft of the preindex, and the report is on it. -/
theorem delivers (built : build.result = .ok (.built report)) :
    ∃ (owned : PreindexFiles) (files : FileSystem) (preindex : Preindex) (draft : Preindex.Draft)
        (directory : WrittenStore),
      Preindex.load owned files = .ok preindex ∧ preindex.draft = .ok draft ∧
      Shape.terms.write draft.directory = .ok directory ∧
      report = {
        terms := preindex.numTerms
        postings := preindex.numPostings
        wordsBytes := directory.size * 8
        docsBytes := draft.offset * 8 } ∧
      Preindex.Delivers build.builder.docsTarget build.builder.wordsTarget draft.docs
        directory.words build.finish.files := by
  obtain ⟨owned, preindex, world, between, loaded, finalized, finished⟩ := build.finalizes built
  obtain ⟨draft, directory, planned, written, delivers⟩ :=
    ((preindex.finalize_settles _ _ world).of_perform_ok finalized).delivers
  exact ⟨owned, world.files, preindex, draft, directory, loaded, planned, written,
    Preindex.report_of_finalize finalized planned written, finished ▸ delivers.removeAll _⟩

/-- The index that a reader opens on what a build has left is in order. -/
theorem inOrder_of_open {words docs : Path} {options : ReaderOptions} {before opened : World}
    {reader : IndexReader} {index : Index} (built : build.result = .ok (.built report))
    (isWords : before.files.read words = build.finish.files.read build.builder.wordsTarget)
    (isDocs : before.files.read docs = build.finish.files.read build.builder.docsTarget)
    (wordsMappable : before.files.Mappable words) (docsMappable : before.files.Mappable docs)
    (opens : (IndexReader.open words docs options).perform before = (.ok reader, opened))
    (isIndex : reader.index = some index) :
    index.InOrder := by
  obtain ⟨terms, accepted⟩ :=
    IndexReader.accepted_of_open wordsMappable docsMappable opens index isIndex
  obtain ⟨wordsRegion, docsRegion, wordsMapped, docsMapped, rfl, -⟩ :=
    IndexReader.regions_of_load (IndexReader.load_of_open opens isIndex)
  obtain ⟨owned, files, preindex, draft, directory, loaded, planned, written, -, docsPlace,
    wordsPlace, docsNames, wordsNames, holds⟩ := build.delivers built
  have docsThere := docsNames.lookup_of_read (isDocs ▸ Region.read_of_map docsMapped)
  have wordsThere := wordsNames.lookup_of_read (isWords ▸ Region.read_of_map wordsMapped)
  rcases holds _ _ docsThere wordsThere with ⟨docsHeld, wordsHeld⟩ | ⟨rfl, held⟩
  · have isDocs : docsRegion.words = draft.docs := Region.eq_of_toBytes docsHeld
    have isWords : wordsRegion.words = directory.words := Region.eq_of_toBytes wordsHeld
    obtain ⟨lists, publishable, -, rfl, rfl⟩ := Preindex.exists_publishable loaded planned
      written (isDocs ▸ accepted.docs_small) (isWords ▸ accepted.words_small)
    rw [isDocs, isWords]
    exact Index.inOrder_ofLists publishable options
  · have isOne : wordsRegion.words = docsRegion.words := by
      have same := wordsThere.symm.trans docsThere
      rw [Option.some.injEq, Node.file.injEq] at same
      exact Region.eq_of_toBytes same
    obtain rfl := Preindex.no_terms_of_one_file planned written accepted isOne <|
      held.imp (fun isDocs => isOne.trans (Region.eq_of_toBytes isDocs))
        fun isWords => isOne.trans (Region.eq_of_toBytes isWords)
    exact accepted.inOrder

end Build

end InvertedIndex
