/-
This file proves that the summary of an index agrees with the report of the build that made it.
The report counts what was in the last preindex and what was written, the summary walks the
directory of the finished files and opens the postings of every term. The summary lists the
terms with the most documents: a strict order decides which of them, so that none is left out
in favour of another one with as many documents by chance.
-/

import InvertedIndex.Proofs.FinishedLayout
import InvertedIndex.Proofs.QueryLines
import InvertedIndex.Stats

namespace InvertedIndex

open FileSystem

/-! ### The largest terms -/

namespace IndexStats

/-- The term has more documents, or as many and is the smaller one. -/
def Before (first second : Term × Nat) : Prop :=
  second.2 < first.2 ∨ first.2 = second.2 ∧ first.1 < second.1

theorem largerFirst_iff {first second : Term × Nat} :
    largerFirst first second ↔
      second.2 < first.2 ∨ first.2 = second.2 ∧ first.1.toNat ≤ second.1.toNat := by
  rw [largerFirst, Bool.or_eq_true, Bool.and_eq_true, decide_eq_true_iff, decide_eq_true_iff,
    beq_iff_eq, UInt64.le_iff_toNat_le]

theorem largerFirst_trans (first second third : Term × Nat) (before : largerFirst first second)
    (after : largerFirst second third) : largerFirst first third := by
  rw [largerFirst_iff] at before after ⊢
  omega

theorem largerFirst_total (first second : Term × Nat) :
    (largerFirst first second || largerFirst second first) = true := by
  rw [Bool.or_eq_true, largerFirst_iff, largerFirst_iff]
  omega

theorem before_of_largerFirst (first second : Term × Nat) (before : largerFirst first second)
    (different : first.1 ≠ second.1) : Before first second := by
  rw [largerFirst_iff] at before
  have notSame : first.1.toNat ≠ second.1.toNat := fun same => different (UInt64.toNat_inj.mp same)
  rw [Before, UInt64.lt_iff_toNat_lt]
  omega

/-- The first of the counts of some terms, in the strict order. -/
structure Largest (counts largest : List (Term × Nat)) (top : Nat) : Prop where
  length : largest.length = min top counts.length
  listed : ∀ entry ∈ largest, entry ∈ counts
  ordered : largest.Pairwise Before
  leftOut : ∀ entry ∈ counts, entry ∉ largest → ∀ first ∈ largest, Before first entry

/-- Sorting the counts of different terms and cutting the list off gives the largest. -/
theorem largest_take {counts : List (Term × Nat)} (distinct : (counts.map (·.1)).Nodup)
    (top : Nat) : Largest counts ((counts.mergeSort largerFirst).take top) top := by
  rw [List.Nodup, List.pairwise_map] at distinct
  have ordered : (counts.mergeSort largerFirst).Pairwise Before :=
    pairwise_mergeSort_of_apart largerFirst_trans largerFirst_total Ne.symm before_of_largerFirst
      distinct
  rw [← List.take_append_drop top (counts.mergeSort largerFirst), List.pairwise_append] at ordered
  obtain ⟨within, -, across⟩ := ordered
  refine ⟨by rw [List.length_take, List.length_mergeSort], fun entry member => ?_, within,
    fun entry member notListed first isListed => across first isListed entry ?_⟩
  · exact List.mem_mergeSort.mp (List.mem_of_mem_take member)
  · have sorted : entry ∈ counts.mergeSort largerFirst := List.mem_mergeSort.mpr member
    rw [← List.take_append_drop top (counts.mergeSort largerFirst)] at sorted
    exact (List.mem_append.mp sorted).resolve_left notListed

/-! ### The summary of a reader -/

variable {ε : Type} {lists : List (Term × List Posting)} {options : ReaderOptions}
  {reader : IndexReader}

/-- How many documents each term has. -/
def countsOf (lists : List (Term × List Posting)) : List (Term × Nat) :=
  lists.map fun list => (list.1, list.2.length)

theorem sum_countsOf (lists : List (Term × List Posting)) :
    ((countsOf lists).map (·.2)).sum = countPostings lists := by
  rw [countsOf, List.map_map, List.sum, List.foldr_map]
  exact Preindex.foldr_length lists

theorem ascending_countsOf (publishable : Publishable lists) :
    ((countsOf lists).map (·.1)).Pairwise (· < ·) := by
  rw [countsOf, List.map_map]
  exact publishable.terms

theorem termCounts_ofLists (publishable : Publishable lists)
    (ready : reader.index = some (Index.ofLists lists options)) :
    (reader.termCounts : Action ε (List (Term × Nat))).Yields (· = countsOf lists) :=
  IndexReader.consult_yields_of_ready ready (Index.termCounts_ofLists publishable) rfl

/-- A summary walks the directory, and comes to the numbers of the report on the index. -/
theorem collect_ofLists (publishable : Publishable lists)
    (ready : reader.index = some (Index.ofLists lists options)) (top : Nat) :
    (collect reader top : Action ε IndexStats).Yields fun stats => stats = {
      terms := (Preindex.reportOf lists).terms
      postings := (Preindex.reportOf lists).postings
      wordsBytes := (Preindex.reportOf lists).wordsBytes
      docsBytes := (Preindex.reportOf lists).docsBytes
      largest := ((countsOf lists).mergeSort largerFirst).take top } := by
  have terms : (reader.numTerms : Action ε Nat).Yields (· = lists.length) :=
    IndexReader.consult_yields_of_ready ready
      (Index.accepted_ofLists options publishable).numTerms_eq rfl
  have postings : (countsOf lists).foldl (fun total entry => total + entry.2) 0 =
      countPostings lists := by
    rw [← sum_countsOf, List.sum_eq_foldl, List.foldl_map]
  rw [collect]
  refine (termCounts_ofLists publishable ready).bind fun _ isCounts =>
    terms.bind fun _ isTerms => .pure ?_
  rw [isCounts, isTerms, postings, ready]
  rfl

/-- A summary agrees with the report on the index, and lists the largest terms. -/
structure Agrees (stats : IndexStats) (report : Report) (counts : List (Term × Nat)) (top : Nat) :
    Prop where
  terms : stats.terms = report.terms
  postings : stats.postings = report.postings
  wordsBytes : stats.wordsBytes = report.wordsBytes
  docsBytes : stats.docsBytes = report.docsBytes
  largest : Largest counts stats.largest top

end IndexStats

/-! ### Readers of finished builds -/

/-- The files that a build has left under different targets are those of lists, and the report is
on the index of these lists. -/
theorem Build.exists_lists {build : Build} {report : Report} {docsBytes wordsBytes : List UInt8}
    (built : build.result = .ok (.built report))
    (distinct : ∀ location, Names build.finish.files build.builder.docsTarget location →
      ¬ Names build.finish.files build.builder.wordsTarget location)
    (docsLeft : build.finish.files.read build.builder.docsTarget = .ok (.file docsBytes))
    (wordsLeft : build.finish.files.read build.builder.wordsTarget = .ok (.file wordsBytes))
    (docsShort : docsBytes.length < 8 * regionLimit)
    (wordsShort : wordsBytes.length < 8 * regionLimit) :
    ∃ lists, Publishable lists ∧ docsBytes = Region.toBytes (docsFile lists) ∧
      wordsBytes = Region.toBytes (wordsFile lists) ∧ report = Preindex.reportOf lists := by
  obtain ⟨owned, files, preindex, draft, directory, loaded, planned, written, isReport, docsPlace,
    wordsPlace, docsNames, wordsNames, holds⟩ := build.delivers built
  rcases holds _ _ (docsNames.lookup_of_read docsLeft) (wordsNames.lookup_of_read wordsLeft) with
    ⟨rfl, rfl⟩ | ⟨isOne, -⟩
  · rw [Region.length_toBytes] at docsShort wordsShort
    obtain ⟨lists, publishable, isPreindex, rfl, rfl⟩ := Preindex.exists_publishable loaded planned
      written (by omega) (by omega)
    refine ⟨lists, publishable, rfl, rfl, isReport.trans ?_⟩
    rw [isPreindex]
    simp [Preindex.reportOf, Preindex.draftOf, docsFile]
  · exact absurd (isOne ▸ wordsNames) (distinct docsPlace docsNames)

/-- The statistics of an index agree with the report of the build. Whatever was built under two
targets that are different places, as long as both files are there, a reader opens on files of
the same contents and counts the documents of each indexed term; the counts add up to the
postings of the report. Each summary has the four numbers of the report, and of the counts it
has the first ones in the strict order, as many as it was asked for or all of them. -/
theorem statistics_agree_with_report {build : Build} {report : Report} {words docs : Path}
    {docsBytes wordsBytes : List UInt8} {before : World} (ε : Type)
    (built : build.result = .ok (.built report))
    (distinct : ∀ location, Names build.finish.files build.builder.docsTarget location →
      ¬ Names build.finish.files build.builder.wordsTarget location)
    (docsLeft : build.finish.files.read build.builder.docsTarget = .ok (.file docsBytes))
    (wordsLeft : build.finish.files.read build.builder.wordsTarget = .ok (.file wordsBytes))
    (docsRead : before.files.read docs = .ok (.file docsBytes))
    (wordsRead : before.files.read words = .ok (.file wordsBytes))
    (docsMappable : before.files.Mappable docs) (wordsMappable : before.files.Mappable words)
    (options : ReaderOptions) :
    ∃ (reader : IndexReader) (opened : World) (counts : List (Term × Nat)),
      (IndexReader.open words docs options).perform before = (.ok reader, opened) ∧
      reader.isReady = true ∧
      (reader.termCounts : Action ε (List (Term × Nat))).Yields (· = counts) ∧
      (counts.map (·.1)).Pairwise (· < ·) ∧ counts.length = report.terms ∧
      (∀ term count, (term, count) ∈ counts →
        (reader.numDocuments term : Action ε Nat).Yields (· = count)) ∧
      (∀ term, term ∉ counts.map (·.1) →
        (reader.numDocuments term : Action ε Nat).Yields (· = 0)) ∧
      (counts.map (·.2)).sum = report.postings ∧
      ∀ top, (IndexStats.collect reader top : Action ε IndexStats).Yields fun stats =>
        stats.Agrees report counts top := by
  obtain ⟨lists, publishable, rfl, rfl, rfl⟩ := build.exists_lists built distinct docsLeft
    wordsLeft (docsMappable _ docsRead) (wordsMappable _ wordsRead)
  obtain ⟨reader, opened, performed, ready⟩ :=
    IndexReader.open_of_reads publishable wordsRead docsRead options
  have ascending := IndexStats.ascending_countsOf publishable
  have documents (term : Term) :
      (reader.numDocuments term : Action ε Nat).Yields (· = (listFor lists term).length) :=
    IndexReader.consult_yields_of_ready ready (Index.numDocuments_ofLists publishable term) rfl
  refine ⟨reader, opened, IndexStats.countsOf lists, performed,
    by rw [IndexReader.isReady, ready]; rfl,
    IndexStats.termCounts_ofLists publishable ready, ascending, List.length_map _,
    fun term count member => ?_, fun term absent => ?_, IndexStats.sum_countsOf lists,
    fun top => ?_⟩
  · obtain ⟨list, isList, same⟩ := List.mem_map.mp member
    cases same
    have isCount : listFor lists list.1 = list.2 := by
      rw [listFor, lookupBy_of_mem publishable.terms isList]
      rfl
    exact isCount ▸ documents list.1
  · have isCount : listFor lists term = [] := by
      rw [listFor, lookupBy_eq_none_iff.mpr fun list isList isTerm =>
        absent (List.mem_map.mpr ⟨_, List.mem_map_of_mem isList, isTerm⟩)]
      rfl
    have none := documents term
    rw [isCount] at none
    exact none
  · intro world
    obtain ⟨stats, after, collected, rfl⟩ :=
      IndexStats.collect_ofLists (ε := ε) publishable ready top world
    have distinctTerms : ((IndexStats.countsOf lists).map (·.1)).Nodup :=
      ascending.imp UInt64.ne_of_lt
    exact ⟨_, after, collected, rfl, rfl, rfl, rfl, IndexStats.largest_take distinctTerms top⟩

/-- Both terms of the two shards have one document. -/
theorem twoShardBuild.countsOf_eq :
    IndexStats.countsOf twoShardBuild.lists = [(5, 1), (9, 1)] := by
  refine eq_of_mem_iff (IndexStats.ascending_countsOf twoShardBuild.wellPosed.publishable)
    (show AscendingBy Prod.fst _ by unfold AscendingBy; decide) fun entry => ?_
  obtain ⟨term, count⟩ := entry
  have listed (docs : List DocId) : twoShardBuild.ListedIn term docs ∧ docs ≠ [] ↔
      docs = [3] ∧ (term = 5 ∨ term = 9) := by
    constructor
    · rintro ⟨⟨ascending, listed⟩, inhabited⟩
      obtain ⟨doc, member⟩ := List.exists_mem_of_ne_nil docs inhabited
      have isTerm := (twoShardBuild.lists_iff.mp ((listed doc).mp member)).2
      refine ⟨ascending.eq_of_mem_iff (List.pairwise_singleton _ _) fun doc => ?_, isTerm⟩
      rw [listed, twoShardBuild.lists_iff, and_iff_left isTerm, List.mem_singleton]
    · rintro ⟨rfl, isTerm⟩
      refine ⟨⟨List.pairwise_singleton _ _, fun doc => ?_⟩, List.cons_ne_nil _ _⟩
      rw [twoShardBuild.lists_iff, and_iff_left isTerm, List.mem_singleton]
  refine Build.mem_counts_iff.trans ⟨?_, fun member => ?_⟩
  · rintro ⟨docs, inhabited, isListed, rfl⟩
    obtain ⟨rfl, rfl | rfl⟩ := (listed docs).mp ⟨isListed, inhabited⟩ <;> simp
  · rcases List.mem_pair.mp member with same | same
    all_goals
      cases same
      obtain ⟨isListed, inhabited⟩ := (listed [3]).mpr ⟨rfl, by simp⟩
      exact ⟨[3], inhabited, isListed, rfl⟩

/-- Both terms have one document, and the smaller term is listed. -/
theorem statistics_agree_with_report_of_two_shards :
    ∃ reader opened, (IndexReader.open (rootFile "words") (rootFile "docs") ⟨.vector, 32⟩).perform
        twoShardBuild.finish = (.ok reader, opened) ∧
      (IndexStats.collect reader 1 : Action StorageError IndexStats).Yields fun stats =>
        stats.terms = 2 ∧ stats.postings = 2 ∧ stats.largest = [(5, 1)] := by
  have publishable := twoShardBuild.wellPosed.publishable
  obtain ⟨docsPlace, wordsPlace, published⟩ := twoShardBuild.done.published
  have docsRead := published.docs_read
  have wordsRead := published.words_read
  have distinct (location : Location)
      (docs : Names twoShardBuild.finish.files (rootFile "docs") location) :
      ¬ Names twoShardBuild.finish.files (rootFile "words") location := fun words => by
    have same := docs.last.trans words.last.symm
    revert same
    decide
  obtain ⟨reader, opened, counts, opens, -, yields, -, terms, -, -, postings, summaries⟩ :=
    statistics_agree_with_report StorageError twoShardBuild.done.result distinct docsRead wordsRead
      docsRead wordsRead
      (FileSystem.mappable_of_words (by rw [Array.length_toList]; exact publishable.docs_small)
        docsRead)
      (FileSystem.mappable_of_words (by rw [Array.length_toList]; exact publishable.words_small)
        wordsRead) ⟨.vector, 32⟩
  have isCounts : counts = [(5, 1), (9, 1)] := by
    obtain ⟨again, _, opensAgain, ready⟩ :=
      IndexReader.open_of_reads publishable wordsRead docsRead ⟨.vector, 32⟩
    cases opens.symm.trans opensAgain
    have isCounts := yields.unique (IndexStats.termCounts_ofLists publishable ready)
    exact (isCounts twoShardBuild.start).trans twoShardBuild.countsOf_eq
  subst isCounts
  refine ⟨reader, opened, opens, fun world => ?_⟩
  obtain ⟨stats, after, collected, agrees⟩ := summaries 1 world
  have isLargest : stats.largest = [(5, 1)] := by
    obtain ⟨entry, isEntry⟩ := List.length_eq_one_iff.mp agrees.largest.length
    have listed := agrees.largest.listed entry (by simp [isEntry])
    rcases List.mem_pair.mp listed with rfl | rfl
    · exact isEntry
    · have before := agrees.largest.leftOut (5, 1) (by simp) (by simp [isEntry]) (9, 1)
        (by simp [isEntry])
      exact absurd before (by unfold IndexStats.Before; decide)
  exact ⟨stats, after, collected, agrees.terms.trans terms.symm,
    agrees.postings.trans postings.symm, isLargest⟩

end InvertedIndex
