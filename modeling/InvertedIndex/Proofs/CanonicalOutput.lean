/-
This file proves that the files of an index depend on nothing but what the shards say. Two
builds whose shards give every term the same documents with the same flags make the same two
files, byte for byte, and report the same sizes. How the entries are spread over shards, in
which order and how often they occur, which preindexes are merged with which, and the backend
leave no trace in the output.
-/

import InvertedIndex.Proofs.BuiltIndex

namespace InvertedIndex

namespace Build

/-! ### Shards that say the same -/

variable {build first second : Build}

/-- Two builds give every term the same documents, and the same disjunction of flags in each. -/
def Agrees (first second : Build) : Prop :=
  ∀ term doc, (first.Lists term doc ↔ second.Lists term doc) ∧
    (first.flagsGiven term doc).foldl (· ||| ·) 0 = (second.flagsGiven term doc).foldl (· ||| ·) 0

/-- Agreement is that the listings are the same. -/
theorem listing_eq_iff : first.listing = second.listing ↔ first.Agrees second := by
  constructor
  · intro same term doc
    rw [← listing_ne_none_iff, ← listing_ne_none_iff, ← listing_getD, ← listing_getD, same]
    exact ⟨Iff.rfl, rfl⟩
  · intro agrees
    funext term doc
    obtain ⟨listed, flags⟩ := agrees term doc
    rw [listing_eq, listing_eq, combineAll_eq, combineAll_eq, flags]
    exact if_congr (by rw [flagsGiven_eq_nil_iff, flagsGiven_eq_nil_iff, listed]) rfl rfl

/-- Builds that say the same agree, in whatever order and however often it is said. -/
theorem agrees_of_says
    (same : ∀ term doc flags, first.Says term doc flags ↔ second.Says term doc flags) :
    first.Agrees second := by
  rw [← listing_eq_iff]
  funext term doc
  rw [listing_eq, listing_eq]
  refine combineAll_congr fun flags => ?_
  rw [mem_flagsGiven, mem_flagsGiven, same]

/-! ### Outputs -/

/-- What a build has to show in the end. -/
structure Output where
  report : Report
  docs : List UInt8
  words : List UInt8

/-- The build ends with this report and with these files under its targets. -/
structure Makes (build : Build) (output : Output) : Prop where
  result : build.result = .ok (.built output.report)
  docs : build.finish.files.read build.builder.docsTarget = .ok (.file output.docs)
  words : build.finish.files.read build.builder.wordsTarget = .ok (.file output.words)

/-- The output of lists in normal form. -/
def outputOf (lists : List (Term × List Posting)) : Output where
  report := Preindex.reportOf lists
  docs := Region.toBytes (docsFile lists)
  words := Region.toBytes (wordsFile lists)

theorem Done.makes (done : build.Done) : build.Makes (outputOf build.lists) := by
  obtain ⟨docsPlace, wordsPlace, published⟩ := done.published
  exact {
    result := done.result
    docs := published.docs_read
    words := published.words_read }

theorem Makes.unique {output other : Output} (makes : build.Makes output)
    (also : build.Makes other) : output = other := by
  obtain ⟨report, docs, words⟩ := output
  have sameReport := makes.result.symm.trans also.result
  have sameDocs := makes.docs.symm.trans also.docs
  have sameWords := makes.words.symm.trans also.words
  cases sameReport
  cases sameDocs
  cases sameWords
  rfl

/-- A build can make nothing but the output of its lists. -/
theorem WellPosed.output_eq (wellPosed : build.WellPosed) {output : Output}
    (makes : build.Makes output) : output = outputOf build.lists := by
  rcases wellPosed.outcome with ⟨-, stopped⟩ | ⟨⟨_, _, _, refused, -⟩, -⟩ | done
  · exact absurd makes.result (stopped _)
  · rw [makes.result] at refused
    cases refused
  · exact makes.unique done.makes

/-- Builds that agree have the same lists. -/
theorem Agrees.lists_eq (agrees : first.Agrees second) : first.lists = second.lists := by
  have denotes := first.lists_denotes
  rw [listing_eq_iff.mpr agrees] at denotes
  exact denotes.unique second.lists_denotes

end Build

/-! ### One output for all builds that agree -/

/-- The output is canonical. Two builds of shards that agree on the documents of every term and
on the flags there make the same output, whatever their shards, their order of work, their
backends and the files around them; a build that is neither called off nor hindered makes one.
Builds whose entries say the same agree, so the order of entries, the way they are split into
shards and repetitions do not matter, and neither does the order in which the grouping of
postings by term hands out its groups. -/
theorem canonical_output :
    (∀ first second : Build, first.WellPosed → second.WellPosed → first.Agrees second →
      ∀ output other, first.Makes output → second.Makes other → output = other) ∧
    (∀ build : Build, build.WellPosed → ¬ build.MayStop → build.Unhindered →
      ∃ output, build.Makes output) ∧
    (∀ first second : Build,
      (∀ term doc flags, first.Says term doc flags ↔ second.Says term doc flags) →
        first.Agrees second) ∧
    (∀ (entries : List Entry) (renumber : DocId → DocId) (backend : Backend)
      (groups : List (Term × List Posting)), (groups.map (·.1)).Nodup →
      (∀ term list, (term, list) ∈ groups ↔
        list ≠ [] ∧ list = postingsFor (postingsOf entries renumber) term) →
      Preindex.listsOf entries renumber backend =
        (groups.mergeSort termLE).map (settle backend)) := by
  refine ⟨fun first second firstPosed secondPosed agrees output other makes alsoMakes => ?_,
    fun build wellPosed goesOn unhindered => ?_, fun first second => Build.agrees_of_says,
    fun entries renumber backend groups distinct grouped => ?_⟩
  · rw [firstPosed.output_eq makes, secondPosed.output_eq alsoMakes, agrees.lists_eq]
  · rcases wellPosed.outcome with ⟨mayStop, -⟩ | ⟨-, hindered⟩ | done
    · exact absurd mayStop goesOn
    · exact absurd unhindered hindered
    · exact ⟨_, done.makes⟩
  · rw [groupByTerm_eq_of_grouped distinct grouped, listsOf_eq]

/-! ### The same shards again -/

/-- The build of the two files with the second one twice, in another order and with the other
backend. -/
def repeatedBuild : Build := { twoShardBuild with
  builder := { twoShardBuild.builder with backend := .scalar }
  events := []
  shards := [rootFile "second", rootFile "first", rootFile "second"] }

namespace repeatedBuild

theorem wellPosed : repeatedBuild.WellPosed where
  nonempty := nofun
  reads := by
    rw [Build.prepared_eq_start (by decide)]
    refine Builder.reads_of_files rfl fun shard member => ?_
    rcases List.mem_cons.mp member with rfl | member
    · exact twoShardBuild.holds_second
    · rcases List.mem_pair.mp member with rfl | rfl
      · exact twoShardBuild.holds_first
      · exact twoShardBuild.holds_second
  separate := twoShardBuild.wellPosed.separate
  words_small := (Build.files_small (by decide)).1
  docs_small := (Build.files_small (by decide)).2

theorem unhindered : repeatedBuild.Unhindered where
  made := twoShardBuild.unhindered.made
  supplied := twoShardBuild.prepared_eq ▸ twoShardBuild.supplied
  docs := twoShardBuild.unhindered.docs
  words := twoShardBuild.unhindered.words

theorem mem_entries_iff (entry : Entry) :
    entry ∈ twoShardBuild.entries ↔ entry ∈ repeatedBuild.entries := by
  have once : twoShardBuild.entries = firstShard ++ secondShard := rfl
  have again : repeatedBuild.entries = secondShard ++ (firstShard ++ secondShard) := rfl
  rw [once, again, List.mem_append, List.mem_append, List.mem_append]
  exact (or_iff_right_of_imp Or.inr).symm

end repeatedBuild

/-- The two builds make one output. -/
theorem canonical_output_of_repeated_shards :
    ∃ output, twoShardBuild.Makes output ∧ repeatedBuild.Makes output := by
  obtain ⟨unique, exist, agree, -⟩ := canonical_output
  obtain ⟨output, makes⟩ := exist twoShardBuild twoShardBuild.wellPosed
    (by rintro (called | called | called) <;> revert called <;> decide) twoShardBuild.unhindered
  obtain ⟨other, alsoMakes⟩ := exist repeatedBuild repeatedBuild.wellPosed
    (by rintro (called | called | called) <;> revert called <;> decide) repeatedBuild.unhindered
  have agrees : twoShardBuild.Agrees repeatedBuild := agree _ _ fun term doc flags =>
    exists_congr fun entry => and_congr_left fun _ => repeatedBuild.mem_entries_iff entry
  have same := unique _ _ twoShardBuild.wellPosed repeatedBuild.wellPosed agrees _ _ makes alsoMakes
  exact ⟨output, makes, same ▸ alsoMakes⟩

end InvertedIndex
