/-
This file proves what a preindex holds that is constructed from the entries of a shard. Its
terms are those that occur, each with the documents that list it, renumbered, and with all the
flags that it was given there; every pair of a term and a document counts once. Neither the
order in which postings are grouped by term nor the way they are sorted shows in it. An error
among the entries is returned before a file is created.
-/

import InvertedIndex.Proofs.OpenPreindexes
import Mathlib.Data.List.Dedup
import Mathlib.Data.List.Nodup

namespace InvertedIndex

/-! ### The pairs of a shard -/

/-- Each term of some entries with each document that lists it, as often as it does. -/
def listedPairs (entries : List Entry) (renumber : DocId → DocId) : List (Term × DocId) :=
  entries.flatMap fun entry => entry.terms.map fun listed => (listed.1, renumber entry.doc)

/-- The terms of some lists with their documents. -/
def pairsIn (lists : List (Term × List Posting)) : List (Term × DocId) :=
  lists.flatMap fun list => list.2.map fun posting => (list.1, posting.key)

@[simp] theorem length_pairsIn (lists : List (Term × List Posting)) :
    (pairsIn lists).length = countPostings lists := by
  induction lists with
  | nil => rfl
  | cons list rest inductionHypothesis =>
    rw [pairsIn, List.flatMap_cons, List.length_append, List.length_map, ← pairsIn,
      inductionHypothesis, countPostings]

section

variable {lists : List (Term × List Posting)}

/-- Lists in order have every pair once. -/
theorem nodup_pairsIn (terms : AscendingBy Prod.fst lists)
    (docs : ∀ list ∈ lists, AscendingBy Pair.key list.2) : (pairsIn lists).Nodup := by
  rw [pairsIn, List.nodup_flatMap]
  constructor
  · intro list member
    have distinct := (docs list member).nodup
    rw [List.Nodup, List.pairwise_map] at distinct ⊢
    exact distinct.imp fun differ same => differ (Prod.mk.inj same).2
  · refine (List.pairwise_map.mp terms).imp fun {first second} before pair inFirst inSecond => ?_
    obtain ⟨_, -, rfl⟩ := List.mem_map.mp inFirst
    obtain ⟨_, -, same⟩ := List.mem_map.mp inSecond
    exact UInt64.lt_irrefl _ ((Prod.mk.inj same).1 ▸ before)

/-- A document is paired with the terms that have flags in it. -/
theorem mem_pairsIn (terms : AscendingBy Prod.fst lists) {term : Term} {doc : DocId} :
    (term, doc) ∈ pairsIn lists ↔ flagsAt lists term doc ≠ none := by
  simp only [pairsIn, List.mem_flatMap, List.mem_map, Prod.mk.injEq]
  rw [flagsAt, Option.ne_none_iff_exists']
  constructor
  · rintro ⟨list, member, posting, isThere, rfl, rfl⟩
    rw [lookupBy_of_mem terms member, Option.bind_some, ← Option.ne_none_iff_exists', Ne,
      flagsIn_eq_none_iff]
    exact fun absent => absent posting isThere rfl
  · rintro ⟨flags, isFlags⟩
    obtain ⟨list, found, inList⟩ := Option.bind_eq_some_iff.mp isFlags
    obtain ⟨posting, isPosting, -⟩ := Option.map_eq_some_iff.mp inList
    obtain ⟨member, isTerm⟩ := keyOf_of_lookupBy found
    obtain ⟨isThere, isDoc⟩ := keyOf_of_lookupBy isPosting
    exact ⟨list, member, posting, isThere, isTerm, isDoc⟩

end

variable {entries : List Entry} {renumber : DocId → DocId} {term : Term} {doc : DocId}

theorem mem_listedPairs : (term, doc) ∈ listedPairs entries renumber ↔
    ∃ entry ∈ entries, renumber entry.doc = doc ∧ ∃ flags, (term, flags) ∈ entry.terms := by
  simp only [listedPairs, List.mem_flatMap, List.mem_map, Prod.mk.injEq]
  refine exists_congr fun entry => and_congr_right fun _ => ?_
  constructor
  · rintro ⟨⟨_, flags⟩, listed, rfl, isDoc⟩
    exact ⟨isDoc, flags, listed⟩
  · rintro ⟨isDoc, flags, listed⟩
    exact ⟨_, listed, rfl, isDoc⟩

/-- A pair occurs when the entries give its term flags in its document. -/
theorem mem_listedPairs_iff :
    (term, doc) ∈ listedPairs entries renumber ↔ flagsFrom entries renumber term doc ≠ [] := by
  rw [mem_listedPairs, Ne, List.eq_nil_iff_forall_not_mem]
  push Not
  simp only [mem_flagsFrom]
  constructor
  · rintro ⟨entry, member, isDoc, flags, listed⟩
    exact ⟨flags, entry, member, isDoc, listed⟩
  · rintro ⟨flags, entry, member, isDoc, listed⟩
    exact ⟨entry, member, isDoc, flags, listed⟩

theorem listingOf_postingsOf (entries : List Entry) (renumber : DocId → DocId) (term : Term)
    (doc : DocId) : listingOf (postingsOf entries renumber) term doc =
      if flagsFrom entries renumber term doc = [] then none
      else some ((flagsFrom entries renumber term doc).foldl (· ||| ·) 0) := by
  rw [listingOf, flagsOf_postingsOf, combineAll_eq]

theorem listingOf_ne_none_iff : listingOf (postingsOf entries renumber) term doc ≠ none ↔
    (term, doc) ∈ listedPairs entries renumber := by
  rw [listingOf_postingsOf, mem_listedPairs_iff]
  split
  · rename_i nothing
    exact ⟨fun absurdity => absurd rfl absurdity, fun listed => absurd nothing listed⟩
  · rename_i listed
    exact ⟨fun _ => listed, fun _ => nofun⟩

/-- The postings that are constructed are as many as there are different pairs. -/
theorem countPostings_listsOf (entries : List Entry) (renumber : DocId → DocId)
    (backend : Backend) : countPostings (Preindex.listsOf entries renumber backend) =
      (listedPairs entries renumber).dedup.length := by
  have denotes := listsOf_denotes entries renumber backend
  rw [← length_pairsIn]
  refine List.Perm.length_eq ((List.perm_ext_iff_of_nodup (nodup_pairsIn denotes.terms denotes.docs)
    (List.nodup_dedup _)).mpr fun ⟨term, doc⟩ => ?_)
  rw [mem_pairsIn denotes.terms, denotes.flags, listingOf_ne_none_iff, List.mem_dedup]

/-! ### Other ways of grouping and sorting -/

/-- Sorted postings are determined by which they are. -/
theorem eq_of_sorted {left right : List Posting} (same : left.Perm right)
    (leftSorted : left.Pairwise fun first second => first.le second)
    (rightSorted : right.Pairwise fun first second => first.le second) : left = right :=
  same.eq_of_pairwise (fun _ _ _ _ before after => Pair.le_antisymm before after) leftSorted
    rightSorted

/-- Groups by term in whatever order, sorted by their terms, and any way of sorting the postings
of a term lead to the lists that are constructed. -/
theorem listsOf_of_grouped (backend : Backend) {groups ordered : List (Term × List Posting)}
    {sort : List Posting → List Posting} (distinct : (groups.map (·.1)).Nodup)
    (grouped : ∀ term list, (term, list) ∈ groups ↔
      list ≠ [] ∧ list = postingsFor (postingsOf entries renumber) term)
    (same : ordered.Perm groups)
    (sorted : ordered.Pairwise fun first second => first.1 ≤ second.1)
    (sorts : ∀ postings, (sort postings).Perm postings ∧
      (sort postings).Pairwise fun first second => first.le second) :
    (ordered.map fun list => (list.1, (collapse (sort list.2).toArray).toList)) =
      Preindex.listsOf entries renumber backend := by
  have isGrouping : ordered = groupByTerm (postingsOf entries renumber) :=
    eq_groupByTerm ((same.map (·.1)).nodup_iff.mpr distinct) sorted
      fun term list => same.mem_iff.trans (grouped term list)
  rw [listsOf_eq, ← isGrouping]
  refine List.map_congr_left fun list _ => ?_
  obtain ⟨isPerm, isSorted⟩ := sorts list.2
  rw [toList_collapse, settle, eq_of_sorted (isPerm.trans (backend.sort_perm list.2).symm) isSorted
    (backend.pairwise_sort Pair.le_trans Pair.le_total list.2)]

namespace Preindex

/-! ### Constructing -/

/-- A preindex holds what some entries list, the documents renumbered. -/
structure Indexes (preindex : Preindex) (entries : List Entry) (renumber : DocId → DocId) :
    Prop where
  ascending : preindex.terms.toList.Pairwise (· < ·)
  terms : ∀ term, term ∈ preindex.terms ↔ ∃ entry ∈ entries, ∃ flags, (term, flags) ∈ entry.terms
  inhabited : ∀ term words, preindex.HasPostings term words → words ≠ #[]
  docs : preindex.DocsAscend
  lists : ∀ term doc flags, preindex.Says term doc flags ↔
    (term, doc) ∈ listedPairs entries renumber ∧
      flags = (flagsFrom entries renumber term doc).foldl (· ||| ·) 0
  counted : preindex.numPostings = (listedPairs entries renumber).dedup.length

theorem indexes_ofLists (owned : PreindexFiles) (entries : List Entry) (renumber : DocId → DocId)
    (backend : Backend) (small : 2 * (postingsOf entries renumber).length < wordLimit) :
    (ofLists owned (listsOf entries renumber backend)).Indexes entries renumber := by
  have denotes := listsOf_denotes entries renumber backend
  have bound := countPostings_listsOf_le entries renumber backend
  have listsSmall : 2 * countPostings (listsOf entries renumber backend) < wordLimit := by omega
  constructor
  case ascending => exact denotes.terms
  case terms =>
    intro term
    rw [mem_terms_ofLists, denotes.lookupBy_ne_none_iff]
    simp only [listingOf_ne_none_iff, mem_listedPairs]
    constructor
    · rintro ⟨doc, entry, member, -, flags, listed⟩
      exact ⟨entry, member, flags, listed⟩
    · rintro ⟨entry, member, flags, listed⟩
      exact ⟨_, entry, member, rfl, flags, listed⟩
  case inhabited =>
    rintro term words has rfl
    obtain ⟨list, member, -, empty⟩ := (hasPostings_ofLists listsSmall).mp has
    have length := length_toWords list.2
    rw [show Pair.toWords list.2 = [] from congrArg Array.toList empty.symm] at length
    have positive := List.length_pos_of_ne_nil (denotes.inhabited list member)
    rw [List.length_nil] at length
    omega
  case docs => exact (docsAscend_ofLists listsSmall).mpr denotes.docs
  case lists =>
    intro term doc flags
    rw [says_ofLists listsSmall denotes.terms denotes.docs, denotes.flags, listingOf_postingsOf,
      mem_listedPairs_iff]
    by_cases nothing : flagsFrom entries renumber term doc = []
    · rw [if_pos nothing]
      exact ⟨nofun, fun listed => absurd nothing listed.1⟩
    · rw [if_neg nothing, Option.some.injEq, eq_comm]
      exact (and_iff_right nothing).symm
  case counted => rw [numPostings_ofLists, countPostings_listsOf]

/-- Entries without an error make a preindex that holds what they list, or the system refuses
the files. -/
theorem construct_ends (entries : List Entry) (renumber : DocId → DocId) (backend : Backend)
    (directory : Path) (world : World)
    (small : 2 * (postingsOf entries renumber).length < wordLimit) :
    (construct (entries.map .ok) renumber directory backend).Ends world
      (Hindered (Room directory world)) fun preindex after =>
        load preindex.files after.files = .ok preindex ∧ preindex.Indexes entries renumber := by
  have bound := countPostings_listsOf_le entries renumber backend
  rw [construct, mapM_id_ok]
  refine (writeNew_makes (listsOf_denotes entries renumber backend).terms (by omega)).weaken ?_
  rintro preindex after ⟨isLists, loaded⟩
  refine ⟨loaded, ?_⟩
  rw [isLists]
  exact indexes_ofLists _ entries renumber backend small

/-- Constructing indexes a shard. From entries without an error, with no more postings than words
can be counted, it makes a preindex that lists exactly what they list, with one posting for each
pair of a term and a document and all flags of the pair in it, unless the system refuses the
files, which it does not do when it is willing and the next name is free; there is no other way
to end. The lists do not depend on the order in which a grouping hands out the terms, nor on how
terms and postings are sorted. The first error among the items is returned and leaves everything
as it was. -/
theorem construct_indexes_shard :
    (∀ (entries : List Entry) (renumber : DocId → DocId) (backend : Backend) (directory : Path)
      (world : World), 2 * (postingsOf entries renumber).length < wordLimit →
      (∃ preindex after,
        (construct (entries.map .ok) renumber directory backend).perform world =
          (.ok preindex, after) ∧
        load preindex.files after.files = .ok preindex ∧ preindex.Indexes entries renumber) ∨
      ¬ Room directory world ∧ ∃ reason after,
        (construct (entries.map .ok) renumber directory backend).perform world =
          (.error (.error (.files reason)), after)) ∧
    (∀ (entries : List Entry) (renumber : DocId → DocId) (backend : Backend)
      (groups ordered : List (Term × List Posting)) (sort : List Posting → List Posting),
      (groups.map (·.1)).Nodup →
      (∀ term list, (term, list) ∈ groups ↔
        list ≠ [] ∧ list = postingsFor (postingsOf entries renumber) term) →
      ordered.Perm groups → (ordered.Pairwise fun first second => first.1 ≤ second.1) →
      (∀ postings, (sort postings).Perm postings ∧
        (sort postings).Pairwise fun first second => first.le second) →
      (ordered.map fun list => (list.1, (collapse (sort list.2).toArray).toList)) =
        listsOf entries renumber backend) ∧
    (∀ (values : List Entry) (cause : StorageError) (rest : List (Except StorageError Entry))
      (renumber : DocId → DocId) (backend : Backend) (directory : Path) (world : World),
      (construct (values.map .ok ++ .error cause :: rest) renumber directory backend).perform
        world = (.error (.error cause), world)) := by
  refine ⟨fun entries renumber backend directory world small => ?_,
    fun entries renumber backend groups ordered sort distinct grouped same sorted sorts => ?_,
    fun values cause rest renumber backend directory world => ?_⟩
  · rcases (construct_ends entries renumber backend directory world small).cases with
      ⟨preindex, after, performed, loaded, indexes⟩ | ⟨_, after, performed, noRoom, reason, rfl⟩
    · exact .inl ⟨preindex, after, performed, loaded, indexes⟩
    · exact .inr ⟨noRoom, reason, after, performed⟩
  · exact listsOf_of_grouped backend distinct grouped same sorted sorts
  · rw [construct, mapM_id_error]
    rfl

end Preindex

/-! ### A shard of three entries -/

/-- A document that lists a term twice, another that becomes the same one, and a third. -/
def threeEntries : List Entry :=
  [⟨2, 0, [(5, 1), (9, 8), (5, 2)]⟩, ⟨3, 0, [(5, 4)]⟩, ⟨8, 0, [(5, 16)]⟩]

/-- The identifiers without their last bit. -/
def halved (doc : DocId) : DocId := doc >>> 1

/-- Nothing but the root. -/
def bareRoot : World where
  files := { nodes := [], workingDirectory := [] }
  stems := fun draw => toString draw
  drawn := 0
  log := []
  opened := 0
  warned := []

theorem bareRoot_room : Preindex.Room (Path.ofText "/") bareRoot := by
  have created : ∀ path ∈ (PreindexFiles.mk
      ((Path.ofText "/").fromRoot bareRoot.files.workingDirectory)
      ("preindex-" ++ bareRoot.stems bareRoot.drawn)).all,
      (bareRoot.files.createNew path []).isOk = true := by decide +kernel
  exact ⟨fun _ _ => rfl, fun path member => FileSystem.free_of_createNew (created path member)⟩

theorem construct_indexes_three_entries :
    (∃ preindex after, (Preindex.construct (threeEntries.map .ok) halved (Path.ofText "/")
        .vector).perform bareRoot = (.ok preindex, after) ∧
      preindex.numPostings = 3 ∧ preindex.Says 5 1 7 ∧ preindex.Says 5 4 16) ∧
    ((groupByTerm (postingsOf threeEntries halved)).map fun list =>
        (list.1, (collapse (list.2.mergeSort Pair.le).toArray).toList)) =
      Preindex.listsOf threeEntries halved .vector := by
  obtain ⟨constructs, groups, -⟩ := Preindex.construct_indexes_shard
  constructor
  · rcases constructs threeEntries halved .vector (Path.ofText "/") bareRoot (by decide) with
      ⟨preindex, after, performed, -, indexes⟩ | ⟨noRoom, -⟩
    · refine ⟨preindex, after, performed, indexes.counted, (indexes.lists 5 1 7).mpr ?_,
        (indexes.lists 5 4 16).mpr ?_⟩
      · decide
      · decide
    · exact absurd bareRoot_room noRoom
  · have ascending := (groupByTerm_spec (postingsOf threeEntries halved)).1
    -- The groups are handed out in the opposite order.
    have same := List.reverse_perm (groupByTerm (postingsOf threeEntries halved))
    exact groups threeEntries halved .vector _ _ (fun postings => postings.mergeSort Pair.le)
      ((same.map _).nodup_iff.mpr ascending.nodup)
      (fun term list => same.mem_iff.trans mem_groupByTerm) same.symm
      ((List.pairwise_map.mp ascending).imp UInt64.le_of_lt)
      fun postings => ⟨List.mergeSort_perm _ _,
        List.pairwise_mergeSort Pair.le_trans Pair.le_total postings⟩

end InvertedIndex
