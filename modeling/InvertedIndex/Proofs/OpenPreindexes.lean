/-
This file proves what any open preindex is made of. Opening checks that the terms ascend and
that the counts cover the postings, and says nothing of the postings themselves; so an open
preindex is one that lists by term in the order of their terms make, where a list may be empty
and its documents may come in any order. What a preindex says of a term and a document is read
off these lists.
-/

import InvertedIndex.Proofs.Answers
import InvertedIndex.Proofs.Layout
import InvertedIndex.Proofs.LoadedPreindexes
import Mathlib.Algebra.GroupWithZero.Nat

namespace InvertedIndex

/-! ### Cutting postings into lists -/

/-- Words of a whole number of pairs are the words of some pairs. -/
theorem exists_toWords {words : List UInt64} {count : Nat} (even : words.length = 2 * count) :
    ∃ pairs, words = Pair.toWords pairs ∧ pairs.length = count := by
  induction count generalizing words with
  | zero => exact ⟨[], List.length_eq_zero_iff.mp even, rfl⟩
  | succ count inductionHypothesis =>
    match words, even with
    | key :: payload :: rest, even =>
      have evenRest : rest.length = 2 * count := by
        simp only [List.length_cons] at even
        omega
      obtain ⟨pairs, rfl, sized⟩ := inductionHypothesis evenRest
      exact ⟨⟨key, payload⟩ :: pairs, rfl, congrArg (· + 1) sized⟩

namespace Preindex

theorem getLastD_runningOffsets_cons (start : Nat) (count : UInt64) (counts : List UInt64) :
    (runningOffsets start (count :: counts)).getLastD 0 =
      (runningOffsets (saturatingAdd start (saturatingMul count.toNat 2)) counts).getLastD 0 := by
  rw [runningOffsets, List.getLastD_cons]
  cases counts <;> rfl

/-- The last offset is twice the sum of the counts, or the largest size where that is less. -/
theorem getLastD_runningOffsets {start : Nat} (small : start < wordLimit) (counts : List UInt64) :
    (runningOffsets start counts).getLastD 0 =
      min (start + 2 * (counts.map UInt64.toNat).sum) (wordLimit - 1) := by
  induction counts generalizing start with
  | nil =>
    show start = min (start + 0) (wordLimit - 1)
    omega
  | cons count rest inductionHypothesis =>
    have next : saturatingAdd start (saturatingMul count.toNat 2) =
        min (start + 2 * count.toNat) (wordLimit - 1) := by
      rw [saturatingAdd, saturatingMul]
      omega
    rw [getLastD_runningOffsets_cons, next, inductionHypothesis (by omega), List.map_cons,
      List.sum_cons]
    omega

/-- The last offset is not before the first one. -/
theorem le_getLastD_runningOffsets {start : Nat} (small : start < wordLimit)
    (counts : List UInt64) : start ≤ (runningOffsets start counts).getLastD 0 := by
  rw [getLastD_runningOffsets small]
  omega

/-- Postings that are covered by the counts of some terms are cut into one list for each. -/
theorem exists_lists {terms counts words : List UInt64} {start : Nat}
    (paired : counts.length = terms.length)
    (covered : (runningOffsets start counts).getLastD 0 = start + words.length)
    (small : start + words.length < wordLimit - 1) :
    ∃ lists : List (Term × List Posting), lists.map (·.1) = terms ∧
      (lists.map fun list => UInt64.ofNat list.2.length) = counts ∧ wordsOf lists = words := by
  induction counts generalizing terms words start with
  | nil =>
    have none : words.length = 0 := by
      have last : start = start + words.length := covered
      omega
    exact ⟨[], (List.length_eq_zero_iff.mp paired.symm).symm, rfl,
      (List.length_eq_zero_iff.mp none).symm⟩
  | cons count counts inductionHypothesis =>
    match terms, paired with
    | term :: terms, paired =>
      rw [getLastD_runningOffsets_cons] at covered
      -- The end of all postings is below the largest size, so no sum was cut off.
      have cut : saturatingAdd start (saturatingMul count.toNat 2) < wordLimit := by
        rw [saturatingAdd]
        omega
      have before := le_getLastD_runningOffsets cut counts
      have next : saturatingAdd start (saturatingMul count.toNat 2) = start + 2 * count.toNat := by
        rw [covered] at before
        rw [saturatingAdd, saturatingMul] at before ⊢
        omega
      rw [next] at covered before
      have front : (words.take (2 * count.toNat)).length = 2 * count.toNat := by
        rw [List.length_take]
        omega
      have rest : start + 2 * count.toNat + (words.drop (2 * count.toNat)).length =
          start + words.length := by
        rw [List.length_drop]
        omega
      obtain ⟨pairs, isPairs, sized⟩ := exists_toWords front
      obtain ⟨lists, isTerms, isCounts, isWords⟩ := inductionHypothesis (Nat.succ.inj paired)
        (covered.trans rest.symm) (rest ▸ small)
      refine ⟨(term, pairs) :: lists, ?_, ?_, ?_⟩
      · rw [List.map_cons, isTerms]
      · rw [List.map_cons, isCounts, sized, UInt64.ofNat_toNat]
      · rw [wordsOf, List.flatMap_cons, ← wordsOf, isWords, ← isPairs, List.take_append_drop]

/-! ### What an open preindex says -/

/-- The preindex was opened from three files, which are short enough to be mapped. -/
def Opened (preindex : Preindex) : Prop :=
  ∃ owned files, (∀ path ∈ owned.all, files.Mappable path) ∧ load owned files = .ok preindex

variable {preindex : Preindex}

/-- A preindex is opened from files that hold its lists. -/
theorem opened_of_reads {owned : PreindexFiles} {lists : List (Term × List Posting)}
    (files : FileSystem)
    (words : files.read owned.words = .ok (.file (wordsToBytes (lists.map (·.1)))))
    (counts : files.read owned.counts = .ok (.file (wordsToBytes
      (lists.map fun list => UInt64.ofNat list.2.length))))
    (docs : files.read owned.docs = .ok (.file (wordsToBytes (wordsOf lists))))
    (ascending : AscendingBy Prod.fst lists) (bounded : Bounded lists) :
    (ofLists owned lists).Opened := by
  refine ⟨owned, files, fun path member => ?_,
    load_of_reads words counts docs ascending bounded.count_small⟩
  simp only [PreindexFiles.all, List.mem_cons, List.not_mem_nil, or_false] at member
  rcases member with rfl | rfl | rfl
  · exact FileSystem.mappable_of_words (by simpa using bounded.few) words
  · exact FileSystem.mappable_of_words (by simpa using bounded.few) counts
  · exact FileSystem.mappable_of_words (by simpa using bounded.small) docs

/-- The terms and the postings of an open preindex fit into memory. -/
theorem Opened.sizes_small (opened : preindex.Opened) :
    preindex.terms.size < regionLimit ∧ preindex.docs.size < regionLimit := by
  obtain ⟨owned, files, mappable, loaded⟩ := opened
  obtain ⟨words, wordsMapped, rest⟩ := bind_eq_ok.mp loaded
  obtain ⟨counts, -, rest⟩ := bind_eq_ok.mp rest
  obtain ⟨docs, docsMapped, rest⟩ := bind_eq_ok.mp rest
  have mapped : preindex.terms = words.words ∧ preindex.docs = docs.words := by
    dsimp only at rest
    split at rest
    · cases rest
    · split at rest
      · cases rest
      · split at rest
        · cases rest
        · cases rest
          exact ⟨rfl, rfl⟩
  rw [mapped.1, mapped.2]
  exact ⟨IndexReader.size_lt_of_map (mappable _ (by simp [PreindexFiles.all])) wordsMapped,
    IndexReader.size_lt_of_map (mappable _ (by simp [PreindexFiles.all])) docsMapped⟩

/-- A preindex that fits into memory is made of lists by term in the order of their terms. -/
theorem exists_bounded_of_load {owned : PreindexFiles} {files : FileSystem}
    (loaded : load owned files = .ok preindex) (termsSmall : preindex.terms.size < regionLimit)
    (docsSmall : preindex.docs.size < regionLimit) :
    ∃ lists, preindex = ofLists preindex.files lists ∧ AscendingBy Prod.fst lists ∧
      Bounded lists := by
  obtain ⟨counts, paired, ascending, isOffsets, covered⟩ := checks_of_load loaded
  have limit : regionLimit < wordLimit - 1 := by decide
  have end_eq : (runningOffsets 0 counts).getLastD 0 = 0 + preindex.docs.toList.length := by
    rw [covered, Array.length_toList, Nat.zero_add]
  obtain ⟨lists, isTerms, isCounts, isWords⟩ := exists_lists
    (paired.trans Array.length_toList.symm) end_eq (by rw [Array.length_toList]; omega)
  refine ⟨lists, ?_, ?_, ?_, ?_⟩
  · rw [ofLists, isTerms, isWords, isCounts, ← isOffsets]
  · rw [AscendingBy, isTerms]
    exact strictlyAscending_iff.mp ascending
  · rwa [← List.length_map, isTerms, Array.length_toList]
  · rwa [← length_wordsOf, isWords, Array.length_toList]

/-- So is every open preindex. -/
theorem Opened.exists_bounded (opened : preindex.Opened) :
    ∃ lists, preindex = ofLists preindex.files lists ∧ AscendingBy Prod.fst lists ∧
      Bounded lists := by
  obtain ⟨termsSmall, docsSmall⟩ := opened.sizes_small
  obtain ⟨owned, files, -, loaded⟩ := opened
  exact exists_bounded_of_load loaded termsSmall docsSmall

/-- These lists are short enough to be counted together with those of several others. -/
theorem Opened.exists_ofLists (opened : preindex.Opened) :
    ∃ lists, preindex = ofLists preindex.files lists ∧ AscendingBy Prod.fst lists ∧
      8 * countPostings lists < wordLimit := by
  obtain ⟨lists, isPreindex, ascending, bounded⟩ := opened.exists_bounded
  have limit : 4 * regionLimit < wordLimit := by decide
  have small := bounded.small
  exact ⟨lists, isPreindex, ascending, by omega⟩

/-- The words of the postings that the preindex has under a term. -/
def HasPostings (preindex : Preindex) (term : Term) (words : Array UInt64) : Prop :=
  ∃ index : Nat, preindex.terms[index]? = some term ∧ preindex.postings index = .ok words

/-- The preindex lists a document with this metadata under a term. -/
def Says (preindex : Preindex) (term : Term) (doc : DocId) (flags : Metadata) : Prop :=
  ∃ words, preindex.HasPostings term words ∧ ⟨doc, flags⟩ ∈ Pair.ofWords words.toList

/-- The documents under each term strictly ascend. -/
def DocsAscend (preindex : Preindex) : Prop :=
  ∀ term words, preindex.HasPostings term words →
    AscendingBy Pair.key (Pair.ofWords words.toList)

/-- Two preindexes have the same terms and the same postings, each in its own files. -/
def Alike (first second : Preindex) : Prop :=
  first.terms = second.terms ∧ ∀ index, first.postings index = second.postings index

theorem alike_ofLists (owned others : PreindexFiles) (lists : List (Term × List Posting)) :
    (ofLists owned lists).Alike (ofLists others lists) := ⟨rfl, fun _ => rfl⟩

/-- The lists of a preindex are its terms and its postings. -/
theorem Alike.lists_eq {first second : Preindex} (alike : first.Alike second) :
    first.lists = second.lists := by
  obtain ⟨terms, postings⟩ := alike
  simp only [lists, numTerms, terms, postings]

section

variable {owned : PreindexFiles} {lists : List (Term × List Posting)} {term : Term}

/-- A term of the preindex is one that is found in its lists. -/
theorem mem_terms_ofLists :
    term ∈ (ofLists owned lists).terms ↔ lookupBy Prod.fst lists term ≠ none := by
  rw [ofLists, List.mem_toArray, List.mem_map, Ne, lookupBy_eq_none_iff]
  push Not
  exact Iff.rfl

theorem hasPostings_ofLists (small : 2 * countPostings lists < wordLimit) {words : Array UInt64} :
    (ofLists owned lists).HasPostings term words ↔
      ∃ list ∈ lists, list.1 = term ∧ words = (Pair.toWords list.2).toArray := by
  constructor
  · rintro ⟨index, isTerm, isWords⟩
    rw [ofLists, List.getElem?_toArray, List.getElem?_map, Option.map_eq_some_iff] at isTerm
    obtain ⟨list, isList, rfl⟩ := isTerm
    obtain ⟨inside, rfl⟩ := List.getElem?_eq_some_iff.mp isList
    rw [postings_ofLists small inside] at isWords
    cases isWords
    exact ⟨_, List.getElem_mem inside, rfl, rfl⟩
  · rintro ⟨list, member, rfl, rfl⟩
    obtain ⟨index, inside, rfl⟩ := List.getElem_of_mem member
    refine ⟨index, ?_, postings_ofLists small inside⟩
    rw [ofLists, List.getElem?_toArray, List.getElem?_map, List.getElem?_eq_getElem inside]
    rfl

/-- The postings of a term are those that are found in the lists. -/
theorem hasPostings_iff_lookupBy (small : 2 * countPostings lists < wordLimit)
    (terms : AscendingBy Prod.fst lists) {words : Array UInt64} :
    (ofLists owned lists).HasPostings term words ↔
      (lookupBy Prod.fst lists term).map (fun list => (Pair.toWords list.2).toArray) =
        some words := by
  rw [hasPostings_ofLists small, Option.map_eq_some_iff]
  constructor
  · rintro ⟨list, member, rfl, rfl⟩
    exact ⟨list, lookupBy_of_mem terms member, rfl⟩
  · rintro ⟨list, found, rfl⟩
    obtain ⟨member, isTerm⟩ := keyOf_of_lookupBy found
    exact ⟨list, member, isTerm, rfl⟩

theorem docsAscend_ofLists (small : 2 * countPostings lists < wordLimit) :
    (ofLists owned lists).DocsAscend ↔ ∀ list ∈ lists, AscendingBy Pair.key list.2 := by
  constructor
  · intro ascend list member
    have ordered := ascend _ _ ((hasPostings_ofLists small).mpr ⟨list, member, rfl, rfl⟩)
    simpa using ordered
  · intro ascending term words has
    obtain ⟨list, member, -, rfl⟩ := (hasPostings_ofLists small).mp has
    simpa using ascending list member

/-- In lists in order a document is listed when its flags are found. -/
theorem says_ofLists (small : 2 * countPostings lists < wordLimit)
    (terms : AscendingBy Prod.fst lists) (docs : ∀ list ∈ lists, AscendingBy Pair.key list.2)
    {doc : DocId} {flags : Metadata} :
    (ofLists owned lists).Says term doc flags ↔ flagsAt lists term doc = some flags := by
  rw [flagsAt, Option.bind_eq_some_iff]
  constructor
  · rintro ⟨words, has, member⟩
    obtain ⟨list, isList, rfl, rfl⟩ := (hasPostings_ofLists small).mp has
    rw [List.toList_toArray, ofWords_toWords] at member
    exact ⟨list, lookupBy_of_mem terms isList, (flagsIn_eq_some_iff (docs list isList)).mpr member⟩
  · rintro ⟨list, found, isFlags⟩
    obtain ⟨isList, rfl⟩ := keyOf_of_lookupBy found
    refine ⟨_, (hasPostings_ofLists small).mpr ⟨list, isList, rfl, rfl⟩, ?_⟩
    simpa using (flagsIn_eq_some_iff (docs list isList)).mp isFlags

end

/-! ### New preindexes -/

/-- The system is willing, and under the next name that it hands out the three files of a
preindex can be created in a directory. -/
structure Room (directory : Path) (world : World) : Prop where
  willing : world.Willing
  free : ∀ path ∈ (PreindexFiles.mk (directory.fromRoot world.files.workingDirectory)
    ("preindex-" ++ world.stems world.drawn)).all, world.files.Free path

/-- Lists in the order of their terms make a preindex, which is read from its files again as
it is; only the system may refuse it the files. -/
theorem writeNew_makes {directory : Path} {world : World} {lists : List (Term × List Posting)}
    (ascending : AscendingBy Prod.fst lists) (small : 2 * countPostings lists < wordLimit) :
    (writeNew directory lists).Ends world (Hindered (Room directory world)) fun preindex after =>
      preindex = ofLists preindex.files lists ∧
        load preindex.files after.files = .ok preindex := by
  let paths (stem : String) : List Path := (PreindexFiles.mk
    (directory.fromRoot world.files.workingDirectory) ("preindex-" ++ stem)).all
  have supplied (room : Room directory world) : Supplied paths 1 world := by
    refine ⟨room.willing, fun draw below => ?_, fun first second _ _ different => by omega⟩
    rw [Nat.lt_one_iff.mp below, Nat.add_zero]
    exact room.free
  refine (writeNew_ends (fun _ _ member => member) supplied ascending small).weaken ?_
  rintro _ after ⟨owned, place, rfl, added⟩
  exact ⟨rfl, load_eq added.holds ascending small⟩

end Preindex

end InvertedIndex
