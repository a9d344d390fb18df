/-
This file proves what opening a preindex decides. Three files of words are a preindex exactly
when there is one count for each term, the terms ascend and the counts are those of the
postings. The sums of the counts are cut off at the largest size, and this never lets anything
pass: no file has so many words. When the files do not fit together they are gone, and when
they do every term has its range of the postings, one behind the other without a gap.
-/

import InvertedIndex.Proofs.OpenPreindexes

namespace InvertedIndex

open FileSystem

namespace Preindex

/-! ### Files that fit together -/

/-- There is one count for each term, the terms ascend, and there are as many pairs of words in
the postings as the counts say. -/
structure Fits (terms counts docs : List UInt64) : Prop where
  paired : counts.length = terms.length
  ascending : terms.Pairwise (· < ·)
  covered : 2 * (counts.map UInt64.toNat).sum = docs.length

/-- The error that says what does not fit. The terms are only looked at once they are counted,
and the postings once the terms ascend. -/
inductive Misfit (owned : PreindexFiles) (terms counts docs : List UInt64) : StorageError → Prop
  | unpaired (differ : counts.length ≠ terms.length) :
    Misfit owned terms counts docs
      (.file owned.counts (.countsForTerms counts.length terms.length))
  | unordered (paired : counts.length = terms.length) (mixed : ¬ terms.Pairwise (· < ·)) :
    Misfit owned terms counts docs (.file owned.words .termsNotAscending)
  | uncovered (paired : counts.length = terms.length) (ascending : terms.Pairwise (· < ·))
    (differ : 2 * (counts.map UInt64.toNat).sum ≠ docs.length) :
    Misfit owned terms counts docs (.file owned.docs (.countsCover
      (min (2 * (counts.map UInt64.toNat).sum) (wordLimit - 1)) docs.length))

/-- Every term has as many postings as its count says, and one after the other they are all
postings that there are. -/
structure Tiles (preindex : Preindex) (counts docs : List UInt64) : Prop where
  each : ∀ index, index < preindex.numTerms → ∃ count words, counts[index]? = some count ∧
    preindex.postings index = .ok words ∧ words.size = 2 * count.toNat
  together : ∃ words, (List.range preindex.numTerms).mapM preindex.postings = .ok words ∧
    words.flatMap Array.toList = docs

/-- Lists have the postings that were counted for them. -/
theorem tiles_ofLists {owned : PreindexFiles} {lists : List (Term × List Posting)}
    (small : 2 * countPostings lists < wordLimit) :
    (ofLists owned lists).Tiles (lists.map fun list => UInt64.ofNat list.2.length)
      (wordsOf lists) where
  each index inside := by
    rw [numTerms_ofLists] at inside
    have length := length_le_countPostings inside
    refine ⟨UInt64.ofNat lists[index].2.length, _, ?_, postings_ofLists small inside, ?_⟩
    · rw [List.getElem?_map, List.getElem?_eq_getElem inside]
      rfl
    · rw [List.size_toArray, length_toWords, toNat_ofNat (by omega)]
  together := by
    refine ⟨lists.map fun list => (Pair.toWords list.2).toArray, ?_, ?_⟩
    · rw [numTerms_ofLists]
      exact mapM_range_eq_ok fun index inside => postings_ofLists small inside
    · rw [List.flatMap_map]
      rfl

variable {owned : PreindexFiles} {files : FileSystem} {terms counts docs : List UInt64}

/-- Words that fit together are loaded as they are. -/
theorem load_of_fits (isTerms : files.read owned.words = .ok (.file (wordsToBytes terms)))
    (isCounts : files.read owned.counts = .ok (.file (wordsToBytes counts)))
    (isDocs : files.read owned.docs = .ok (.file (wordsToBytes docs)))
    (small : docs.length < wordLimit - 1) (fits : Fits terms counts docs) :
    ∃ preindex, load owned files = .ok preindex ∧ preindex.files = owned ∧
      preindex.terms.toList = terms ∧ preindex.docs.toList = docs ∧
      preindex.Tiles counts docs := by
  have covered : (runningOffsets 0 counts).getLastD 0 = 0 + docs.length := by
    rw [getLastD_runningOffsets (by decide), fits.covered]
    omega
  obtain ⟨lists, rfl, rfl, rfl⟩ := exists_lists fits.paired covered (by omega)
  have sized : 2 * countPostings lists < wordLimit := by
    rw [← length_wordsOf]
    omega
  exact ⟨ofLists owned lists, load_of_reads isTerms isCounts isDocs fits.ascending sized, rfl,
    List.toList_toArray, List.toList_toArray, tiles_ofLists sized⟩

/-- Words that do not fit together are not loaded. -/
theorem load_of_misfit (isTerms : files.read owned.words = .ok (.file (wordsToBytes terms)))
    (isCounts : files.read owned.counts = .ok (.file (wordsToBytes counts)))
    (isDocs : files.read owned.docs = .ok (.file (wordsToBytes docs)))
    (small : docs.length < wordLimit - 1) (unfit : ¬ Fits terms counts docs) :
    ∃ cause, load owned files = .error cause ∧ Misfit owned terms counts docs cause := by
  rw [load, Region.map_eq isTerms, ok_bind, Region.map_eq isCounts, ok_bind,
    Region.map_eq isDocs, ok_bind]
  dsimp only
  by_cases paired : counts.length = terms.length
  · rw [if_neg (not_not_intro (show terms.toArray.size = counts.toArray.size from paired.symm))]
    by_cases ascending : terms.Pairwise (· < ·)
    · rw [strictlyAscending_iff.mpr ascending, if_neg (by decide),
        getLastD_runningOffsets (by decide), Nat.zero_add]
      have differ : 2 * (counts.map UInt64.toNat).sum ≠ docs.length :=
        fun covered => unfit ⟨paired, ascending, covered⟩
      -- A sum that was cut off is more than any file holds.
      have uncovered : min (2 * (counts.map UInt64.toNat).sum) (wordLimit - 1) ≠
          docs.toArray.size := by
        rw [List.size_toArray]
        omega
      rw [if_pos uncovered]
      exact ⟨_, rfl, .uncovered paired ascending differ⟩
    · rw [Bool.eq_false_iff.mpr fun accepted => ascending (strictlyAscending_iff.mp accepted),
        if_pos (by decide)]
      exact ⟨_, rfl, .unordered paired ascending⟩
  · rw [if_pos (show terms.toArray.size ≠ counts.toArray.size from Ne.symm paired)]
    exact ⟨_, rfl, .unpaired paired⟩

end Preindex

/-! ### Files that are let go of -/

namespace PreindexFiles

/-- The three files are gone, and nothing else has changed. -/
structure Gone (owned : PreindexFiles) (before after : World) : Prop where
  absent : ∀ path ∈ owned.all, after.files.exists? path = false
  only_files : ∃ files, after = { before with files }
  elsewhere : ∀ location, (∀ path ∈ owned.all, ¬ Names before.files path location) →
    after.files.lookup location = before.files.lookup location

/-- A file that can be read is at a place. -/
theorem names_of_read {owned : PreindexFiles} {files : FileSystem} {extension : String}
    {contents : List UInt8}
    (isFile : files.read (owned.path extension) = .ok (.file contents)) :
    ∃ location, Names files (owned.path extension) location ∧
      files.lookup location = some (.file contents) :=
  FileSystem.names_of_read (fun _ => ⟨_, List.getLast?_concat⟩) isFile

/-- Files that can be read are gone when they are let go of. -/
theorem discard_gone {owned : PreindexFiles} {world : World} {first second third : List UInt8}
    (words : world.files.read owned.words = .ok (.file first))
    (counts : world.files.read owned.counts = .ok (.file second))
    (docs : world.files.read owned.docs = .ok (.file third)) :
    owned.Gone world (owned.discard world) := by
  obtain ⟨wordsPlace, wordsNames, wordsFile⟩ := names_of_read words
  obtain ⟨countsPlace, countsNames, countsFile⟩ := names_of_read counts
  obtain ⟨docsPlace, docsNames, docsFile⟩ := names_of_read docs
  have present : owned.Present ⟨wordsPlace, countsPlace, docsPlace⟩ world.files :=
    { words := wordsNames, counts := countsNames, docs := docsNames
      plain := Placement.forall_all.mpr
        ⟨plain_of_file wordsFile, plain_of_file countsFile, plain_of_file docsFile⟩
      is_file := Placement.forall_all.mpr ⟨⟨_, wordsFile⟩, ⟨_, countsFile⟩, ⟨_, docsFile⟩⟩ }
  generalize Placement.mk wordsPlace countsPlace docsPlace = place at present
  have cleared := present.clear_changesOnly
  rw [present.discard_eq]
  refine ⟨fun path member => ?_, ⟨_, rfl⟩, fun location apart => ?_⟩
  · obtain ⟨location, isPlace, names⟩ := present.exists_place path member
    rw [exists?_eq, (names.of_sameDirectories cleared.directories).read_eq,
      present.lookup_clear location isPlace]
    rfl
  · refine cleared.elsewhere location fun isPlace => ?_
    obtain ⟨path, member, names⟩ := present.exists_path location isPlace
    exact apart path member names

end PreindexFiles

/-! ### Opening -/

/-- Three files of words are opened exactly when they fit together, and then every term has its
range of the postings. Otherwise an error says what does not fit, and the files are gone. -/
theorem ParkedPreindex.reopen_decides {parked : ParkedPreindex} {world : World}
    {terms counts docs : List UInt64}
    (isTerms : world.files.read parked.files.words = .ok (.file (wordsToBytes terms)))
    (isCounts : world.files.read parked.files.counts = .ok (.file (wordsToBytes counts)))
    (isDocs : world.files.read parked.files.docs = .ok (.file (wordsToBytes docs)))
    (small : (wordsToBytes docs).length < wordLimit) :
    ((∃ preindex after, parked.reopen.perform world = (.ok preindex, after)) ↔
        Preindex.Fits terms counts docs) ∧
      (∀ preindex after, parked.reopen.perform world = (.ok preindex, after) →
        after = world ∧ preindex.files = parked.files ∧ preindex.terms.toList = terms ∧
          preindex.docs.toList = docs ∧ preindex.Tiles counts docs) ∧
      (¬ Preindex.Fits terms counts docs → ∃ cause after,
        parked.reopen.perform world = (.error (.error cause), after) ∧
          Preindex.Misfit parked.files terms counts docs cause ∧
          parked.files.Gone world after) := by
  have few : docs.length < wordLimit - 1 := by
    have words : 1 < wordLimit := by decide
    rw [length_wordsToBytes] at small
    omega
  by_cases fits : Preindex.Fits terms counts docs
  · obtain ⟨preindex, loaded, made⟩ := Preindex.load_of_fits isTerms isCounts isDocs few fits
    have opened : parked.reopen.perform world = (.ok preindex, world) := by
      rw [Action.perform, reopen, Preindex.openFiles, Action.cleaningUp, Action.inspect, loaded]
    refine ⟨⟨fun _ => fits, fun _ => ⟨preindex, world, opened⟩⟩, fun other after reopened => ?_,
      fun unfit => absurd fits unfit⟩
    rw [opened] at reopened
    cases reopened
    exact ⟨rfl, made⟩
  · obtain ⟨cause, refused, misfit⟩ :=
      Preindex.load_of_misfit isTerms isCounts isDocs few fits
    have failed : parked.reopen.perform world =
        (.error (.error cause), parked.files.discard world) := by
      rw [Action.perform, reopen, Preindex.openFiles, Action.cleaningUp, Action.inspect, refused]
    refine ⟨⟨?_, fun isFit => absurd isFit fits⟩, fun preindex after opened => ?_,
      fun _ => ⟨cause, _, failed, misfit, PreindexFiles.discard_gone isTerms isCounts isDocs⟩⟩
    · rintro ⟨preindex, after, opened⟩
      rw [failed] at opened
      cases opened
    · rw [failed] at opened
      cases opened

/-- One preindex with the counts of its postings, and one whose counts come to as many words
only when the sum is reduced to 64 bits. -/
def exactAndWrapped : World where
  files := {
    nodes := [(["exact.words"], .file (wordsToBytes [3, 5])),
      (["exact.counts"], .file (wordsToBytes [0, 1])),
      (["exact.docs"], .file (wordsToBytes [7, 1])),
      (["wrapped.words"], .file (wordsToBytes [3, 5])),
      (["wrapped.counts"], .file (wordsToBytes [0x8000000000000000, 1])),
      (["wrapped.docs"], .file (wordsToBytes [7, 1]))]
    workingDirectory := [] }
  stems := fun draw => toString draw
  drawn := 0
  log := []
  opened := 0
  warned := []

/-- The preindex that is set aside under a stem. -/
def parkedUnder (stem : String) : ParkedPreindex := ⟨⟨.ofText "/", stem⟩⟩

theorem ParkedPreindex.reopen_decides_exact_and_wrapped :
    (∃ preindex, (parkedUnder "exact").reopen.perform exactAndWrapped =
      (.ok preindex, exactAndWrapped) ∧ preindex.Tiles [0, 1] [7, 1]) ∧
      ∃ after, (parkedUnder "wrapped").reopen.perform exactAndWrapped =
        (.error (.error (.file (parkedUnder "wrapped").files.docs
          (.countsCover 18446744073709551615 2))), after) ∧
        (parkedUnder "wrapped").files.Gone exactAndWrapped after := by
  have ascending : [3, 5].Pairwise (· < · : UInt64 → UInt64 → Prop) := by decide
  obtain ⟨opens, made, -⟩ := @reopen_decides (parkedUnder "exact") exactAndWrapped [3, 5] [0, 1]
    [7, 1] rfl rfl rfl (by decide)
  obtain ⟨preindex, after, opened⟩ := opens.mpr ⟨rfl, ascending, rfl⟩
  obtain ⟨rfl, -, -, -, tiles⟩ := made preindex after opened
  obtain ⟨-, -, refuses⟩ := @reopen_decides (parkedUnder "wrapped") exactAndWrapped [3, 5]
    [0x8000000000000000, 1] [7, 1] rfl rfl rfl (by decide)
  obtain ⟨cause, gone, failed, misfit, isGone⟩ :=
    refuses fun fits => absurd fits.covered (by decide)
  refine ⟨⟨preindex, opened, tiles⟩, gone, ?_, isGone⟩
  cases misfit with
  | unpaired differ => exact absurd rfl differ
  | unordered _ mixed => exact absurd ascending mixed
  | uncovered => exact failed

end InvertedIndex
