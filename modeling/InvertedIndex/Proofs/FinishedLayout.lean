/-
This file proves how the two files of a finished index are laid out, for any open preindex.
The documents under each term have to ascend, and then finishing succeeds; otherwise the store
that cannot be written is refused. The file of the postings is the stores of the terms, one
behind the other from the first word to the last, and the file of the words is one store in
which each term has the offset of its postings.
-/

import InvertedIndex.Proofs.FailedFinalization
import InvertedIndex.Proofs.OpenPreindexes

namespace InvertedIndex

open FileSystem

namespace Preindex

/-! ### The layout -/

/-- These words are the two files of an index of the preindex, with the postings of each term
from its offset up to the next one. -/
structure LaidOut (preindex : Preindex) (docs words : Array UInt64) (offset : Nat → Nat) :
    Prop where
  /-- The words are one store of the terms in order with their offsets. -/
  directory : ∃ entries : List Pair, entries.map (·.key) = preindex.terms.toList ∧
    entries.map (·.payload.toNat) = (List.range preindex.numTerms).map offset ∧
    Shape.terms.write (Pair.toWords entries).toArray = .ok ⟨words, words.size⟩
  first : offset 0 = 0
  /-- The store of each term is the one that is written from its postings. -/
  stores : ∀ index < preindex.numTerms, ∃ postings store,
    preindex.postings index = .ok postings ∧
    Shape.postings.write postings = .ok ⟨store, store.size⟩ ∧
    docs.extract (offset index) (offset (index + 1)) = store ∧
    offset (index + 1) = offset index + store.size
  last : offset preindex.numTerms = docs.size

/-- Readers of these words find the terms with their offsets, the postings of each term, and as
much as the report counts. -/
structure ReadsBack (preindex : Preindex) (docs words : Array UInt64) (offset : Nat → Nat)
    (report : Report) : Prop where
  directory : ∀ backend, ∃ store, Store.open words 0 Shape.terms backend = .ok store ∧
    store.sizeWords = .ok words.size ∧ store.entries = report.terms ∧
    store.keys = preindex.terms.toList ∧ ∀ index (inside : index < preindex.terms.size),
      Index.directoryRecord store index = .ok (preindex.terms[index], offset index)
  postings : ∀ backend, ∀ index < preindex.numTerms, ∃ postings store,
    preindex.postings index = .ok postings ∧
    Store.open docs (offset index) Shape.postings backend = .ok store ∧
    store.sizeWords = .ok (offset (index + 1) - offset index) ∧ store.data = postings
  counts : ∀ options, ∃ counts, (Index.mk words docs options).termCounts = .ok counts ∧
    counts.length = report.terms ∧
    counts.foldr (fun listed total => listed.2 + total) 0 = report.postings

section

variable {owned : PreindexFiles} {lists : List (Term × List Posting)}

/-- Where the store of a term starts. -/
def storeOffset (lists : List (Term × List Posting)) (index : Nat) : Nat :=
  (storesOf (lists.take index)).length

theorem storeOffset_succ {index : Nat} (inside : index < lists.length) :
    storeOffset lists (index + 1) =
      storeOffset lists index + Shape.postings.extent lists[index].2.length := by
  rw [storeOffset, List.take_succ_eq_append_getElem inside, storesOf_append, List.length_append,
    length_storesOf_cons]
  rfl

/-- The directory has the offset of each store. -/
theorem map_payload_directoryOf (bounded : Bounded lists) :
    (directoryOf lists).map (·.payload.toNat) =
      (List.range lists.length).map (storeOffset lists) := by
  refine List.ext_getElem (by simp) fun index inside _ => ?_
  rw [List.length_map, length_directoryOf] at inside
  have fits := bounded.docs_small
  rw [size_docsFile inside] at fits
  have entry := getElem_directoryOf inside
  rw [List.getElem?_eq_getElem (by simpa using inside)] at entry
  rw [List.getElem_map, List.getElem_map, List.getElem_range, Option.some.inj entry]
  exact toNat_ofNat (by omega)

theorem laidOut_ofLists (finishable : Finishable lists) :
    (ofLists owned lists).LaidOut (docsFile lists) (wordsFile lists) (storeOffset lists) where
  directory := by
    refine ⟨directoryOf lists, map_key_directoryFrom lists 0, ?_, write_directory finishable⟩
    rw [numTerms_ofLists, map_payload_directoryOf finishable.toBounded]
  first := rfl
  stores index inside := by
    rw [numTerms_ofLists] at inside
    have size := size_store lists[index].2
    have written := write_postings finishable.toBounded inside
      (finishable.docs _ (List.getElem_mem inside))
    rw [← size] at written
    refine ⟨_, _, postings_ofLists finishable.count_small inside, written, ?_, ?_⟩
    · refine Shape.extract_middle _ _ (docsFile_eq inside) (by rw [List.size_toArray]; rfl) ?_
      rw [storeOffset_succ inside, size, List.size_toArray]
      rfl
    · rw [storeOffset_succ inside, size]
  last := by
    rw [numTerms_ofLists, storeOffset, List.take_length, docsFile, List.size_toArray]

theorem foldr_length (lists : List (Term × List Posting)) :
    lists.foldr (fun list total => list.2.length + total) 0 = countPostings lists := by
  induction lists with
  | nil => rfl
  | cons list rest inductionHypothesis =>
    rw [List.foldr_cons, inductionHypothesis, countPostings_cons]

theorem readsBack_ofLists (publishable : Publishable lists) :
    (ofLists owned lists).ReadsBack (docsFile lists) (wordsFile lists) (storeOffset lists)
      (reportOf lists) where
  directory backend := by
    let options : ReaderOptions := ⟨backend, 0⟩
    have accepted := Index.accepted_ofLists options publishable
    have holds := Index.termStore_holdsPairs options publishable
    refine ⟨_, Store.open_of_standsAt Shape.terms_sized publishable.words_small
      (Index.terms_standsAt lists) backend, ?_, rfl, ?_, fun index inside => ?_⟩
    · rw [size_wordsFile]
      exact accepted.directory_sound.sizeWords_eq
    · exact holds.keys_eq.trans (map_key_directoryFrom lists 0)
    · rw [ofLists, List.size_toArray, List.length_map] at inside
      refine (accepted.directoryRecord_eq inside).trans ?_
      rw [Index.termStore_key publishable inside, Index.postingsOffset_eq publishable inside]
      simp [ofLists, storeOffset]
  postings backend index inside := by
    rw [numTerms_ofLists] at inside
    let options : ReaderOptions := ⟨backend, 0⟩
    have accepted := Index.accepted_ofLists options publishable
    have isOffset : (Index.ofLists lists options).postingsOffset lists.length index =
        storeOffset lists index := Index.postingsOffset_eq publishable inside
    have stands := isOffset ▸ Index.postings_standsAt publishable inside
    have holds := isOffset ▸ Index.postingsStore_holdsPairs publishable inside
    refine ⟨_, _, postings_ofLists publishable.small inside,
      Store.open_of_standsAt Shape.postings_sized publishable.docs_small stands backend, ?_,
      holds.data⟩
    rw [storeOffset_succ inside, Nat.add_sub_cancel_left]
    exact (accepted.postingsStore_sound stands).sizeWords_eq
  counts options := by
    refine ⟨_, Index.termCounts_ofLists publishable, List.length_map _, ?_⟩
    rw [List.foldr_map]
    exact foldr_length lists

end

/-! ### Finishing an index -/

/-- The temporary files beside the targets for a name that the system hands out. -/
def siblings (docsTarget wordsTarget : Path) (world : World) (stem : String) : List Path :=
  [docsTarget, wordsTarget].map fun target =>
    (target.parent.fromRoot world.files.workingDirectory).child (".tmp" ++ stem)

/-- The system is willing, the next two names that it hands out are good ones for files beside
the targets, and files can be put under both targets. -/
structure Ready (docsTarget wordsTarget : Path) (world : World) : Prop where
  supplied : Supplied (siblings docsTarget wordsTarget world) 2 world
  docs : world.files.Writable docsTarget
  words : world.files.Writable wordsTarget

section

variable {clear : Prop} {owned : PreindexFiles} {lists : List (Term × List Posting)}
  {docsTarget wordsTarget : Path} {world : World}

/-- Nothing is written for contents that could not be put together. -/
theorem writeSibling_of_error {target : Path} (failure : Failure StorageError)
    (willing : clear → world.Willing)
    (free : clear → world.files.Free ((target.parent.fromRoot world.files.workingDirectory).child
      (".tmp" ++ world.stems world.drawn))) :
    (writeSibling target (.error failure)).Ends world
      (fun result after => Hindered clear result after ∨ result = failure) fun _ _ => False := by
  rw [writeSibling]
  refine Action.Ends.fromRoot_bind ?_
  have reserved := (createSibling_ends willing free).lift_refused
  refine (reserved.weaken_failure fun _ _ => .inl).bind fun name after _ => ?_
  exact .bind_of_fails (.cleaningUp (.ofResult_error_bind rfl) _ fun _ _ => .inr)

theorem mem_siblings {target : Path} (member : target ∈ [docsTarget, wordsTarget])
    (stem : String) :
    (target.parent.fromRoot world.files.workingDirectory).child (".tmp" ++ stem) ∈
      siblings docsTarget wordsTarget world stem := List.mem_map.mpr ⟨target, member, rfl⟩

/-- When the documents under each term ascend the two files are put under their targets. -/
theorem finalize_of_ascent (owned : PreindexFiles) (finishable : Finishable lists)
    (separate : Separate (siblings docsTarget wordsTarget world) docsTarget wordsTarget
      world.stems world.files) :
    ((ofLists owned lists).finalize docsTarget wordsTarget).Ends world
      (Hindered (Ready docsTarget wordsTarget world)) fun report after =>
        report = reportOf lists ∧
        after.files.read docsTarget = .ok (.file (Region.toBytes (docsFile lists))) ∧
        after.files.read wordsTarget = .ok (.file (Region.toBytes (wordsFile lists))) := by
  refine (finalize_ends owned finishable (mem_siblings List.mem_cons_self)
    (mem_siblings (List.mem_cons_of_mem _ (List.mem_singleton_self _))) Ready.supplied separate
    Ready.docs Ready.words).weaken ?_
  rintro report after ⟨isReport, docsPlace, wordsPlace, published⟩
  exact ⟨isReport, published.docs_read, published.words_read⟩

/-- When the documents under a term do not ascend this is reported. -/
theorem finalize_of_descent (owned : PreindexFiles) (bounded : Bounded lists)
    (descends : ¬ ∀ list ∈ lists, AscendingBy Pair.key list.2) :
    ((ofLists owned lists).finalize docsTarget wordsTarget).Ends world
      (fun result after => Hindered (Ready docsTarget wordsTarget world) result after ∨
        ∃ key entry, result = .error (.records (.keyNotGreater key entry))) fun _ _ => False := by
  obtain ⟨key, entry, refused⟩ := draft_of_descent owned bounded descends
  have willing (ready : Ready docsTarget wordsTarget world) := ready.supplied.willing
  have free (ready : Ready docsTarget wordsTarget world) :=
    ready.supplied.free 0 (by decide) _ (mem_siblings List.mem_cons_self _)
  rw [finalize, refused]
  refine .bind_of_fails ((writeSibling_of_error _ willing free).weaken_failure ?_)
  exact fun _ _ => Or.imp_right fun isRefused => ⟨key, entry, isRefused⟩

/-- Different targets are separate when the system hands out no name that is theirs. -/
theorem separate_siblings {docsName wordsName : String}
    (distinct : ∀ location, Names world.files docsTarget location →
      ¬ Names world.files wordsTarget location)
    (isDocs : docsTarget.steps.getLast? = some (.into docsName))
    (isWords : wordsTarget.steps.getLast? = some (.into wordsName))
    (docsPlain : ∀ draw, docsName ≠ ".tmp" ++ world.stems draw)
    (wordsPlain : ∀ draw, wordsName ≠ ".tmp" ++ world.stems draw) :
    Separate (siblings docsTarget wordsTarget world) docsTarget wordsTarget world.stems
      world.files := by
  have apart {target : Path} {name : String}
      (isName : target.steps.getLast? = some (.into name))
      (plain : ∀ draw, name ≠ ".tmp" ++ world.stems draw) (draw : Nat) (path : Path)
      (member : path ∈ siblings docsTarget wordsTarget world (world.stems draw))
      (location : Location) (names : Names world.files path location) :
      ¬ Names world.files target location := by
    intro targetNames
    obtain ⟨beside, -, rfl⟩ := List.mem_map.mp member
    have last := names.last.trans targetNames.last.symm
    rw [isName, Path.child, List.getLast?_concat] at last
    exact plain draw (Step.into.inj (Option.some.inj last)).symm
  exact ⟨distinct, apart isDocs docsPlain, apart isWords wordsPlain⟩

end

/-- Finishing an open preindex has three ends. When the documents under each term ascend, the
two files are under their targets, laid out store after store, and as long as they can be
mapped a reader finds all of it again. When they do not, the records that cannot be a store are
reported. There is no other end, unless the system refuses a file, which it does not do when it
is ready. -/
theorem finalize_lays_out_stores {preindex : Preindex} {docsTarget wordsTarget : Path}
    {world : World} (opened : preindex.Opened)
    (separate : Separate (siblings docsTarget wordsTarget world) docsTarget wordsTarget
      world.stems world.files) :
    (∃ report after docs words offset,
      (preindex.finalize docsTarget wordsTarget).perform world = (.ok report, after) ∧
      preindex.DocsAscend ∧
      after.files.read docsTarget = .ok (.file (Region.toBytes docs)) ∧
      after.files.read wordsTarget = .ok (.file (Region.toBytes words)) ∧
      preindex.LaidOut docs words offset ∧
      report.docsBytes = (Region.toBytes docs).length ∧
      report.wordsBytes = (Region.toBytes words).length ∧
      (after.files.Mappable docsTarget → after.files.Mappable wordsTarget →
        preindex.ReadsBack docs words offset report)) ∨
    (¬ preindex.DocsAscend ∧ ∃ key entry after,
      (preindex.finalize docsTarget wordsTarget).perform world =
        (.error (.error (.records (.keyNotGreater key entry))), after)) ∨
    (¬ Ready docsTarget wordsTarget world ∧ ∃ reason after,
      (preindex.finalize docsTarget wordsTarget).perform world =
        (.error (.error (.files reason)), after)) := by
  obtain ⟨lists, isPreindex, terms, bounded⟩ := opened.exists_bounded
  rw [isPreindex, docsAscend_ofLists bounded.count_small]
  by_cases docs : ∀ list ∈ lists, AscendingBy Pair.key list.2
  · have finishable : Finishable lists := { bounded with terms, docs }
    rcases (finalize_of_ascent preindex.files finishable separate).cases with
      ⟨_, after, performed, rfl, docsRead, wordsRead⟩ |
        ⟨_, after, performed, notReady, reason, rfl⟩
    · refine .inl ⟨_, after, docsFile lists, wordsFile lists, storeOffset lists, performed, docs,
        docsRead, wordsRead, laidOut_ofLists finishable, (Region.length_toBytes _).symm,
        (Region.length_toBytes _).symm, fun docsMappable wordsMappable => readsBack_ofLists ?_⟩
      exact ⟨terms, docs, wordsMappable.size_lt wordsRead, docsMappable.size_lt docsRead⟩
    · exact .inr (.inr ⟨notReady, reason, after, performed⟩)
  · rcases (finalize_of_descent preindex.files bounded docs).cases with ⟨_, _, _, impossible⟩ |
      ⟨_, after, performed, ⟨notReady, reason, rfl⟩ | ⟨key, entry, rfl⟩⟩
    · exact impossible.elim
    · exact .inr (.inr ⟨notReady, reason, after, performed⟩)
    · exact .inr (.inl ⟨docs, key, entry, after, performed⟩)

end Preindex

/-! ### An index of three terms -/

/-- The files of two preindexes beside an older index. One has three terms, the second without
documents. The other one has a term whose documents do not ascend. -/
def olderIndex : World where
  files := {
    nodes := [(["docs"], .file [1, 2, 3]), (["words"], .file []),
      (["preindex-three.words"], .file (wordsToBytes [3, 7, 9])),
      (["preindex-three.counts"], .file (wordsToBytes [2, 0, 1])),
      (["preindex-three.docs"], .file (wordsToBytes [10, 1, 20, 2, 10, 4])),
      (["preindex-mixed.words"], .file (wordsToBytes [3])),
      (["preindex-mixed.counts"], .file (wordsToBytes [2])),
      (["preindex-mixed.docs"], .file (wordsToBytes [20, 1, 10, 2]))]
    workingDirectory := [] }
  stems := fun draw => toString draw
  drawn := 0
  log := []
  opened := 0
  warned := []

namespace olderIndex

def three : Preindex :=
  .ofLists ⟨Path.ofText "/", "preindex-three"⟩ [(3, [⟨10, 1⟩, ⟨20, 2⟩]), (7, []), (9, [⟨10, 4⟩])]

def mixed : Preindex :=
  .ofLists ⟨Path.ofText "/", "preindex-mixed"⟩ [(3, [⟨20, 1⟩, ⟨10, 2⟩])]

theorem three_opened : three.Opened :=
  Preindex.opened_of_reads olderIndex.files rfl rfl rfl
    (by unfold AscendingBy; decide) ⟨by decide, by decide⟩

theorem mixed_opened : mixed.Opened :=
  Preindex.opened_of_reads olderIndex.files rfl rfl rfl
    (by unfold AscendingBy; decide) ⟨by decide, by decide⟩

theorem three_ascends : three.DocsAscend :=
  (Preindex.docsAscend_ofLists (by decide)).mpr (by unfold AscendingBy; decide)

theorem mixed_descends : ¬ mixed.DocsAscend := by
  rw [mixed, Preindex.docsAscend_ofLists (by decide)]
  unfold AscendingBy
  decide

theorem separate : Separate (Preindex.siblings (.ofText "/docs") (.ofText "/words") olderIndex)
    (.ofText "/docs") (.ofText "/words") olderIndex.stems olderIndex.files := by
  have plain (name : String) (notDot : name.toList.head? ≠ some '.') (draw : Nat) :
      name ≠ ".tmp" ++ olderIndex.stems draw := by
    rintro rfl
    exact notDot (by simp)
  refine Preindex.separate_siblings (fun location docs words => ?_) rfl rfl
    (plain "docs" (by decide)) (plain "words" (by decide))
  have same := docs.last.trans words.last.symm
  revert same
  decide

/-- What finishing one of the preindexes ends with. -/
def outcome (preindex : Preindex) : Except (Failure StorageError) Report × World :=
  (preindex.finalize (.ofText "/docs") (.ofText "/words")).perform olderIndex

theorem outcome_three : (outcome three).1 = .ok ⟨3, 3, 96, 184⟩ := by decide +kernel

theorem outcome_mixed : (outcome mixed).1 =
    .error (.error (.records (.keyNotGreater 10 1))) := by decide +kernel

end olderIndex

open olderIndex in
theorem finalize_lays_out_three_terms :
    (∃ docs words offset, (outcome three).2.files.read (.ofText "/docs") =
        .ok (.file (Region.toBytes docs)) ∧
      (outcome three).2.files.read (.ofText "/words") = .ok (.file (Region.toBytes words)) ∧
      three.LaidOut docs words offset ∧ three.ReadsBack docs words offset ⟨3, 3, 96, 184⟩) ∧
    ∃ key entry, (outcome mixed).1 = .error (.error (.records (.keyNotGreater key entry))) := by
  constructor
  · rcases Preindex.finalize_lays_out_stores three_opened separate with
      ⟨report, after, docs, words, offset, performed, -, docsRead, wordsRead, laidOut, docsBytes,
        wordsBytes, readsBack⟩ | ⟨descends, -⟩ | ⟨-, reason, after, performed⟩
    · have isReport := outcome_three
      rw [outcome, performed] at isReport
      cases isReport
      rw [outcome, performed]
      refine ⟨docs, words, offset, docsRead, wordsRead, laidOut, readsBack ?_ ?_⟩
      · intro contents isFile
        cases docsRead.symm.trans isFile
        exact docsBytes ▸ by decide
      · intro contents isFile
        cases wordsRead.symm.trans isFile
        exact wordsBytes ▸ by decide
    · exact absurd three_ascends descends
    · have isReport := outcome_three
      rw [outcome, performed] at isReport
      cases isReport
  · rcases Preindex.finalize_lays_out_stores mixed_opened separate with
      ⟨_, _, _, _, _, _, ascend, -⟩ | ⟨-, key, entry, after, performed⟩ |
        ⟨-, reason, after, performed⟩
    · exact absurd ascend mixed_descends
    · exact ⟨key, entry, congrArg Prod.fst performed⟩
    · have isRefused := outcome_mixed
      rw [outcome, performed] at isRefused
      cases isRefused

end InvertedIndex
