/-
This file proves that what is read back as a preindex can be used as one. Opening checks the
three files against each other, and that is enough for every list to be found: the terms ascend,
each of them has a range of postings, and no range reaches beyond the postings. So indexing a
shard and merging two preindexes end with a preindex or with an error, and never with a fault.
-/

import InvertedIndex.Build
import InvertedIndex.Proofs.Cleanup

namespace InvertedIndex

open FileSystem

/-! ### The lists of an open preindex -/

namespace Preindex

@[simp] theorem length_runningOffsets (start : Nat) (counts : List UInt64) :
    (runningOffsets start counts).length = counts.length + 1 := by
  induction counts generalizing start with
  | nil => rfl
  | cons count rest inductionHypothesis =>
    rw [runningOffsets, List.length_cons, List.length_cons, inductionHypothesis]

theorem le_of_mem_runningOffsets {start : Nat} (small : start < wordLimit) {counts : List UInt64}
    {offset : Nat} (member : offset ∈ runningOffsets start counts) : start ≤ offset := by
  induction counts generalizing start with
  | nil => exact (List.mem_singleton.mp member).ge
  | cons count rest inductionHypothesis =>
    rw [runningOffsets] at member
    rcases List.mem_cons.mp member with rfl | later
    · exact Nat.le_refl _
    · have next : start ≤ saturatingAdd start (saturatingMul count.toNat 2) ∧
          saturatingAdd start (saturatingMul count.toNat 2) < wordLimit := by
        rw [saturatingAdd]
        omega
      exact next.1.trans (inductionHypothesis next.2 later)

/-- The ends of the groups do not go back. -/
theorem runningOffsets_pairwise {start : Nat} (small : start < wordLimit)
    (counts : List UInt64) : (runningOffsets start counts).Pairwise (· ≤ ·) := by
  induction counts generalizing start with
  | nil => exact List.pairwise_singleton _ _
  | cons count rest inductionHypothesis =>
    have next : start ≤ saturatingAdd start (saturatingMul count.toNat 2) ∧
        saturatingAdd start (saturatingMul count.toNat 2) < wordLimit := by
      rw [saturatingAdd]
      omega
    rw [runningOffsets]
    exact List.pairwise_cons.mpr ⟨fun offset later =>
      next.1.trans (le_of_mem_runningOffsets next.2 later), inductionHypothesis next.2⟩

variable {owned : PreindexFiles} {files : FileSystem} {preindex : Preindex}

/-- What opening has checked. -/
theorem checks_of_load (loaded : load owned files = .ok preindex) :
    ∃ counts : List UInt64, counts.length = preindex.terms.size ∧
      strictlyAscending preindex.terms.toList = true ∧
      preindex.offsets = (runningOffsets 0 counts).toArray ∧
      (runningOffsets 0 counts).getLastD 0 = preindex.docs.size := by
  obtain ⟨words, -, rest⟩ := bind_eq_ok.mp loaded
  obtain ⟨counts, -, rest⟩ := bind_eq_ok.mp rest
  obtain ⟨docs, -, rest⟩ := bind_eq_ok.mp rest
  dsimp only at rest
  split at rest
  · cases rest
  · rename_i sameSize
    split at rest
    · cases rest
    · rename_i ascending
      split at rest
      · cases rest
      · rename_i covered
        cases rest
        exact ⟨counts.words.toList, (not_not.mp sameSize).symm, by simpa using ascending, rfl,
          not_not.mp covered⟩

/-- The postings of every term are a part of the postings that are there. -/
theorem postings_of_load (loaded : load owned files = .ok preindex) {index : Nat}
    (inside : index < preindex.numTerms) : ∃ postings, preindex.postings index = .ok postings := by
  obtain ⟨counts, terms, -, isOffsets, covered⟩ := checks_of_load loaded
  have length := length_runningOffsets 0 counts
  have ordered := runningOffsets_pairwise (show 0 < wordLimit by decide) counts
  rw [numTerms, ← terms] at inside
  generalize runningOffsets 0 counts = offsets at isOffsets covered length ordered
  have before : offsets[index] ≤ offsets[index + 1] :=
    List.pairwise_iff_getElem.mp ordered index (index + 1) (by omega) (by omega) (by omega)
  have within : offsets[index + 1] ≤ preindex.docs.size := by
    rw [← covered, List.getLastD_eq_getLast?, List.getLast?_eq_getElem?,
      List.getElem?_eq_getElem (by omega), Option.getD_some]
    rcases Nat.lt_or_ge (index + 1) (offsets.length - 1) with earlier | last
    · exact List.pairwise_iff_getElem.mp ordered _ _ (by omega) (by omega) earlier
    · simp only [show offsets.length - 1 = index + 1 by omega, Nat.le_refl]
  refine ⟨preindex.docs.extract offsets[index] offsets[index + 1], ?_⟩
  rw [postings, isOffsets, List.getElem?_toArray, List.getElem?_toArray,
    List.getElem?_eq_getElem (by omega), List.getElem?_eq_getElem (by omega)]
  exact slice_eq before within

/-- All lists of an open preindex are there, in the order of their terms. -/
theorem lists_of_load (loaded : load owned files = .ok preindex) :
    ∃ lists, preindex.lists = .ok lists ∧ AscendingBy Prod.fst lists := by
  obtain ⟨-, -, ascending, -⟩ := checks_of_load loaded
  choose! postings isPostings using
    fun index (inside : index < preindex.numTerms) => postings_of_load loaded inside
  refine ⟨(List.range preindex.numTerms).map fun index =>
    (preindex.terms.getD index 0, Pair.ofWords (postings index).toList), ?_, ?_⟩
  · refine mapM_eq_ok fun index member => ?_
    have inside : index < preindex.terms.size := List.mem_range.mp member
    rw [wordAt_eq inside, ok_bind, isPostings index inside, ok_bind, Array.getD_eq_getD_getElem?,
      Array.getElem?_eq_getElem inside]
    rfl
  · have terms : preindex.terms.toList =
        (List.range preindex.numTerms).map fun index => preindex.terms.getD index 0 := by
      refine List.ext_getElem (by simp [numTerms]) fun index inside _ => ?_
      rw [List.getElem_map, List.getElem_range, Array.getElem_toList, Array.getD_eq_getD_getElem?,
        Array.getElem?_eq_getElem (by simpa using inside)]
      rfl
    rw [AscendingBy, List.map_map]
    exact terms ▸ strictlyAscending_iff.mp ascending

end Preindex

/-! ### Failures that are errors -/

/-- The failure is an error that is reported, and not a fault. -/
def Failure.Reported {ε : Type} (failure : Failure ε) : Prop := ∃ cause, failure = .error cause

theorem Failure.Reported.map {ε δ : Type} {failure : Failure ε} (reported : failure.Reported)
    (change : ε → δ) : (failure.map change).Reported := by
  obtain ⟨cause, rfl⟩ := reported
  exact ⟨change cause, rfl⟩

theorem Hindered.reported {clear : Prop} {failure : Failure StorageError} {world : World}
    (hindered : Hindered clear failure world) : failure.Reported := by
  obtain ⟨-, reason, rfl⟩ := hindered
  exact ⟨_, rfl⟩

section

variable {world : World}

namespace Action.Ends

/-- The contexts of a build do not make faults. -/
theorem during_reported {α : Type} {action : Action StorageError α} {good : α → World → Prop}
    (ends : action.Ends world (fun failure _ => failure.Reported) good) (context : Context) :
    (action.during context).Ends world (fun failure _ => failure.Reported) good :=
  ends.mapError fun _ _ reported => reported.map _

/-- A look at the files ends with what is there or with an error. -/
theorem inspect_reported {ε α : Type} (look : FileSystem → Except ε α) (world : World) :
    (inspect look).Ends world (fun failure _ => failure.Reported)
      fun value _ => look world.files = .ok value := by
  cases looked : look world.files with
  | ok value => exact inspect_ends looked rfl
  | error cause =>
    have performed : (inspect look).perform world = (.error (.error cause), world) := by
      rw [perform, inspect, looked]
    exact of_failure performed ⟨cause, rfl⟩

theorem ofResult_reported {ε α : Type} {result : Except (Failure ε) α}
    (reported : ∀ failure, result = .error failure → failure.Reported) :
    (ofResult result).Ends world (fun failure _ => failure.Reported) fun _ _ => True := by
  cases result with
  | ok value => exact ofResult_ok True.intro
  | error failure => exact ofResult_error (reported failure rfl)

/-- An outcome that is kept as a value is a value or an error. -/
theorem outcome_bind_reported {ε δ α β : Type} {action : Action ε α} {good : α → World → Prop}
    {next : Except (Failure ε) α → Action δ β} {seen : Failure δ → World → Prop}
    {better : β → World → Prop}
    (ends : action.Ends world (fun failure _ => failure.Reported) good)
    (goesOn : ∀ result after, (∀ failure, result = .error failure → failure.Reported) →
      (next result).Ends after seen better) :
    (action.outcome >>= next).Ends world seen better := by
  refine ends.outcome_bind (fun value after _ => goesOn _ after nofun)
    fun failure after reported => goesOn _ after ?_
  rintro _ ⟨⟩
  exact reported

end Action.Ends

theorem PreindexFiles.delete_reported (owned : PreindexFiles) (world : World) :
    owned.delete.Ends world (fun failure _ => failure.Reported) fun _ _ => True := by
  rcases performed : owned.delete.perform world with ⟨failure | _, after⟩
  · refine .of_failure performed ?_
    unfold Action.perform delete at performed
    extract_lets attempt at performed
    split at performed
    · cases performed
    · rename_i reason _ _
      cases performed
      exact ⟨.files reason, rfl⟩
  · exact .of_value performed True.intro

theorem PreindexFiles.create_reported (directory : Path) (world : World) :
    (create directory).Ends world (fun failure _ => failure.Reported)
      fun owned after => ∃ place, owned.Holds place [] after.files := by
  have within : Within (fun stem => (PreindexFiles.mk
    (directory.fromRoot world.files.workingDirectory) ("preindex-" ++ stem)).all) directory
      world.files := fun _ _ member => member
  have created := create_ends within fun impossible : False =>
    show Supplied _ (0 + 1) world from impossible.elim
  refine (created.weaken_failure fun _ _ hindered => hindered.reported).weaken ?_
  rintro owned after ⟨place, added⟩
  exact ⟨place, added.holds⟩

namespace Preindex

variable {directory : Path} {lists : List (Term × List Posting)}

theorem openFiles_reported (owned : PreindexFiles) (world : World) :
    (openFiles owned).Ends world (fun failure _ => failure.Reported)
      fun preindex _ => ∃ files, load owned files = .ok preindex :=
  ((Action.Ends.inspect_reported (load owned) world).cleaningUp owned.discard
    fun _ _ reported => reported).weaken fun _ _ loaded => ⟨world.files, loaded⟩

theorem writeNew_reported (ascending : AscendingBy Prod.fst lists) (world : World) :
    (writeNew directory lists).Ends world (fun failure _ => failure.Reported)
      fun _ _ => True := by
  refine (PreindexFiles.create_reported directory world).bind ?_
  rintro owned between ⟨place, holds⟩
  refine Action.Ends.bind ((fill_ends (fun impossible : False => impossible.elim) holds.toAt
    ascending).cleaningUp owned.discard fun _ _ hindered => hindered.reported) fun _ after _ => ?_
  exact (openFiles_reported owned after).weaken fun _ _ _ => True.intro

theorem construct_reported (items : List (Except StorageError Entry)) (renumber : DocId → DocId)
    (directory : Path) (backend : Backend) (world : World) :
    (construct items renumber directory backend).Ends world (fun failure _ => failure.Reported)
      fun _ _ => True := by
  unfold construct
  split
  · rename_i cause _
    exact .of_failure rfl ⟨cause, rfl⟩
  · exact writeNew_reported (listsOf_denotes _ _ _).terms world

/-- Two open preindexes can be united, whatever is in them. -/
theorem merge_reported {left right : Preindex} {leftOwned rightOwned : PreindexFiles}
    {leftFiles rightFiles : FileSystem} (isLeft : load leftOwned leftFiles = .ok left)
    (isRight : load rightOwned rightFiles = .ok right) (world : World) :
    (merge directory left right).Ends world (fun failure _ => failure.Reported)
      fun _ _ => True := by
  obtain ⟨leftLists, leftRead, leftAscending⟩ := lists_of_load isLeft
  obtain ⟨rightLists, rightRead, rightAscending⟩ := lists_of_load isRight
  rw [merge, leftRead, rightRead]
  exact .ofResult_ok_bind (.ofResult_ok_bind (writeNew_reported
    (uniteTerms_ascendingBy leftAscending rightAscending) world))

end Preindex

namespace Builder

variable {builder : Builder}

theorem constructShard_reported (builder : Builder) (aborted : Bool) (shard : Path)
    (world : World) :
    (builder.constructShard aborted shard).Ends world (fun failure _ => failure.Reported)
      fun _ _ => True := by
  cases aborted with
  | true =>
    rw [constructShard, if_pos rfl]
    exact .bind_of_fails (.of_failure rfl ⟨_, rfl⟩)
  | false =>
    rw [constructShard, if_neg (by decide)]
    refine ((Action.Ends.inspect_reported _ world).during_reported _).bind
      fun items between _ => ?_
    refine ((Preindex.construct_reported items _ _ _ between).during_reported _).bind
      fun preindex after _ => ?_
    exact .log_bind (.pure True.intro)

theorem mergePair_reported (builder : Builder) (left right : ParkedPreindex) (world : World) :
    (builder.mergePair left right).Ends world (fun failure _ => failure.Reported)
      fun _ _ => True := by
  rw [mergePair]
  refine Action.Ends.bind (((Preindex.openFiles_reported left.files world).during_reported
    _).cleaningUp right.discard fun _ _ reported => reported) ?_
  rintro first between ⟨leftFiles, isLeft⟩
  refine Action.Ends.bind (((Preindex.openFiles_reported right.files between).during_reported
    _).cleaningUp first.discard fun _ _ reported => reported) ?_
  rintro second opened ⟨rightFiles, isRight⟩
  refine (Preindex.merge_reported isLeft isRight opened).outcome_bind_reported
    fun merged after reported => ?_
  refine (PreindexFiles.delete_reported _ after).outcome_bind_reported
    fun firstRemoved after firstReported => ?_
  refine (PreindexFiles.delete_reported _ after).outcome_bind_reported
    fun secondRemoved after secondReported => ?_
  refine ((Action.Ends.ofResult_reported reported).during_reported _).bind fun result after _ => ?_
  have removal : (do
      Action.ofResult firstRemoved
      Action.ofResult secondRemoved : Action StorageError Unit).Ends after
      (fun failure _ => failure.Reported) fun _ _ => True :=
    (Action.Ends.ofResult_reported firstReported).bind fun _ _ _ =>
      Action.Ends.ofResult_reported secondReported
  refine Action.Ends.bind ((removal.during_reported _).cleaningUp result.discard
    fun _ _ reported => reported) fun _ _ _ => ?_
  exact .log_bind (.pure True.intro)

end Builder

end

end InvertedIndex
