/-
This file proves what the creation of a preindex does to files that are not its own. One that
succeeds adds three files where nothing was. One that fails gives up the stem that it took, and
it gives up all three names of it, although only the name of the terms was free for certain. So
it may remove files that it has not made, but only under these names, and where none lay there
before everything is as it was.
-/

import InvertedIndex.Proofs.Exposure

namespace InvertedIndex

open FileSystem

namespace PreindexFiles

variable {owned : PreindexFiles} {before after : FileSystem} {world : World}

/-- No file is left under the three names, and nothing else has changed. -/
structure Swept (owned : PreindexFiles) (before after : FileSystem) : Prop where
  directories : SameDirectories before after
  gone : ∀ path ∈ owned.all, ∀ location, Names before path location →
    before.lookup location ≠ some .directory → after.lookup location = none
  elsewhere : ∀ location, (∀ path ∈ owned.all, ¬ Names before path location) →
    after.lookup location = before.lookup location

/-- What is swept is gone, and it lay under one of the names. -/
theorem Swept.lookup_or (swept : owned.Swept before after) (location : Location) :
    after.lookup location = before.lookup location ∨
      after.lookup location = none ∧ ∃ path ∈ owned.all, Names before path location := by
  by_cases named : ∃ path ∈ owned.all, Names before path location
  · obtain ⟨path, member, names⟩ := named
    by_cases isDirectory : before.lookup location = some .directory
    · exact .inl (((swept.directories.directories location).mpr isDirectory).trans isDirectory.symm)
    · exact .inr ⟨swept.gone path member location names isDirectory, path, member, names⟩
  · exact .inl (swept.elsewhere location fun path member names => named ⟨path, member, names⟩)

/-- A sweep changes nothing exactly where it finds no file. -/
theorem Swept.unchanged_iff (swept : owned.Swept before after) :
    ChangesOnly [] before after ↔ ∀ path ∈ owned.all, ∀ location contents,
      Names before path location → before.lookup location ≠ some (.file contents) := by
  constructor
  · intro only path member location contents names isFile
    have gone := swept.gone path member location names (plain_of_file isFile)
    rw [only.elsewhere location List.not_mem_nil, isFile] at gone
    cases gone
  · refine fun nothing => ⟨swept.directories, fun location _ => ?_⟩
    rcases swept.lookup_or location with same | ⟨gone, path, member, names⟩
    · exact same
    · cases isThere : before.lookup location with
      | none => exact gone
      | some node =>
        cases node with
        | file contents => exact absurd isThere (nothing path member location contents names)
        | directory => exact (swept.directories.directories location).mpr isThere

/-- Files that were added under the names, and others that were there, are swept by letting go
of the names. -/
theorem swept_of_discard {touched : List Location}
    (only : ChangesOnly touched before world.files)
    (named : ∀ location ∈ touched, ∃ path ∈ owned.all, Names before path location) :
    owned.Swept before (owned.discard world).files where
  directories := only.directories.trans (World.removeAll_sameDirectories owned.all world)
  gone path member location names plain :=
    World.lookup_removeAll_of_names member (names.of_sameDirectories only.directories)
      fun isDirectory => plain ((only.directories.directories location).mp isDirectory)
  elsewhere location unnamed := by
    rcases World.removeAll_thins only named location with same | ⟨-, path, member, names⟩
    · exact same
    · exact absurd names (unnamed path member)

/-- Creating the other two files beside the file of the terms touches nothing else when it
fails. -/
theorem createOthers_settles {first : Location} (drawn requests : Nat)
    (wordsNames : Names world.files owned.words first)
    (firstFree : world.files.lookup first = none) :
    owned.createOthers.Ends
      { world with drawn, requests, files := world.files.put first (.file []) }
      (fun _ after => after.stems = world.stems ∧ ∃ touched,
        ChangesOnly touched world.files after.files ∧
        ∀ location ∈ touched, ∃ path ∈ owned.all, Names world.files path location)
      fun _ _ => True := by
  obtain ⟨isWords, isCounts, -⟩ := forall_all.mp fun path (member : path ∈ owned.all) => member
  have words := ChangesOnly.put_file wordsNames.named world.files (plain_of_none firstFree) []
  refine ((Action.createNew_keeps _ _).weaken_failure ?_).bind ?_
  · rintro _ _ rfl
    refine ⟨rfl, _, words, fun location member => ⟨_, isWords, ?_⟩⟩
    rwa [List.mem_singleton.mp member]
  rintro _ _ ⟨second, countsNames, secondFree, rfl⟩
  have counts := ChangesOnly.put_file countsNames.named _ (plain_of_none secondFree) []
  refine ((Action.createNew_keeps _ _).weaken_failure ?_).weaken fun _ _ _ => True.intro
  rintro _ _ rfl
  refine ⟨rfl, _, words.trans counts, fun location member => ?_⟩
  rcases List.mem_pair.mp member with rfl | rfl
  · exact ⟨_, isWords, wordsNames⟩
  · exact ⟨_, isCounts, countsNames.of_sameDirectories words.directories.symm⟩

/-- A creation either adds three new files or fails. One that fails has found no stem to take
and changed nothing, or it has taken a stem and has swept it. While the system is willing, a name
of that stem was not free. -/
theorem create_adds_or_sweeps (directory : Path) (world : World) :
    (create directory).Ends world
      (fun _ after => after.stems = world.stems ∧ (after.files = world.files ∨
        ∃ draw, world.files.Free (world.preindexNamed directory draw).words ∧
          (world.Willing →
            ∃ path ∈ (world.preindexNamed directory draw).all, ¬ world.files.Free path) ∧
          (world.preindexNamed directory draw).Swept world.files after.files))
      fun owned after => ∃ draw place, owned = world.preindexNamed directory draw ∧
        owned.Holds place [] after.files ∧
        (∀ location ∈ place.all, world.files.lookup location = none) ∧
        ChangesOnly place.all world.files after.files ∧ after.stems = world.stems := by
  rw [create]
  refine Action.Ends.fromRoot_bind ?_
  refine ((Action.createUnique_keeps _ _ _ _ _).lift fun _ after kept => ?_).bind ?_
  · obtain ⟨drawn, requests, rfl⟩ := kept
    exact ⟨rfl, .inl rfl⟩
  rintro _ _ ⟨draw, first, requests, rfl, firstNames, firstFree, later, rfl⟩
  dsimp only
  have isOwned : PreindexFiles.mk (directory.fromRoot world.files.workingDirectory)
    ("preindex-" ++ world.stems draw) = world.preindexNamed directory draw := rfl
  rw [isOwned]
  have wordsNames : Names world.files (world.preindexNamed directory draw).words first := by
    rw [← isOwned, words_eq]
    exact firstNames
  have others := (createOthers_settles (draw + 1) requests wordsNames firstFree).both
    (createOthers_ends (draw + 1) later
      (fun isClear : world.Willing ∧
        ∀ path ∈ (world.preindexNamed directory draw).all, world.files.Free path => isClear.1)
      wordsNames firstFree And.right)
  refine Action.Ends.bind (Action.Ends.lift (others.cleaningUp
    (world.preindexNamed directory draw).discard fun _ after settled => ?_)
    fun _ _ swept => swept) ?_
  · obtain ⟨⟨stems, touched, only, named⟩, notFree, -⟩ := settled
    obtain ⟨files, isAfter⟩ := World.removeAll_eq (world.preindexNamed directory draw).all after
    push Not at notFree
    -- What cannot be made is removed under its three names, whatever lies there.
    exact ⟨(congrArg World.stems isAfter).trans stems,
      .inr ⟨draw, ⟨first, wordsNames, firstFree⟩, notFree, swept_of_discard only named⟩⟩
  · rintro _ _ ⟨-, second, third, isAt, secondFree, thirdFree, rfl⟩
    exact .pure ⟨draw, ⟨first, second, third⟩, rfl, isAt.fill_holds [],
      Placement.forall_all.mpr ⟨firstFree, secondFree, thirdFree⟩, isAt.fill_changesOnly [], rfl⟩

/-- Where no file lies beside a name that is free for the terms, a creation that fails leaves
everything as it was. -/
theorem failed_creation_restores {directory : Path} {after : World}
    {failure : Failure StorageError} (unclaimed : world.Unclaimed directory)
    (failed : (create directory).perform world = (.error failure, after)) :
    ChangesOnly [] world.files after.files := by
  rcases (create_adds_or_sweeps directory world).of_perform_error failed with
    ⟨-, same | ⟨draw, free, -, swept⟩⟩
  · rw [same]
    exact .refl _
  · refine swept.unchanged_iff.mpr fun path member location contents names isFile => ?_
    rw [unclaimed draw free path member location names] at isFile
    cases isFile

end PreindexFiles

/-- A directory in which a file has a name that a preindex may take. -/
def crowdedRoot : World where
  files := { nodes := [(["preindex-0.docs"], .file [7])], workingDirectory := [] }
  stems := fun draw => toString draw
  drawn := 0
  log := []
  opened := 0
  warned := []

/-- The stem is free for the terms, the creation fails, and a file is gone that it had not
made. -/
theorem failed_creation_can_remove_other_files :
    crowdedRoot.files.lookup ["preindex-0.docs"] = some (.file [7]) ∧
      ∃ after, (PreindexFiles.create (Path.ofText "/")).perform crowdedRoot =
          (.error (.error (.files .alreadyExists)), after) ∧
        after.files.lookup ["preindex-0.docs"] = none :=
  ⟨rfl, _, rfl, rfl⟩

end InvertedIndex
