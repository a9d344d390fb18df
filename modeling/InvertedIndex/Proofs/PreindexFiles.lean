/-
This file proves what a preindex does to the files. Three new files are created under a
name that the system hands out, at locations where nothing was; they are filled with the
lists of the preindex, opening them gives the same lists back, and deleting them leaves
nothing behind. No other location changes. All of this fails only where the system refuses
to create a file, and it does not refuse when the names that it hands out are free.
-/

import InvertedIndex.Preindex
import InvertedIndex.Proofs.PreindexLists
import InvertedIndex.Proofs.Requests
import InvertedIndex.Proofs.StoreBatch
import InvertedIndex.Proofs.Words

namespace InvertedIndex

open FileSystem

/-! ### The three files of a preindex -/

/-- Where the three files of a preindex are. -/
structure Placement where
  words : Location
  counts : Location
  docs : Location

namespace Placement

def all (place : Placement) : List Location := [place.words, place.counts, place.docs]

theorem forall_all {place : Placement} {holds : Location → Prop} :
    (∀ location ∈ place.all, holds location) ↔
      holds place.words ∧ holds place.counts ∧ holds place.docs := by
  simp [all]

/-- The files after these lists were written to the three places. -/
def fill (place : Placement) (lists : List (Term × List Posting)) (files : FileSystem) :
    FileSystem :=
  ((files.put place.words (.file (wordsToBytes (lists.map (·.1))))).put place.counts
    (.file (wordsToBytes (lists.map fun list => UInt64.ofNat list.2.length)))).put place.docs
    (.file (wordsToBytes (wordsOf lists)))

/-- The files after the three were removed. -/
def clear (place : Placement) (files : FileSystem) : FileSystem :=
  ((files.erase place.words).erase place.counts).erase place.docs

end Placement

namespace PreindexFiles

theorem forall_all {owned : PreindexFiles} {holds : Path → Prop} :
    (∀ path ∈ owned.all, holds path) ↔
      holds owned.words ∧ holds owned.counts ∧ holds owned.docs := by
  simp [all]

/-- The paths of a preindex name these places, and no directory is there. -/
structure At (owned : PreindexFiles) (place : Placement) (files : FileSystem) : Prop where
  words : Names files owned.words place.words
  counts : Names files owned.counts place.counts
  docs : Names files owned.docs place.docs
  plain : ∀ location ∈ place.all, files.lookup location ≠ some .directory

/-- The three files are at these places and hold these lists. -/
structure Holds (owned : PreindexFiles) (place : Placement) (lists : List (Term × List Posting))
    (files : FileSystem) : Prop extends owned.At place files where
  words_file : files.lookup place.words = some (.file (wordsToBytes (lists.map (·.1))))
  counts_file : files.lookup place.counts =
    some (.file (wordsToBytes (lists.map fun list => UInt64.ofNat list.2.length)))
  docs_file : files.lookup place.docs =
    some (.file (wordsToBytes (wordsOf lists)))

variable {owned : PreindexFiles} {place : Placement} {lists : List (Term × List Posting)}
  {files : FileSystem}

/-- Files of a preindex with different extensions are at different locations. -/
theorem ne_of_extension_ne {other : FileSystem} {first second : String} {location : Location}
    {elsewhere : Location} (different : first ≠ second)
    (names : Names files (owned.path first) location)
    (otherNames : Names other (owned.path second) elsewhere) : location ≠ elsewhere := by
  intro same
  subst same
  have texts : owned.stem ++ "." ++ first = owned.stem ++ "." ++ second :=
    names.headD_of_child.symm.trans otherNames.headD_of_child
  exact different ((String.append_right_inj _).mp texts)

namespace At

theorem words_ne_counts (isAt : owned.At place files) : place.words ≠ place.counts :=
  ne_of_extension_ne (by decide) isAt.words isAt.counts

theorem words_ne_docs (isAt : owned.At place files) : place.words ≠ place.docs :=
  ne_of_extension_ne (by decide) isAt.words isAt.docs

theorem counts_ne_docs (isAt : owned.At place files) : place.counts ≠ place.docs :=
  ne_of_extension_ne (by decide) isAt.counts isAt.docs

theorem nodup (isAt : owned.At place files) : place.all.Nodup := by
  simp [Placement.all, isAt.words_ne_counts, isAt.words_ne_docs, isAt.counts_ne_docs]

/-- It is decided by which directories there are. -/
theorem of_sameDirectories (isAt : owned.At place files) {after : FileSystem}
    (same : SameDirectories files after) : owned.At place after where
  words := isAt.words.of_sameDirectories same
  counts := isAt.counts.of_sameDirectories same
  docs := isAt.docs.of_sameDirectories same
  plain location member isDirectory :=
    isAt.plain location member ((same.directories location).mp isDirectory)

/-- Each place is where one of the paths leads. -/
theorem exists_path (isAt : owned.At place files) :
    ∀ location ∈ place.all, ∃ path ∈ owned.all, Names files path location := by
  have member := forall_all.mp fun path (isPath : path ∈ owned.all) => isPath
  exact Placement.forall_all.mpr ⟨⟨_, member.1, isAt.words⟩, ⟨_, member.2.1, isAt.counts⟩,
    ⟨_, member.2.2, isAt.docs⟩⟩

/-- Each of the paths leads to one of the places. -/
theorem exists_place (isAt : owned.At place files) :
    ∀ path ∈ owned.all, ∃ location ∈ place.all, Names files path location := by
  have member := Placement.forall_all.mp fun location (isPlace : location ∈ place.all) => isPlace
  exact forall_all.mpr ⟨⟨_, member.1, isAt.words⟩, ⟨_, member.2.1, isAt.counts⟩,
    ⟨_, member.2.2, isAt.docs⟩⟩

theorem fill_changesOnly (isAt : owned.At place files) (lists : List (Term × List Posting)) :
    ChangesOnly place.all files (place.fill lists files) := by
  obtain ⟨atWords, atCounts, atDocs⟩ := Placement.forall_all.mp isAt.plain
  have first := ChangesOnly.put_file isAt.words.named files atWords
    (wordsToBytes (lists.map (·.1)))
  have second := ChangesOnly.put_file isAt.counts.named _
    (fun isDirectory => atCounts ((first.directories.directories _).mp isDirectory))
    (wordsToBytes (lists.map fun list => UInt64.ofNat list.2.length))
  have third := ChangesOnly.put_file isAt.docs.named _
    (fun isDirectory => atDocs (((first.trans second).directories.directories _).mp isDirectory))
    (wordsToBytes (wordsOf lists))
  exact (first.trans second).trans third

/-- Once lists were written to its places, a preindex holds them. -/
theorem fill_holds (isAt : owned.At place files) (lists : List (Term × List Posting)) :
    owned.Holds place lists (place.fill lists files) := by
  have same := (isAt.fill_changesOnly lists).directories
  refine ⟨isAt.of_sameDirectories same, ?_, ?_, ?_⟩
  · simp [Placement.fill, isAt.words.named, isAt.counts.named, isAt.docs.named,
      isAt.words_ne_counts, isAt.words_ne_docs]
  · simp [Placement.fill, isAt.counts.named, isAt.docs.named, isAt.counts_ne_docs]
  · simp [Placement.fill, isAt.docs.named]

theorem clear_changesOnly (isAt : owned.At place files) :
    ChangesOnly place.all files (place.clear files) := by
  obtain ⟨atWords, atCounts, atDocs⟩ := Placement.forall_all.mp isAt.plain
  have first := ChangesOnly.erase_file isAt.words.named files atWords
  have second := ChangesOnly.erase_file isAt.counts.named _
    fun isDirectory => atCounts ((first.directories.directories _).mp isDirectory)
  have third := ChangesOnly.erase_file isAt.docs.named _
    fun isDirectory => atDocs (((first.trans second).directories.directories _).mp isDirectory)
  exact (first.trans second).trans third

/-- Nothing is left at the places of a preindex that was removed. -/
theorem lookup_clear (isAt : owned.At place files) :
    ∀ location ∈ place.all, (place.clear files).lookup location = none := by
  have gone (location : Location) : (place.clear files).lookup location =
      if location = place.docs then none else if location = place.counts then none
      else if location = place.words then none else files.lookup location := by
    simp [Placement.clear, isAt.words.named, isAt.counts.named, isAt.docs.named]
  refine Placement.forall_all.mpr ⟨?_, ?_, ?_⟩
  · rw [gone, if_neg isAt.words_ne_docs, if_neg isAt.words_ne_counts, if_pos rfl]
  · rw [gone, if_neg isAt.counts_ne_docs, if_pos rfl]
  · rw [gone, if_pos rfl]

end At

/-- The three files are at these places, whatever they hold. -/
structure Present (owned : PreindexFiles) (place : Placement) (files : FileSystem) : Prop
    extends owned.At place files where
  is_file : ∀ location ∈ place.all, ∃ contents, files.lookup location = some (.file contents)

namespace Present

/-- Each of the three files can be removed, one after the other. -/
theorem removals (present : owned.Present place files) :
    files.remove owned.words = .ok (files.erase place.words) ∧
      (files.erase place.words).remove owned.counts =
        .ok ((files.erase place.words).erase place.counts) ∧
      ((files.erase place.words).erase place.counts).remove owned.docs =
        .ok (place.clear files) := by
  obtain ⟨atWords, atCounts, atDocs⟩ := Placement.forall_all.mp present.plain
  obtain ⟨⟨_, wordsFile⟩, ⟨_, countsFile⟩, ⟨_, docsFile⟩⟩ := Placement.forall_all.mp present.is_file
  have first := ChangesOnly.erase_file present.words.named files atWords
  have second := ChangesOnly.erase_file present.counts.named _
    fun isDirectory => atCounts ((first.directories.directories _).mp isDirectory)
  rw [← first.elsewhere _ fun member =>
    present.words_ne_counts (List.mem_singleton.mp member).symm] at countsFile
  rw [← (first.trans second).elsewhere _ fun member => ?_] at docsFile
  · exact ⟨present.words.remove_eq wordsFile,
      (present.counts.of_sameDirectories first.directories).remove_eq countsFile,
      (present.docs.of_sameDirectories (first.trans second).directories).remove_eq docsFile⟩
  · rcases List.mem_cons.mp member with isWords | member
    · exact present.words_ne_docs isWords.symm
    · exact present.counts_ne_docs (List.mem_singleton.mp member).symm

/-- Deleting a preindex removes its three files. -/
theorem delete_eq {world : World} (present : owned.Present place world.files) :
    owned.delete.perform world = (.ok (), { world with files := place.clear world.files }) := by
  obtain ⟨first, second, third⟩ := present.removals
  delta Action.perform delete
  dsimp only [all, List.foldl_cons, List.foldl_nil]
  rw [first]
  dsimp only
  rw [second]
  dsimp only
  rw [third]

/-- So does letting go of it. -/
theorem discard_eq {world : World} (present : owned.Present place world.files) :
    owned.discard world = { world with files := place.clear world.files } := by
  obtain ⟨first, second, third⟩ := present.removals
  rw [discard, all, List.foldl_cons, List.foldl_cons, List.foldl_cons, List.foldl_nil,
    World.removeIfPossible.eq_def owned.words, first]
  dsimp only
  rw [World.removeIfPossible.eq_def owned.counts, second]
  dsimp only
  rw [World.removeIfPossible, third]

/-- The three are there as long as their places hold files. -/
theorem of_files (present : owned.Present place files) {after : FileSystem}
    (same : SameDirectories files after)
    (isFile : ∀ location ∈ place.all, ∃ contents,
      after.lookup location = some (.file contents)) : owned.Present place after where
  toAt := present.toAt.of_sameDirectories same
  is_file := isFile

/-- The three files stay while others change. -/
theorem of_changesOnly (present : owned.Present place files) {after : FileSystem}
    {touched : List Location} (only : ChangesOnly touched files after)
    (apart : ∀ location ∈ place.all, location ∉ touched) : owned.Present place after :=
  present.of_files only.directories fun location member => by
    rw [only.elsewhere location (apart location member)]
    exact present.is_file location member

end Present

namespace Holds

theorem is_file (holds : owned.Holds place lists files) :
    ∀ location ∈ place.all, ∃ contents, files.lookup location = some (.file contents) :=
  Placement.forall_all.mpr ⟨⟨_, holds.words_file⟩, ⟨_, holds.counts_file⟩, ⟨_, holds.docs_file⟩⟩

/-- The files of a preindex are there. -/
theorem present (holds : owned.Holds place lists files) : owned.Present place files :=
  ⟨holds.toAt, holds.is_file⟩

/-- A preindex stays as it is while files change elsewhere. -/
theorem of_changesOnly (holds : owned.Holds place lists files) {after : FileSystem}
    {touched : List Location} (only : ChangesOnly touched files after)
    (apart : ∀ location ∈ place.all, location ∉ touched) : owned.Holds place lists after := by
  obtain ⟨words, counts, docs⟩ := Placement.forall_all.mp fun location member =>
    only.elsewhere location (apart location member)
  refine ⟨holds.toAt.of_sameDirectories only.directories, ?_, ?_, ?_⟩
  · rw [words, holds.words_file]
  · rw [counts, holds.counts_file]
  · rw [docs, holds.docs_file]

end Holds

theorem words_eq (owned : PreindexFiles) :
    owned.words = owned.directory.child (owned.stem ++ ".words") := by
  rw [words, path, String.append_assoc]
  rfl

/-- A preindex with these lists was added under a name that the system handed out, at places
where nothing was, and nothing else changed. -/
structure Added (paths : String → List Path) (draws : Nat) (clear : Prop) (owned : PreindexFiles)
    (place : Placement) (lists : List (Term × List Posting)) (before after : World) : Prop where
  holds : owned.Holds place lists after.files
  handed_out : ∃ draw, ∀ path ∈ owned.all, path ∈ paths (before.stems draw)
  fresh : ∀ location ∈ place.all, before.files.lookup location = none
  only : ChangesOnly place.all before.files after.files
  precedes : before.Precedes after
  supplied : clear → Supplied paths draws after

/-- The paths of every preindex that may be created in a directory are among these. -/
def Within (paths : String → List Path) (directory : Path) (files : FileSystem) : Prop :=
  ∀ stem, ∀ path ∈ (PreindexFiles.mk (directory.fromRoot files.workingDirectory)
    ("preindex-" ++ stem)).all, path ∈ paths stem

theorem Within.of_sameDirectories {paths : String → List Path} {directory : Path}
    {files after : FileSystem} (within : Within paths directory files)
    (same : SameDirectories files after) : Within paths directory after := by
  rw [Within, same.workingDirectory]
  exact within

section

variable {clear : Prop} {paths : String → List Path} {draws : Nat} {directory : Path}
  {world : World}

/-- An empty preindex is added by filling three fresh places under names that were handed out. -/
theorem Added.of_fill {owned : PreindexFiles} {place : Placement} {draw requests : Nat}
    (later : world.requests ≤ requests) (isAt : owned.At place world.files)
    (fresh : ∀ location ∈ place.all, world.files.lookup location = none)
    (handedOut : ∀ path ∈ owned.all, path ∈ paths (world.stems draw))
    (sameDraw : clear → draw = world.drawn)
    (supplied : clear → Supplied paths (draws + 1) world) :
    owned.Added paths draws clear place [] world
      { world with drawn := draw + 1, requests, files := place.fill [] world.files } where
  holds := isAt.fill_holds []
  handed_out := ⟨draw, handedOut⟩
  fresh := fresh
  only := isAt.fill_changesOnly []
  precedes := ⟨rfl, rfl, later⟩
  supplied isClear := by
    refine (supplied isClear).of_drawn ⟨rfl, rfl, later⟩ (congrArg (· + 1) (sameDraw isClear))
      (isAt.fill_changesOnly []) fun location member => ?_
    obtain ⟨path, isPath, names⟩ := isAt.exists_path location member
    rw [← sameDraw isClear]
    exact ⟨path, handedOut path isPath, names⟩

/-- Beside the file of words, two more files are created where nothing was. -/
theorem createOthers_ends {owned : PreindexFiles} {first : Location} (drawn : Nat) {requests : Nat}
    (later : world.requests ≤ requests) (willing : clear → world.Willing)
    (wordsNames : Names world.files owned.words first)
    (firstFree : world.files.lookup first = none)
    (usable : clear → ∀ path ∈ owned.all, world.files.Free path) :
    owned.createOthers.Ends
      { world with drawn, requests, files := world.files.put first (.file []) } (Refused clear)
      fun _ after => ∃ second third, owned.At ⟨first, second, third⟩ world.files ∧
        world.files.lookup second = none ∧ world.files.lookup third = none ∧
        after = { world with
          drawn
          requests := requests + 2
          files := Placement.fill ⟨first, second, third⟩ [] world.files } := by
  have isFirst : world.files.lookup first ≠ some .directory :=
    plain_of_none firstFree
  have countsFree : clear → (world.files.put first (.file [])).Free owned.counts := fun isClear =>
    (forall_all.mp (usable isClear)).2.1.put_file wordsNames.named isFirst
      fun other names => ne_of_extension_ne (by decide) names wordsNames
  have docsFree : clear → (world.files.put first (.file [])).Free owned.docs := fun isClear =>
    (forall_all.mp (usable isClear)).2.2.put_file wordsNames.named isFirst
      fun other names => ne_of_extension_ne (by decide) names wordsNames
  refine Action.Ends.weaken (Action.createBoth_ends
    { world with drawn, requests, files := world.files.put first (.file []) }
    (fun isClear => (willing isClear).of_precedes ⟨rfl, rfl, later⟩) countsFree docsFree
    fun _ _ names otherNames => ne_of_extension_ne (by decide) otherNames names) ?_
  rintro _ _ ⟨second, third, countsNames, secondFree, docsNames, thirdFree, rfl⟩
  have same := (SameDirectories.put_file wordsNames.named world.files isFirst []).symm
  replace countsNames := countsNames.of_sameDirectories same
  replace docsNames := docsNames.of_sameDirectories same
  dsimp only at secondFree thirdFree
  rw [lookup_put wordsNames.named, if_neg (ne_of_extension_ne (by decide) countsNames wordsNames)]
    at secondFree
  rw [lookup_put wordsNames.named, if_neg (ne_of_extension_ne (by decide) docsNames wordsNames)]
    at thirdFree
  have plain : ∀ location ∈ (Placement.mk first second third).all,
      world.files.lookup location ≠ some .directory := by
    exact Placement.forall_all.mpr ⟨isFirst, plain_of_none secondFree, plain_of_none thirdFree⟩
  exact ⟨second, third, ⟨wordsNames, countsNames, docsNames, plain⟩, secondFree, thirdFree, rfl⟩

/-- Creating a preindex adds an empty one. -/
theorem create_ends (within : Within paths directory world.files)
    (supplied : clear → Supplied paths (draws + 1) world) :
    (create directory).Ends world (Hindered clear) fun owned after =>
      ∃ place, owned.Added paths draws clear place [] world after := by
  rw [create]
  refine Action.Ends.fromRoot_bind ?_
  -- Under a name from the supply, each of the three files can be created.
  have free : clear → ∀ path ∈ (PreindexFiles.mk
      (directory.fromRoot world.files.workingDirectory)
      ("preindex-" ++ world.stems world.drawn)).all, world.files.Free path :=
    fun isClear path member =>
      (supplied isClear).free 0 (Nat.succ_pos _) path (within _ path member)
  have wordsFree : clear → world.files.Free
      ((directory.fromRoot world.files.workingDirectory).child
        ("preindex-" ++ world.stems world.drawn ++ ".words")) := by
    intro isClear
    have usable := (forall_all.mp (free isClear)).1
    rw [words_eq] at usable
    exact usable
  have several : 0 < Action.attempts := Nat.succ_pos _
  have willing : clear → world.Willing := fun isClear => (supplied isClear).willing
  have reserved := Action.createUnique_ends Action.attempts willing fun isClear =>
    ⟨several, wordsFree isClear⟩
  refine reserved.lift_refused.bind ?_
  rintro _ _ ⟨draw, first, requests, rfl, sameDraw, firstNames, firstFree, later, rfl⟩
  dsimp only
  generalize isOwned : PreindexFiles.mk (directory.fromRoot world.files.workingDirectory)
    ("preindex-" ++ world.stems draw) = owned
  have wordsNames : Names world.files owned.words first := by
    rw [← isOwned, words_eq]
    exact firstNames
  have usable : clear → ∀ path ∈ owned.all, world.files.Free path := by
    intro isClear
    rw [← isOwned, sameDraw isClear]
    exact free isClear
  have handedOut : ∀ path ∈ owned.all, path ∈ paths (world.stems draw) := by
    rw [← isOwned]
    exact within (world.stems draw)
  have others := createOthers_ends (draw + 1) later willing wordsNames firstFree usable
  refine (others.cleaningUp owned.discard fun _ _ refused => refused).lift_refused.bind ?_
  rintro _ _ ⟨second, third, isAt, secondFree, thirdFree, rfl⟩
  exact .pure ⟨⟨first, second, third⟩, .of_fill (Nat.le_add_right_of_le later) isAt
    (Placement.forall_all.mpr ⟨firstFree, secondFree, thirdFree⟩) handedOut sameDraw supplied⟩

end

end PreindexFiles

/-! ### Opening and writing -/

namespace Preindex

open PreindexFiles

variable {owned : PreindexFiles} {place : Placement} {lists : List (Term × List Posting)}

/-- Lists are loaded from three files that hold their words. -/
theorem load_of_reads {files : FileSystem}
    (words : files.read owned.words = .ok (.file (wordsToBytes (lists.map (·.1)))))
    (counts : files.read owned.counts = .ok (.file (wordsToBytes
      (lists.map fun list => UInt64.ofNat list.2.length))))
    (docs : files.read owned.docs = .ok (.file (wordsToBytes (wordsOf lists))))
    (ascending : AscendingBy Prod.fst lists) (small : 2 * countPostings lists < wordLimit) :
    load owned files = .ok (ofLists owned lists) := by
  have sizes : ((lists.map (·.1)).toArray).size =
      ((lists.map fun list => UInt64.ofNat list.2.length).toArray).size := by
    rw [List.size_toArray, List.size_toArray, List.length_map, List.length_map]
  have isAscending : strictlyAscending (lists.map (·.1)) = true :=
    strictlyAscending_iff.mpr ascending
  have covered : (runningOffsets 0 (lists.map fun list => UInt64.ofNat list.2.length)).getLastD 0 =
      (wordsOf lists).toArray.size := by
    rw [runningOffsets_eq lists 0 (by omega), List.range_succ, List.map_append, List.map_singleton,
      List.getLastD_concat, offsetIn, List.take_length, Nat.zero_add, List.size_toArray,
      length_wordsOf]
  rw [load, Region.map_eq words, ok_bind, Region.map_eq counts, ok_bind, Region.map_eq docs,
    ok_bind]
  dsimp only
  rw [if_neg (not_not_intro sizes), isAscending, if_neg (by decide), if_neg (not_not_intro covered)]
  rfl

theorem load_eq {files : FileSystem} (holds : owned.Holds place lists files)
    (ascending : AscendingBy Prod.fst lists) (small : 2 * countPostings lists < wordLimit) :
    load owned files = .ok (ofLists owned lists) :=
  load_of_reads (holds.words.read_of_lookup holds.words_file)
    (holds.counts.read_of_lookup holds.counts_file) (holds.docs.read_of_lookup holds.docs_file)
    ascending small

theorem openFiles_eq {world : World} (holds : owned.Holds place lists world.files)
    (ascending : AscendingBy Prod.fst lists) (small : 2 * countPostings lists < wordLimit) :
    (openFiles owned).perform world = (.ok (ofLists owned lists), world) := by
  rw [Action.perform, openFiles, Action.cleaningUp, Action.inspect,
    load_eq holds ascending small]

section

variable {clear : Prop} {paths : String → List Path} {draws : Nat} {directory : Path}
  {world : World}

/-- The three files are filled one after the other. -/
theorem fill_ends (willing : clear → world.Willing) (isAt : owned.At place world.files)
    (ascending : AscendingBy Prod.fst lists) :
    (owned.fill lists).Ends world (Hindered clear) fun _ after => after =
      { world with requests := world.requests + 3, files := place.fill lists world.files } := by
  rw [PreindexFiles.fill, strictlyAscending_iff.mpr ascending, if_neg (by decide)]
  obtain ⟨atWords, atCounts, atDocs⟩ := Placement.forall_all.mp isAt.plain
  have first := SameDirectories.put_file isAt.words.named world.files atWords
    (wordsToBytes (lists.map (·.1)))
  have second := SameDirectories.put_file isAt.counts.named _
    (fun isDirectory => atCounts ((first.directories _).mp isDirectory))
    (wordsToBytes (lists.map fun list => UInt64.ofNat list.2.length))
  refine (Action.write_ends (fun isClear => (willing isClear).grants) isAt.words atWords
    _).lift_refused.bind ?_
  rintro _ _ rfl
  refine (Action.write_ends (fun isClear => ((willing isClear).requested _).grants)
    (isAt.counts.of_sameDirectories first) (fun isDirectory =>
    atCounts ((first.directories _).mp isDirectory)) _).lift_refused.bind ?_
  rintro _ _ rfl
  refine (Action.write_ends (fun isClear => (((willing isClear).requested _).requested _).grants)
    (isAt.docs.of_sameDirectories (first.trans second)) (fun isDirectory =>
    atDocs (((first.trans second).directories _).mp isDirectory)) _).lift_refused.weaken ?_
  rintro _ _ rfl
  rfl

/-- A preindex that was added keeps its places when it is filled. -/
theorem added_fill (lists : List (Term × List Posting)) {before between : World}
    (added : owned.Added paths draws clear place [] before between) :
    owned.Added paths draws clear place lists before
      { between with
        requests := between.requests + 3, files := place.fill lists between.files } := by
  have more : between.Precedes { between with
      requests := between.requests + 3, files := place.fill lists between.files } :=
    ⟨rfl, rfl, Nat.le_add_right _ _⟩
  have only := added.holds.fill_changesOnly lists
  exact {
    holds := added.holds.fill_holds lists
    handed_out := added.handed_out
    fresh := added.fresh
    only := added.only.again only
    precedes := added.precedes.trans more
    supplied := fun isClear => (added.supplied isClear).of_changesOnly more rfl only
      fun location member nothing => by
        obtain ⟨contents, isFile⟩ := added.holds.is_file location member
        rw [isFile] at nothing
        cases nothing }

/-- Writing lists in ascending order adds a preindex with these lists and opens it. -/
theorem writeNew_ends (within : Within paths directory world.files)
    (supplied : clear → Supplied paths (draws + 1) world)
    (ascending : AscendingBy Prod.fst lists) (small : 2 * countPostings lists < wordLimit) :
    (writeNew directory lists).Ends world (Hindered clear) fun preindex after =>
      ∃ owned place, preindex = ofLists owned lists ∧
        owned.Added paths draws clear place lists world after := by
  refine (create_ends within supplied).bind ?_
  rintro owned between ⟨place, added⟩
  have willing : clear → between.Willing := fun isClear => (added.supplied isClear).willing
  refine ((fill_ends willing added.holds.toAt ascending).cleaningUp owned.discard
    fun _ _ hindered => hindered).bind ?_
  rintro _ _ rfl
  have filled := added_fill lists added
  exact .of_value (openFiles_eq filled.holds ascending small) ⟨owned, place, rfl, filled⟩

end

end Preindex

end InvertedIndex
