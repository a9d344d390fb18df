/-
This file proves what finishing an index does to the files. Both files are first written
beside their targets under names that the system hands out, and then moved over the
targets. In the end the two targets hold the files of the lists and nothing else has
changed; only a refusal by the system can prevent this.
-/

import InvertedIndex.Proofs.Layout
import InvertedIndex.Proofs.PreindexFiles

namespace InvertedIndex

open FileSystem

/-! ### Targets -/

/-- A file can be put under this path. -/
def FileSystem.Writable (files : FileSystem) (path : Path) : Prop :=
  ∃ location, Names files path location ∧ files.lookup location ≠ some .directory

theorem FileSystem.Writable.of_sameDirectories {files after : FileSystem} {path : Path}
    (writable : files.Writable path) (same : SameDirectories files after) :
    after.Writable path := by
  obtain ⟨location, names, isFile⟩ := writable
  exact ⟨location, names.of_sameDirectories same, fun isDirectory =>
    isFile ((same.directories location).mp isDirectory)⟩

/-- The targets are two places, and no name that the system hands out leads to one of them. -/
structure Separate (paths : String → List Path) (docsTarget wordsTarget : Path)
    (stems : Nat → String) (files : FileSystem) : Prop where
  distinct : ∀ location, Names files docsTarget location → ¬ Names files wordsTarget location
  docs : ∀ draw, ∀ path ∈ paths (stems draw), ∀ location, Names files path location →
    ¬ Names files docsTarget location
  words : ∀ draw, ∀ path ∈ paths (stems draw), ∀ location, Names files path location →
    ¬ Names files wordsTarget location

theorem Separate.of_sameDirectories {paths : String → List Path} {docsTarget wordsTarget : Path}
    {stems : Nat → String} {files after : FileSystem}
    (separate : Separate paths docsTarget wordsTarget stems files)
    (same : SameDirectories files after) : Separate paths docsTarget wordsTarget stems after where
  distinct location docsNames wordsNames :=
    separate.distinct location (docsNames.of_sameDirectories same.symm)
      (wordsNames.of_sameDirectories same.symm)
  docs draw path member location names targetNames :=
    separate.docs draw path member location (names.of_sameDirectories same.symm)
      (targetNames.of_sameDirectories same.symm)
  words draw path member location names targetNames :=
    separate.words draw path member location (names.of_sameDirectories same.symm)
      (targetNames.of_sameDirectories same.symm)

/-! ### Files beside the targets -/

namespace Preindex

variable {clear : Prop} {paths : String → List Path} {draws : Nat}

/-- A file with these words was added beside a target under a name that the system handed
out, where nothing was. -/
structure Staged (paths : String → List Path) (draws : Nat) (clear : Prop) (sibling : Path)
    (location : Location) (words : Array UInt64) (before after : World) : Prop where
  names : Names after.files sibling location
  file : after.files.lookup location = some (.file (Region.toBytes words))
  handed_out : ∃ draw, sibling ∈ paths (before.stems draw)
  fresh : before.files.lookup location = none
  only : ChangesOnly [location] before.files after.files
  precedes : before.Precedes after
  supplied : clear → Supplied paths draws after

/-- A temporary file is created under a name that was handed out, where nothing was. -/
theorem createSibling_settles {directory : Path} {world : World} (willing : clear → world.Willing)
    (free : clear → world.files.Free (directory.child (".tmp" ++ world.stems world.drawn))) :
    (Action.createUnique directory ".tmp" "" Action.attempts).Ends world
      (fun failure after => Refused clear failure after ∧
        ∃ drawn requests, after = { world with drawn, requests })
      fun name after => ∃ draw location requests, name = ".tmp" ++ world.stems draw ∧
        (clear → draw = world.drawn) ∧ Names world.files (directory.child name) location ∧
        world.files.lookup location = none ∧ world.requests ≤ requests ∧
        after = { world with
          drawn := draw + 1, requests, files := world.files.put location (.file []) } := by
  have several : 0 < Action.attempts := Nat.succ_pos _
  rw [← String.append_empty (s := ".tmp" ++ _)] at free
  refine (Action.createUnique_settles Action.attempts willing fun isClear =>
    ⟨several, free isClear⟩).weaken fun name after created => ?_
  simpa only [String.append_empty] using created

theorem createSibling_ends {directory : Path} {world : World} (willing : clear → world.Willing)
    (free : clear → world.files.Free (directory.child (".tmp" ++ world.stems world.drawn))) :
    (Action.createUnique directory ".tmp" "" Action.attempts).Ends world (Refused clear)
      fun name after => ∃ draw location requests, name = ".tmp" ++ world.stems draw ∧
        (clear → draw = world.drawn) ∧ Names world.files (directory.child name) location ∧
        world.files.lookup location = none ∧ world.requests ≤ requests ∧
        after = { world with
          drawn := draw + 1, requests, files := world.files.put location (.file []) } :=
  (createSibling_settles willing free).weaken_failure fun _ _ refused => refused.1

theorem writeSibling_ends {target : Path} {world : World} (words : Array UInt64)
    (within : ∀ stem, (target.parent.fromRoot world.files.workingDirectory).child
      (".tmp" ++ stem) ∈ paths stem)
    (supplied : clear → Supplied paths (draws + 1) world) :
    (writeSibling target (.ok words)).Ends world (Hindered clear) fun sibling after =>
      ∃ location, Staged paths draws clear sibling location words world after := by
  rw [writeSibling]
  refine Action.Ends.fromRoot_bind ?_
  have willing : clear → world.Willing := fun isClear => (supplied isClear).willing
  refine (createSibling_ends willing fun isClear =>
    (supplied isClear).free 0 (Nat.succ_pos _) _ (within _)).lift_refused.bind ?_
  rintro _ _ ⟨draw, location, requests, rfl, sameDraw, names, fresh, later, rfl⟩
  dsimp only
  generalize isSibling : (target.parent.fromRoot world.files.workingDirectory).child
    (".tmp" ++ world.stems draw) = sibling at names
  have isFile : world.files.lookup location ≠ some .directory :=
    plain_of_none fresh
  have created := ChangesOnly.put_file names.named world.files isFile []
  have names' := names.of_sameDirectories created.directories
  have isFile' : (world.files.put location (.file [])).lookup location ≠ some .directory :=
    plain_of_file (lookup_put_self names.named _ _)
  have grants (isClear : clear) : ({ world with
      drawn := draw + 1, requests, files := world.files.put location (.file []) } : World).Grants :=
    willing isClear requests later
  refine Action.Ends.bind (Action.Ends.cleaningUp (Action.Ends.ofResult_ok_bind
    (Action.write_ends grants names' isFile' (Region.toBytes words)).lift_refused)
    (fun world => world.removeIfPossible sibling) fun _ _ hindered => hindered) ?_
  rintro _ _ rfl
  have written := ChangesOnly.put_file names.named _ isFile' (Region.toBytes words)
  have only := created.again written
  have handedOut : sibling ∈ paths (world.stems draw) := isSibling ▸ within (world.stems draw)
  have precedes : world.Precedes { world with
      drawn := draw + 1
      requests := requests + 1
      files := (world.files.put location (.file [])).put location
        (.file (Region.toBytes words)) } :=
    ⟨rfl, rfl, Nat.le_succ_of_le later⟩
  refine .pure ⟨location, {
    names := names'.of_sameDirectories written.directories
    file := lookup_put_self names.named _ _
    handed_out := ⟨draw, handedOut⟩
    fresh := fresh
    only := only
    precedes := precedes
    supplied := fun isClear => (supplied isClear).of_drawn precedes
      (congrArg (· + 1) (sameDraw isClear)) only fun other member => ?_ }⟩
  rw [List.mem_singleton.mp member, ← sameDraw isClear]
  exact ⟨sibling, handedOut, names⟩

/-- A file that is staged after another one is at another place. -/
theorem Staged.stages_differ {others : String → List Path} {later : Nat} {allowed : Prop}
    {sibling other : Path} {location place : Location} {words directory : Array UInt64}
    {world first second : World}
    (staged : Staged paths draws clear sibling location words world first)
    (next : Staged others later allowed other place directory first second) :
    location ≠ place := by
  intro equal
  have absent := next.fresh
  rw [← equal, staged.file] at absent
  cases absent

/-- What is where after a file was moved. -/
theorem lookup_moved {files : FileSystem} {location place : Location} {contents : List UInt8}
    (named : location ≠ []) (placeNamed : place ≠ []) (other : Location) :
    ((files.erase location).put place (.file contents)).lookup other =
      if other = place then some (.file contents)
      else if other = location then none else files.lookup other := by
  rw [lookup_put placeNamed, lookup_erase named]

theorem moved_sameDirectories {files : FileSystem} {location place : Location}
    (named : location ≠ []) (placeNamed : place ≠ [])
    (isFile : files.lookup location ≠ some .directory)
    (free : files.lookup place ≠ some .directory) (contents : List UInt8) :
    SameDirectories files ((files.erase location).put place (.file contents)) := by
  have erased := SameDirectories.erase_file named files isFile
  exact erased.trans (.put_file placeNamed _ (fun isDirectory =>
    free ((erased.directories place).mp isDirectory)) contents)

/-- Moving a file over a target puts it there and leaves nothing where it was. -/
theorem persist_ends {sibling target : Path} {location : Location} {contents : List UInt8}
    {world : World} (grants : clear → world.Grants)
    (names : Names world.files sibling location)
    (isFile : world.files.lookup location = some (.file contents))
    (apart : ¬ Names world.files target location)
    (writable : clear → world.files.Writable target) :
    (persist sibling target).Ends world (Refused clear) fun _ after =>
      ∃ place, Names world.files target place ∧ world.files.lookup place ≠ some .directory ∧
        after = { world.requested with
          files := (world.files.erase location).put place (.file contents) } := by
  have moves {place : Location} (placeNames : Names world.files target place)
      (free : world.files.lookup place ≠ some .directory) :
      world.files.rename sibling target =
        .ok ((world.files.erase location).put place (.file contents)) :=
    names.rename_eq placeNames isFile (fun same => apart (same ▸ placeNames)) free
  refine ((Action.requestChange_ends _ grants fun isClear => ?_).weaken_failure
    fun _ _ refused => refused.1).weaken ?_
  · obtain ⟨place, placeNames, free⟩ := writable isClear
    rw [moves placeNames free]
    rfl
  · rintro _ _ ⟨files, moved, rfl⟩
    obtain ⟨place, placeNames, free⟩ := names_of_rename names isFile moved
    rw [moves placeNames free] at moved
    cases moved
    exact ⟨place, placeNames, free, rfl⟩

/-! ### Finishing an index -/

/-- The report on the index of these lists. -/
def reportOf (lists : List (Term × List Posting)) : Report where
  terms := lists.length
  postings := countPostings lists
  wordsBytes := (wordsFile lists).size * 8
  docsBytes := (docsFile lists).size * 8

/-- The targets hold the two files of these lists, and nothing else has changed. -/
structure Published (docsTarget wordsTarget : Path) (docsPlace wordsPlace : Location)
    (lists : List (Term × List Posting)) (before after : FileSystem) : Prop where
  docs_names : Names after docsTarget docsPlace
  words_names : Names after wordsTarget wordsPlace
  docs_file : after.lookup docsPlace = some (.file (Region.toBytes (docsFile lists)))
  words_file : after.lookup wordsPlace = some (.file (Region.toBytes (wordsFile lists)))
  only : ChangesOnly [docsPlace, wordsPlace] before after

section

variable {lists : List (Term × List Posting)} {docsTarget wordsTarget : Path}
  {docsPlace wordsPlace : Location} {before after : FileSystem}

theorem Published.docs_read
    (published : Published docsTarget wordsTarget docsPlace wordsPlace lists before after) :
    after.read docsTarget = .ok (.file (Region.toBytes (docsFile lists))) :=
  published.docs_names.read_of_lookup published.docs_file

theorem Published.words_read
    (published : Published docsTarget wordsTarget docsPlace wordsPlace lists before after) :
    after.read wordsTarget = .ok (.file (Region.toBytes (wordsFile lists))) :=
  published.words_names.read_of_lookup published.words_file

end

variable {owned : PreindexFiles} {lists : List (Term × List Posting)} {world : World}
  {docsTarget wordsTarget : Path}

/-- Both files are complete beside the targets, in two places where nothing was before. -/
structure BothStaged (docsSibling wordsSibling : Path) (docsStage wordsStage : Location)
    (lists : List (Term × List Posting)) (before after : FileSystem) : Prop where
  docs_names : Names after docsSibling docsStage
  words_names : Names after wordsSibling wordsStage
  docs_file : after.lookup docsStage = some (.file (Region.toBytes (docsFile lists)))
  words_file : after.lookup wordsStage = some (.file (Region.toBytes (wordsFile lists)))
  docs_fresh : before.lookup docsStage = none
  words_fresh : before.lookup wordsStage = none
  differ : docsStage ≠ wordsStage
  only : ChangesOnly [docsStage, wordsStage] before after

variable {docsSibling wordsSibling : Path} {docsStage wordsStage : Location}
  {docsPlace wordsPlace : Location}

theorem BothStaged.of_staged {first second : World} {later : Nat}
    (docsStaged : Staged paths later clear docsSibling docsStage (docsFile lists) world first)
    (wordsStaged : Staged paths draws clear wordsSibling wordsStage (wordsFile lists)
      first second) :
    BothStaged docsSibling wordsSibling docsStage wordsStage lists world.files second.files := by
  have differ : docsStage ≠ wordsStage := docsStaged.stages_differ wordsStaged
  refine {
    docs_names := docsStaged.names.of_sameDirectories wordsStaged.only.directories
    words_names := wordsStaged.names
    docs_file := ?_
    words_file := wordsStaged.file
    docs_fresh := docsStaged.fresh
    words_fresh := ?_
    differ := differ
    only := docsStaged.only.trans wordsStaged.only }
  · rw [wordsStaged.only.elsewhere _ fun member => differ (List.mem_singleton.mp member)]
    exact docsStaged.file
  · rw [← docsStaged.only.elsewhere _ fun member => differ (List.mem_singleton.mp member).symm]
    exact wordsStaged.fresh

namespace BothStaged

variable {before files : FileSystem}

/-- The files after the first move. -/
theorem moved (staged : BothStaged docsSibling wordsSibling docsStage wordsStage lists before files)
    (placeNames : Names files docsTarget docsPlace)
    (free : files.lookup docsPlace ≠ some .directory) :
    SameDirectories files ((files.erase docsStage).put docsPlace
      (.file (Region.toBytes (docsFile lists)))) := by
  exact moved_sameDirectories staged.docs_names.named placeNames.named
    (plain_of_file staged.docs_file) free _

/-- The first move leaves the other file where it is. -/
theorem words_held
    (staged : BothStaged docsSibling wordsSibling docsStage wordsStage lists before files)
    (placeNames : Names files docsTarget docsPlace) (apart : wordsStage ≠ docsPlace) :
    ((files.erase docsStage).put docsPlace (.file (Region.toBytes (docsFile lists)))).lookup
      wordsStage = some (.file (Region.toBytes (wordsFile lists))) := by
  rw [lookup_moved staged.docs_names.named placeNames.named, if_neg apart,
    if_neg staged.differ.symm]
  exact staged.words_file

/-- The two moves leave both files under the targets. -/
theorem published
    (staged : BothStaged docsSibling wordsSibling docsStage wordsStage lists before files)
    (docsNames : Names files docsTarget docsPlace)
    (docsFree : files.lookup docsPlace ≠ some .directory)
    (wordsNames : Names ((files.erase docsStage).put docsPlace
      (.file (Region.toBytes (docsFile lists)))) wordsTarget wordsPlace)
    (wordsFree : ((files.erase docsStage).put docsPlace
      (.file (Region.toBytes (docsFile lists)))).lookup wordsPlace ≠ some .directory)
    (apart : wordsStage ≠ docsPlace) (placesDiffer : docsPlace ≠ wordsPlace) :
    Published docsTarget wordsTarget docsPlace wordsPlace lists before
      ((((files.erase docsStage).put docsPlace
        (.file (Region.toBytes (docsFile lists)))).erase wordsStage).put wordsPlace
          (.file (Region.toBytes (wordsFile lists)))) := by
  have moved := staged.moved docsNames docsFree
  have stageNames := staged.words_names.of_sameDirectories moved
  have movedAgain := moved_sameDirectories stageNames.named wordsNames.named
    (plain_of_file (staged.words_held docsNames apart)) wordsFree
    (Region.toBytes (wordsFile lists))
  refine {
    docs_names := docsNames.of_sameDirectories (moved.trans movedAgain)
    words_names := wordsNames.of_sameDirectories movedAgain
    docs_file := ?_
    words_file := ?_
    only := ⟨staged.only.directories.trans (moved.trans movedAgain),
      fun location untouched => ?_⟩ }
  · rw [lookup_moved stageNames.named wordsNames.named, if_neg placesDiffer, if_neg apart.symm,
      lookup_moved staged.docs_names.named docsNames.named, if_pos rfl]
  · rw [lookup_moved stageNames.named wordsNames.named, if_pos rfl]
  · -- Where the two files were staged nothing was before, and nothing is left.
    simp only [List.mem_cons, List.not_mem_nil, or_false, not_or] at untouched
    rw [lookup_moved stageNames.named wordsNames.named, if_neg untouched.2,
      lookup_moved staged.docs_names.named docsNames.named, if_neg untouched.1]
    by_cases isWordsStage : location = wordsStage
    · rw [if_pos isWordsStage, isWordsStage, staged.words_fresh]
    · rw [if_neg isWordsStage]
      by_cases isDocsStage : location = docsStage
      · rw [if_pos isDocsStage, isDocsStage, staged.docs_fresh]
      · rw [if_neg isDocsStage, staged.only.elsewhere]
        simp only [List.mem_cons, List.not_mem_nil, or_false, not_or]
        exact ⟨isDocsStage, isWordsStage⟩

end BothStaged

/-- Once both files are complete, the two moves put them under the targets. -/
theorem install_ends {first second : World} {later : Nat}
    (docsStaged : Staged paths later clear docsSibling docsStage (docsFile lists) world first)
    (wordsStaged : Staged paths draws clear wordsSibling wordsStage (wordsFile lists) first second)
    (separate : Separate paths docsTarget wordsTarget world.stems world.files)
    (docsWritable : clear → world.files.Writable docsTarget)
    (wordsWritable : clear → world.files.Writable wordsTarget) (report : Report) :
    (do
      persist docsSibling docsTarget
      persist wordsSibling wordsTarget
      return report : Action StorageError Report).Ends second (Hindered clear)
      fun result after => result = report ∧ ∃ docsPlace wordsPlace,
        Published docsTarget wordsTarget docsPlace wordsPlace lists world.files after.files := by
  have staged := BothStaged.of_staged docsStaged wordsStaged
  have same := staged.only.directories
  have separate' := separate.of_sameDirectories same
  obtain ⟨docsDraw, docsHandedOut⟩ := docsStaged.handed_out
  obtain ⟨wordsDraw, wordsHandedOut⟩ := wordsStaged.handed_out
  rw [docsStaged.precedes.stems] at wordsHandedOut
  have willing : clear → second.Willing := fun isClear => (wordsStaged.supplied isClear).willing
  refine (persist_ends (fun isClear => (willing isClear).grants) staged.docs_names staged.docs_file
    (separate'.docs docsDraw docsSibling docsHandedOut docsStage staged.docs_names)
    fun isClear => (docsWritable isClear).of_sameDirectories same).lift_refused.bind ?_
  rintro _ _ ⟨docsPlace, docsNames, docsFree, rfl⟩
  have moved := staged.moved docsNames docsFree
  have apart : wordsStage ≠ docsPlace := fun equal =>
    separate'.docs wordsDraw wordsSibling wordsHandedOut wordsStage staged.words_names
      (equal ▸ docsNames)
  have stageNames := staged.words_names.of_sameDirectories moved
  refine (persist_ends (fun isClear => ((willing isClear).requested _).grants) stageNames
    (staged.words_held docsNames apart)
    ((separate'.of_sameDirectories moved).words wordsDraw wordsSibling wordsHandedOut wordsStage
      stageNames)
    fun isClear =>
      (wordsWritable isClear).of_sameDirectories (same.trans moved)).lift_refused.bind ?_
  rintro _ _ ⟨wordsPlace, wordsNames, wordsFree, rfl⟩
  have placesDiffer : docsPlace ≠ wordsPlace := fun equal =>
    separate'.distinct docsPlace docsNames (equal ▸ wordsNames.of_sameDirectories moved.symm)
  exact .pure ⟨rfl, docsPlace, wordsPlace,
    staged.published docsNames docsFree wordsNames wordsFree apart placesDiffer⟩

theorem finalize_ends (owned : PreindexFiles) (finishable : Finishable lists)
    (docsWithin : ∀ stem, (docsTarget.parent.fromRoot world.files.workingDirectory).child
      (".tmp" ++ stem) ∈ paths stem)
    (wordsWithin : ∀ stem, (wordsTarget.parent.fromRoot world.files.workingDirectory).child
      (".tmp" ++ stem) ∈ paths stem)
    (supplied : clear → Supplied paths (draws + 2) world)
    (separate : Separate paths docsTarget wordsTarget world.stems world.files)
    (docsWritable : clear → world.files.Writable docsTarget)
    (wordsWritable : clear → world.files.Writable wordsTarget) :
    ((ofLists owned lists).finalize docsTarget wordsTarget).Ends world (Hindered clear)
      fun report after => report = reportOf lists ∧ ∃ docsPlace wordsPlace,
        Published docsTarget wordsTarget docsPlace wordsPlace lists world.files after.files := by
  rw [finalize, draft_eq finishable]
  dsimp only [Except.map]
  refine (writeSibling_ends (docsFile lists) docsWithin supplied).bind ?_
  rintro docsSibling first ⟨docsStage, docsStaged⟩
  refine Action.Ends.cleaningUp (Action.Ends.ofResult_ok_bind ?_)
    (fun world => world.removeIfPossible docsSibling) fun _ _ hindered => hindered
  rw [write_directory finishable]
  dsimp only [Except.map]
  have wordsWithin' : ∀ stem, (wordsTarget.parent.fromRoot first.files.workingDirectory).child
      (".tmp" ++ stem) ∈ paths stem := by
    rw [docsStaged.only.directories.workingDirectory]
    exact wordsWithin
  refine (writeSibling_ends (wordsFile lists) wordsWithin' docsStaged.supplied).bind ?_
  rintro wordsSibling second ⟨wordsStage, wordsStaged⟩
  refine Action.Ends.cleaningUp (Action.Ends.ofResult_ok_bind ?_)
    (fun world => world.removeIfPossible wordsSibling) fun _ _ hindered => hindered
  have report : Report.mk (ofLists owned lists).numTerms (ofLists owned lists).numPostings
      ((wordsFile lists).size * 8) ((draftOf lists).offset * 8) = reportOf lists := by
    simp [reportOf, draftOf, docsFile]
  rw [← report]
  exact install_ends docsStaged wordsStaged separate docsWritable wordsWritable _

end Preindex

end InvertedIndex
