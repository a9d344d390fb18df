/-
This file proves what is left in the files when an index could not be finished. Whatever was
staged beside the targets is gone, and whichever step failed the files are what they were, with
one exception. The two moves are separate steps, so when both files are complete and the second
move fails, because no file can be put under the target of the words or because the system
refuses, the postings stay where the first move put them.
-/

import InvertedIndex.Proofs.Cleanup
import InvertedIndex.Proofs.Finalization

namespace InvertedIndex

open FileSystem World

/-! ### Paths that nothing can be put under -/

theorem Path.pieces_ne_nil (text : List Char) : pieces text ≠ [] := by
  fun_induction pieces text with
  | case1 => nofun
  | case2 => nofun
  | case3 => nofun
  | case4 => nofun

/-- A piece that is neither empty nor dots is a name. -/
theorem Path.stepOf_of_name {piece : List Char} (some_character : piece ≠ [])
    (notDot : piece ≠ ['.']) (notDots : piece ≠ ['.', '.']) :
    stepOf piece = some (.into (String.ofList piece)) := by
  unfold stepOf
  split
  · exact absurd rfl some_character
  · exact absurd rfl notDot
  · exact absurd rfl notDots
  · rfl

/-- A text that does not end in a slash or in dots ends in the name of an entry. -/
theorem Path.last_of_ending {text : String} (isName : (ofText text).ending = .name) :
    ∃ name, (ofText text).steps.getLast? = some (.into name) := by
  have parts : pieces text.toList =
      (pieces text.toList).dropLast ++ [(pieces text.toList).getLast (pieces_ne_nil _)] :=
    (List.dropLast_append_getLast _).symm
  generalize (pieces text.toList).getLast (pieces_ne_nil _) = last at parts
  generalize (pieces text.toList).dropLast = front at parts
  rw [ofText] at isName ⊢
  dsimp only at isName ⊢
  rw [parts, endingOf, List.getLast?_concat] at isName
  have some_character : last ≠ [] := by
    rintro rfl
    split at isName
    · cases isName
    · cases isName
    · rw [if_pos rfl] at isName
      cases isName
  have isLast : ((front ++ [last]).filter (· ≠ [])).getLast? = some last := by
    rw [List.filter_append, List.filter_cons_of_pos (by simpa using some_character),
      List.filter_nil, List.getLast?_concat]
  rw [isLast] at isName
  have notDot : last ≠ ['.'] := by
    rintro rfl
    cases isName
  have notDots : last ≠ ['.', '.'] := by
    rintro rfl
    cases isName
  refine ⟨String.ofList last, ?_⟩
  rw [parts, List.filterMap_append, List.filterMap_cons_some
    (stepOf_of_name some_character notDot notDots), List.filterMap_nil, List.getLast?_concat]

namespace FileSystem

variable {before after : FileSystem} {path : Path}

/-- A directory that a path names is there wherever the directories are the same. -/
theorem read_of_sameDirectories (same : SameDirectories before after)
    (isDirectory : before.read path = .ok .directory) : after.read path = .ok .directory := by
  rw [read] at isDirectory ⊢
  cases resolved : before.resolve path with
  | error reason =>
    rw [resolved] at isDirectory
    cases isDirectory
  | ok found =>
    rw [resolved] at isDirectory
    obtain ⟨_, accepted, rest⟩ := bind_eq_ok.mp resolved
    obtain ⟨location, walked, isFound⟩ := bind_eq_ok.mp rest
    have isThere : before.lookup location = some .directory := by
      split at isFound
      · cases isFound
      · assumption
      · split at isFound
        · cases isFound
          cases isDirectory
        · cases isFound
    have stays := (same.directories location).mpr isThere
    have walkedAfter := walk_of_sameDirectories same walked isThere
    rw [← same.origin_eq] at walkedAfter
    rw [resolve, accepted, ok_bind, walkedAfter, ok_bind, stays]
    rfl

/-- Where a file is read another one can be written. -/
theorem writable_of_read {text : String} {contents : List UInt8}
    (isFile : before.read (.ofText text) = .ok (.file contents)) :
    before.Writable (.ofText text) := by
  obtain ⟨location, names, isThere⟩ := names_of_read Path.last_of_ending isFile
  exact ⟨location, names, plain_of_file isThere⟩

/-- What is at a path that no file can be put under depends on the directories alone. -/
theorem read_of_not_writable {text : String} (same : SameDirectories before after)
    (closed : ¬ before.Writable (.ofText text)) :
    (after.read (.ofText text)).toOption = (before.read (.ofText text)).toOption := by
  have directory {files : FileSystem} (isClosed : ¬ files.Writable (.ofText text)) {node : Node}
      (found : files.read (.ofText text) = .ok node) : node = .directory := by
    cases node with
    | directory => rfl
    | file contents => exact absurd (writable_of_read found) isClosed
  cases isBefore : before.read (.ofText text) with
  | ok node =>
    cases directory closed isBefore
    rw [read_of_sameDirectories same isBefore]
  | error reason =>
    cases isAfter : after.read (.ofText text) with
    | error _ => rfl
    | ok node =>
      have closedAfter : ¬ after.Writable (.ofText text) := fun writable =>
        closed (writable.of_sameDirectories same.symm)
      cases directory closedAfter isAfter
      rw [read_of_sameDirectories same.symm isAfter] at isBefore
      cases isBefore

/-- What is at a path stays when the directories do, and the place to which the path leads. -/
theorem read_of_elsewhere {text : String} (same : SameDirectories before after)
    (stays : ∀ location, Names before (.ofText text) location →
      after.lookup location = before.lookup location) :
    (after.read (.ofText text)).toOption = (before.read (.ofText text)).toOption := by
  by_cases writable : before.Writable (.ofText text)
  · obtain ⟨location, names, -⟩ := writable
    rw [names.read_eq, (names.of_sameDirectories same).read_eq, stays location names]
  · exact read_of_not_writable same writable

/-- Moving a file to where it is changes nothing. -/
theorem Names.rename_self {files : FileSystem} {path target : Path} {location : Location}
    {contents : List UInt8} (names : Names files path location)
    (targetNames : Names files target location)
    (isFile : files.lookup location = some (.file contents)) :
    files.rename path target = .ok files := by
  have noNul : target.holdsNul ≠ true := by
    intro holds
    have accepted := targetNames.accepted
    rw [accept, if_pos holds] at accepted
    cases accepted
  rw [rename, if_neg noNul, names.place_eq, ok_bind, targetNames.place_eq, ok_bind]
  dsimp only
  rw [names.entry_eq, ok_bind, isFile]
  dsimp only
  rw [ok_bind, names.ending, targetNames.ending, if_neg (by simp), if_neg (by simp), if_pos rfl]

end FileSystem

namespace Preindex

/-! ### Staging and moving -/

/-- A file that could not be staged is not there. -/
theorem writeSibling_restores (target : Path) (contents : Except (Failure StorageError)
    (Array UInt64)) (world : World) :
    (writeSibling target contents).Ends world
      (fun _ after => ChangesOnly [] world.files after.files)
      fun _ _ => ∃ words, contents = .ok words := by
  rw [writeSibling]
  refine Action.Ends.fromRoot_bind ?_
  refine ((createSibling_settles (fun isClear : False => isClear.elim)
    fun isClear => isClear.elim).lift fun _ after kept => ?_).bind ?_
  · obtain ⟨-, drawn, requests, rfl⟩ := kept
    exact .refl _
  rintro _ _ ⟨draw, location, requests, rfl, -, names, nothing, -, rfl⟩
  dsimp only
  generalize (target.parent.fromRoot world.files.workingDirectory).child
    (".tmp" ++ world.stems draw) = sibling at names
  have isFile : world.files.lookup location ≠ some .directory :=
    plain_of_none nothing
  have created := ChangesOnly.put_file names.named world.files isFile []
  have filled : (fillSibling sibling contents).Ends
      { world with drawn := draw + 1, requests, files := world.files.put location (.file []) }
      (fun _ after => ChangesOnly [location] world.files after.files)
      fun _ _ => ∃ words, contents = .ok words := by
    cases contents with
    | error failure =>
      exact .ofResult_error_bind created
    | ok words =>
      have isFile' : (world.files.put location (.file [])).lookup location ≠ some .directory :=
        plain_of_file (lookup_put_self names.named _ _)
      refine Action.Ends.ofResult_ok_bind ?_
      refine ((Action.write_keeps (names.of_sameDirectories created.directories) isFile' _).lift
        fun _ after left => ?_).weaken fun _ _ _ => ⟨words, rfl⟩
      -- The front of the words is where the whole of them was to be.
      obtain ⟨front, -, rfl⟩ := left
      exact created.again (.put_file names.named _ isFile' front)
  refine (filled.cleaningUp (fun world => world.removeIfPossible sibling)
    fun _ after only => ?_).bind fun _ _ isContents => .pure isContents
  show ChangesOnly [] world.files (after.removeAll [sibling]).files
  refine World.removeAll_undoes only (fun place member => ?_) fun path member place placeNames => ?_
  · rw [List.mem_singleton.mp member]
    exact ⟨sibling, List.mem_singleton_self _, names⟩
  · rw [List.mem_singleton.mp member] at placeNames
    rw [placeNames.unique names, nothing]

/-- Otherwise it was staged. -/
theorem writeSibling_settles (target : Path) (contents : Except (Failure StorageError)
    (Array UInt64)) (world : World) :
    (writeSibling target contents).Ends world
      (fun _ after => ChangesOnly [] world.files after.files)
      fun sibling after => ∃ words location paths, contents = .ok words ∧
        Staged paths 0 False sibling location words world after := by
  have restores := writeSibling_restores target contents world
  cases contents with
  | error failure =>
    refine restores.weaken fun _ _ isOk => ?_
    obtain ⟨words, isWords⟩ := isOk
    cases isWords
  | ok words =>
    have staged : (writeSibling target (.ok words)).Ends world (Hindered False)
        fun sibling after => ∃ location, Staged
          (fun stem => [(target.parent.fromRoot world.files.workingDirectory).child
            (".tmp" ++ stem)]) 0 False sibling location words world after :=
      writeSibling_ends words (fun _ => List.mem_singleton_self _) nofun
    refine ((restores.both staged).weaken_failure fun _ _ both => both.1).weaken ?_
    rintro sibling after ⟨-, location, isStaged⟩
    exact ⟨words, location, _, rfl, isStaged⟩

/-- A move that is refused leaves the files as they are, and the target is no place for a
file, or the system did not grant it. Otherwise the file is where the target leads and no longer
where it was. -/
theorem persist_settles {sibling target : Path} {location : Location} {contents : List UInt8}
    {world : World} (names : Names world.files sibling location)
    (isFile : world.files.lookup location = some (.file contents)) :
    (persist sibling target).Ends world
      (fun failure after => (∃ reason, failure = .error reason) ∧ after.files = world.files ∧
        (¬ world.files.Writable target ∨ ¬ world.Grants))
      fun _ after => ∃ place, Names world.files target place ∧
        SameDirectories world.files after.files ∧ ∀ other, after.files.lookup other =
          if other = place then some (.file contents)
          else if other = location then none else world.files.lookup other := by
  have atLocation : world.files.lookup location ≠ some .directory :=
    plain_of_file isFile
  have moves (place : Location) (placeNames : Names world.files target place)
      (free : world.files.lookup place ≠ some .directory) :
      ∃ files, world.files.rename sibling target = .ok files ∧
        SameDirectories world.files files ∧ ∀ other, files.lookup other =
          if other = place then some (.file contents)
          else if other = location then none else world.files.lookup other := by
    by_cases same : location = place
    · subst same
      refine ⟨world.files, names.rename_self placeNames isFile, .refl _, fun other => ?_⟩
      by_cases isThere : other = location
      · rw [if_pos isThere, isThere, isFile]
      · rw [if_neg isThere, if_neg isThere]
    · exact ⟨_, names.rename_eq placeNames isFile same free,
        moved_sameDirectories names.named placeNames.named atLocation free contents,
        lookup_moved names.named placeNames.named⟩
  have allowed (isClear : world.files.Writable target ∧ world.Grants) :
      (world.files.rename sibling target).isOk = true := by
    obtain ⟨⟨place, placeNames, free⟩, -⟩ := isClear
    obtain ⟨files, isRenamed, -⟩ := moves place placeNames free
    rw [isRenamed]
    rfl
  refine ((Action.requestChange_ends _ And.right allowed).weaken_failure
    fun failure _ refused => ?_).weaken ?_
  · obtain ⟨⟨hindered, reason⟩, rfl⟩ := refused
    exact ⟨reason, rfl, not_and_or.mp hindered⟩
  · rintro _ _ ⟨files, renamed, rfl⟩
    obtain ⟨place, placeNames, free⟩ := names_of_rename names isFile renamed
    obtain ⟨same, isRenamed, directories, lookups⟩ := moves place placeNames free
    rw [renamed] at isRenamed
    cases isRenamed
    exact ⟨place, placeNames, directories, lookups⟩

/-! ### What finishing an index may change -/

/-- Files may have been put under the two targets. No file has gone, and everywhere else the
files are what they were. -/
structure Replaces (docsTarget wordsTarget : Path) (before after : FileSystem) : Prop where
  directories : SameDirectories before after
  remains : ∀ location contents, before.lookup location = some (.file contents) →
    ∃ others, after.lookup location = some (.file others)
  elsewhere : ∀ location, ¬ Names before docsTarget location →
    ¬ Names before wordsTarget location → after.lookup location = before.lookup location

/-- Where nothing has changed nothing was put. -/
theorem Replaces.of_unchanged {docsTarget wordsTarget : Path} {before after : FileSystem}
    (only : ChangesOnly [] before after) : Replaces docsTarget wordsTarget before after where
  directories := only.directories
  remains location contents isFile := ⟨contents, by rw [only.elsewhere _ List.not_mem_nil, isFile]⟩
  elsewhere location _ _ := only.elsewhere location List.not_mem_nil

/-- Two files that were staged where nothing was, and then were moved, replace the targets. -/
theorem Replaces.of_moves {docsTarget wordsTarget : Path}
    {docsStage wordsStage docsPlace wordsPlace : Location}
    {before middle between after : FileSystem} {docs words : List UInt8}
    (staged : ChangesOnly [wordsStage, docsStage] before middle)
    (docsFresh : before.lookup docsStage = none) (wordsFresh : before.lookup wordsStage = none)
    (docsNames : Names before docsTarget docsPlace)
    (wordsNames : Names before wordsTarget wordsPlace) (same : SameDirectories before after)
    (docsMoved : ∀ other, between.lookup other =
      if other = docsPlace then some (.file docs)
      else if other = docsStage then none else middle.lookup other)
    (wordsMoved : ∀ other, after.lookup other =
      if other = wordsPlace then some (.file words)
      else if other = wordsStage then none else between.lookup other) :
    Replaces docsTarget wordsTarget before after := by
  -- Away from the targets only the two stages differed in between, and they are empty again.
  have others (location : Location) (notDocs : location ≠ docsPlace)
      (notWords : location ≠ wordsPlace) : after.lookup location = before.lookup location := by
    rw [wordsMoved, if_neg notWords, docsMoved, if_neg notDocs]
    by_cases isWordsStage : location = wordsStage
    · rw [if_pos isWordsStage, isWordsStage, wordsFresh]
    by_cases isDocsStage : location = docsStage
    · rw [if_neg isWordsStage, if_pos isDocsStage, isDocsStage, docsFresh]
    · rw [if_neg isWordsStage, if_neg isDocsStage, staged.elsewhere]
      simp [isWordsStage, isDocsStage]
  refine ⟨same, fun location contents wasFile => ?_, fun location notDocs notWords =>
    others location (fun isPlace => notDocs (isPlace ▸ docsNames))
      fun isPlace => notWords (isPlace ▸ wordsNames)⟩
  by_cases isWords : location = wordsPlace
  · exact ⟨words, by rw [wordsMoved, if_pos isWords]⟩
  by_cases isDocs : location = docsPlace
  · have notStage : location ≠ wordsStage := by
      rintro rfl
      rw [wordsFresh] at wasFile
      cases wasFile
    exact ⟨docs, by rw [wordsMoved, if_neg isWords, if_neg notStage, docsMoved, if_pos isDocs]⟩
  · exact ⟨contents, by rw [others location isDocs isWords, wasFile]⟩

/-! ### An index that was not finished -/

/-- A run that is stopped between its two moves. Both files were staged, and the postings were
moved over their target. Then the words are not moved over theirs: no file can be put there, or
the system does not grant it. -/
structure StoppedBetween (preindex : Preindex) (docsTarget wordsTarget : Path) (world : World) where
  draft : Draft
  directory : WrittenStore
  docsSibling : Path
  wordsSibling : Path
  /-- The world after each of the steps. -/
  docsStaged : World
  wordsStaged : World
  docsMoved : World
  last : World
  reason : FileError
  planned : preindex.draft = .ok draft
  written : Shape.terms.write draft.directory = .ok directory
  stages_docs : (writeSibling docsTarget (.ok draft.docs)).perform world =
    (.ok docsSibling, docsStaged)
  stages_words : (writeSibling wordsTarget (.ok directory.words)).perform docsStaged =
    (.ok wordsSibling, wordsStaged)
  moves_docs : (persist docsSibling docsTarget).perform wordsStaged = (.ok (), docsMoved)
  stops : (persist wordsSibling wordsTarget).perform docsMoved = (.error (.error reason), last)
  why : ¬ world.files.Writable wordsTarget ∨ ¬ docsMoved.Grants

/-- Apart from what is staged, the files are what they were, or else the run was stopped between
its two moves. Then the files differ under the target of the postings alone, and all the postings
are there. -/
def Unfinished (preindex : Preindex) (docsTarget wordsTarget : Path) (staged : List Location)
    (world : World) (failure : Failure StorageError) (after : FileSystem) : Prop :=
  ChangesOnly staged world.files after ∨
    ∃ (stopped : StoppedBetween preindex docsTarget wordsTarget world) (place : Location),
      failure = .error (.files stopped.reason) ∧ Names world.files docsTarget place ∧
      after.lookup place = some (.file (Region.toBytes stopped.draft.docs)) ∧
      ChangesOnly (place :: staged) world.files after

variable {preindex : Preindex} {docsTarget wordsTarget : Path}

/-- Removing a file that was staged leaves the others. -/
theorem Unfinished.remove {staged : List Location} {start world : World}
    {failure : Failure StorageError} {sibling : Path} {stage : Location}
    (names : Names start.files sibling stage) (fresh : start.files.lookup stage = none)
    (unfinished : Unfinished preindex docsTarget wordsTarget (stage :: staged) start failure
      world.files) :
    Unfinished preindex docsTarget wordsTarget staged start failure
      (world.removeIfPossible sibling).files := by
  have same : SameDirectories start.files world.files := by
    rcases unfinished with only | ⟨_, _, _, _, _, only⟩ <;> exact only.directories
  have removed := lookup_removeIfPossible (names.of_sameDirectories same) fun isDirectory => by
    rw [(same.directories stage).mp isDirectory] at fresh
    cases fresh
  have directories := same.trans (removeIfPossible_sameDirectories sibling world)
  -- What was at the stage is gone, so every other location that differs is still in the list.
  have only (touched : List Location)
      (others : ∀ other, other ≠ stage → other ∉ touched →
        world.files.lookup other = start.files.lookup other) :
      ChangesOnly touched start.files (world.removeIfPossible sibling).files := by
    refine ⟨directories, fun other untouched => ?_⟩
    rw [removed]
    by_cases isStage : other = stage
    · rw [if_pos isStage, isStage, fresh]
    · rw [if_neg isStage, others other isStage untouched]
  rcases unfinished with stagedOnly | ⟨stopped, place, isReason, placeNames, held, movedOnly⟩
  · refine .inl (only staged fun other different untouched => stagedOnly.elsewhere other ?_)
    exact List.not_mem_cons_of_ne_of_not_mem different untouched
  by_cases isStage : place = stage
  · refine .inl (only staged fun other different untouched => movedOnly.elsewhere other ?_)
    rw [isStage]
    exact List.not_mem_cons_of_ne_of_not_mem different
      (List.not_mem_cons_of_ne_of_not_mem different untouched)
  · refine .inr ⟨stopped, place, isReason, placeNames, ?_, only _ ?_⟩
    · rw [removed, if_neg isStage, held]
    · intro other different untouched
      exact movedOnly.elsewhere other (List.not_mem_cons_of_ne_of_not_mem
        (List.ne_of_not_mem_cons untouched)
        (List.not_mem_cons_of_ne_of_not_mem different (List.not_mem_of_not_mem_cons untouched)))

/-- An index that was not finished has changed nothing but the target of the postings. -/
theorem Unfinished.replaces {world : World} {failure : Failure StorageError} {after : FileSystem}
    (unfinished : Unfinished preindex docsTarget wordsTarget [] world failure after) :
    Replaces docsTarget wordsTarget world.files after := by
  rcases unfinished with only | ⟨stopped, place, -, names, held, only⟩
  · exact .of_unchanged only
  refine ⟨only.directories, fun location contents isFile => ?_, fun location notDocs _ => ?_⟩
  · by_cases isPlace : location = place
    · exact ⟨_, isPlace ▸ held⟩
    · exact ⟨contents, by rw [only.elsewhere _ (by simpa using isPlace), isFile]⟩
  · refine only.elsewhere location fun member => notDocs ?_
    rwa [List.mem_singleton.mp member]

/-- The targets name places. When files are at both, these hold the words of the postings and of
the directory; or they are one file, which holds the words of one of the two. -/
def Delivers (docsTarget wordsTarget : Path) (docs words : Array UInt64) (files : FileSystem) :
    Prop :=
  ∃ docsPlace wordsPlace, Names files docsTarget docsPlace ∧ Names files wordsTarget wordsPlace ∧
    ∀ docsBytes wordsBytes, files.lookup docsPlace = some (.file docsBytes) →
      files.lookup wordsPlace = some (.file wordsBytes) →
      (docsBytes = Region.toBytes docs ∧ wordsBytes = Region.toBytes words) ∨
        (docsPlace = wordsPlace ∧
          (docsBytes = Region.toBytes docs ∨ docsBytes = Region.toBytes words))

/-- An index was finished: only the targets have changed, and they hold the postings and the
directory of the preindex. -/
structure Installed (preindex : Preindex) (docsTarget wordsTarget : Path)
    (before after : FileSystem) : Prop extends Replaces docsTarget wordsTarget before after where
  delivers : ∃ draft directory, preindex.draft = .ok draft ∧
    Shape.terms.write draft.directory = .ok directory ∧
    Delivers docsTarget wordsTarget draft.docs directory.words after

/-- Two files that were staged and then moved are under the targets, unless the postings were
moved to where the words were staged, and then they are not there any more. -/
theorem Delivers.of_moves {docsTarget wordsTarget : Path}
    {docsStage wordsStage docsPlace wordsPlace : Location} {middle between after : FileSystem}
    {docs words : Array UInt64} {moved : List UInt8} (differ : docsStage ≠ wordsStage)
    (wordsFile : middle.lookup wordsStage = some (.file (Region.toBytes words)))
    (isFile : between.lookup wordsStage = some (.file moved))
    (docsNames : Names after docsTarget docsPlace)
    (wordsNames : Names after wordsTarget wordsPlace)
    (docsMoved : ∀ other, between.lookup other =
      if other = docsPlace then some (.file (Region.toBytes docs))
      else if other = docsStage then none else middle.lookup other)
    (wordsMoved : ∀ other, after.lookup other =
      if other = wordsPlace then some (.file moved)
      else if other = wordsStage then none else between.lookup other) :
    Delivers docsTarget wordsTarget docs words after := by
  refine ⟨docsPlace, wordsPlace, docsNames, wordsNames,
    fun docsBytes wordsBytes docsFile otherFile => ?_⟩
  rw [wordsMoved, if_pos rfl] at otherFile
  cases otherFile
  rw [docsMoved] at isFile
  by_cases isOne : docsPlace = wordsPlace
  · rw [wordsMoved, if_pos isOne] at docsFile
    cases docsFile
    refine .inr ⟨isOne, ?_⟩
    split at isFile
    · cases isFile
      exact .inl rfl
    · rw [if_neg differ.symm, wordsFile] at isFile
      cases isFile
      exact .inr rfl
  · rw [wordsMoved, if_neg isOne] at docsFile
    by_cases isStage : docsPlace = wordsStage
    · rw [if_pos isStage] at docsFile
      cases docsFile
    · rw [if_neg isStage, docsMoved, if_pos rfl] at docsFile
      rw [if_neg (Ne.symm isStage), if_neg differ.symm, wordsFile] at isFile
      cases docsFile
      cases isFile
      exact .inl ⟨rfl, rfl⟩

/-- Once both files are staged a failure leaves them there, and the first of them may have
been moved. Otherwise both were moved. -/
theorem install_settles {docsSibling wordsSibling : Path} {docsStage wordsStage : Location}
    {draft : Draft} {directory : WrittenStore} {world first second : World}
    {docsPaths wordsPaths : String → List Path} (planned : preindex.draft = .ok draft)
    (written : Shape.terms.write draft.directory = .ok directory)
    (stagesDocs : (writeSibling docsTarget (.ok draft.docs)).perform world =
      (.ok docsSibling, first))
    (stagesWords : (writeSibling wordsTarget (.ok directory.words)).perform first =
      (.ok wordsSibling, second))
    (docsStaged : Staged docsPaths 0 False docsSibling docsStage draft.docs world first)
    (wordsStaged : Staged wordsPaths 0 False wordsSibling wordsStage directory.words first second)
    (wordsFresh : world.files.lookup wordsStage = none) (report : Report) :
    (do
      persist docsSibling docsTarget
      persist wordsSibling wordsTarget
      return report : Action StorageError Report).Ends second
      (fun failure after => Unfinished preindex docsTarget wordsTarget [wordsStage, docsStage]
        world failure after.files)
      fun _ after => Installed preindex docsTarget wordsTarget world.files after.files := by
  have staged : ChangesOnly [wordsStage, docsStage] world.files second.files :=
    (docsStaged.only.trans wordsStaged.only).weaken fun location member =>
      List.mem_append.mpr (List.mem_append.mp member).symm
  have differ := docsStaged.stages_differ wordsStaged
  have docsFile : second.files.lookup docsStage = some (.file (Region.toBytes draft.docs)) := by
    rw [wordsStaged.only.elsewhere _ fun member => differ (List.mem_singleton.mp member)]
    exact docsStaged.file
  have docsNames := docsStaged.names.of_sameDirectories wordsStaged.only.directories
  refine ((persist_settles docsNames docsFile).recorded.lift fun _ after refused => ?_).bind ?_
  · rw [refused.1.2.1]
    exact .inl staged
  rintro _ between ⟨⟨place, placeNames, moved, lookups⟩, movesDocs⟩
  have same := staged.directories
  -- The other file is still there, though the first may just have been moved over it.
  have wordsFile : ∃ contents, between.files.lookup wordsStage = some (.file contents) := by
    rw [lookups]
    split
    · exact ⟨_, rfl⟩
    · rw [if_neg differ.symm]
      exact ⟨_, wordsStaged.file⟩
  obtain ⟨contents, isFile⟩ := wordsFile
  have wordsNames := wordsStaged.names.of_sameDirectories moved
  refine ((persist_settles wordsNames isFile).recorded.lift fun _ after refused => ?_).bind ?_
  · obtain ⟨⟨⟨reason, rfl⟩, unchanged, why⟩, stops⟩ := refused
    refine .inr ⟨{
      draft, directory, docsSibling, wordsSibling
      docsStaged := first, wordsStaged := second, docsMoved := between, last := after
      reason, planned, written, stops
      stages_docs := stagesDocs
      stages_words := stagesWords
      moves_docs := movesDocs
      why := why.imp_left fun closed writable =>
        closed (writable.of_sameDirectories (same.trans moved)) },
      place, rfl, placeNames.of_sameDirectories same.symm, ?_, ?_⟩
    · rw [unchanged, lookups, if_pos rfl]
    · rw [unchanged]
      refine ⟨same.trans moved, fun location untouched => ?_⟩
      obtain ⟨notPlace, notStaged⟩ := not_or.mp (untouched ∘ List.mem_cons.mpr)
      rw [lookups, if_neg notPlace, if_neg, staged.elsewhere _ notStaged]
      rintro rfl
      exact notStaged (List.mem_cons_of_mem _ (List.mem_singleton_self _))
  · rintro _ after ⟨⟨wordsPlace, wordsPlaceNames, movedAgain, wordsLookups⟩, -⟩
    refine .pure ⟨.of_moves staged docsStaged.fresh wordsFresh
      (placeNames.of_sameDirectories same.symm)
      (wordsPlaceNames.of_sameDirectories (same.trans moved).symm)
      (same.trans (moved.trans movedAgain)) lookups wordsLookups, draft, directory, planned,
      written, ?_⟩
    exact .of_moves differ wordsStaged.file isFile
      (placeNames.of_sameDirectories (moved.trans movedAgain))
      (wordsPlaceNames.of_sameDirectories movedAgain) lookups wordsLookups

/-- An index that fails is not finished, wherever it fails: what was staged is removed. -/
theorem finalize_settles (preindex : Preindex) (docsTarget wordsTarget : Path) (world : World) :
    (preindex.finalize docsTarget wordsTarget).Ends world
      (fun failure after =>
        Unfinished preindex docsTarget wordsTarget [] world failure after.files)
      fun _ after => Installed preindex docsTarget wordsTarget world.files after.files := by
  rw [finalize]
  refine ((writeSibling_settles docsTarget _ world).recorded.weaken_failure
    fun _ _ failed => .inl failed.1).bind ?_
  rintro docsSibling first ⟨⟨docs, docsStage, docsPaths, isDocs, docsStaged⟩, stagesDocs⟩
  cases planned : preindex.draft with
  | error failure =>
    rw [planned] at isDocs
    cases isDocs
  | ok draft =>
    rw [planned] at isDocs stagesDocs
    cases isDocs
    have docsNames := docsStaged.names.of_sameDirectories docsStaged.only.directories.symm
    refine Action.Ends.cleaningUp (Action.Ends.ofResult_ok_bind ?_)
      (fun world => world.removeIfPossible docsSibling)
      fun _ _ => Unfinished.remove docsNames docsStaged.fresh
    refine ((writeSibling_settles wordsTarget _ first).recorded.weaken_failure
      fun _ _ failed => .inl (docsStaged.only.trans failed.1)).bind ?_
    rintro wordsSibling second ⟨⟨words, wordsStage, wordsPaths, isWords, wordsStaged⟩, stagesWords⟩
    cases written : Shape.terms.write draft.directory with
    | error failure =>
      rw [written] at isWords
      cases isWords
    | ok directory =>
      rw [written] at isWords stagesWords
      cases isWords
      have fresh : world.files.lookup wordsStage = none := by
        rw [← docsStaged.only.elsewhere _ fun member =>
          docsStaged.stages_differ wordsStaged (List.mem_singleton.mp member).symm]
        exact wordsStaged.fresh
      have wordsNames := wordsStaged.names.of_sameDirectories
        (docsStaged.only.directories.trans wordsStaged.only.directories).symm
      exact Action.Ends.cleaningUp (Action.Ends.ofResult_ok_bind
          (install_settles planned written stagesDocs stagesWords docsStaged wordsStaged fresh _))
        (fun world => world.removeIfPossible wordsSibling)
        fun _ _ => Unfinished.remove wordsNames fresh

end Preindex

/-- When an index could not be finished the files are what they were, whichever step failed, or
else the run was stopped between its two moves. Then all the postings are under their target,
everything else is as it was, and so is what is under the target of the words, unless the two
targets lead to the same place. -/
theorem failed_finalization_restores {preindex : Preindex} {docsTarget wordsTarget : String}
    {world after : World} {failure : Failure StorageError}
    (failed : (preindex.finalize (.ofText docsTarget) (.ofText wordsTarget)).perform world =
      (.error failure, after)) :
    ((∀ path, after.files.read path = world.files.read path) ∧
        ∀ location, after.files.lookup location = world.files.lookup location) ∨
      ∃ (stopped : preindex.StoppedBetween (.ofText docsTarget) (.ofText wordsTarget) world)
          (docsPlace : Location),
        failure = .error (.files stopped.reason) ∧
        Names world.files (.ofText docsTarget) docsPlace ∧
        after.files.read (.ofText docsTarget) =
          .ok (.file (Region.toBytes stopped.draft.docs)) ∧
        (∀ location, location ≠ docsPlace →
          after.files.lookup location = world.files.lookup location) ∧
        (¬ Names world.files (.ofText wordsTarget) docsPlace →
          (after.files.read (.ofText wordsTarget)).toOption =
            (world.files.read (.ofText wordsTarget)).toOption) := by
  have unfinished := (Preindex.finalize_settles preindex (.ofText docsTarget)
    (.ofText wordsTarget) world).of_perform_error failed
  rcases unfinished with only | ⟨stopped, docsPlace, isReason, names, isFile, only⟩
  · exact .inl ⟨only.read_eq, fun location => only.elsewhere location List.not_mem_nil⟩
  · have elsewhere (location : Location) (different : location ≠ docsPlace) :
        after.files.lookup location = world.files.lookup location :=
      only.elsewhere location fun member => different (List.mem_singleton.mp member)
    refine .inr ⟨stopped, docsPlace, isReason, names, ?_, elsewhere, fun apart => ?_⟩
    · rw [(names.of_sameDirectories only.directories).read_eq, isFile]
    · exact read_of_elsewhere only.directories fun location wordsNames =>
        elsewhere location fun same => apart (same ▸ wordsNames)

/-! ### A directory under the target of the words -/

/-- A term with one posting. -/
def oneList : List (Term × List Posting) := [(100, [⟨5, 1⟩])]

/-- The files of a preindex below the root. -/
def oneListFiles : PreindexFiles := ⟨Path.ofText "/", "preindex-one"⟩

/-- The preindex of the list is there, the target of the postings holds an older file, and the
target of the words is a directory. -/
def directoryUnderWords : World where
  files := {
    nodes := [(["docs"], .file [1, 2, 3]), (["words"], .directory),
      (["preindex-one.words"], .file (wordsToBytes [100])),
      (["preindex-one.counts"], .file (wordsToBytes [1])),
      (["preindex-one.docs"], .file (wordsToBytes [5, 1]))]
    workingDirectory := [] }
  stems := fun draw => toString draw
  drawn := 0
  log := []
  opened := 0
  warned := []

theorem oneListFiles_holds : oneListFiles.Holds
    ⟨["preindex-one.words"], ["preindex-one.counts"], ["preindex-one.docs"]⟩ oneList
    directoryUnderWords.files where
  words := ⟨rfl, rfl, rfl, nofun, rfl, rfl, by decide⟩
  counts := ⟨rfl, rfl, rfl, nofun, rfl, rfl, by decide⟩
  docs := ⟨rfl, rfl, rfl, nofun, rfl, rfl, by decide⟩
  plain := Placement.forall_all.mpr ⟨nofun, nofun, nofun⟩
  words_file := rfl
  counts_file := rfl
  docs_file := rfl

/-- When the disk is full in the middle of the directory, nothing has changed in the end. -/
example : (((Preindex.ofLists oneListFiles oneList).finalize (.ofText "/docs")
    (.ofText "/other")).perform { directoryUnderWords with
      refusals := fun request => if request = 3 then some ⟨.storageFull, 4⟩ else none
    }).2.files.nodes = directoryUnderWords.files.nodes := by decide +kernel

/-- What finishing the index ends with there. -/
def finalizedBesideDirectory : Except (Failure StorageError) Report × World :=
  ((Preindex.ofLists oneListFiles oneList).finalize (.ofText "/docs")
    (.ofText "/words")).perform directoryUnderWords

theorem finalizedBesideDirectory_fails :
    ∃ failure, finalizedBesideDirectory.1 = .error failure := by
  have isError : finalizedBesideDirectory.1.isOk = false := by decide +kernel
  cases ended : finalizedBesideDirectory.1 with
  | error failure => exact ⟨failure, rfl⟩
  | ok report =>
    rw [ended] at isError
    cases isError

/-- The run is stopped between its two moves. -/
theorem failed_finalization_restores_directory :
    (∃ failure, finalizedBesideDirectory.1 = .error failure) ∧
      (∃ stopped : (Preindex.ofLists oneListFiles oneList).StoppedBetween (.ofText "/docs")
          (.ofText "/words") directoryUnderWords,
        finalizedBesideDirectory.2.files.read (.ofText "/docs") =
          .ok (.file (Region.toBytes stopped.draft.docs))) ∧
      (finalizedBesideDirectory.2.files.read (.ofText "/words")).toOption = some .directory := by
  obtain ⟨failure, failed⟩ := finalizedBesideDirectory_fails
  refine ⟨⟨failure, failed⟩, ?_⟩
  rcases failed_finalization_restores (Prod.ext failed rfl) with
    ⟨same, -⟩ | ⟨stopped, docsPlace, -, names, isPostings, -, words⟩
  · exact absurd (congrArg Except.toOption (same (.ofText "/docs"))) (by decide +kernel)
  · have apart : ¬ Names directoryUnderWords.files (.ofText "/words") docsPlace := fun wordsNames =>
      absurd (names.last.trans wordsNames.last.symm) (by decide +kernel)
    exact ⟨⟨stopped, isPostings⟩, (words apart).trans (by decide +kernel)⟩

/-- So a failure need not leave the target of the postings as it was. -/
theorem failed_finalization_can_replace_postings :
    ¬ ∀ (owned : PreindexFiles) (preindex : Preindex) (docsTarget wordsTarget : String)
      (world after : World) (failure : Failure StorageError),
      (Preindex.openFiles owned).perform world = (.ok preindex, world) →
      docsTarget ≠ wordsTarget →
      (preindex.finalize (.ofText docsTarget) (.ofText wordsTarget)).perform world =
        (.error failure, after) →
      (after.files.read (.ofText docsTarget)).toOption =
        (world.files.read (.ofText docsTarget)).toOption := by
  intro claim
  obtain ⟨failure, failed⟩ := finalizedBesideDirectory_fails
  have opens := Preindex.openFiles_eq oneListFiles_holds (List.pairwise_singleton _ _) (by decide)
  have same := claim oneListFiles _ "/docs" "/words" directoryUnderWords
    finalizedBesideDirectory.2 failure opens (by decide) (Prod.ext failed rfl)
  revert same
  decide +kernel

end InvertedIndex
