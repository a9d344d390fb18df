/-
This file proves what retiring a generation leaves of the one that is installed. The paths of
the two generations are compared by their steps, each with the path that takes its place, but a
file is removed wherever the old path leads. So the new files stay when no old path leads to one
of them, or only where it has the same steps; and otherwise the new reader keeps its answers,
but the index cannot be opened again.
-/

import InvertedIndex.Handle
import InvertedIndex.Proofs.Answers
import InvertedIndex.Proofs.FailedFinalization

namespace InvertedIndex

open FileSystem

/-! ### Readers that answer alike -/

namespace IndexReader

/-- Two readers give the same answers. -/
structure Alike (first second : IndexReader) (ε : Type) : Prop where
  documents : ∀ term, (first.documents term : Action ε PostingsSource) = second.documents term
  numDocuments : ∀ term, (first.numDocuments term : Action ε Nat) = second.numDocuments term
  retainFilter : ∀ term, (first.retainFilter term : Action ε Filter) = second.retainFilter term
  rejectFilter : ∀ term, (first.rejectFilter term : Action ε Filter) = second.rejectFilter term
  metadata : ∀ term docs,
    (first.metadata term docs : Action ε (List Metadata)) = second.metadata term docs
  numTerms : (first.numTerms : Action ε Nat) = second.numTerms
  termCounts : (first.termCounts : Action ε (List (Term × Nat))) = second.termCounts
  sizeBytes : first.sizeBytes = second.sizeBytes

variable {first second : IndexReader} {ε : Type}

theorem consult_eq {α : Type} {index : Index} (isFirst : first.index = some index)
    (isSecond : second.index = some index) (emptyAnswer : α) (ask : Index → Except Fault α) :
    (first.consult emptyAnswer ask : Action ε α) = second.consult emptyAnswer ask := by
  rw [consult, consult, isFirst, isSecond]

/-- Readers of the same index do. -/
theorem alike_of_index {index : Index} (isFirst : first.index = some index)
    (isSecond : second.index = some index) : first.Alike second ε where
  documents _ := consult_eq isFirst isSecond _ _
  numDocuments _ := consult_eq isFirst isSecond _ _
  retainFilter _ := consult_eq isFirst isSecond _ _
  rejectFilter _ := consult_eq isFirst isSecond _ _
  metadata _ _ := by rw [metadata, metadata, consult_eq isFirst isSecond]
  numTerms := consult_eq isFirst isSecond _ _
  termCounts := consult_eq isFirst isSecond _ _
  sizeBytes := by rw [sizeBytes, sizeBytes, isFirst, isSecond]

/-! ### Opening again -/

variable {words docs : Path} {options : ReaderOptions} {world : World}

/-- Opening a reader leaves the files as they are. -/
@[simp] theorem open_files (words docs : Path) (options : ReaderOptions) (world : World) :
    ((IndexReader.open words docs options).perform world).2.files = world.files := by
  rw [Action.perform, IndexReader.open, bind_apply]
  show ((ite _ _ _ : Action StorageError IndexReader) world).2.files = _
  split
  · rfl
  · cases load words docs options world.files <;> rfl

/-- What is opened depends on what the two paths read. -/
theorem readIndex_congr {before after : World}
    (sameWords : after.files.read words = before.files.read words)
    (sameDocs : after.files.read docs = before.files.read docs) :
    readIndex words docs options after = readIndex words docs options before := by
  have sameExists {path : Path} (same : after.files.read path = before.files.read path) :
      after.files.exists? path = before.files.exists? path := by
    rw [exists?_eq, exists?_eq, same]
  have sameMap {path : Path} (same : after.files.read path = before.files.read path) :
      Region.map path after.files = Region.map path before.files := by
    rw [Region.map, Region.map, same]
  rw [readIndex, readIndex, load, load, sameExists sameWords, sameExists sameDocs,
    sameMap sameWords, sameMap sameDocs]

/-- A reader that is ready was opened on two files. -/
theorem files_of_ready {index : Index}
    (ready : readIndex words docs options world = .ok (some index)) :
    (∃ contents, world.files.read words = .ok (.file contents)) ∧
      ∃ contents, world.files.read docs = .ok (.file contents) := by
  rw [readIndex] at ready
  split at ready
  · cases ready
  cases loaded : load words docs options world.files with
  | error failure =>
    rw [loaded] at ready
    cases ready
  | ok read =>
    obtain ⟨_, _, wordsMapped, docsMapped, -⟩ := regions_of_load loaded
    exact ⟨⟨_, Region.read_of_map wordsMapped⟩, _, Region.read_of_map docsMapped⟩

/-- A reader that is ready holds the index of its files. -/
theorem readIndex_of_ready {reader : IndexReader} (ready : reader.isReady = true)
    (opened : ((IndexReader.open words docs options).perform world).1 = .ok reader) :
    ∃ index, reader.index = some index ∧ readIndex words docs options world = .ok (some index) := by
  obtain ⟨index, isIndex⟩ := Option.isSome_iff_exists.mp ready
  rw [open_result] at opened
  cases found : readIndex words docs options world with
  | error failure =>
    rw [found] at opened
    cases opened
  | ok other =>
    rw [found] at opened
    cases opened
    exact ⟨index, isIndex, congrArg _ isIndex⟩

/-- A reader is opened on what is found. -/
theorem open_of_readIndex {found : Option Index}
    (isFound : readIndex words docs options world = .ok found) :
    ∃ reader after, (IndexReader.open words docs options).perform world = (.ok reader, after) ∧
      reader.index = found := by
  refine ⟨⟨found, words, docs, world.opened⟩, _, Prod.ext ?_ rfl, rfl⟩
  rw [open_result, isFound]
  rfl

/-- Without one of the files a reader is opened that is not ready. -/
theorem readIndex_of_missing (missing : world.files.exists? words = false ∨
    world.files.exists? docs = false) : readIndex words docs options world = .ok none := by
  rw [readIndex]
  rcases missing with missing | missing <;> rw [missing] <;> simp

end IndexReader

/-! ### Removing the previous generation -/

/-- The path of the previous generation leads to this location, and it has other steps than the
path that takes its place. -/
def Path.Retires (files : FileSystem) (previous next : Path) (location : Location) : Prop :=
  previous.sameSteps next = false ∧ Names files previous location

theorem Path.retires_of_sameDirectories {before after : FileSystem}
    (same : SameDirectories before after) (previous next : Path) :
    previous.Retires after next = previous.Retires before next := by
  funext location
  refine propext (and_congr_right fun _ => ⟨fun names => ?_, fun names => ?_⟩)
  · exact names.of_sameDirectories same.symm
  · exact names.of_sameDirectories same

namespace IndexReader

variable (replaced : IndexReader) (files : FileSystem) (words docs : Path)

/-- One of the two paths that the reader was opened on leads to this location, and it has other
steps than the path that takes its place. -/
def Retires (location : Location) : Prop :=
  replaced.wordsPath.Retires files words location ∨ replaced.docsPath.Retires files docs location

/-- No path of the reader that is replaced leads to a file of the new generation, unless it has
the steps of the path that takes its place. -/
def Spares : Prop :=
  ∀ path ∈ [words, docs], ∀ location, Names files path location →
    ¬ replaced.Retires files words docs location

end IndexReader

/-- The files at the locations that a path leads to were removed, and no others. -/
structure Retired (leads : Location → Prop) (before after : FileSystem) : Prop where
  directories : SameDirectories before after
  gone : ∀ location, leads location → after.lookup location = none
  kept : ∀ location, ¬ leads location → after.lookup location = before.lookup location

namespace Retired

variable {leads : Location → Prop} {before after : FileSystem} {path : Path}
  {location : Location}

theorem of_kept (nothing : ∀ location, leads location → before.lookup location = none) :
    Retired leads before before where
  directories := .refl _
  gone := nothing
  kept _ _ := rfl

theorem of_removed {contents : List UInt8} (names : Names before path location)
    (isFile : before.lookup location = some (.file contents))
    (isLed : ∀ other, leads other ↔ other = location) :
    Retired leads before (before.erase location) where
  directories := .erase_file names.named _ (plain_of_file isFile)
  gone other led := by simp [names.named, (isLed other).mp led]
  kept other notLed := by simp [names.named, mt (isLed other).mpr notLed]

theorem trans {between : FileSystem} {more : Location → Prop}
    (first : Retired leads before between) (second : Retired more between after) :
    Retired (fun location => leads location ∨ more location) before after where
  directories := first.directories.trans second.directories
  gone location led := by
    by_cases isSecond : more location
    · exact second.gone location isSecond
    · rw [second.kept location isSecond, first.gone location (led.resolve_right isSecond)]
  kept location notLed := by
    rw [second.kept location fun led => notLed (.inr led),
      first.kept location fun led => notLed (.inl led)]

/-- A file that no path leads to is read as before. -/
theorem read_eq (retired : Retired leads before after) (names : Names before path location)
    (notLed : ¬ leads location) : after.read path = before.read path := by
  rw [(names.of_sameDirectories retired.directories).read_eq, names.read_eq,
    retired.kept location notLed]

/-- A file that a path leads to is not there any more. -/
theorem missing (retired : Retired leads before after) (names : Names before path location)
    (led : leads location) : after.exists? path = false := by
  rw [exists?_eq, (names.of_sameDirectories retired.directories).read_eq,
    retired.gone location led]
  rfl

end Retired

/-- The failure of an operation of the storage layer, with what was being done. -/
def Failure.during (context : Context) (failure : Failure StorageError) : Failure TracedError :=
  failure.map fun error => ⟨[context], .storage error⟩

/-- The failure of a switch to a generation that is not there. -/
def Failure.generationMissing (words : Path) : Failure TracedError :=
  .error (.of (.generationMissing words))

namespace IndexHandle

variable {words docs previous next : Path} {serving after : Serving}

/-- An operation on the world leaves the handle as it is. -/
theorem act_eq_ok {α : Type} {action : Action TracedError α} {result : α}
    (performed : act action serving = (.ok result, after)) :
    ∃ world, action.perform serving.world = (.ok result, world) ∧
      after = { serving with world } := by
  rw [act] at performed
  rcases isEnd : action serving.world with ⟨ending, world⟩
  rw [isEnd] at performed
  cases performed
  exact ⟨world, isEnd, rfl⟩

/-- Where the previous path leads to a file that is not kept, it is removed. -/
theorem retired_of_retire (retired : retire previous next serving = (.ok (), after)) :
    after.handle = serving.handle ∧
      Retired (previous.Retires serving.world.files next) serving.world.files
        after.world.files := by
  unfold retire at retired
  change (ite _ _ _ : HandleAction Unit) serving = _ at retired
  split at retired
  · rename_i isOther
    obtain ⟨differs, -⟩ := (Bool.and_eq_true _ _).mp isOther
    rw [Bool.not_eq_true'] at differs
    obtain ⟨_, _, removal, logged⟩ := bind_apply_eq_ok retired
    obtain ⟨world, performed, rfl⟩ := act_eq_ok removal
    cases logged
    have changed := Action.perform_mapError_eq_ok performed
    rw [Action.perform, Action.change] at changed
    split at changed
    · rename_i removed
      cases changed
      obtain ⟨place, contents, names, isFile, rfl⟩ := names_of_remove removed
      refine ⟨rfl, .of_removed names isFile fun other => ⟨fun led => led.2.unique names, ?_⟩⟩
      rintro rfl
      exact ⟨differs, names⟩
    · cases changed
  · rename_i isKept
    cases retired
    refine ⟨rfl, .of_kept fun location led => ?_⟩
    cases isThere : serving.world.files.lookup location with
    | none => rfl
    | some node =>
      refine absurd ?_ isKept
      rw [led.1, led.2.exists_of_lookup isThere]
      rfl

/-- The generation that a handle finds in two files, or the failure to find one. -/
def generation (words docs : Path) (serving : Serving) :
    Except (Failure TracedError) IndexReader :=
  match ((IndexReader.open words docs serving.handle.options).perform serving.world).1 with
  | .error failure => .error (.during (.openGeneration words) failure)
  | .ok reader => if reader.isReady then .ok reader else .error (.generationMissing words)

theorem generation_eq_ok {reader : IndexReader}
    (found : generation words docs serving = .ok reader) :
    reader.isReady = true ∧
      ((IndexReader.open words docs serving.handle.options).perform serving.world).1 =
        .ok reader := by
  unfold generation at found
  split at found
  · cases found
  · rename_i isOpened
    split at found
    · rename_i ready
      cases found
      exact ⟨ready, isOpened⟩
    · cases found

theorem generation_of_failure {failure : Failure StorageError}
    (failed : ((IndexReader.open words docs serving.handle.options).perform serving.world).1 =
      .error failure) :
    generation words docs serving = .error (.during (.openGeneration words) failure) := by
  rw [generation, failed]

theorem generation_of_missing
    (missing : serving.world.files.exists? words = false ∨
      serving.world.files.exists? docs = false) :
    generation words docs serving = .error (.generationMissing words) := by
  rw [generation, IndexReader.open_result, IndexReader.readIndex_of_missing missing]
  rfl

/-- A switch ends with the generation that it finds in the world as it is. -/
theorem switchTo_apply (words docs : Path) (serving : Serving) :
    ∃ world, world.files = serving.world.files ∧
      switchTo words docs serving = match generation words docs serving with
        | .ok reader => (.ok serving.handle.current,
            { handle := { serving.handle with current := reader }, world })
        | .error failure => (.error failure, { serving with world }) := by
  have sameFiles := IndexReader.open_files words docs serving.handle.options serving.world
  unfold generation
  rw [switchTo, bind_apply]
  rw [Action.perform] at sameFiles ⊢
  show ∃ world, _ ∧ (IndexHandle.act _ >>= _ : HandleAction IndexReader) serving = _
  rw [bind_apply, IndexHandle.act, Action.during, Action.mapError]
  generalize (IndexReader.open words docs serving.handle.options) serving.world = opening
    at sameFiles ⊢
  obtain ⟨failure | reader, world⟩ := opening
  · exact ⟨world, sameFiles, rfl⟩
  · refine ⟨world, sameFiles, ?_⟩
    dsimp only
    cases ready : reader.isReady with
    | true => rfl
    | false => rfl

/-- A switch that succeeds has installed the generation and hands out the reader that was
current. -/
theorem switchTo_eq_ok {replaced : IndexReader}
    (switched : switchTo words docs serving = (.ok replaced, after)) :
    replaced = serving.handle.current ∧ after.handle.options = serving.handle.options ∧
      after.world.files = serving.world.files ∧ after.handle.current.isReady = true ∧
      ((IndexReader.open words docs serving.handle.options).perform serving.world).1 =
        .ok after.handle.current := by
  obtain ⟨world, sameFiles, ended⟩ := switchTo_apply words docs serving
  rw [ended] at switched
  cases found : generation words docs serving with
  | error failure =>
    rw [found] at switched
    cases switched
  | ok reader =>
    rw [found] at switched
    cases switched
    exact ⟨rfl, rfl, sameFiles, generation_eq_ok found⟩

/-- Retiring is a switch that removes the files of the reader it replaces. -/
theorem retireAndSwitch_eq_ok (rotated : retireAndSwitch words docs serving = (.ok (), after)) :
    after.handle.options = serving.handle.options ∧ after.handle.current.isReady = true ∧
      ((IndexReader.open words docs serving.handle.options).perform serving.world).1 =
        .ok after.handle.current ∧
      Retired (serving.handle.current.Retires serving.world.files words docs)
        serving.world.files after.world.files := by
  obtain ⟨replaced, switched, isSwitch, afterSwitch⟩ := bind_apply_eq_ok rotated
  obtain ⟨rfl, options, sameFiles, ready, opened⟩ := switchTo_eq_ok isSwitch
  obtain ⟨_, _, isLogged, afterLog⟩ := bind_apply_eq_ok afterSwitch
  obtain ⟨_, logged, rfl⟩ := act_eq_ok isLogged
  cases logged
  obtain ⟨_, between, wordsRetire, docsRetire⟩ := bind_apply_eq_ok afterLog
  obtain ⟨sameHandle, wordsRetired⟩ := retired_of_retire wordsRetire
  obtain ⟨sameAgain, docsRetired⟩ := retired_of_retire docsRetire
  rw [Path.retires_of_sameDirectories wordsRetired.directories] at docsRetired
  rw [sameAgain, sameHandle]
  have both := wordsRetired.trans docsRetired
  dsimp only at both
  rw [sameFiles] at both
  exact ⟨options, ready, opened, both⟩

end IndexHandle

/-- Where an old path leads to one of the two files, one of them is not there any more. -/
theorem Retired.missing_of_not_spares {replaced : IndexReader} {words docs : Path}
    {before after : FileSystem}
    (retired : Retired (replaced.Retires before words docs) before after)
    (notSpared : ¬ replaced.Spares before words docs) :
    after.exists? words = false ∨ after.exists? docs = false := by
  unfold IndexReader.Spares at notSpared
  push Not at notSpared
  obtain ⟨path, member, location, names, led⟩ := notSpared
  have missing := retired.missing names led
  rw [List.mem_pair] at member
  rcases member with rfl | rfl
  · exact .inl missing
  · exact .inr missing

/-- Retiring removes the files at the locations that the old paths lead to, each unless it has
the steps of the path that takes its place, and no other file. If it spares the new generation,
the two files are as they were when they were opened, and opening them again gives a reader that
answers as the current one does. Otherwise what is opened again is not ready. -/
theorem retirement_spares_other_places {words docs : String} {serving after : Serving} (ε : Type)
    (rotated : IndexHandle.retireAndSwitch (.ofText words) (.ofText docs) serving =
      (.ok (), after)) :
    Retired (serving.handle.current.Retires serving.world.files (.ofText words) (.ofText docs))
        serving.world.files after.world.files ∧
      ∃ reader opened, (IndexReader.open (.ofText words) (.ofText docs)
          after.handle.options).perform after.world = (.ok reader, opened) ∧
        (serving.handle.current.Spares serving.world.files (.ofText words) (.ofText docs) →
          after.world.files.read (.ofText words) = serving.world.files.read (.ofText words) ∧
          after.world.files.read (.ofText docs) = serving.world.files.read (.ofText docs) ∧
          reader.isReady = true ∧ reader.Alike after.handle.current ε) ∧
        (¬ serving.handle.current.Spares serving.world.files (.ofText words) (.ofText docs) →
          reader.isReady = false) := by
  obtain ⟨sameOptions, ready, opened, retired⟩ := IndexHandle.retireAndSwitch_eq_ok rotated
  refine ⟨retired, ?_⟩
  rw [sameOptions]
  obtain ⟨index, isIndex, found⟩ := IndexReader.readIndex_of_ready ready opened
  obtain ⟨⟨wordsContents, wordsFile⟩, docsContents, docsFile⟩ := IndexReader.files_of_ready found
  obtain ⟨wordsPlace, wordsNames, -⟩ := writable_of_read wordsFile
  obtain ⟨docsPlace, docsNames, -⟩ := writable_of_read docsFile
  by_cases spared :
      serving.handle.current.Spares serving.world.files (.ofText words) (.ofText docs)
  · have sameWords := retired.read_eq wordsNames (spared _ List.mem_cons_self _ wordsNames)
    have sameDocs := retired.read_eq docsNames
      (spared _ (List.mem_cons_of_mem _ List.mem_cons_self) _ docsNames)
    obtain ⟨reader, world, reopened, sameIndex⟩ := IndexReader.open_of_readIndex
      ((IndexReader.readIndex_congr sameWords sameDocs).trans found)
    refine ⟨reader, world, reopened, fun _ => ⟨sameWords, sameDocs, ?_,
      IndexReader.alike_of_index sameIndex isIndex⟩, absurd spared⟩
    rw [IndexReader.isReady, sameIndex]
    rfl
  · have nothing : IndexReader.readIndex (.ofText words) (.ofText docs) serving.handle.options
        after.world = .ok none :=
      IndexReader.readIndex_of_missing (retired.missing_of_not_spares spared)
    obtain ⟨reader, world, reopened, degraded⟩ := IndexReader.open_of_readIndex nothing
    refine ⟨reader, world, reopened, fun isSpared => absurd isSpared spared, fun _ => ?_⟩
    rw [IndexReader.isReady, degraded]
    rfl

/-! ### Two generations -/

/-- A directory of one term. -/
def generationWords : List UInt64 := [storeMagic, Shape.terms.tag, 1, 2, 6, 100, 100, 0]

/-- The postings of the one term, which list one document. -/
def generationDocs : List UInt64 := [storeMagic, Shape.postings.tag, 1, 2, 6, 5, 5, 1]

/-- The files of an index with one term, and of the index that takes its place. -/
def generationsWorld : World where
  files := {
    nodes := [(["words"], .file (wordsToBytes generationWords)),
      (["docs"], .file (wordsToBytes generationDocs)),
      (["next-words"], .file (wordsToBytes generationWords)),
      (["next-docs"], .file (wordsToBytes generationDocs))]
    workingDirectory := [] }
  stems := fun _ => ""
  drawn := 0
  log := []
  opened := 0
  warned := []

namespace generationsWorld

def index : Index := ⟨generationWords.toArray, generationDocs.toArray, ⟨.scalar, 32⟩⟩

/-- The reader of two files, when so many were opened before. -/
def reader (words docs : String) (serial : Nat) : IndexReader where
  index := some index
  wordsPath := .ofText words
  docsPath := .ofText docs
  serial := serial

/-- What opening a reader leaves of the world. -/
def afterOpen (world : World) : World :=
  { world with
    log := world.log ++ [⟨.info, "Switching reverse index"⟩]
    opened := world.opened + 1 }

theorem opens {words docs : String} {world : World}
    (wordsFile : world.files.read (.ofText words) = .ok (.file (wordsToBytes generationWords)))
    (docsFile : world.files.read (.ofText docs) = .ok (.file (wordsToBytes generationDocs))) :
    (IndexReader.open (.ofText words) (.ofText docs) ⟨.scalar, 32⟩).perform world =
      (.ok (reader words docs world.opened), afterOpen world) :=
  IndexReader.open_of_words wordsFile docsFile rfl

/-- The handle that serves the index in two files. -/
def handle (words docs : String) : IndexHandle := ⟨reader words docs 0, ⟨.scalar, 32⟩⟩

/-- A handle serves the index from then on. -/
def serving (words docs : String) : Serving := ⟨handle words docs, afterOpen generationsWorld⟩

theorem handle_opens (words docs : String)
    (wordsFile : generationsWorld.files.read (.ofText words) =
      .ok (.file (wordsToBytes generationWords)))
    (docsFile : generationsWorld.files.read (.ofText docs) =
      .ok (.file (wordsToBytes generationDocs))) :
    (IndexHandle.open (.ofText words) (.ofText docs) ⟨.scalar, 32⟩).perform generationsWorld =
      (.ok (handle words docs), afterOpen generationsWorld) := by
  have opened := opens wordsFile docsFile
  rw [Action.perform] at opened
  rw [Action.perform, IndexHandle.open, bind_apply, Action.during, Action.mapError, opened]
  rfl

theorem switches {oldWords oldDocs words docs : String}
    (wordsFile : generationsWorld.files.read (.ofText words) =
      .ok (.file (wordsToBytes generationWords)))
    (docsFile : generationsWorld.files.read (.ofText docs) =
      .ok (.file (wordsToBytes generationDocs))) :
    IndexHandle.switchTo (.ofText words) (.ofText docs) (serving oldWords oldDocs) =
      (.ok (reader oldWords oldDocs 0),
        ⟨⟨reader words docs 1, ⟨.scalar, 32⟩⟩, afterOpen (afterOpen generationsWorld)⟩) := by
  have opened : (IndexReader.open (.ofText words) (.ofText docs) ⟨.scalar, 32⟩).perform
      (afterOpen generationsWorld) = _ := opens wordsFile docsFile
  rw [Action.perform] at opened
  rw [IndexHandle.switchTo, bind_apply]
  show (IndexHandle.act _ >>= _ : HandleAction IndexReader) (serving oldWords oldDocs) = _
  rw [bind_apply, IndexHandle.act, Action.during, Action.mapError, serving, handle, opened]
  rfl

/-- The next generation takes the place of the one that is served. -/
theorem retires : ∃ after, IndexHandle.retireAndSwitch (.ofText "next-words")
    (.ofText "next-docs") (serving "words" "docs") = (.ok (), after) := by
  refine ⟨_, Prod.ext ?_ rfl⟩
  rw [IndexHandle.retireAndSwitch, bind_apply, switches rfl rfl]
  rfl

theorem spares : (handle "words" "docs").current.Spares generationsWorld.files
    (.ofText "next-words") (.ofText "next-docs") := by
  -- The last steps of the four paths differ.
  intro path member location names led
  rw [List.mem_pair] at member
  rcases led with ⟨-, old⟩ | ⟨-, old⟩
  all_goals
    have sameLast := names.last.trans old.last.symm
    rcases member with rfl | rfl
    all_goals exact absurd sameLast (by decide +kernel)

/-- A generation is retired by itself when its paths are spelled in another way. -/
theorem retires_itself : ∃ after, IndexHandle.retireAndSwitch (.ofText "words")
    (.ofText "docs") (serving "./words" "./docs") = (.ok (), after) ∧
      after.world.files.read (.ofText "words") = .error .notFound := by
  refine ⟨_, Prod.ext ?_ rfl, ?_⟩
  all_goals
    rw [IndexHandle.retireAndSwitch, bind_apply, switches rfl rfl]
    rfl

end generationsWorld

theorem retirement_spares_the_next_generation :
    ∃ after reader opened, IndexHandle.retireAndSwitch (.ofText "next-words")
        (.ofText "next-docs") (generationsWorld.serving "words" "docs") = (.ok (), after) ∧
      (IndexReader.open (.ofText "next-words") (.ofText "next-docs")
        after.handle.options).perform after.world = (.ok reader, opened) ∧
      reader.isReady = true ∧ reader.Alike after.handle.current StorageError := by
  obtain ⟨after, rotated⟩ := generationsWorld.retires
  obtain ⟨-, reader, opened, opens, spared, -⟩ :=
    retirement_spares_other_places StorageError rotated
  obtain ⟨-, -, ready, alike⟩ := spared generationsWorld.spares
  exact ⟨after, reader, opened, rotated, opens, ready, alike⟩

/-- So retiring can remove the generation that it installs. -/
theorem retirement_can_remove_what_it_installs :
    ¬ ∀ (oldWords oldDocs words docs : String) (options : ReaderOptions) (before opened : World)
      (handle : IndexHandle) (after : Serving),
      (IndexHandle.open (.ofText oldWords) (.ofText oldDocs) options).perform before =
        (.ok handle, opened) →
      IndexHandle.retireAndSwitch (.ofText words) (.ofText docs) ⟨handle, opened⟩ =
        (.ok (), after) →
      after.world.files.read (.ofText words) = opened.files.read (.ofText words) ∧
        after.world.files.read (.ofText docs) = opened.files.read (.ofText docs) ∧
        ∃ reader reopened, (IndexReader.open (.ofText words) (.ofText docs)
          after.handle.options).perform after.world = (.ok reader, reopened) ∧
          reader.isReady = true := by
  intro claim
  obtain ⟨after, rotated, missing⟩ := generationsWorld.retires_itself
  obtain ⟨stays, -⟩ := claim _ _ _ _ _ _ _ _ after
    (generationsWorld.handle_opens "./words" "./docs" rfl rfl) rotated
  rw [missing] at stays
  cases stays

end InvertedIndex
