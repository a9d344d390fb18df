/-
This file proves what a whole build comes to. A build that is not called off either puts the
files of the lists of all shards under its targets, and nothing else, or it ends with a file
operation that the system refused; it cannot be refused one while the system is willing,
temporary names lead to free places and the targets can be written.
-/

import InvertedIndex.Proofs.Reduction

namespace InvertedIndex

open FileSystem

/-! ### Parts of a build -/

namespace Building

variable {α β : Type} {run : BuildRun} {action : Action TracedError α} {next : α → Building β}
  {after : World}

/-- A build goes on from the world that an operation leaves behind. -/
theorem act_bind_of_value {value : α} (performed : action.perform run.world = (.ok value, after)) :
    (act action >>= next) run = next value { run with world := after } := by
  rw [Action.perform] at performed
  rw [bind_apply, act, performed]

/-- A build ends with an operation that fails. -/
theorem act_bind_of_failure {failure : Failure TracedError}
    (performed : action.perform run.world = (.error failure, after)) :
    (act action >>= next) run = (.error failure, { run with world := after }) := by
  rw [Action.perform] at performed
  rw [bind_apply, act, performed]

end Building

namespace Builder

variable {builder : Builder} {listener : BuildStep → Bool} {shards : List Path} {run : BuildRun}

/-- A notice adds to the log, and it may call the build off. -/
theorem notify_eq (listener : BuildStep → Bool) (step : BuildStep) (run : BuildRun) :
    ∃ after, notify listener step run = (.ok (), after) ∧
      (∃ log, after.world = { run.world with log }) ∧
      after.aborted = (run.aborted || listener step) ∧
      after.notices = run.notices ++ [⟨step, run.world.files⟩] :=
  ⟨_, rfl, ⟨_, rfl⟩, rfl, rfl⟩

/-- Once its directory has been made a build starts with nothing but lines of the log. -/
theorem prepare_of_made (listener : BuildStep → Bool) (shards : List Path) (run : BuildRun)
    {files : FileSystem}
    (made : run.world.files.makeDirectories builder.tempDirectory = (.ok (), files)) :
    ∃ after, builder.prepare listener shards run = (.ok (), after) ∧
      (∃ log, after.world = { run.world with files, log }) ∧
      after.aborted = (run.aborted || listener .construct) ∧
      after.notices = run.notices ++ [⟨.construct, files⟩] := by
  have performed : ((Action.makeDirectories builder.tempDirectory).filesDuring
      (.createTempDirectory builder.tempDirectory)).perform run.world =
        (.ok (), { run.world with files }) := by
    rw [Action.perform, Action.filesDuring, Action.mapError, Action.makeDirectories, made]
  rw [prepare, Building.act_bind_of_value performed]
  exact ⟨_, rfl, ⟨_, rfl⟩, rfl, rfl⟩

/-- Without its directory a build does not start. -/
theorem buildFrom_of_not_made (listener : BuildStep → Bool) (events : List BuildEvent)
    {shards : List Path} (run : BuildRun) {reason : FileError} {files : FileSystem}
    (some_shards : shards.isEmpty = false)
    (refused : run.world.files.makeDirectories builder.tempDirectory = (.error reason, files)) :
    (builder.buildFrom listener events shards run).1 = .error
      (.error ⟨[.createTempDirectory builder.tempDirectory], .files reason⟩) := by
  have performed : ((Action.makeDirectories builder.tempDirectory).filesDuring
      (.createTempDirectory builder.tempDirectory)).perform run.world =
        (.error (.error ⟨[.createTempDirectory builder.tempDirectory], .files reason⟩),
          { run.world with files }) := by
    rw [Action.perform, Action.filesDuring, Action.mapError, Action.makeDirectories, refused]
    rfl
  rw [buildFrom, some_shards, if_neg (by decide), bind_apply, prepare,
    Building.act_bind_of_failure performed]

/-- A reduction keeps what it drains. -/
theorem reduce_eq {events : List BuildEvent}
    {kept : Except (Failure TracedError) (Option ParkedPreindex)} {last : Pool}
    (drained : builder.drain (events.foldl builder.apply
      ⟨run.world, run.aborted, shards, [], none⟩) = (kept, last)) :
    builder.reduce events shards run = (kept, ⟨last.world, last.aborted, run.notices⟩) := by
  rw [reduce, drained]

variable {merged : ParkedPreindex}

/-- A build that was called off makes no index. -/
theorem conclude_of_aborted (aborted : run.aborted = true) (report : Report) :
    (builder.conclude listener merged run).1 ≠ .ok (.built report) := by
  unfold conclude
  show ((ite _ _ _ : Building BuildOutcome) run).1 ≠ _
  rw [if_pos aborted, bind_apply]
  split
  · rw [bind_apply]
    nofun
  · nofun

/-- Otherwise the build ends with what finishing the preindex ends with. -/
theorem conclude_eq (builder : Builder) (listener : BuildStep → Bool) (merged : ParkedPreindex)
    (run : BuildRun) (goesOn : run.aborted = false) :
    ∃ log, ∀ result after,
      (builder.finalizeMerged merged).perform { run.world with log } = (result, after) →
        ∃ last, builder.conclude listener merged run = (result.map .built, last) ∧
          last.world.files = after.files := by
  obtain ⟨noted, isNoted, ⟨log, isWorld⟩, -⟩ := notify_eq listener .finalize run
  refine ⟨log, fun result after performed => ?_⟩
  rw [← isWorld] at performed
  unfold conclude
  show ∃ last, (ite _ _ _ : Building BuildOutcome) run = _ ∧ _
  rw [if_neg (by rw [goesOn]; decide), bind_apply, isNoted]
  dsimp only
  cases result with
  | ok report =>
    rw [Building.act_bind_of_value performed, bind_apply]
    exact ⟨_, rfl, rfl⟩
  | error failure =>
    rw [Building.act_bind_of_failure performed]
    exact ⟨_, rfl, rfl⟩

/-- A build concludes with the preindex that its reduction leaves. -/
theorem buildFrom_eq {prepared : BuildRun} (events : List BuildEvent)
    (some_shards : shards.isEmpty = false)
    (isPrepared : builder.prepare listener shards run = (.ok (), prepared)) :
    builder.buildFrom listener events shards run =
      match builder.reduce events shards prepared with
      | (.ok (some merged), after) => builder.conclude listener merged after
      | (.ok none, after) => (.ok .noInput, after)
      | (.error failure, after) => (.error failure, after) := by
  rw [buildFrom, some_shards, if_neg (by decide), bind_apply, isPrepared]
  dsimp only
  rw [bind_apply]
  rcases builder.reduce events shards prepared with ⟨failure | kept, after⟩
  · rfl
  · cases kept <;> rfl

end Builder

/-! ### Builds -/

/-- A build with everything that it depends on. -/
structure Build where
  builder : Builder
  listener : BuildStep → Bool
  events : List BuildEvent
  shards : List Path
  /-- The entries of each shard. -/
  contents : Path → List Entry
  /-- Whether the build is called off beforehand. -/
  aborted : Bool
  start : World

namespace Build

variable {build : Build}

/-- What the build ends with. -/
def result (build : Build) : Except (Failure TracedError) BuildOutcome :=
  (Builder.run (build.builder.buildFrom build.listener build.events build.shards) build.aborted
    build.start).1

/-- The world after the build. -/
def finish (build : Build) : World :=
  (Builder.run (build.builder.buildFrom build.listener build.events build.shards) build.aborted
    build.start).2.world

/-- The steps that the listener was told of. -/
def steps (build : Build) : List BuildStep :=
  (Builder.run (build.builder.buildFrom build.listener build.events build.shards) build.aborted
    build.start).2.notices.map (·.step)

/-- The entries of all shards. -/
def entries (build : Build) : List Entry := build.shards.flatMap build.contents

/-- The lists of all shards. -/
def lists (build : Build) : List (Term × List Posting) :=
  build.builder.lists build.contents build.shards

/-- What the shards say. -/
def listing (build : Build) : Listing := build.builder.listing build.contents build.shards

theorem lists_denotes (build : Build) : Denotes build.lists build.listing :=
  build.builder.lists_denotes _ _

/-- What is built from few enough postings can be mapped. -/
theorem files_small
    (few : 8 * (postingsOf build.entries build.builder.renumber).length + 5 < regionLimit) :
    (wordsFile build.lists).size < regionLimit ∧ (docsFile build.lists).size < regionLimit := by
  have count : countPostings build.lists ≤
      (postingsOf build.entries build.builder.renumber).length := countPostings_listsOf_le _ _ _
  obtain ⟨docs, terms⟩ := sizes_le build.lists_denotes.inhabited
  have blocks := Shape.terms.indexWords_le build.lists.length
  have width : Shape.terms.width = 2 := rfl
  rw [size_wordsFile, Shape.extent, headerWords, width]
  omega

/-- The world once the directory of the temporary files has been asked for. -/
def prepared (build : Build) : World := { build.start with
  files := (build.start.files.makeDirectories build.builder.tempDirectory).2 }

/-- In a directory that is there nothing is made. -/
theorem prepared_eq_start
    (isDirectory : build.start.files.isDirectory build.builder.tempDirectory = true) :
    build.prepared = build.start := by
  rw [prepared, makeDirectories_of_isDirectory isDirectory]

/-- The paths of all temporary files that a build makes of one name that the system hands
out. -/
def temporaries (build : Build) (stem : String) : List Path :=
  (PreindexFiles.mk (build.builder.tempDirectory.fromRoot build.prepared.files.workingDirectory)
    ("preindex-" ++ stem)).all ++
  [(build.builder.docsTarget.parent.fromRoot build.prepared.files.workingDirectory).child
      (".tmp" ++ stem),
    (build.builder.wordsTarget.parent.fromRoot build.prepared.files.workingDirectory).child
      (".tmp" ++ stem)]

/-- The files of every preindex are among them. -/
theorem within_temporaries (build : Build) : PreindexFiles.Within build.temporaries
    build.builder.tempDirectory build.prepared.files :=
  fun _ _ member => List.mem_append_left _ member

/-- A build of shards that can be read. The targets are two places, away from the temporary
files, and what is put there can be mapped. -/
structure WellPosed (build : Build) : Prop where
  nonempty : build.shards ≠ []
  reads : build.builder.Reads build.contents build.shards build.prepared.files
  separate : Separate build.temporaries build.builder.docsTarget build.builder.wordsTarget
    build.prepared.stems build.prepared.files
  words_small : (wordsFile build.lists).size < regionLimit
  docs_small : (docsFile build.lists).size < regionLimit

/-- A name of the kind that a build makes for temporary files. -/
def Temporary (name : String) : Prop :=
  ∃ stem, name = ".tmp" ++ stem ∨ ∃ extension, name = "preindex-" ++ stem ++ "." ++ extension

/-- Only names with one of two first letters are of this kind. -/
theorem plain_of_head {name : String} (notDot : name.toList.head? ≠ some '.')
    (notLetter : name.toList.head? ≠ some 'p') : ¬ Temporary name := by
  rintro ⟨stem, rfl | ⟨extension, rfl⟩⟩
  · exact notDot (by simp)
  · exact notLetter (by simp)

theorem temporary_of_mem {stem : String} {path : Path} (member : path ∈ build.temporaries stem) :
    ∃ name, path.steps.getLast? = some (.into name) ∧ Temporary name := by
  simp only [temporaries, PreindexFiles.all, List.mem_append, List.mem_cons, List.not_mem_nil,
    or_false] at member
  rcases member with (rfl | rfl | rfl) | rfl | rfl
  · exact ⟨_, List.getLast?_concat, stem, .inr ⟨_, rfl⟩⟩
  · exact ⟨_, List.getLast?_concat, stem, .inr ⟨_, rfl⟩⟩
  · exact ⟨_, List.getLast?_concat, stem, .inr ⟨_, rfl⟩⟩
  · exact ⟨_, List.getLast?_concat, stem, .inl rfl⟩
  · exact ⟨_, List.getLast?_concat, stem, .inl rfl⟩

/-- A target whose name is of another kind is away from all temporary files. -/
theorem not_names_of_mem {stem name : String} {path target : Path} {location : Location}
    {files : FileSystem} (member : path ∈ build.temporaries stem)
    (isName : target.steps.getLast? = some (.into name)) (plain : ¬ Temporary name)
    (names : Names files path location) : ¬ Names files target location := by
  intro targetNames
  obtain ⟨other, isOther, temporary⟩ := temporary_of_mem member
  have same := (isOther.symm.trans names.last).trans (targetNames.last.symm.trans isName)
  exact plain (Step.into.inj (Option.some.inj same) ▸ temporary)

/-- Two targets with names of another kind are separate. -/
theorem separate_of_plain {docsName wordsName : String}
    (distinct : ∀ location, Names build.prepared.files build.builder.docsTarget location →
      ¬ Names build.prepared.files build.builder.wordsTarget location)
    (isDocs : build.builder.docsTarget.steps.getLast? = some (.into docsName))
    (isWords : build.builder.wordsTarget.steps.getLast? = some (.into wordsName))
    (docsPlain : ¬ Temporary docsName) (wordsPlain : ¬ Temporary wordsName) :
    Separate build.temporaries build.builder.docsTarget build.builder.wordsTarget
      build.prepared.stems build.prepared.files where
  distinct := distinct
  docs _ _ member _ names := not_names_of_mem member isDocs docsPlain names
  words _ _ member _ names := not_names_of_mem member isWords wordsPlain names

/-- The build may be called off before its files are written. -/
def MayStop (build : Build) : Prop :=
  build.aborted = true ∨ build.listener .construct = true ∨ .abort ∈ build.events

/-- The system has no reason to refuse an operation on files: the directory of the temporary
files is there or can be made, it is willing, the names for them lead to places that are free,
and both targets can be written. -/
structure Unhindered (build : Build) : Prop where
  made : (build.start.files.makeDirectories build.builder.tempDirectory).1 = .ok ()
  supplied : Supplied build.temporaries (2 * build.shards.length + 1) build.prepared
  docs : build.prepared.files.Writable build.builder.docsTarget
  words : build.prepared.files.Writable build.builder.wordsTarget

/-- The system refused an operation on files. -/
def Refused (build : Build) : Prop :=
  ∃ contexts cause reason, build.result = .error (.error ⟨contexts, cause⟩) ∧
    (cause = .files reason ∨ cause = .storage (.files reason))

theorem WellPosed.publishable (wellPosed : build.WellPosed) : Publishable build.lists where
  terms := build.lists_denotes.terms
  docs := build.lists_denotes.docs
  words_small := wellPosed.words_small
  docs_small := wellPosed.docs_small

/-- The files of the lists of all shards are under the targets, and nothing else has changed
since the directory of the temporary files was made. -/
structure Done (build : Build) : Prop where
  result : build.result = .ok (.built (Preindex.reportOf build.lists))
  published : ∃ docsPlace wordsPlace, Preindex.Published build.builder.docsTarget
    build.builder.wordsTarget docsPlace wordsPlace build.lists build.prepared.files
    build.finish.files

/-- The pool that a reduction starts with. -/
def pool (build : Build) (lines : List LogLine) : Pool where
  world := { build.prepared with log := lines }
  aborted := build.aborted || build.listener .construct
  waiting := build.shards
  parked := []
  failure := none

/-- Once its directory has been made, a build is its reduction and what concludes it. -/
theorem run_eq (nonempty : build.shards ≠ []) {files : FileSystem}
    (made : build.start.files.makeDirectories build.builder.tempDirectory = (.ok (), files)) :
    ∃ lines, ∀ kept last, build.builder.drain
        (build.events.foldl build.builder.apply (build.pool lines)) = (kept, last) →
      Builder.run (build.builder.buildFrom build.listener build.events build.shards) build.aborted
        build.start =
          match kept, BuildRun.mk last.world last.aborted [⟨.construct, files⟩] with
          | .ok (some merged), after => build.builder.conclude build.listener merged after
          | .ok none, after => (.ok .noInput, after)
          | .error failure, after => (.error failure, after) := by
  obtain ⟨ready, isReady, ⟨lines, isWorld⟩, isAborted, notices⟩ :=
    Builder.prepare_of_made build.listener build.shards ⟨build.start, build.aborted, []⟩ made
  have isPrepared : build.prepared = { build.start with files } := by rw [prepared, made]
  refine ⟨lines, fun kept last drained => ?_⟩
  have reduced : build.builder.reduce build.events build.shards ready =
      (kept, ⟨last.world, last.aborted, ready.notices⟩) := by
    rw [pool, isPrepared] at drained
    exact Builder.reduce_eq (by rw [isWorld, isAborted]; exact drained)
  have ran := Builder.buildFrom_eq build.events (List.isEmpty_eq_false_iff.mpr nonempty) isReady
  rw [reduced, notices, List.nil_append] at ran
  rw [Builder.run, ran]
  rcases kept with failure | kept
  · rfl
  · cases kept <;> rfl

/-- The reduction ends with the lists of all shards, unless it is stopped. -/
theorem WellPosed.drain (wellPosed : build.WellPosed) (lines : List LogLine)
    {result : Except (Failure TracedError) (Option ParkedPreindex)} {last : Pool}
    (drained : build.builder.drain (build.events.foldl build.builder.apply (build.pool lines)) =
      (result, last)) :
    (build.MayStop ∧ last.aborted = true) ∨
      (∃ failure, result = .error failure ∧ Obstructed build.Unhindered failure) ∨
      ∃ parcel, result = .ok (some ⟨parcel.files⟩) ∧ last.aborted = false ∧
        parcel.lists = build.lists ∧
        Holding build.temporaries 2 build.Unhindered [parcel] build.prepared last.world := by
  have within := build.within_temporaries
  have started : Builder.UnderWay build.builder build.contents build.shards build.temporaries
      build.Unhindered build.prepared (build.pool lines) :=
    .init ((Holding.init fun unhindered => unhindered.supplied).log lines) rfl rfl rfl
  have ended := (started.run wellPosed.reads within wellPosed.publishable.small build.events).drain
    wellPosed.reads within wellPosed.publishable.small wellPosed.nonempty
  rw [drained] at ended
  rcases ended with aborted | blocked | ⟨parcel, isParcel, goesOn, denotes, holding⟩
  · refine .inl ⟨?_, aborted⟩
    by_cases called : .abort ∈ build.events
    · exact .inr (.inr called)
    · have same := build.builder.drain_aborted
        (build.events.foldl build.builder.apply (build.pool lines))
      rw [drained, Builder.run_aborted called] at same
      have before : (build.aborted || build.listener .construct) = true := same.symm.trans aborted
      exact (Bool.or_eq_true_iff.mp before).imp_right .inl
  · exact .inr (.inl blocked)
  · exact .inr (.inr ⟨parcel, isParcel, goesOn, denotes.unique build.lists_denotes, holding⟩)

/-- Without its directory a build is refused. -/
theorem refused_of_not_made (nonempty : build.shards ≠ []) {reason : FileError}
    {files : FileSystem}
    (refused : build.start.files.makeDirectories build.builder.tempDirectory =
      (.error reason, files)) : build.Refused ∧ ¬ build.Unhindered := by
  have ended := Builder.buildFrom_of_not_made build.listener build.events
    ⟨build.start, build.aborted, []⟩ (List.isEmpty_eq_false_iff.mpr nonempty) refused
  refine ⟨⟨_, _, reason, ended, .inl rfl⟩, fun unhindered => ?_⟩
  have made := unhindered.made
  rw [refused] at made
  cases made

/-- Concluding with the lists of all shards publishes them, unless the system refuses it. -/
theorem WellPosed.conclude (wellPosed : build.WellPosed) {parcel : Parcel}
    (run : BuildRun) (isLists : parcel.lists = build.lists) (goesOn : run.aborted = false)
    (holding : Holding build.temporaries 2 build.Unhindered [parcel] build.prepared run.world) :
    ∃ result last, build.builder.conclude build.listener ⟨parcel.files⟩ run = (result, last) ∧
      ((∃ failure, result = .error failure ∧ Obstructed build.Unhindered failure) ∨
        result = .ok (.built (Preindex.reportOf build.lists)) ∧ ∃ docsPlace wordsPlace,
          Preindex.Published build.builder.docsTarget build.builder.wordsTarget docsPlace wordsPlace
            build.lists build.prepared.files last.world.files) := by
  obtain ⟨log, concludes⟩ := build.builder.conclude_eq build.listener ⟨parcel.files⟩ run goesOn
  have ends := build.builder.finalizeMerged_ends (holding.log log)
    (isLists ▸ wellPosed.publishable)
    (fun stem => List.mem_append_right _ List.mem_cons_self)
    (fun stem => List.mem_append_right _ (List.mem_cons_of_mem _ List.mem_cons_self))
    wellPosed.separate (fun unhindered => unhindered.docs) fun unhindered => unhindered.words
  rcases ends.cases with ⟨report, after, performed, isReport, docsPlace, wordsPlace, published⟩ |
    ⟨failure, after, performed, obstructed⟩
  · obtain ⟨last, concluded, files⟩ := concludes _ _ performed
    refine ⟨_, last, concluded, .inr ⟨?_, docsPlace, wordsPlace, ?_⟩⟩
    · rw [isReport, isLists]
      rfl
    · rw [files, ← isLists]
      exact published
  · obtain ⟨last, concluded, -⟩ := concludes _ _ performed
    exact ⟨_, last, concluded, .inl ⟨failure, rfl, obstructed⟩⟩

/-- What a build can come to. -/
theorem WellPosed.outcome (wellPosed : build.WellPosed) :
    (build.MayStop ∧ ∀ report, build.result ≠ .ok (.built report)) ∨
      (build.Refused ∧ ¬ build.Unhindered) ∨ build.Done := by
  rcases making : build.start.files.makeDirectories build.builder.tempDirectory with
    ⟨reason | _, files⟩
  · exact .inr (.inl (refused_of_not_made wellPosed.nonempty making))
  obtain ⟨lines, runs⟩ := run_eq wellPosed.nonempty making
  cases drained : build.builder.drain
    (build.events.foldl build.builder.apply (build.pool lines)) with
  | mk kept last =>
  have ran := runs kept last drained
  have blocks {failure : Failure TracedError} (obstructed : Obstructed build.Unhindered failure)
      (isResult : build.result = .error failure) : build.Refused ∧ ¬ build.Unhindered := by
    obtain ⟨hindered, contexts, reason, rfl⟩ := obstructed
    exact ⟨⟨contexts, _, reason, isResult, .inr rfl⟩, hindered⟩
  rcases wellPosed.drain lines drained with ⟨mayStop, aborted⟩ | ⟨failure, rfl, obstructed⟩ |
    ⟨parcel, rfl, goesOn, isLists, holding⟩
  · refine .inl ⟨mayStop, fun report => ?_⟩
    rw [result, ran]
    rcases kept with failure | kept
    · nofun
    · cases kept with
      | none => nofun
      | some merged => exact Builder.conclude_of_aborted aborted report
  · exact .inr (.inl (blocks obstructed (congrArg Prod.fst ran)))
  · obtain ⟨ended, final, concluded, outcome⟩ :=
      wellPosed.conclude ⟨last.world, last.aborted, _⟩ isLists goesOn holding
    have isResult : build.result = ended := congrArg Prod.fst (ran.trans concluded)
    rcases outcome with ⟨failure, rfl, obstructed⟩ | ⟨isBuilt, docsPlace, wordsPlace, published⟩
    · exact .inr (.inl (blocks obstructed isResult))
    · refine .inr (.inr ⟨isResult.trans isBuilt, docsPlace, wordsPlace, ?_⟩)
      have isFinish : build.finish = final.world :=
        congrArg (fun ran => ran.2.world) (ran.trans concluded)
      rw [isFinish]
      exact published

end Build

end InvertedIndex
