/-
This file proves that a build stops at a shard that it cannot read. The shard may be found out
before, between or after the merges of the others. In whatever order they come, the build ends
with the error of such a shard and never goes on to its last steps, every file is as it was,
and none of the preindexes that were made of the other shards is left.
-/

import InvertedIndex.Proofs.BuiltIndex
import InvertedIndex.Proofs.Ownership

namespace InvertedIndex

open FileSystem

/-- An operation that is known to end with an error ends a build with it. -/
theorem Action.Ends.during_error {α : Type} {action : Action StorageError α} {world : World}
    {cause : StorageError} {good : α → World → Prop}
    (ends : action.Ends world (fun failure after => failure = .error cause ∧ after = world) good)
    (context : Context) : (action.during context).Ends world
      (fun failure after => failure = .error ⟨[context], .storage cause⟩ ∧ after = world) good := by
  refine ends.mapError fun failure after same => ⟨?_, same.2⟩
  rw [same.1]
  rfl

/-! ### Errors and the steps they come from -/

/-- A failure of the storage layer, in one of these contexts. -/
def InContext (contexts : List Context) (failure : Failure TracedError) : Prop :=
  ∃ context ∈ contexts, ∃ cause : Failure StorageError,
    failure = cause.map fun error => ⟨[context], .storage error⟩

/-- What fails as a part of a build fails in the context of this part. -/
theorem Action.Ends.during_inContext {α : Type} {action : Action StorageError α} {world : World}
    {context : Context} {contexts : List Context} (member : context ∈ contexts) :
    (action.during context).Ends world (fun failure _ => InContext contexts failure)
      fun _ _ => True :=
  (Action.Ends.trivial action world).mapError fun failure _ _ => ⟨context, member, failure, rfl⟩

namespace Builder

variable {builder : Builder} {world : World}

/-- A shard that can be opened fails in the context of indexing. -/
theorem constructShard_inContext {shard : Path} {items : List (Except StorageError Entry)}
    (opened : builder.source.open shard world.files = .ok items) :
    (builder.constructShard false shard).Ends world
      (fun failure _ => InContext [.indexShard shard] failure) fun _ _ => True := by
  have looked : (Action.inspect (builder.source.open shard)).Ends world (fun _ _ => False)
      fun _ _ => True := .inspect_ends opened True.intro
  rw [constructShard, if_neg (by decide)]
  refine Action.Ends.bind (looked.mapError fun _ _ impossible => impossible.elim)
    fun items _ _ => ?_
  refine (Action.Ends.during_inContext (List.mem_singleton_self _)).bind fun preindex _ _ => ?_
  exact .log_bind (.pure True.intro)

/-- A shard that cannot be opened fails with the error of opening it. -/
theorem constructShard_of_unopened {shard : Path} {cause : StorageError}
    (opened : builder.source.open shard world.files = .error cause) :
    (builder.constructShard false shard).Ends world
      (fun failure after => failure = .error ⟨[.openShard shard], .storage cause⟩ ∧ after = world)
      fun _ _ => False := by
  have looked : (Action.inspect (builder.source.open shard)).Ends world
      (fun failure after => failure = .error cause ∧ after = world) fun _ _ => False := by
    refine .of_failure ?_ ⟨rfl, rfl⟩
    rw [Action.perform, Action.inspect, opened]
  rw [constructShard, if_neg (by decide)]
  exact .bind_of_fails (looked.during_error _)

/-- A shard that holds an error fails with the first one. -/
theorem constructShard_of_unread {shard : Path} {entries : List Entry} {cause : StorageError}
    {rest : List (Except StorageError Entry)}
    (opened : builder.source.open shard world.files =
      .ok (entries.map .ok ++ .error cause :: rest)) :
    (builder.constructShard false shard).Ends world
      (fun failure after => failure = .error ⟨[.indexShard shard], .storage cause⟩ ∧ after = world)
      fun _ _ => False := by
  have looked : (Action.inspect (builder.source.open shard)).Ends world
      (fun _ _ => False)
      fun items after => items = entries.map .ok ++ .error cause :: rest ∧ after = world :=
    .inspect_ends opened ⟨rfl, rfl⟩
  rw [constructShard, if_neg (by decide)]
  refine Action.Ends.bind (looked.mapError fun _ _ impossible => impossible.elim) ?_
  rintro _ between ⟨rfl, unchanged⟩
  rw [unchanged]
  have refused : (Preindex.construct (entries.map .ok ++ .error cause :: rest)
      builder.renumber builder.tempDirectory builder.backend).Ends world
      (fun failure after => failure = .error cause ∧ after = world) fun _ _ => False := by
    rw [Preindex.construct, mapM_id_error]
    exact .of_failure rfl ⟨rfl, rfl⟩
  exact .bind_of_fails (refused.during_error _)

/-- Two preindexes fail in a context of merging. -/
theorem mergePair_inContext (left right : ParkedPreindex) :
    (builder.mergePair left right).Ends world
      (fun failure _ => InContext [.openMergeInput, .mergePreindexes, .deleteMergeInputs] failure)
      fun _ _ => True := by
  rw [mergePair]
  refine Action.Ends.bind ((Action.Ends.during_inContext (by decide)).cleaningUp right.discard
    fun _ _ inContext => inContext) fun first _ _ => ?_
  refine Action.Ends.bind ((Action.Ends.during_inContext (by decide)).cleaningUp first.discard
    fun _ _ inContext => inContext) fun second _ _ => ?_
  refine .outcome_bind_of_any fun merged _ => .outcome_bind_of_any fun firstRemoved _ =>
    .outcome_bind_of_any fun secondRemoved _ => ?_
  refine (Action.Ends.during_inContext (by decide)).bind fun result _ _ => ?_
  refine Action.Ends.bind ((Action.Ends.during_inContext (by decide)).cleaningUp result.discard
    fun _ _ inContext => inContext) fun _ _ _ => ?_
  exact .log_bind (.pure True.intro)

end Builder

/-! ### Shards that cannot be read -/

namespace Build

/-- What has come to the files that a build started from is temporary files of the build. -/
structure Grown (build : Build) (later : FileSystem) : Prop where
  kept : build.prepared.files.KeptIn later
  added : ∀ location, later.lookup location ≠ build.prepared.files.lookup location →
    ∃ draw, ∃ path ∈ build.temporaries (build.prepared.stems draw),
      Names build.prepared.files path location

/-- This is what opening the shard ends with, whatever temporary files there are. -/
def Opens (build : Build) (shard : Path)
    (opened : Except StorageError (List (Except StorageError Entry))) : Prop :=
  ∀ later, build.Grown later → build.builder.source.open shard later = opened

/-- The shard cannot be opened, or what it holds is an error from some entry on. Either ends a
build with this error. -/
inductive Spoils (build : Build) (shard : Path) : TracedError → Prop
  | unopened {cause : StorageError} (opens : build.Opens shard (.error cause)) :
    build.Spoils shard ⟨[.openShard shard], .storage cause⟩
  | unread {entries : List Entry} {cause : StorageError}
    {rest : List (Except StorageError Entry)}
    (opens : build.Opens shard (.ok (entries.map .ok ++ .error cause :: rest))) :
    build.Spoils shard ⟨[.indexShard shard], .storage cause⟩

/-- A build with a shard that cannot be read, over a directory for temporary files that is
there. -/
structure Spoiled (build : Build) : Prop where
  directory : build.start.files.isDirectory build.builder.tempDirectory = true
  unclaimed : build.start.Unclaimed build.builder.tempDirectory
  steady : ∀ shard ∈ build.shards, ∃ opened, build.Opens shard opened
  contents : ∀ shard ∈ build.shards, ∀ entries, build.Opens shard (.ok (entries.map .ok)) →
    build.contents shard = entries
  some_spoils : ∃ shard ∈ build.shards, ∃ error, build.Spoils shard error
  small : 2 * countPostings build.lists < wordLimit

variable {build : Build} {shard : Path} {error : TracedError}

/-- The start has grown by nothing. -/
theorem Grown.init (build : Build) : build.Grown build.prepared.files where
  kept := ⟨.refl _, fun _ _ isFile => isFile⟩
  added _ different := absurd rfl different

/-- What a reduction has added is temporary files. -/
theorem Grown.of_holding {draws : Nat} {clear : Prop} {parcels : List Parcel} {world : World}
    (holding : Holding build.temporaries draws clear parcels build.prepared world) :
    build.Grown world.files where
  kept := holding.keptIn
  added location different := by
    have isThere : location ∈ locationsOf parcels :=
      by_contra fun outside => different (holding.elsewhere location outside)
    obtain ⟨parcel, member, isPlace⟩ := List.mem_flatMap.mp isThere
    obtain ⟨path, isPath, names⟩ := (holding.holds parcel member).exists_path location isPlace
    obtain ⟨draw, handedOut⟩ := holding.handed_out parcel member
    exact ⟨draw, path, handedOut path isPath, names.of_sameDirectories holding.directories.symm⟩

/-- Every shard can be read, or it ends a build. -/
theorem Spoiled.reads_or_spoils (spoiled : build.Spoiled) (member : shard ∈ build.shards) :
    build.Opens shard (.ok ((build.contents shard).map .ok)) ∨
      ∃ error, build.Spoils shard error := by
  obtain ⟨opened, opens⟩ := spoiled.steady shard member
  cases opened with
  | error cause => exact .inr ⟨_, .unopened opens⟩
  | ok items =>
    rcases values_or_first_error items with ⟨entries, rfl⟩ | ⟨entries, cause, rest, rfl⟩
    · rw [spoiled.contents shard member entries opens]
      exact .inl opens
    · exact .inr ⟨_, .unread opens⟩

/-- A shard that ends a build cannot be read. -/
theorem Spoils.not_opens (spoils : build.Spoils shard error) (entries : List Entry) :
    ¬ build.Opens shard (.ok (entries.map .ok)) := by
  intro reads
  have isRead := reads _ (.init build)
  cases spoils with
  | unopened opens =>
    rw [opens _ (.init build)] at isRead
    cases isRead
  | @unread before cause rest opens =>
    rw [opens _ (.init build)] at isRead
    have isError : (.error cause : Except StorageError Entry) ∈ entries.map Except.ok := by
      rw [← Except.ok.inj isRead]
      exact List.mem_append_right _ List.mem_cons_self
    obtain ⟨entry, -, same⟩ := List.mem_map.mp isError
    cases same

/-- The error says which shard could not be read, and that it was to be made into a preindex. -/
theorem Spoils.messages_eq (spoils : build.Spoils shard error) : ∃ verb cause,
    (verb = "open" ∨ verb = "index") ∧ error.cause = .storage cause ∧
      error.messages = [s!"CONSTRUCT: failed to {verb} shard {shard}", cause.message] := by
  cases spoils with
  | @unopened cause opens => exact ⟨"open", cause, .inl rfl, rfl, rfl⟩
  | @unread entries cause rest opens => exact ⟨"index", cause, .inr rfl, rfl, rfl⟩

/-- Indexing such a shard ends with its error and changes nothing. -/
theorem Spoils.constructShard_ends (spoils : build.Spoils shard error) {world : World}
    (grown : build.Grown world.files) :
    (build.builder.constructShard false shard).Ends world
      (fun failure after => failure = .error error ∧ after = world) fun _ _ => False := by
  cases spoils with
  | unopened opens => exact Builder.constructShard_of_unopened (opens _ grown)
  | unread opens => exact Builder.constructShard_of_unread (opens _ grown)

/-! ### Reducing the shards -/

/-- The system is willing, and it has good names for all the files of a reduction. -/
def NamesSupplied (build : Build) : Prop :=
  Supplied build.temporaries (2 * build.shards.length + 1) build.prepared

/-- The failure comes from a shard that cannot be read, or else the system refused an operation
on files, and this was not in opening a shard. -/
def Explains (build : Build) (failure : Failure TracedError) : Prop :=
  (∃ shard ∈ build.shards, ∃ error, failure = .error error ∧ build.Spoils shard error) ∨
    Obstructed build.NamesSupplied failure ∧
      ∃ contexts, InContext contexts failure ∧ ∀ shard, .openShard shard ∉ contexts

/-- A reduction has failed for a reason that is known, or it goes on and all the shards that
cannot be read are still waiting. -/
def Faring (build : Build) (pool : Pool) : Prop :=
  (∃ failure, pool.failure = some failure ∧ build.Explains failure) ∨
    (∃ portions, Builder.Reducing build.builder build.contents build.shards build.temporaries
      build.NamesSupplied build.prepared portions pool) ∧
    ∀ shard ∈ build.shards, (∃ error, build.Spoils shard error) → shard ∈ pool.waiting

variable {pool : Pool}

/-- A failure that can be explained is the first one when there was none before. -/
theorem Faring.of_first {failure : Failure TracedError} {after : Pool}
    (none_before : pool.failure = none) (failed : after.failure = pool.failure.or (some failure))
    (explains : build.Explains failure) : build.Faring after := by
  rw [none_before, Option.none_or] at failed
  exact .inl ⟨failure, failed, explains⟩

theorem Faring.constructAt (spoiled : build.Spoiled) (faring : build.Faring pool) (place : Nat) :
    build.Faring (build.builder.constructAt pool place) := by
  rcases faring with ⟨failure, failed, explains⟩ | ⟨⟨portions, reducing⟩, stillWaiting⟩
  · exact .inl ⟨failure, Builder.constructAt_failure failed place, explains⟩
  rcases Builder.constructAt_cases build.builder pool place with
    same | ⟨shard, waiting, picked, ended⟩
  · rw [same]
    exact .inr ⟨⟨portions, reducing⟩, stillWaiting⟩
  have member : shard ∈ build.shards := reducing.covered.mem_iff.mp
    (List.mem_append_right _ (picked.mem_iff.mp List.mem_cons_self))
  have grown := Grown.of_holding reducing.holding
  rcases spoiled.reads_or_spoils member with reads | ⟨error, spoils⟩
  · have constructed := reducing.construct build.within_temporaries spoiled.small picked
      (reads _ grown)
    rcases ended with ⟨parked, after, performed, isAfter⟩ | ⟨failure, after, performed, isAfter⟩
    · rw [isAfter]
      refine .inr ⟨constructed.of_perform_ok performed, fun other isShard spoils => ?_⟩
      rcases List.mem_cons.mp (picked.mem_iff.mpr (stillWaiting other isShard spoils)) with
        rfl | isWaiting
      · obtain ⟨error, spoils⟩ := spoils
        exact absurd reads (spoils.not_opens _)
      · exact isWaiting
    · have blocked := constructed.of_perform_error performed
      rw [reducing.aborted] at performed
      rw [isAfter]
      have inContext :=
        (Builder.constructShard_inContext (reads _ grown)).of_perform_error performed
      exact .of_first reducing.failure rfl (.inr ⟨blocked, _, inContext, by simp⟩)
  · have stopped := spoils.constructShard_ends grown
    rw [← reducing.aborted] at stopped
    rcases ended with ⟨parked, after, performed, -⟩ | ⟨failure, after, performed, isAfter⟩
    · exact (stopped.of_perform_ok performed).elim
    · rw [isAfter]
      have isError := (stopped.of_perform_error performed).1
      exact .of_first reducing.failure rfl (.inl ⟨shard, member, error, isError, spoils⟩)

theorem Faring.mergeAt (spoiled : build.Spoiled) (faring : build.Faring pool) (left right : Nat) :
    build.Faring (build.builder.mergeAt pool left right) := by
  rcases faring with ⟨failure, failed, explains⟩ | ⟨⟨portions, reducing⟩, stillWaiting⟩
  · exact .inl ⟨failure, Builder.mergeAt_failure failed left right, explains⟩
  rcases Builder.mergeAt_cases build.builder reducing.parked left right with
    same | ⟨first, second, others, picked, ended⟩
  · rw [same]
    exact .inr ⟨⟨portions, reducing⟩, stillWaiting⟩
  have merged := reducing.merge build.within_temporaries spoiled.small picked
  rcases ended with ⟨parked, after, performed, isAfter⟩ | ⟨failure, after, performed, isAfter⟩
  · rw [isAfter]
    exact .inr ⟨merged.of_perform_ok performed, stillWaiting⟩
  · rw [isAfter]
    have inContext := (Builder.mergePair_inContext _ _).of_perform_error performed
    exact .of_first reducing.failure rfl
      (.inr ⟨merged.of_perform_error performed, _, inContext, by simp⟩)

/-- Events that do not call the build off keep this. -/
theorem Faring.run (spoiled : build.Spoiled) {events : List BuildEvent} (calm : .abort ∉ events)
    (faring : build.Faring pool) : build.Faring (events.foldl build.builder.apply pool) :=
  Builder.run_induction _ faring (fun _ place faring => faring.constructAt spoiled place)
    (fun _ left right faring => faring.mergeAt spoiled left right)
    fun called => absurd called calm

/-- A reduction does not end before it has failed. -/
theorem Faring.drain (spoiled : build.Spoiled) (faring : build.Faring pool) :
    ∃ failure, (build.builder.drain pool).1 = .error failure ∧ build.Explains failure := by
  obtain ⟨reached, faring, ended⟩ := Builder.drain_induction _ faring
    (fun _ place faring => faring.constructAt spoiled place)
    fun _ left right faring => faring.mergeAt spoiled left right
  generalize build.builder.drain pool = result at ended
  rcases faring with ⟨first, isFirst, explains⟩ | ⟨⟨portions, reducing⟩, stillWaiting⟩
  · cases ended with
    | failed failed =>
      rw [isFirst] at failed
      cases failed
      exact ⟨first, rfl, explains⟩
    | done none_failed =>
      rw [none_failed] at isFirst
      cases isFirst
  · cases ended with
    | failed failed =>
      rw [reducing.failure] at failed
      cases failed
    | done _ none_waiting =>
      obtain ⟨shard, member, spoils⟩ := spoiled.some_spoils
      exact absurd (stillWaiting shard member spoils) (none_waiting ▸ List.not_mem_nil)

/-! ### The end of the build -/

/-- A build that is not called off starts with all shards waiting. -/
theorem Faring.init (goesOn : ¬ build.MayStop) (lines : List LogLine) :
    build.Faring (build.pool lines) := by
  have underWay : Builder.UnderWay build.builder build.contents build.shards build.temporaries
      build.NamesSupplied build.prepared (build.pool lines) :=
    .init ((Holding.init fun supplied => supplied).log lines) rfl rfl rfl
  rcases underWay with reducing | ⟨failure, failed, -⟩ | aborted
  · exact .inr ⟨reducing, fun shard member _ => member⟩
  · cases failed
  · exact absurd ((Bool.or_eq_true_iff.mp aborted).imp_right .inl) goesOn

/-- A build over a directory that is there starts without possessions. -/
theorem tidy_pool
    (directory : build.start.files.isDirectory build.builder.tempDirectory = true)
    (lines : List LogLine) : Builder.Tidy build.start (build.pool lines) := by
  have unchanged : build.prepared.files = build.start.files :=
    congrArg World.files (prepared_eq_start directory)
  exact ⟨[], rfl, (Owning.init build.start).of_files rfl unchanged⟩

/-- The reduction fails, and nothing that it has made is left. -/
theorem Spoiled.drain (spoiled : build.Spoiled) (goesOn : ¬ build.MayStop) (lines : List LogLine)
    {kept : Except (Failure TracedError) (Option ParkedPreindex)} {last : Pool}
    (drained : build.builder.drain (build.events.foldl build.builder.apply (build.pool lines)) =
      (kept, last)) :
    ∃ failure, kept = .error failure ∧ build.Explains failure ∧
      Owning [] build.start last.world := by
  have calm : .abort ∉ build.events := fun called => goesOn (.inr (.inr called))
  have fared := ((Faring.init goesOn lines).run spoiled calm).drain spoiled
  have left := ((tidy_pool spoiled.directory lines).run spoiled.unclaimed build.events).drain
    spoiled.unclaimed
  rw [drained] at fared left
  obtain ⟨failure, rfl, explains⟩ := fared
  rcases left with ⟨-, -, owning⟩ | ⟨done, -⟩ | ⟨possession, done, -⟩
  · exact ⟨failure, rfl, explains, owning⟩
  · cases done
  · cases done

/-- So the build fails in its first step and leaves no trace. -/
theorem Spoiled.outcome (spoiled : build.Spoiled) (goesOn : ¬ build.MayStop) :
    (∃ failure, build.result = .error failure ∧ build.Explains failure) ∧
      build.steps = [.construct] ∧ ChangesOnly [] build.start.files build.finish.files := by
  obtain ⟨shard, member, -⟩ := spoiled.some_spoils
  obtain ⟨lines, runs⟩ := run_eq (List.ne_nil_of_mem member)
    (makeDirectories_of_isDirectory spoiled.directory)
  cases drained : build.builder.drain
    (build.events.foldl build.builder.apply (build.pool lines)) with
  | mk kept last =>
  obtain ⟨failure, rfl, explains, owning⟩ := spoiled.drain goesOn lines drained
  have ran := runs _ _ drained
  refine ⟨⟨failure, congrArg Prod.fst ran, explains⟩, ?_, ?_⟩
  · rw [steps, ran]
    rfl
  · rw [finish, ran]
    exact owning.changesOnly

/-! ### Shards that are files -/

/-- A file away from the temporary files is read as it was, also when it is not there. -/
theorem opens_of_files (fromFiles : build.builder.source = .files) {location : Location}
    (names : Names build.prepared.files shard location)
    (apart : ∀ draw, ∀ path ∈ build.temporaries (build.prepared.stems draw),
      ¬ Names build.prepared.files path location) :
    build.Opens shard (build.builder.source.open shard build.prepared.files) := by
  intro later grown
  have same : later.lookup location = build.prepared.files.lookup location := by
    refine by_contra fun different => ?_
    obtain ⟨draw, path, member, isTemporary⟩ := grown.added location different
    exact apart draw path member isTemporary
  have read : later.read shard = build.prepared.files.read shard := by
    rw [(names.of_sameDirectories grown.kept.directories).read_eq, names.read_eq, same]
  rw [fromFiles]
  show (Journal.openFile shard later).map _ = (Journal.openFile shard build.prepared.files).map _
  rw [Journal.openFile, Journal.openFile, read]

/-- When no name in the files is of the kind that temporary files have, no such name is in use. -/
theorem unclaimed_of_plain (plain : ∀ location, build.start.files.lookup location ≠ none →
      ¬ Temporary (location.headD "")) :
    build.start.Unclaimed build.builder.tempDirectory := by
  intro draw _ path member location names
  refine by_contra fun present => plain location present ?_
  obtain ⟨extension, -, rfl⟩ := PreindexFiles.exists_extension member
  exact ⟨_, .inr ⟨extension, names.headD_of_child⟩⟩

end Build

/-- A shard that cannot be read stops a build. However the shards and merges are ordered, the
build ends with an error that names such a shard and what was to be done with it. The one other
error is that the system refused to handle a temporary file, which it cannot while it is willing
and has good names for them. The build does not get beyond its first step, and every file and
directory is as it was: both targets, and the directory of the temporary files. -/
theorem unreadable_shard_stops_build (build : Build) (spoiled : build.Spoiled)
    (goesOn : ¬ build.MayStop) :
    (∃ error, build.result = .error (.error error) ∧
      ((∃ shard ∈ build.shards, build.Spoils shard error ∧ ∃ verb cause,
          (verb = "open" ∨ verb = "index") ∧ error.cause = .storage cause ∧
            error.messages = [s!"CONSTRUCT: failed to {verb} shard {shard}", cause.message]) ∨
        ¬ build.NamesSupplied ∧ ∃ context reason,
          error = ⟨[context], .storage (.files reason)⟩ ∧ ∀ shard, context ≠ .openShard shard)) ∧
      build.steps = [.construct] ∧
      (∀ path, build.finish.files.read path = build.start.files.read path) ∧
      ∀ location, build.finish.files.lookup location = build.start.files.lookup location := by
  obtain ⟨⟨failure, isResult, explains⟩, steps, only⟩ := spoiled.outcome goesOn
  refine ⟨?_, steps, only.read_eq, fun location => only.elsewhere location List.not_mem_nil⟩
  rcases explains with ⟨shard, member, error, rfl, spoils⟩ |
    ⟨⟨hindered, _, reason, rfl⟩, contexts, ⟨context, member, cause, isFailure⟩, notOpening⟩
  · exact ⟨error, isResult, .inl ⟨shard, member, spoils, spoils.messages_eq⟩⟩
  · cases cause with
    | fault reason => cases isFailure
    | error cause =>
      cases isFailure
      exact ⟨_, isResult, .inr ⟨hindered, context, reason, rfl, fun shard same =>
        notOpening shard (same ▸ member)⟩⟩

/-! ### A build with a file that is not there -/

/-- The build of the first file and of one that is not there. -/
def missingShardBuild : Build := { twoShardBuild with
  events := [.construct 0]
  shards := [rootFile "first", rootFile "third"] }

namespace missingShardBuild

theorem prepared_eq : missingShardBuild.prepared = missingShardBuild.start :=
  Build.prepared_eq_start (by decide)

/-- Every name in the files is plain. -/
theorem plain (location : Location)
    (present : missingShardBuild.start.files.lookup location ≠ none) :
    ¬ Build.Temporary (location.headD "") := by
  cases location with
  | nil => exact Build.plain_of_head (by decide) (by decide)
  | cons name holder =>
    rw [FileSystem.lookup, Ne, Option.map_eq_none_iff, List.find?_eq_none] at present
    simp only [not_forall, not_not] at present
    obtain ⟨entry, member, same⟩ := present
    rcases List.mem_pair.mp member with rfl | rfl <;> cases of_decide_eq_true same <;>
      exact Build.plain_of_head (by decide) (by decide)

theorem opens_first : missingShardBuild.Opens (rootFile "first") (.ok (firstShard.map .ok)) := by
  have reads : missingShardBuild.builder.Reads missingShardBuild.contents [rootFile "first"]
      missingShardBuild.prepared.files := by
    rw [prepared_eq]
    refine Builder.reads_of_files rfl fun shard member => ?_
    rw [List.mem_singleton.mp member]
    exact twoShardBuild.holds_first
  exact fun later grown => reads later grown.kept _ (List.mem_singleton_self _)

theorem opens_third : missingShardBuild.Opens (rootFile "third") (.error (.files .notFound)) := by
  have names : Names missingShardBuild.prepared.files (rootFile "third") ["third"] := by
    rw [prepared_eq]
    exact ⟨rfl, rfl, rfl, nofun, rfl, rfl, by decide⟩
  have isPlain : ¬ Build.Temporary "third" := Build.plain_of_head (by decide) (by decide)
  have opens := Build.opens_of_files rfl names fun draw path member isTemporary =>
    Build.not_names_of_mem member names.last isPlain isTemporary names
  rw [prepared_eq] at opens
  exact opens

theorem spoils_third : missingShardBuild.Spoils (rootFile "third")
    ⟨[.openShard (rootFile "third")], .storage (.files .notFound)⟩ := .unopened opens_third

theorem spoiled : missingShardBuild.Spoiled where
  directory := by decide
  unclaimed := Build.unclaimed_of_plain plain
  steady shard member := by
    rcases List.mem_pair.mp member with rfl | rfl
    · exact ⟨_, opens_first⟩
    · exact ⟨_, opens_third⟩
  contents shard member entries opens := by
    rcases List.mem_pair.mp member with rfl | rfl
    · have same := (opens_first _ (.init _)).symm.trans (opens _ (.init _))
      exact List.map_injective_iff.mpr (fun _ _ => Except.ok.inj) (Except.ok.inj same)
    · exact absurd opens (spoils_third.not_opens entries)
  some_spoils := ⟨_, List.mem_cons_of_mem _ (List.mem_singleton_self _), _, spoils_third⟩
  small := Nat.lt_of_le_of_lt (Nat.mul_le_mul_left 2 (countPostings_listsOf_le _ _ _)) (by decide)

theorem supplied : missingShardBuild.NamesSupplied := by
  have names := twoShardBuild.supplied.of_le (show 5 ≤ 7 by decide)
  rw [← twoShardBuild.prepared_eq] at names
  exact names

end missingShardBuild

/-- The build ends with the error of the file that is not there, and the files stay as they
were. -/
theorem unreadable_shard_stops_build_without_file :
    (∃ error, missingShardBuild.result = .error (.error error) ∧
      ∃ shard ∈ missingShardBuild.shards, missingShardBuild.Spoils shard error) ∧
      missingShardBuild.steps = [.construct] ∧
      ∀ location, missingShardBuild.finish.files.lookup location =
        missingShardBuild.start.files.lookup location := by
  obtain ⟨⟨error, isResult, explains⟩, steps, -, same⟩ :=
    unreadable_shard_stops_build missingShardBuild missingShardBuild.spoiled
      (by rintro (called | called | called) <;> revert called <;> decide)
  refine ⟨⟨error, isResult, ?_⟩, steps, same⟩
  rcases explains with ⟨shard, member, spoils, -⟩ | ⟨hindered, -⟩
  · exact ⟨shard, member, spoils⟩
  · exact absurd missingShardBuild.supplied hindered

end InvertedIndex
