/-
This file proves through which steps a build goes, and what being called off does to it. A build
first reduces its shards to one preindex. While it does so its files lie under temporary names,
so the index that was there before can still be read. If a shard or a merge fails, or if the
build is called off before the reduction is over, the build ends with an error in its first step
and everything that it has made is removed. It is the check after the reduction that makes sure
of this, because shards and merges that were under way are completed.
-/

import InvertedIndex.Proofs.LoadedPreindexes
import InvertedIndex.Proofs.TemporaryFiles

namespace InvertedIndex

open FileSystem

/-! ### The steps of a reduction -/

namespace Builder

variable {builder : Builder} {pool : Pool}

/-- A reduction has failed with an error, or there is a shard or a preindex in it. -/
structure Working (pool : Pool) : Prop where
  reported : ∀ failure, pool.failure = some failure → failure.Reported
  occupied : pool.failure = none → pool.waiting ≠ [] ∨ pool.parked ≠ []

/-- A failure ends the work, and the one that came first is kept. -/
theorem Working.fail (working : Working pool) {failure : Failure TracedError}
    (reported : failure.Reported) {after : Pool}
    (failed : after.failure = pool.failure.or (some failure)) : Working after := by
  cases first : pool.failure with
  | none =>
    rw [first, Option.none_or] at failed
    exact ⟨fun _ same => Option.some.inj (failed.symm.trans same) ▸ reported,
      fun nothing => absurd (failed.symm.trans nothing) nofun⟩
  | some earlier =>
    rw [first, Option.some_or] at failed
    exact ⟨fun _ same => working.reported _ (first.trans (failed.symm.trans same)),
      fun nothing => absurd (failed.symm.trans nothing) nofun⟩

theorem Working.constructAt (working : Working pool) (place : Nat) :
    Working (builder.constructAt pool place) := by
  rcases constructAt_cases builder pool place with same | ⟨shard, waiting, -, ended⟩
  · rw [same]
    exact working
  rcases ended with ⟨parked, after, performed, isAfter⟩ | ⟨failure, after, performed, isAfter⟩
  · rw [isAfter]
    exact ⟨working.reported, fun _ => .inr (List.append_ne_nil_of_right_ne_nil _ (by simp))⟩
  · rw [isAfter]
    exact working.fail
      ((builder.constructShard_reported _ shard pool.world).of_perform_error performed) rfl

theorem Working.mergeAt (working : Working pool) (left right : Nat) :
    Working (builder.mergeAt pool left right) := by
  rcases mergeAt_cases builder (List.map_id _).symm left right with
    same | ⟨first, second, others, -, ended⟩
  · rw [same]
    exact working
  rcases ended with ⟨merged, after, performed, isAfter⟩ | ⟨failure, after, performed, isAfter⟩
  · rw [isAfter]
    exact ⟨working.reported, fun _ => .inr (List.append_ne_nil_of_right_ne_nil _ (by simp))⟩
  · rw [isAfter]
    exact working.fail
      ((builder.mergePair_reported _ _ pool.world).of_perform_error performed) rfl

/-- Any list of events keeps the work going. -/
theorem Working.run (working : Working pool) (builder : Builder) (events : List BuildEvent) :
    Working (events.foldl builder.apply pool) :=
  run_induction _ working (fun _ place working => working.constructAt place)
    (fun _ left right working => working.mergeAt left right)
    fun _ _ working => ⟨working.reported, working.occupied⟩

/-- A reduction that has something to work on ends with a preindex or with an error. -/
theorem Working.drain (working : Working pool) (builder : Builder) :
    (∃ error, (builder.drain pool).1 = .error (.error error)) ∨
      ∃ merged, (builder.drain pool).1 = .ok (some merged) := by
  obtain ⟨reached, working, ended⟩ := drain_induction _ working
    (fun _ place working => working.constructAt place)
    fun _ left right working => working.mergeAt left right
  generalize builder.drain pool = result at ended
  cases ended with
  | failed isFirst =>
    obtain ⟨error, rfl⟩ := working.reported _ isFirst
    exact .inl ⟨error, rfl⟩
  | done none_failed none_waiting _ =>
    have parked := (working.occupied none_failed).resolve_left (not_not.mpr none_waiting)
    obtain ⟨merged, others, isParked⟩ := List.exists_cons_of_ne_nil parked
    exact .inr ⟨merged, congrArg (fun parked => Except.ok parked.head?) isParked⟩

/-- A reduction is called off by an event, and it is never resumed. -/
theorem run_calledOff (events : List BuildEvent) (pool : Pool) :
    (events.foldl builder.apply pool).aborted = true ↔
      pool.aborted = true ∨ .abort ∈ events := by
  induction events generalizing pool with
  | nil => simp
  | cons event rest inductionHypothesis =>
    rw [List.foldl_cons, inductionHypothesis]
    cases event with
    | construct place => simp [apply]
    | merge left right => simp [apply]
    | abort => simp [apply]

/-- A build that goes on after the reduction is notified of each step as it comes to it. -/
theorem conclude_notices (builder : Builder) (listener : BuildStep → Bool)
    (merged : ParkedPreindex) (run : BuildRun) (goesOn : run.aborted = false) :
    (∃ report after, builder.conclude listener merged run = (.ok (.built report), after) ∧
        after.notices = run.notices ++
          [⟨.finalize, run.world.files⟩, ⟨.finished, after.world.files⟩]) ∨
      ∃ failure after, builder.conclude listener merged run = (.error failure, after) ∧
        after.notices = run.notices ++ [⟨.finalize, run.world.files⟩] := by
  obtain ⟨noted, isNoted, -, -, notices⟩ := notify_eq listener .finalize run
  unfold conclude
  show (∃ report after, (ite _ _ _ : Building BuildOutcome) run = _ ∧ _) ∨
    ∃ failure after, (ite _ _ _ : Building BuildOutcome) run = _ ∧ _
  rw [if_neg (by rw [goesOn]; decide), bind_apply, isNoted]
  dsimp only
  rcases performed : (builder.finalizeMerged merged).perform noted.world with
    ⟨failure | report, after⟩
  · rw [Building.act_bind_of_failure performed]
    exact .inr ⟨failure, _, rfl, notices⟩
  · obtain ⟨told, isTold, ⟨log, isWorld⟩, -, more⟩ :=
      notify_eq listener .finished { noted with world := after }
    rw [Building.act_bind_of_value performed, bind_apply, isTold]
    refine .inl ⟨report, _, rfl, ?_⟩
    show told.notices = run.notices ++ [_, ⟨.finished, told.world.files⟩]
    rw [more, notices, isWorld, List.append_assoc]
    rfl

end Builder

/-! ### Whole builds -/

namespace Build

variable {build : Build} {lines : List LogLine}

/-- The notices that the listener was given. -/
def notices (build : Build) : List Notice :=
  (Builder.run (build.builder.buildFrom build.listener build.events build.shards) build.aborted
    build.start).2.notices

/-- A build over a directory that is there starts without possessions. -/
theorem tracked_pool
    (directory : build.start.files.isDirectory build.builder.tempDirectory = true)
    (lines : List LogLine) :
    Builder.Parked (Builder.Tracked build.builder.tempDirectory build.start)
      (build.pool lines) := by
  have unchanged : build.prepared.files = build.start.files :=
    congrArg World.files (prepared_eq_start directory)
  exact ⟨[], rfl, .of_owning ((Owning.init build.start).of_files rfl unchanged), nofun⟩

/-- After any events, only locations that a preindex may take have changed. -/
theorem lookup_of_events
    (directory : build.start.files.isDirectory build.builder.tempDirectory = true)
    (lines : List LogLine) (events : List BuildEvent) {location : Location}
    (sheltered : ¬ build.start.Exposes build.builder.tempDirectory location) :
    (events.foldl build.builder.apply (build.pool lines)).world.files.lookup location =
      build.start.files.lookup location := by
  obtain ⟨held, -, keeping, offered⟩ := (tracked_pool directory lines).run
    (build.builder.upholds_tracked build.start) events
  exact keeping.lookup_eq offered sheltered

/-- What calls a build off calls its reduction off. -/
theorem calledOff_iff :
    (build.events.foldl build.builder.apply (build.pool lines)).aborted = true ↔
      build.MayStop := by
  rw [Builder.run_calledOff, MayStop, ← or_assoc, pool, Bool.or_eq_true]

/-- A build fails in its first step and leaves nothing behind, or it was not called off before
its reduction was over, and then it is notified of each further step as it comes to it. -/
theorem stops_or_concludes (nonempty : build.shards ≠ [])
    (directory : build.start.files.isDirectory build.builder.tempDirectory = true) :
    (∃ error, build.result = .error (.error error) ∧
        build.notices = [⟨.construct, build.start.files⟩] ∧
        build.start.Thinned build.builder.tempDirectory build.finish) ∨
      ¬ build.MayStop ∧ ∃ files : FileSystem,
        (∀ location, ¬ build.start.Exposes build.builder.tempDirectory location →
          files.lookup location = build.start.files.lookup location) ∧
        ((∃ report, build.result = .ok (.built report) ∧
            build.notices = [⟨.construct, build.start.files⟩, ⟨.finalize, files⟩,
              ⟨.finished, build.finish.files⟩]) ∨
          ∃ failure, build.result = .error failure ∧
            build.notices = [⟨.construct, build.start.files⟩, ⟨.finalize, files⟩]) := by
  obtain ⟨lines, runs⟩ := run_eq nonempty (makeDirectories_of_isDirectory directory)
  have working : Builder.Working (build.pool lines) := ⟨nofun, fun _ => .inl nonempty⟩
  have ends := (working.run build.builder build.events).drain build.builder
  have left := ((tracked_pool directory lines).run (build.builder.upholds_tracked build.start)
    build.events).drain (build.builder.upholds_tracked build.start) fun tracked => tracked.discard
  have calledOff := build.builder.drain_aborted
    (build.events.foldl build.builder.apply (build.pool lines))
  cases drained : build.builder.drain
    (build.events.foldl build.builder.apply (build.pool lines)) with
  | mk kept last =>
  have ran := runs kept last drained
  rw [drained] at ends left calledOff
  dsimp only at calledOff
  rw [result, notices, finish]
  rcases left with ⟨failure, rfl, keeping, -⟩ | ⟨rfl, -⟩ | ⟨possession, rfl, keeping, offered⟩
  · rcases ends with ⟨error, isError⟩ | ⟨merged, isMerged⟩
    · cases isError
      rw [ran]
      exact .inl ⟨error, rfl, rfl, keeping.thinned⟩
    · cases isMerged
  · rcases ends with ⟨error, isError⟩ | ⟨merged, isMerged⟩
    · cases isError
    · cases isMerged
  · rw [ran]
    dsimp only
    by_cases aborted : last.aborted = true
    · obtain ⟨base, thinned, owning⟩ := keeping
      rw [Builder.conclude_stops owning aborted]
      exact .inl ⟨_, rfl, rfl, Keeping.thinned ⟨base, thinned, owning.clear⟩⟩
    · have goesOn : ¬ build.MayStop := by
        rwa [← calledOff_iff, ← calledOff]
      refine .inr ⟨goesOn, last.world.files, fun location sheltered =>
        keeping.lookup_eq offered sheltered, ?_⟩
      rcases build.builder.conclude_notices build.listener ⟨possession.files⟩
          ⟨last.world, last.aborted, [⟨.construct, build.start.files⟩]⟩
          (Bool.eq_false_iff.mpr aborted) with
        ⟨report, after, concluded, told⟩ | ⟨failure, after, concluded, told⟩
      · rw [concluded]
        exact .inl ⟨report, rfl, told⟩
      · rw [concluded]
        exact .inr ⟨failure, rfl, told⟩

end Build

/-- A build of some shards, over a directory for temporary files that is there, goes through its
steps in their order, in whatever order shards and merges are handled. It has built an index
exactly when it went through all of them. Until the last preindex is finished nothing has
changed but where a preindex may be made, and a build that does not come so far leaves
everything as it was, except that it may have removed a file there that was in its way. A build
that is called off before its reduction is over ends in this way, with an error. -/
theorem build_goes_through_steps (build : Build) (nonempty : build.shards ≠ [])
    (directory : build.start.files.isDirectory build.builder.tempDirectory = true) :
    build.steps <+: [.construct, .finalize, .finished] ∧
      ((∃ report, build.result = .ok (.built report)) ↔
        build.steps = [.construct, .finalize, .finished]) ∧
      (∀ lines (events : List BuildEvent) location,
        ¬ build.start.Exposes build.builder.tempDirectory location →
        (events.foldl build.builder.apply (build.pool lines)).world.files.lookup location =
          build.start.files.lookup location) ∧
      (∀ notice ∈ build.notices, notice.step ≠ .finished →
        ∀ location, ¬ build.start.Exposes build.builder.tempDirectory location →
          notice.files.lookup location = build.start.files.lookup location) ∧
      (.finalize ∉ build.steps → build.start.Thinned build.builder.tempDirectory build.finish) ∧
      (build.MayStop → (∃ error, build.result = .error (.error error)) ∧
        build.steps = [.construct] ∧
        build.start.Thinned build.builder.tempDirectory build.finish) := by
  have steps : build.steps = build.notices.map (·.step) := rfl
  refine ⟨?_, ?_, fun lines events location sheltered =>
    Build.lookup_of_events directory lines events sheltered, ?_⟩
  all_goals
    rw [steps]
    rcases build.stops_or_concludes nonempty directory with ⟨error, isResult, notices, thinned⟩ |
      ⟨goesOn, files, same, ⟨report, isResult, notices⟩ | ⟨failure, isResult, notices⟩⟩
    all_goals rw [notices]
  · exact ⟨[.finalize, .finished], rfl⟩
  · exact ⟨[], rfl⟩
  · exact ⟨[.finished], rfl⟩
  · rw [isResult]
    exact ⟨nofun, nofun⟩
  · exact ⟨fun _ => rfl, fun _ => ⟨report, isResult⟩⟩
  · rw [isResult]
    exact ⟨nofun, nofun⟩
  · refine ⟨fun notice member _ location _ => ?_, fun _ => thinned,
      fun _ => ⟨⟨error, isResult⟩, rfl, thinned⟩⟩
    rw [List.mem_singleton.mp member]
  · refine ⟨fun notice member notLast location sheltered => ?_,
      fun notCome => absurd (List.mem_cons_of_mem _ List.mem_cons_self) notCome,
      fun mayStop => absurd mayStop goesOn⟩
    simp only [List.mem_cons, List.not_mem_nil, or_false] at member
    rcases member with rfl | rfl | rfl
    · rfl
    · exact same location sheltered
    · exact absurd rfl notLast
  · refine ⟨fun notice member _ location sheltered => ?_,
      fun notCome => absurd (List.mem_cons_of_mem _ List.mem_cons_self) notCome,
      fun mayStop => absurd mayStop goesOn⟩
    rcases List.mem_pair.mp member with rfl | rfl
    · rfl
    · exact same location sheltered

/-- A build of two shards that is called off once the first of them was indexed ends with an
error, and nothing is left of the first. -/
theorem build_goes_through_steps_until_called_off :
    (∃ error, (Build.result { twoShardBuild with events := [.construct 0, .abort] }) =
        .error (.error error)) ∧
      Build.steps { twoShardBuild with events := [.construct 0, .abort] } = [.construct] ∧
      ∀ location, (Build.finish { twoShardBuild with
        events := [.construct 0, .abort] }).files.lookup location =
          twoShardBuild.start.files.lookup location := by
  obtain ⟨-, -, -, -, -, stops⟩ := build_goes_through_steps
    { twoShardBuild with events := [.construct 0, .abort] } nofun (by decide)
  obtain ⟨isError, steps, thinned⟩ := stops (.inr (.inr (by decide)))
  exact ⟨isError, steps, thinned.lookup_eq (Build.unclaimed_of_plain missingShardBuild.plain)⟩

end InvertedIndex
