/-
This file proves that a build removes what it has made. Whatever its operations read, and
wherever they fail, also in the middle of a file, each of them hands the preindexes that it owns
on or removes them. So a reduction that fails leaves no trace, and one that succeeds leaves a
single preindex.
-/

import InvertedIndex.Proofs.Exposure
import InvertedIndex.Proofs.PreindexCreation
import InvertedIndex.Proofs.Reduction

namespace InvertedIndex

open FileSystem

/-! ### What operations on preindexes own -/

section

variable {held : List Possession} {possession : Possession} {start world : World}
  {directory : Path}

namespace PreindexFiles

/-- Creating a preindex adds it under a name that the system hands out, or it fails. -/
theorem create_keeps (keeping : Keeping directory held start world) :
    (create directory).Ends world (fun _ after => Keeping directory held start after)
      (Gaining directory held start) := by
  refine ((create_adds_or_sweeps directory world).weaken_failure fun _ after failed => ?_).weaken ?_
  · obtain ⟨stems, same | ⟨draw, free, -, swept⟩⟩ := failed
    · exact keeping.imp fun _ owning => owning.of_files stems same
    · exact keeping.of_thinned ⟨stems, swept.directories, fun location =>
        (swept.lookup_or location).imp_right fun gone => ⟨gone.1, draw, free, gone.2⟩⟩
  · rintro _ after ⟨draw, place, rfl, holds, fresh, only, stems⟩
    exact ⟨keeping.offers draw, place, keeping.imp fun _ owning =>
      owning.add stems holds.present fresh only⟩

/-- A file of a preindex that is written, whole or in part, still belongs to the preindex. -/
theorem write_owns (owning : Owning (possession :: held) start world) {path : Path}
    (isPath : path ∈ possession.files.all) (contents : List UInt8) :
    (Action.write path contents).Ends world
      (fun _ after => Owning (possession :: held) start after)
      fun _ after => Owning (possession :: held) start after := by
  have present := owning.present possession List.mem_cons_self
  obtain ⟨location, isThere, names⟩ := present.exists_place path isPath
  refine ((Action.write_keeps names (present.plain location isThere) contents).weaken_failure
    ?_).weaken ?_
  · rintro _ _ ⟨front, -, rfl⟩
    exact owning.put isThere front rfl rfl
  · rintro _ _ rfl
    exact owning.put isThere contents rfl rfl

/-- So do all three, wherever the writing stops. -/
theorem fill_owns (owning : Owning (possession :: held) start world)
    (lists : List (Term × List Posting)) :
    (possession.files.fill lists).Ends world
      (fun _ after => Owning (possession :: held) start after)
      fun _ after => Owning (possession :: held) start after := by
  have writes {world : World} (owning : Owning (possession :: held) start world) {path : Path}
      (isPath : path ∈ possession.files.all) (contents : List UInt8) :
      (liftM (Action.write path contents) : Action StorageError Unit).Ends world
        (fun _ after => Owning (possession :: held) start after)
        fun _ after => Owning (possession :: held) start after :=
    (write_owns owning isPath contents).lift fun _ _ owning => owning
  obtain ⟨isWords, isCounts, isDocs⟩ :=
    forall_all.mp fun path (isPath : path ∈ possession.files.all) => isPath
  rw [fill]
  split
  · exact .of_failure rfl owning
  · exact (writes owning isWords _).bind fun _ _ owning =>
      (writes owning isCounts _).bind fun _ _ owning => writes owning isDocs _

end PreindexFiles

namespace Preindex

variable {lists : List (Term × List Posting)}

theorem files_of_load {owned : PreindexFiles} {files : FileSystem} {preindex : Preindex}
    (loaded : load owned files = .ok preindex) : preindex.files = owned := by
  obtain ⟨words, -, rest⟩ := bind_eq_ok.mp loaded
  obtain ⟨counts, -, rest⟩ := bind_eq_ok.mp rest
  obtain ⟨docs, -, rest⟩ := bind_eq_ok.mp rest
  dsimp only at rest
  split at rest
  · cases rest
  · split at rest
    · cases rest
    · split at rest
      · cases rest
      · cases rest
        rfl

/-- Opening a preindex changes nothing, and a preindex that cannot be opened is let go of. -/
theorem openFiles_cases (owned : PreindexFiles) (world : World) :
    (∃ preindex, (openFiles owned).perform world = (.ok preindex, world) ∧
      preindex.files = owned) ∨
    ∃ cause, (openFiles owned).perform world = (.error (.error cause), owned.discard world) := by
  rw [Action.perform, openFiles, Action.cleaningUp, Action.inspect]
  cases loaded : load owned world.files with
  | ok preindex => exact .inl ⟨preindex, rfl, files_of_load loaded⟩
  | error cause => exact .inr ⟨cause, rfl⟩

theorem openFiles_owns (owning : Owning (possession :: held) start world) :
    (openFiles possession.files).Ends world (fun _ after => Owning held start after)
      fun preindex after => preindex.files = possession.files ∧ after = world := by
  rcases openFiles_cases possession.files world with ⟨preindex, performed, isOwned⟩ | ⟨_, performed⟩
  · exact .of_value performed ⟨isOwned, rfl⟩
  · exact .of_failure performed owning.discard

/-- Writing lists adds a preindex, or it fails. -/
theorem writeNew_keeps (keeping : Keeping directory held start world)
    (lists : List (Term × List Posting)) :
    (writeNew directory lists).Ends world (fun _ after => Keeping directory held start after)
      fun preindex after => Gaining directory held start preindex.files after := by
  refine (PreindexFiles.create_keeps keeping).bind ?_
  rintro owned between ⟨offered, place, base, thinned, more⟩
  refine (Action.Ends.cleaningUp (PreindexFiles.fill_owns more lists) owned.discard
    fun _ after written => ?_).bind fun _ after filled => ?_
  · exact ⟨base, thinned, written.discard⟩
  · refine ((openFiles_owns filled).weaken_failure fun _ _ owning =>
      ⟨base, thinned, owning⟩).weaken ?_
    rintro preindex _ ⟨isOwned, rfl⟩
    rw [isOwned]
    exact ⟨offered, place, base, thinned, filled⟩

/-- Building a preindex from the entries of a shard adds it, or it fails. -/
theorem construct_keeps (keeping : Keeping directory held start world)
    (items : List (Except StorageError Entry)) (renumber : DocId → DocId) (backend : Backend) :
    (construct items renumber directory backend).Ends world
      (fun _ after => Keeping directory held start after)
      fun preindex after => Gaining directory held start preindex.files after := by
  unfold construct
  split
  · exact .of_failure rfl keeping
  · exact writeNew_keeps keeping _

/-- So does uniting two preindexes, which are left where they are. -/
theorem merge_keeps (keeping : Keeping directory held start world) (left right : Preindex) :
    (merge directory left right).Ends world (fun _ after => Keeping directory held start after)
      fun preindex after => Gaining directory held start preindex.files after := by
  rw [merge]
  cases left.lists with
  | error fault => exact .bind_of_fails (.of_failure rfl keeping)
  | ok leftLists =>
    refine .ofResult_ok_bind ?_
    cases right.lists with
    | error fault =>
      exact .bind_of_fails (.of_failure rfl keeping)
    | ok rightLists => exact .ofResult_ok_bind (writeNew_keeps keeping _)

end Preindex

/-- What is known of the world after a failure stays known when the operation is a part of a
build. -/
theorem Action.Ends.during_keeps {α : Type} {action : Action StorageError α} {rest : World → Prop}
    {good : α → World → Prop} (ends : action.Ends world (fun _ after => rest after) good)
    (context : Context) : (action.during context).Ends world (fun _ after => rest after) good :=
  ends.mapError fun _ _ kept => kept

namespace Builder

variable {builder : Builder} {left right : Possession}

/-- Nothing is made of a shard once the build was called off. -/
theorem constructShard_of_aborted (builder : Builder) (shard : Path) (world : World) :
    (builder.constructShard true shard).Ends world (fun _ after => after = world)
      fun _ _ => False := by
  rw [constructShard, if_pos rfl]
  exact .bind_of_fails (.of_failure rfl rfl)

/-- A shard adds a preindex, or it fails. -/
theorem constructShard_keeps (keeping : Keeping builder.tempDirectory held start world)
    (aborted : Bool) (shard : Path) :
    (builder.constructShard aborted shard).Ends world
      (fun _ after => Keeping builder.tempDirectory held start after)
      fun parked after => Gaining builder.tempDirectory held start parked.files after := by
  cases aborted with
  | true =>
    exact ((builder.constructShard_of_aborted shard world).weaken_failure
      fun _ _ same => same ▸ keeping).weaken fun _ _ (h : False) => h.elim
  | false =>
    rw [constructShard, if_neg (by decide)]
    have looked : (Action.inspect (builder.source.open shard)).Ends world
        (fun _ after => Keeping builder.tempDirectory held start after)
        fun _ after => Keeping builder.tempDirectory held start after := by
      cases opened : builder.source.open shard world.files with
      | ok items => exact .inspect_ends opened keeping
      | error cause =>
        have performed : (Action.inspect (builder.source.open shard)).perform world =
            (.error (.error cause), world) := by
          rw [Action.perform, Action.inspect, opened]
        exact .of_failure performed keeping
    refine (looked.during_keeps _).bind fun items between kept => ?_
    refine ((Preindex.construct_keeps kept items _ _).during_keeps _).bind ?_
    rintro preindex after ⟨offered, place, more⟩
    exact .log_bind (.pure ⟨offered, place, more.imp fun _ owning => owning.of_files rfl rfl⟩)

/-- A merge puts one preindex in the place of two, or removes both. -/
theorem mergePair_keeps
    (keeping : Keeping builder.tempDirectory (left :: right :: held) start world) :
    (builder.mergePair ⟨left.files⟩ ⟨right.files⟩).Ends world
      (fun _ after => Keeping builder.tempDirectory held start after)
      fun parked after => Gaining builder.tempDirectory held start parked.files after := by
  obtain ⟨base, thinned, owning⟩ := keeping
  have leftOpened := Preindex.openFiles_owns owning
  have rightOpened := Preindex.openFiles_owns (owning.perm (.swap right left held))
  rw [mergePair]
  refine Action.Ends.bind ((leftOpened.during_keeps .openMergeInput).cleaningUp
    (ParkedPreindex.discard ⟨right.files⟩) fun _ _ kept => ⟨base, thinned, kept.discard⟩) ?_
  rintro first _ ⟨isLeft, rfl⟩
  refine Action.Ends.bind ((rightOpened.during_keeps .openMergeInput).cleaningUp
    first.discard fun _ _ kept => ?_) ?_
  · rw [Preindex.discard, isLeft]
    exact ⟨base, thinned, kept.discard⟩
  rintro second _ ⟨isRight, rfl⟩
  have deletes {possession : Possession} {others : List Possession} {preindex : Preindex}
      {between : World} (kept : Keeping builder.tempDirectory (possession :: others) start between)
      (isFiles : preindex.files = possession.files) :
      ∃ after, preindex.delete.perform between = (.ok (), after) ∧
        Keeping builder.tempDirectory others start after := by
    obtain ⟨base, thinned, kept⟩ := kept
    rw [Preindex.delete, isFiles, (kept.present _ List.mem_cons_self).delete_eq]
    exact ⟨_, rfl, base, thinned, kept.clear⟩
  have opened : Keeping builder.tempDirectory (left :: right :: held) start _ :=
    ⟨base, thinned, owning⟩
  refine (Preindex.merge_keeps opened first second).outcome_bind ?_ ?_
  · rintro merged between ⟨offered, place, more⟩
    -- Both inputs are removed, which leaves the union.
    obtain ⟨middle, leftDeleted, rest⟩ :=
      deletes (more.imp fun _ owning => owning.perm (.swap left _ (right :: held))) isLeft
    obtain ⟨last, rightDeleted, kept⟩ :=
      deletes (rest.imp fun _ owning => owning.perm (.swap right _ held)) isRight
    refine .outcome_bind_of_value leftDeleted (.outcome_bind_of_value rightDeleted ?_)
    refine .during_ok_bind ?_
    have removed : (do
        Action.ofResult (.ok ())
        Action.ofResult (.ok ()) : Action StorageError Unit).Ends last
        (fun _ _ => False) fun _ after => after = last :=
      .ofResult_ok_bind (.ofResult_ok rfl)
    refine Action.Ends.bind (Action.Ends.cleaningUp (removed.during_keeps _) merged.discard
      fun _ _ impossible => impossible.elim) ?_
    rintro _ _ rfl
    exact .log_bind (.pure ⟨offered, place, kept.imp fun _ owning => owning.of_files rfl rfl⟩)
  · intro failure between kept
    obtain ⟨middle, leftDeleted, rest⟩ := deletes kept isLeft
    obtain ⟨last, rightDeleted, none_left⟩ := deletes rest isRight
    refine .outcome_bind_of_value leftDeleted (.outcome_bind_of_value rightDeleted ?_)
    have failed : (Action.ofResult (.error failure) : Action StorageError Preindex).Ends last
        (fun _ after => Keeping builder.tempDirectory held start after) fun _ _ => False :=
      .ofResult_error none_left
    exact .bind_of_fails (failed.during_keeps _)

/-! ### What a reduction owns -/

/-- The parked preindexes, with their places, are what is held. -/
def Parked (holds : List Possession → World → Prop) (pool : Pool) : Prop :=
  ∃ held : List Possession, pool.parked = held.map (fun possession => ⟨possession.files⟩) ∧
    holds held pool.world

/-- What is known of the possessions stays known when a shard is indexed and when two of them
are merged, and their order does not matter. -/
structure Upholds (builder : Builder) (holds : List Possession → World → Prop) : Prop where
  perm : ∀ {held others world}, held.Perm others → holds held world → holds others world
  constructs : ∀ {held world}, holds held world → ∀ aborted shard,
    (builder.constructShard aborted shard).Ends world (fun _ after => holds held after)
      fun parked after => ∃ place, holds (⟨parked.files, place⟩ :: held) after
  merges : ∀ {left right held world}, holds (left :: right :: held) world →
    (builder.mergePair ⟨left.files⟩ ⟨right.files⟩).Ends world (fun _ after => holds held after)
      fun parked after => ∃ place, holds (⟨parked.files, place⟩ :: held) after

section

variable {holds : List Possession → World → Prop} {pool : Pool}

theorem Parked.constructAt (parked : Parked holds pool) (upholds : builder.Upholds holds)
    (place : Nat) : Parked holds (builder.constructAt pool place) := by
  rcases constructAt_cases builder pool place with same | ⟨shard, waiting, -, ended⟩
  · rw [same]
    exact parked
  obtain ⟨held, isParked, known⟩ := parked
  have constructed := upholds.constructs known pool.aborted shard
  rcases ended with ⟨parked, after, performed, isAfter⟩ | ⟨failure, after, performed, isAfter⟩
  · obtain ⟨location, more⟩ := constructed.of_perform_ok performed
    rw [isAfter]
    refine ⟨held ++ [⟨parked.files, location⟩], ?_, ?_⟩
    · rw [isParked, List.map_append]
      rfl
    · exact upholds.perm (List.perm_append_singleton _ _).symm more
  · rw [isAfter]
    exact ⟨held, isParked, constructed.of_perform_error performed⟩

theorem Parked.mergeAt (parked : Parked holds pool) (upholds : builder.Upholds holds)
    (left right : Nat) : Parked holds (builder.mergeAt pool left right) := by
  obtain ⟨held, isParked, known⟩ := parked
  rcases mergeAt_cases builder isParked left right with
    same | ⟨first, second, others, picked, ended⟩
  · rw [same]
    exact ⟨held, isParked, known⟩
  have merged := upholds.merges (upholds.perm picked.symm known)
  rcases ended with ⟨parked, after, performed, isAfter⟩ | ⟨failure, after, performed, isAfter⟩
  · obtain ⟨location, more⟩ := merged.of_perform_ok performed
    rw [isAfter]
    refine ⟨others ++ [⟨parked.files, location⟩], ?_, ?_⟩
    · rw [List.map_append]
      rfl
    · exact upholds.perm (List.perm_append_singleton _ _).symm more
  · rw [isAfter]
    exact ⟨others, rfl, merged.of_perform_error performed⟩

/-- Any list of events keeps what is known of the possessions. -/
theorem Parked.run (parked : Parked holds pool) (upholds : builder.Upholds holds)
    (events : List BuildEvent) : Parked holds (events.foldl builder.apply pool) :=
  run_induction _ parked (fun _ place parked => parked.constructAt upholds place)
    (fun _ left right parked => parked.mergeAt upholds left right) fun _ _ parked => parked

/-- A reduction that fails has let go of all possessions, and otherwise one is left at most. -/
theorem Parked.drain (parked : Parked holds pool) (upholds : builder.Upholds holds)
    (discards : ∀ {possession held world}, holds (possession :: held) world →
      holds held (possession.files.discard world)) :
    (∃ failure, (builder.drain pool).1 = .error failure ∧ holds [] (builder.drain pool).2.world) ∨
    ((builder.drain pool).1 = .ok none ∧ holds [] (builder.drain pool).2.world) ∨
    ∃ possession, (builder.drain pool).1 = .ok (some ⟨possession.files⟩) ∧
      holds [possession] (builder.drain pool).2.world := by
  have discards_all (held : List Possession) {world : World} (known : holds held world) :
      holds [] ((held.map fun possession => ParkedPreindex.mk possession.files).foldl
        (fun world preindex => preindex.discard world) world) := by
    induction held generalizing world with
    | nil => exact known
    | cons possession rest inductionHypothesis => exact inductionHypothesis (discards known)
  obtain ⟨reached, ⟨held, isParked, known⟩, ended⟩ := drain_induction _ parked
    (fun _ place parked => parked.constructAt upholds place)
    fun _ left right parked => parked.mergeAt upholds left right
  generalize builder.drain pool = result at ended
  cases ended with
  | @failed failure _ =>
    refine .inl ⟨failure, rfl, ?_⟩
    dsimp only
    rw [isParked]
    exact discards_all held known
  | done _ _ few =>
    rw [isParked, List.length_map] at few
    rw [isParked]
    match held, known with
    | [], known => exact .inr (.inl ⟨rfl, known⟩)
    | [possession], known => exact .inr (.inr ⟨possession, rfl, known⟩)
    | _ :: _ :: _, _ => exact absurd few (Nat.not_lt.mpr (Nat.le_add_left 2 _))

end

/-- A reduction owns what is parked, under names that the system hands out, and files may have
been lost. -/
def Tracked (directory : Path) (start : World) (held : List Possession) (world : World) : Prop :=
  Keeping directory held start world ∧
    ∀ possession ∈ held, start.Offers directory possession.files

theorem upholds_tracked (builder : Builder) (start : World) :
    builder.Upholds (Tracked builder.tempDirectory start) where
  perm same tracked := ⟨tracked.1.imp fun _ owning => owning.perm same,
    fun possession member => tracked.2 possession (same.mem_iff.mpr member)⟩
  constructs tracked aborted shard := by
    refine ((constructShard_keeps tracked.1 aborted shard).weaken_failure fun _ _ kept =>
      ⟨kept, tracked.2⟩).weaken ?_
    rintro parked after ⟨offered, place, more⟩
    exact ⟨place, more, List.forall_mem_cons.mpr ⟨offered, tracked.2⟩⟩
  merges tracked := by
    have rest := (List.forall_mem_cons.mp (List.forall_mem_cons.mp tracked.2).2).2
    refine ((mergePair_keeps tracked.1).weaken_failure fun _ _ kept => ⟨kept, rest⟩).weaken ?_
    rintro parked after ⟨offered, place, more⟩
    exact ⟨place, more, List.forall_mem_cons.mpr ⟨offered, rest⟩⟩

theorem Tracked.discard {directory : Path}
    (tracked : Tracked directory start (possession :: held) world) :
    Tracked directory start held (possession.files.discard world) :=
  ⟨tracked.1.imp fun _ owning => owning.discard, (List.forall_mem_cons.mp tracked.2).2⟩

/-- Where no name is claimed, nothing is lost. -/
theorem upholds_owning (unclaimed : start.Unclaimed builder.tempDirectory) :
    builder.Upholds fun held world => Owning held start world where
  perm same owning := owning.perm same
  constructs owning aborted shard := by
    refine ((constructShard_keeps (.of_owning owning) aborted shard).weaken_failure
      fun _ _ kept => kept.owning unclaimed).weaken ?_
    rintro parked after ⟨-, place, more⟩
    exact ⟨place, more.owning unclaimed⟩
  merges owning := by
    refine ((mergePair_keeps (.of_owning owning)).weaken_failure
      fun _ _ kept => kept.owning unclaimed).weaken ?_
    rintro parked after ⟨-, place, more⟩
    exact ⟨place, more.owning unclaimed⟩

/-- What a reduction owns is exactly the preindexes that are parked. -/
def Tidy (start : World) (pool : Pool) : Prop :=
  ∃ held : List Possession, pool.parked = held.map (fun possession => ⟨possession.files⟩) ∧
    Owning held start pool.world

variable {pool : Pool}

theorem Tidy.constructAt (tidy : Tidy start pool)
    (unclaimed : start.Unclaimed builder.tempDirectory) (place : Nat) :
    Tidy start (builder.constructAt pool place) :=
  Parked.constructAt tidy (upholds_owning unclaimed) place

theorem Tidy.mergeAt (tidy : Tidy start pool)
    (unclaimed : start.Unclaimed builder.tempDirectory) (left right : Nat) :
    Tidy start (builder.mergeAt pool left right) :=
  Parked.mergeAt tidy (upholds_owning unclaimed) left right

/-- Any list of events keeps a reduction tidy. -/
theorem Tidy.run (tidy : Tidy start pool) (unclaimed : start.Unclaimed builder.tempDirectory)
    (events : List BuildEvent) : Tidy start (events.foldl builder.apply pool) :=
  Parked.run tidy (upholds_owning unclaimed) events

/-- A reduction that fails owns nothing in the end, and otherwise it owns what it returns. -/
theorem Tidy.drain (tidy : Tidy start pool) (unclaimed : start.Unclaimed builder.tempDirectory) :
    (∃ failure, (builder.drain pool).1 = .error failure ∧
      Owning [] start (builder.drain pool).2.world) ∨
    ((builder.drain pool).1 = .ok none ∧ Owning [] start (builder.drain pool).2.world) ∨
    ∃ possession, (builder.drain pool).1 = .ok (some ⟨possession.files⟩) ∧
      Owning [possession] start (builder.drain pool).2.world :=
  Parked.drain tidy (upholds_owning unclaimed) fun owning => owning.discard

end Builder

end

end InvertedIndex
