/-
This file proves that no entry of a finished shard is lost on the way into an index. Reading the
shard gives back every entry or ends with an error, and a build with a shard that ends with an
error does not succeed: the shard keeps waiting until the build has failed. A shard whose writer
never finished is another matter, because it reads as an empty one without any error.
-/

import InvertedIndex.Proofs.FailedShards
import InvertedIndex.Proofs.JournalRoundTrip

namespace InvertedIndex

open FileSystem

/-! ### A shard that holds a reduction up -/

namespace Builder

variable {builder : Builder} {start : World} {shard : Path} {pool : Pool}

/-- Whatever the reduction owns, there is an error among what the shard holds. -/
def Unreadable (builder : Builder) (start : World) (shard : Path) : Prop :=
  ∀ held world, Owning held start world →
    ∃ (entries : List Entry) (cause : StorageError) (rest : List (Except StorageError Entry)),
      builder.source.open shard world.files = .ok (entries.map .ok ++ .error cause :: rest)

/-- The reduction has failed, or the shard is still waiting. -/
def HeldUp (shard : Path) (pool : Pool) : Prop :=
  (∃ failure, pool.failure = some failure) ∨ shard ∈ pool.waiting

/-- No preindex is made of a shard that cannot be read. -/
theorem Unreadable.constructShard_ends (unreadable : builder.Unreadable start shard)
    {held : List Possession} {world : World} (owning : Owning held start world) (aborted : Bool) :
    (builder.constructShard aborted shard).Ends world (fun _ after => after = world)
      fun _ _ => False := by
  cases aborted with
  | true => exact builder.constructShard_of_aborted shard world
  | false =>
    obtain ⟨entries, cause, rest, opened⟩ := unreadable held world owning
    exact (constructShard_of_unread opened).weaken_failure fun _ _ ended => ended.2

theorem HeldUp.constructAt (unreadable : builder.Unreadable start shard) (tidy : Tidy start pool)
    (heldUp : HeldUp shard pool) (place : Nat) :
    HeldUp shard (builder.constructAt pool place) := by
  rcases heldUp with ⟨failure, failed⟩ | isWaiting
  · exact .inl ⟨failure, constructAt_failure failed place⟩
  rcases constructAt_cases builder pool place with same | ⟨picked, waiting, perm, ended⟩
  · rw [same]
    exact .inr isWaiting
  rcases ended with ⟨parked, after, performed, isAfter⟩ | ⟨failure, after, performed, isAfter⟩
  · rw [isAfter]
    rcases List.mem_cons.mp (perm.mem_iff.mpr isWaiting) with rfl | stillWaiting
    · obtain ⟨held, -, owning⟩ := tidy
      exact ((unreadable.constructShard_ends owning _).of_perform_ok performed).elim
    · exact .inr stillWaiting
  · rw [isAfter]
    cases first : pool.failure with
    | none => exact .inl ⟨failure, rfl⟩
    | some earlier => exact .inl ⟨earlier, rfl⟩

theorem HeldUp.mergeAt (heldUp : HeldUp shard pool) (left right : Nat) :
    HeldUp shard (builder.mergeAt pool left right) := by
  rcases heldUp with ⟨failure, failed⟩ | isWaiting
  · exact .inl ⟨failure, mergeAt_failure failed left right⟩
  rcases mergeAt_cases builder (List.map_id _).symm left right with
    same | ⟨_, _, _, _, ⟨_, _, _, same⟩ | ⟨_, _, _, same⟩⟩ <;> rw [same] <;> exact .inr isWaiting

/-- A reduction with a shard that cannot be read fails, whether or not it is called off. -/
theorem Unreadable.drain (unreadable : builder.Unreadable start shard)
    (unclaimed : start.Unclaimed builder.tempDirectory) (tidy : Tidy start pool)
    (isWaiting : shard ∈ pool.waiting) (events : List BuildEvent) :
    ∃ failure, (builder.drain (events.foldl builder.apply pool)).1 = .error failure := by
  have constructs (later : Pool) (place : Nat) (both : Tidy start later ∧ HeldUp shard later) :
      Tidy start (builder.constructAt later place) ∧
        HeldUp shard (builder.constructAt later place) :=
    ⟨both.1.constructAt unclaimed place, both.2.constructAt unreadable both.1 place⟩
  have merges (later : Pool) (left right : Nat) (both : Tidy start later ∧ HeldUp shard later) :
      Tidy start (builder.mergeAt later left right) ∧
        HeldUp shard (builder.mergeAt later left right) :=
    ⟨both.1.mergeAt unclaimed left right, both.2.mergeAt left right⟩
  have ran : Tidy start (events.foldl builder.apply pool) ∧
      HeldUp shard (events.foldl builder.apply pool) :=
    run_induction (fun later => Tidy start later ∧ HeldUp shard later) ⟨tidy, .inr isWaiting⟩
      constructs merges fun _ _ both => both
  obtain ⟨reached, ⟨-, heldUp⟩, ended⟩ := drain_induction _ ran constructs merges
  generalize builder.drain (events.foldl builder.apply pool) = result at ended
  cases ended with
  | @failed failure _ => exact ⟨failure, rfl⟩
  | done none_failed none_waiting _ =>
    rcases heldUp with ⟨failure, failed⟩ | isWaiting
    · rw [none_failed] at failed
      cases failed
    · exact absurd isWaiting (none_waiting ▸ List.not_mem_nil)

end Builder

/-! ### Builds of finished shards -/

namespace Build

variable {build : Build} {shard : Path}

/-- The shards are files that writers have finished. The directory of the temporary files is
there, and the targets are two places away from them for which the index is not too large. -/
structure Journaled (build : Build) : Prop where
  source : build.builder.source = .files
  finished : ∀ shard ∈ build.shards, ∃ location, Names build.start.files shard location ∧
    build.start.files.lookup location =
      some (.file (Journal.Writer.ofEntries (build.contents shard)).finish.2)
  sized : ∀ shard ∈ build.shards, Journal.Sized (build.contents shard)
  directory : build.start.files.isDirectory build.builder.tempDirectory = true
  unclaimed : build.start.Unclaimed build.builder.tempDirectory
  separate : Separate build.temporaries build.builder.docsTarget build.builder.wordsTarget
    build.start.stems build.start.files
  words_small : (wordsFile build.lists).size < regionLimit
  docs_small : (docsFile build.lists).size < regionLimit

/-- A shard that keeps waiting stops the build. -/
theorem result_of_unreadable
    (directory : build.start.files.isDirectory build.builder.tempDirectory = true)
    (unclaimed : build.start.Unclaimed build.builder.tempDirectory) (member : shard ∈ build.shards)
    (unreadable : build.builder.Unreadable build.start shard) :
    ∃ failure, build.result = .error failure := by
  obtain ⟨lines, runs⟩ := run_eq (List.ne_nil_of_mem member)
    (makeDirectories_of_isDirectory directory)
  obtain ⟨failure, failed⟩ :=
    unreadable.drain unclaimed (tidy_pool directory lines) member build.events
  exact ⟨failure, congrArg Prod.fst (runs _ _ (Prod.ext failed rfl))⟩

namespace Journaled

/-- The shards stay what they are while temporary files come and go. -/
theorem open_eq (journaled : build.Journaled) (member : shard ∈ build.shards)
    {held : List Possession} {world : World} (owning : Owning held build.start world) :
    build.builder.source.open shard world.files =
      .ok (Journal.readBack shard (build.contents shard)) := by
  obtain ⟨location, names, isFile⟩ := journaled.finished shard member
  obtain ⟨reader, opened, items⟩ :=
    Journal.Reader.items_of_finished shard (journaled.sized shard member)
  have outside : location ∉ placesOf held := by
    intro isPlace
    rw [owning.fresh location isPlace] at isFile
    cases isFile
  have read : world.files.read shard =
      .ok (.file (Journal.Writer.ofEntries (build.contents shard)).finish.2) := by
    rw [(names.of_sameDirectories owning.directories).read_eq, owning.elsewhere location outside,
      isFile]
  rw [journaled.source]
  show (Journal.openFile shard world.files).map Journal.Reader.items = _
  rw [Journal.openFile, read]
  show (Journal.Reader.open shard _).map Journal.Reader.items = _
  rw [opened, ← items]
  rfl

/-- A build that succeeds has read every entry of every shard. -/
theorem readBack_eq (journaled : build.Journaled) {report : Report}
    (built : build.result = .ok (.built report)) (member : shard ∈ build.shards) :
    Journal.readBack shard (build.contents shard) = (build.contents shard).map .ok := by
  rcases Journal.readBack_cases shard (build.contents shard) with
    same | ⟨before, entry, after, -, -, defect⟩
  · exact same
  have unreadable : build.builder.Unreadable build.start shard := fun held world owning =>
    ⟨before, _, [], (journaled.open_eq member owning).trans (congrArg Except.ok defect)⟩
  obtain ⟨failure, failed⟩ :=
    result_of_unreadable journaled.directory journaled.unclaimed member unreadable
  rw [built] at failed
  cases failed

theorem wellPosed (journaled : build.Journaled) {report : Report}
    (built : build.result = .ok (.built report)) : build.WellPosed where
  nonempty none := by
    rw [result, none] at built
    cases built
  reads := by
    rw [prepared_eq_start journaled.directory]
    refine Builder.reads_of_files journaled.source fun shard member => ?_
    obtain ⟨location, names, isFile⟩ := journaled.finished shard member
    obtain ⟨reader, opened, items⟩ :=
      Journal.Reader.items_of_finished shard (journaled.sized shard member)
    exact ⟨location, _, reader, names, isFile, opened,
      items.trans (journaled.readBack_eq built member)⟩
  separate := by
    rw [prepared_eq_start journaled.directory]
    exact journaled.separate
  words_small := journaled.words_small
  docs_small := journaled.docs_small

/-- So the index that it has built reflects all of them. -/
theorem reflects (journaled : build.Journaled) {report : Report}
    (built : build.result = .ok (.built report)) (options : ReaderOptions) (ε : Type) :
    ∃ reader opened, (IndexReader.open build.builder.wordsTarget build.builder.docsTarget
      options).perform build.finish = (.ok reader, opened) ∧ reader.Reflects build ε := by
  have wellPosed := journaled.wellPosed built
  rcases wellPosed.outcome with ⟨-, notBuilt⟩ | ⟨⟨_, _, _, failed, -⟩, -⟩ | done
  · exact absurd built (notBuilt report)
  · rw [built] at failed
    cases failed
  · obtain ⟨docsPlace, wordsPlace, published⟩ := done.published
    obtain ⟨reader, opened, performed, ready⟩ :=
      IndexReader.open_of_published options wellPosed.publishable published
    exact ⟨reader, opened, performed, IndexReader.reflects_of_ofLists wellPosed.publishable ready⟩

end Journaled

end Build

/-- No entry of a finished shard is lost. Reading the shard yields every entry that was put into
it, or it ends with an error that names an entry with more terms than a reader accepts; and a
build of finished shards that succeeds leaves an index in which every posting of every entry is
found. Only of a shard whose writer never finished nothing is read, and no error is reported. -/
theorem finished_shards_lose_nothing (path : Path) {entries : List Entry} {build : Build}
    (options : ReaderOptions) (ε : Type) (sized : Journal.Sized entries)
    (journaled : build.Journaled) :
    (∃ reader, Journal.Reader.open path (Journal.Writer.ofEntries entries).finish.2 =
        .ok reader ∧
      (reader.items = entries.map .ok ∨ ∃ before entry after,
        entries = before ++ entry :: after ∧ Journal.maxTerms < entry.terms.length ∧
          reader.items = before.map .ok ++ [.error (.journal path
            (.tooManyTerms entry.doc (UInt64.ofNat entry.terms.length)))])) ∧
    (∃ reader, Journal.Reader.open path (Journal.Writer.ofEntries entries).abandon =
      .ok reader ∧ reader.items = []) ∧
    ∀ report, build.result = .ok (.built report) →
      ∃ reader opened, (IndexReader.open build.builder.wordsTarget build.builder.docsTarget
        options).perform build.finish = (.ok reader, opened) ∧ reader.Reflects build ε := by
  refine ⟨?_, Journal.Reader.items_of_abandoned path entries,
    fun report built => journaled.reflects built options ε⟩
  obtain ⟨reader, opened, items⟩ := Journal.Reader.items_of_finished path sized
  refine ⟨reader, opened, ?_⟩
  rw [items]
  exact Journal.readBack_cases path entries

/-! ### A shard that was not finished -/

theorem twoShardBuild.journaled : twoShardBuild.Journaled where
  source := rfl
  finished shard member := by
    rcases List.mem_pair.mp member with rfl | rfl
    · exact ⟨["first"], ⟨rfl, rfl, rfl, nofun, rfl, rfl, by decide⟩, rfl⟩
    · exact ⟨["second"], ⟨rfl, rfl, rfl, nofun, rfl, rfl, by decide⟩, rfl⟩
  sized shard member := by
    rcases List.mem_pair.mp member with rfl | rfl
    · exact ⟨by decide, by decide⟩
    · exact ⟨by decide, by decide⟩
  directory := by decide
  unclaimed := Build.unclaimed_of_plain missingShardBuild.plain
  separate := by
    have separate := wellPosed.separate
    rwa [prepared_eq] at separate
  words_small := wellPosed.words_small
  docs_small := wellPosed.docs_small

theorem finished_shards_lose_nothing_of_two :
    (∃ reader, Journal.Reader.open (rootFile "first")
        (Journal.Writer.ofEntries firstShard).finish.2 = .ok reader ∧
      reader.items = firstShard.map .ok) ∧
    ∃ report reader opened, twoShardBuild.result = .ok (.built report) ∧
      (IndexReader.open (rootFile "words") (rootFile "docs") ⟨.scalar, 32⟩).perform
        twoShardBuild.finish = (.ok reader, opened) ∧
      reader.Reflects twoShardBuild StorageError := by
  obtain ⟨⟨first, opened, read⟩, -, built⟩ := finished_shards_lose_nothing (rootFile "first")
    ⟨.scalar, 32⟩ StorageError (show Journal.Sized firstShard from ⟨by decide, by decide⟩)
    twoShardBuild.journaled
  constructor
  · refine ⟨first, opened, read.resolve_right ?_⟩
    rintro ⟨before, entry, after, isShard, large, -⟩
    have small : ∀ entry ∈ firstShard, ¬ Journal.maxTerms < entry.terms.length := by decide
    exact small entry (isShard ▸ List.mem_append_right _ List.mem_cons_self) large
  · rcases twoShardBuild.wellPosed.outcome with ⟨mayStop, -⟩ | ⟨-, hindered⟩ | done
    · exfalso
      rcases mayStop with called | called | called <;> revert called <;> decide
    · exact absurd twoShardBuild.unhindered hindered
    · obtain ⟨reader, world, performed, reflects⟩ := built _ done.result
      exact ⟨_, reader, world, done.result, performed, reflects⟩

/-- So a shard that was not finished loses its entries without an error. -/
theorem abandoned_shard_reads_empty :
    ¬ ∀ (path : Path) (entries : List Entry) (reader : Journal.Reader),
      Journal.Reader.open path (Journal.Writer.ofEntries entries).abandon = .ok reader →
      reader.items = entries.map .ok ∨ ∃ cause, .error cause ∈ reader.items := by
  intro claim
  obtain ⟨reader, opened, nothing⟩ :=
    Journal.Reader.items_of_abandoned (rootFile "first") [⟨5, 0, [(100, 1)]⟩]
  have yields := claim _ _ reader opened
  rw [nothing] at yields
  rcases yields with same | ⟨cause, member⟩
  · cases same
  · cases member

end InvertedIndex
