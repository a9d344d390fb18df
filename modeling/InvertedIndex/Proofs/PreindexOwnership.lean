/-
This file proves that the files of every preindex have one owner. Whatever is done with the
preindexes of one directory, and in whatever order, each operation does what it may do. What
uses a preindex up hands its files on or removes them, whether it succeeds or fails, and what
only reads a preindex leaves its files as they are.
-/

import InvertedIndex.Proofs.FailedFinalization
import InvertedIndex.Proofs.PreindexHandles

namespace InvertedIndex

open FileSystem

/-! ### Names that are handed out -/

namespace Action

variable {ε α : Type}

/-- The operation leaves the names alone that the system hands out. -/
def KeepsStems (action : Action ε α) : Prop :=
  ∀ world, (action.perform world).2.stems = world.stems

namespace KeepsStems

theorem bind {β : Type} {first : Action ε α} {next : α → Action ε β} (keeps : first.KeepsStems)
    (goesOn : ∀ value, (next value).KeepsStems) : (first >>= next).KeepsStems := by
  intro world
  have stems := keeps world
  rw [perform] at stems ⊢
  rw [bind_apply]
  rcases isEnd : first world with ⟨failure | value, between⟩
  · rw [isEnd] at stems
    exact stems
  · rw [isEnd] at stems
    exact (goesOn value between).trans stems

theorem mapError {δ : Type} {action : Action ε α} (keeps : action.KeepsStems) (change : ε → δ) :
    (action.mapError change).KeepsStems := by
  intro world
  have stems := keeps world
  rw [perform] at stems ⊢
  rw [Action.mapError]
  split <;> (rename_i isEnd; rw [isEnd] at stems; exact stems)

theorem removingIfFails {action : Action ε α} (keeps : action.KeepsStems) (path : Path) :
    (action.cleaningUp fun world => world.removeIfPossible path).KeepsStems := by
  intro world
  have stems := keeps world
  rw [perform] at stems ⊢
  rw [cleaningUp]
  split
  · rename_i isEnd
    rw [isEnd] at stems
    exact stems
  · rename_i after isEnd
    rw [isEnd] at stems
    obtain ⟨files, removed⟩ := World.removeIfPossible_eq path after
    rw [removed]
    exact stems

theorem ofResult (result : Except (Failure ε) α) : (ofResult result).KeepsStems := fun _ => rfl

theorem pure (value : α) : (Pure.pure value : Action ε α).KeepsStems := fun _ => rfl

theorem fromRoot (path : Path) : (fromRoot path : Action ε Path).KeepsStems := fun _ => rfl

theorem change (operation : FileSystem → Except ε FileSystem) :
    (change operation).KeepsStems := by
  intro world
  rw [perform, Action.change]
  split <;> rfl

theorem request : (request : Action ε (Option Refusal)).KeepsStems := fun _ => rfl

theorem refuse (cause : ε) : (refuse cause : Action ε α).KeepsStems := fun _ => rfl

theorem requestChange (operation : FileSystem → Except FileError FileSystem) :
    (requestChange operation).KeepsStems := by
  refine .bind .request fun answer => ?_
  cases answer with
  | none => exact .change _
  | some refusal => exact .refuse _

theorem write (path : Path) (contents : List UInt8) : (write path contents).KeepsStems := by
  refine .bind .request fun answer => ?_
  cases answer with
  | none => exact .change _
  | some refusal => exact .bind (.change _) fun _ => .refuse _

theorem createUnique (directory : Path) (lead trail : String) (attempts : Nat) :
    (createUnique directory lead trail attempts).KeepsStems := by
  intro world
  rcases (createUnique_keeps directory lead trail attempts world).cases with
    ⟨base, after, performed, draw, location, requests, -, -, -, -, isAfter⟩ |
    ⟨failure, after, performed, drawn, requests, isAfter⟩
  · rw [performed, isAfter]
  · rw [performed, isAfter]

end KeepsStems

end Action

namespace Preindex

theorem writeSibling_keepsStems (target : Path)
    (contents : Except (Failure StorageError) (Array UInt64)) :
    (writeSibling target contents).KeepsStems := by
  rw [writeSibling]
  refine .bind (.fromRoot _) fun directory =>
    .bind (.mapError (.createUnique _ _ _ _) _) fun name =>
      .bind (.removingIfFails (.bind (.ofResult _) fun words => ?_) _) fun _ => .pure _
  exact .mapError (.write _ _) _

/-- Finishing an index draws names for temporary files and changes none. -/
theorem finalize_keepsStems (preindex : Preindex) (docsTarget wordsTarget : Path) :
    (preindex.finalize docsTarget wordsTarget).KeepsStems := by
  rw [finalize]
  refine .bind (writeSibling_keepsStems _ _) fun docsSibling =>
    .removingIfFails (.bind (.ofResult _) fun draft =>
      .bind (writeSibling_keepsStems _ _) fun wordsSibling =>
        .removingIfFails (.bind (.ofResult _) fun written => ?_) _) _
  have persists (sibling target : Path) : (persist sibling target).KeepsStems :=
    .requestChange _
  exact .bind (.mapError (persists docsSibling docsTarget) _) fun _ =>
    .bind (.mapError (persists wordsSibling wordsTarget) _) fun _ => .pure _

end Preindex

/-! ### The effect of each operation -/

namespace Accounted

variable {directory : Path} {start : World} {targeted : Location → Prop}
  {held others : List Possession} {shop after : Workshop} {location : Location} {index : Nat}
  {handle : PreindexHandle}

/-- What is held reads as before when the files at its places stay. -/
theorem spares (accounted : Accounted directory start targeted held shop)
    (same : SameDirectories shop.world.files after.world.files)
    (stay : ∀ location ∈ placesOf held,
      after.world.files.lookup location = shop.world.files.lookup location) :
    shop.Spares after := by
  intro handle member path isPath
  have isFiles : handle.files ∈ held.map (·.files) :=
    accounted.handles ▸ List.mem_map_of_mem member
  obtain ⟨possession, isHeld, isPossession⟩ := List.mem_map.mp isFiles
  rw [← isPossession] at isPath
  obtain ⟨location, isThere, names⟩ :=
    (accounted.present possession isHeld).exists_place path isPath
  rw [(names.of_sameDirectories same).read_eq, names.read_eq,
    stay location (List.mem_flatMap.mpr ⟨possession, isHeld, isThere⟩)]

/-- What is added lies elsewhere. -/
theorem spares_of_owning (accounted : Accounted directory start targeted held shop)
    (owning : Owning others shop.world after.world) : shop.Spares after :=
  accounted.spares owning.directories fun location member => by
    refine owning.elsewhere location fun isOther => ?_
    obtain ⟨contents, isFile⟩ := accounted.owning.is_file member
    rw [owning.fresh location isOther] at isFile
    cases isFile

/-- A preindex is made, or nothing has changed, and what was held reads as before. -/
theorem makes_of_ends {action : Action StorageError Preindex}
    (accounted : Accounted directory start targeted held shop)
    (unclaimed : shop.world.Unclaimed directory)
    (ends : action.Ends shop.world (fun _ after => Keeping directory [] shop.world after)
      fun preindex after => Gaining directory [] shop.world preindex.files after) :
    shop.Spares (shop.gain (action.perform shop.world)) ∧
      shop.Makes (shop.gain (action.perform shop.world)) directory
        (action.perform shop.world).1 := by
  rcases ends.cases with
    ⟨preindex, after, performed, gaining⟩ | ⟨failure, after, performed, keeping⟩
  · obtain ⟨offered, place, more⟩ := gaining
    rw [performed]
    have added := more.owning unclaimed
    exact ⟨accounted.spares_of_owning added, rfl, offered, place, added⟩
  · rw [performed]
    have unchanged := keeping.owning unclaimed
    exact ⟨accounted.spares_of_owning unchanged, rfl, unchanged⟩

/-- A preindex that is let go of is removed, and nothing else is. -/
theorem removes_of_discard (accounted : Accounted directory start targeted held shop)
    (found : shop.handles[index]? = some handle)
    (handles : after.handles = shop.handles.eraseIdx index)
    (world : after.world = handle.files.discard shop.world) :
    shop.Removes after index handle.files := by
  obtain ⟨place, picked⟩ := accounted.exists_place found
  have present := accounted.present _ (picked.mem_iff.mpr List.mem_cons_self)
  refine ⟨handles, place, ?_⟩
  rw [world, present.discard_eq]
  exact .of_clear present

/-- Deleting a preindex goes through, and it removes what letting go of it removes. -/
theorem delete_eq (accounted : Accounted directory start targeted held shop)
    (found : shop.handles[index]? = some handle) :
    handle.delete.perform shop.world = (.ok (), handle.files.discard shop.world) := by
  obtain ⟨place, picked⟩ := accounted.exists_place found
  have present := accounted.present _ (picked.mem_iff.mpr List.mem_cons_self)
  rw [handle.delete_eq, present.delete_eq, present.discard_eq]

/-- A preindex that was set aside is opened or removed. -/
theorem reopen_effect (accounted : Accounted directory start targeted held shop) (index : Nat) :
    PreindexOperation.Effect directory shop (shop.step directory (.reopen index))
      (.reopen index) := by
  rw [PreindexOperation.Effect, Workshop.step]
  cases found : shop.parked? index with
  | none => rfl
  | some parked =>
    dsimp only
    rcases Preindex.openFiles_cases parked.files shop.world with
      ⟨preindex, performed, isOwned⟩ | ⟨cause, performed⟩
    · rw [ParkedPreindex.reopen, performed]
      exact ⟨isOwned, rfl, .init _⟩
    · rw [ParkedPreindex.reopen, performed]
      exact accounted.removes_of_discard (Workshop.parked?_eq_some found) rfl rfl

/-- Putting other contents into a file of a preindex changes that file. -/
theorem overwrite_effect (accounted : Accounted directory start targeted held shop) (index : Nat)
    (path : Path) (contents : List UInt8) :
    PreindexOperation.Effect directory shop (shop.step directory (.overwrite index path contents))
      (.overwrite index path contents) := by
  rw [PreindexOperation.Effect, Workshop.step]
  cases found : shop.parked? index with
  | none => rfl
  | some parked =>
    dsimp only
    by_cases isPath : path ∈ parked.files.all
    · obtain ⟨place, picked⟩ := accounted.exists_place (Workshop.parked?_eq_some found)
      have present := accounted.present _ (picked.mem_iff.mpr List.mem_cons_self)
      obtain ⟨location, isThere, names⟩ := present.exists_place path isPath
      have plain := present.plain location isThere
      have only := ChangesOnly.put_file names.named shop.world.files plain contents
      have performed : (Action.change fun present => present.write path contents :
          Action FileError Unit).perform shop.world = (.ok (), { shop.world with
            files := shop.world.files.put location (.file contents) }) := by
        rw [Action.perform, Action.change, names.write_eq plain]
      rw [if_pos isPath, if_pos isPath, performed]
      refine ⟨rfl, rfl, only.directories, fun other others wasFile => ?_, fun other apart => ?_⟩
      · dsimp only
        rw [lookup_put names.named]
        split
        · exact ⟨contents, rfl⟩
        · exact ⟨others, wasFile⟩
      · refine only.elsewhere other fun member => apart ?_
        rwa [List.mem_singleton.mp member]
    · rw [if_neg isPath, if_neg isPath]

section

variable (startUnclaimed : start.Unclaimed directory)
  (spared : ∀ location, targeted location → ¬ start.Exposes directory location)

include spared

/-- Finishing an index leaves the files of every preindex as they are. -/
theorem finalize_effect (accounted : Accounted directory start targeted held shop) (index : Nat)
    (docsTarget wordsTarget : Path)
    (aims : ∀ location, PreindexOperation.Targets start.files
      (.finalize index docsTarget wordsTarget) location → targeted location) :
    PreindexOperation.Effect directory shop
      (shop.step directory (.finalize index docsTarget wordsTarget))
      (.finalize index docsTarget wordsTarget) := by
  rw [PreindexOperation.Effect, Workshop.step]
  cases shop.opened? index with
  | none => rfl
  | some preindex =>
    have replaces : Preindex.Replaces docsTarget wordsTarget shop.world.files
        ((preindex.finalize docsTarget wordsTarget).perform shop.world).2.files := by
      rcases (preindex.finalize_settles docsTarget wordsTarget shop.world).cases with
        ⟨report, after, performed, installed⟩ | ⟨failure, after, performed, unfinished⟩
      · rw [performed]
        exact installed.toReplaces
      · rw [performed]
        exact unfinished.replaces
    have stems := preindex.finalize_keepsStems docsTarget wordsTarget shop.world
    dsimp only
    generalize ((preindex.finalize docsTarget wordsTarget).perform shop.world).2 = between
      at stems replaces ⊢
    have elsewhere (location : Location) (outside : ¬ (Names shop.world.files docsTarget location ∨
        Names shop.world.files wordsTarget location)) :
        between.files.lookup location = shop.world.files.lookup location :=
      replaces.elsewhere location (not_or.mp outside).1 (not_or.mp outside).2
    have same := accounted.directories.symm
    refine ⟨accounted.spares replaces.directories fun location member => ?_, rfl, stems,
      replaces.directories, replaces.remains, elsewhere⟩
    -- The index is not written where a preindex may be made, so not where one of these is.
    refine elsewhere location fun names => ?_
    refine spared location (aims location ?_) (accounted.exposes_of_mem member)
    exact names.imp (·.of_sameDirectories same) (·.of_sameDirectories same)

include startUnclaimed

/-- Each operation does what it may do, and nothing else. -/
theorem effect (accounted : Accounted directory start targeted held shop)
    (operation : PreindexOperation)
    (aims : ∀ location, operation.Targets start.files location → targeted location) :
    operation.Effect directory shop (shop.step directory operation) := by
  have unclaimed := accounted.unclaimed startUnclaimed spared
  have keeping : Keeping directory [] shop.world shop.world := .of_owning (.init _)
  cases operation with
  | construct items renumber backend =>
    exact accounted.makes_of_ends unclaimed
      (Preindex.construct_keeps keeping items renumber backend)
  | merge left right =>
    rw [PreindexOperation.Effect, Workshop.step]
    cases shop.opened? left with
    | none => rfl
    | some first =>
      cases shop.opened? right with
      | none => rfl
      | some second =>
        exact accounted.makes_of_ends unclaimed (Preindex.merge_keeps keeping first second)
  | park index =>
    rw [PreindexOperation.Effect, Workshop.step]
    cases shop.opened? index with
    | none => rfl
    | some preindex => exact ⟨rfl, .init _⟩
  | reopen index => exact accounted.reopen_effect index
  | finalize index docsTarget wordsTarget =>
    exact accounted.finalize_effect spared index docsTarget wordsTarget aims
  | delete index =>
    rw [PreindexOperation.Effect, Workshop.step]
    cases found : shop.handles[index]? with
    | none => rfl
    | some handle =>
      dsimp only
      rw [accounted.delete_eq found]
      exact ⟨rfl, accounted.removes_of_discard found rfl rfl⟩
  | discard index =>
    rw [PreindexOperation.Effect, Workshop.step]
    cases found : shop.handles[index]? with
    | none => rfl
    | some handle =>
      exact accounted.removes_of_discard found rfl (congrFun handle.discard_eq _)
  | overwrite index path contents => exact accounted.overwrite_effect index path contents

/-- So all operations of a list, one after the other, keep account of what is held. -/
theorem run (accounted : Accounted directory start targeted held shop)
    (operations : List PreindexOperation)
    (aims : ∀ operation ∈ operations, ∀ location,
      operation.Targets start.files location → targeted location) :
    ∃ others, Accounted directory start targeted others
      (operations.foldl (Workshop.step directory) shop) := by
  induction operations generalizing held shop with
  | nil => exact ⟨held, accounted⟩
  | cons operation rest inductionHypothesis =>
    obtain ⟨aimsFirst, aimsRest⟩ := List.forall_mem_cons.mp aims
    obtain ⟨others, next⟩ := accounted.of_effect
      (accounted.effect startUnclaimed spared operation aimsFirst) aimsFirst
    exact inductionHypothesis next aimsRest

end

end Accounted

/-! ### Any number of operations -/

/-- The places where some operations write an index. -/
def World.Targeted (start : World) (operations : List PreindexOperation) (location : Location) :
    Prop :=
  ∃ operation ∈ operations, operation.Targets start.files location

theorem World.Targeted.of_prefix {start : World} {done operations : List PreindexOperation}
    {location : Location} (targeted : start.Targeted done location) (isPart : done <+: operations) :
    start.Targeted operations location := by
  obtain ⟨operation, member, isTarget⟩ := targeted
  exact ⟨operation, isPart.subset member, isTarget⟩

namespace Workshop

theorem run_concat (directory : Path) (start : World) (done : List PreindexOperation)
    (operation : PreindexOperation) :
    run directory start (done ++ [operation]) =
      (run directory start done).step directory operation :=
  List.foldl_concat _ _ _ _

/-- After any part of a list of operations what is held is accounted for. -/
theorem run_accounted {directory : Path} {start : World} {done operations : List PreindexOperation}
    (unclaimed : start.Unclaimed directory)
    (spared : ∀ location, start.Targeted operations location → ¬ start.Exposes directory location)
    (isPart : done <+: operations) :
    ∃ held, Accounted directory start (start.Targeted operations) held
      (run directory start done) :=
  (Accounted.init directory start _).run unclaimed spared done fun operation member _ isTarget =>
    ⟨operation, isPart.subset member, isTarget⟩

end Workshop

/-- Every file of a preindex has one owner, whatever is done with preindexes in one directory.
The names that the system hands out there are to be fresh: where the file of the terms can be
created nothing is under the two names beside it, and no index is written under these names.
Then, after every operation, the preindexes that are held have their three files, each of them
at places of its own, and no other preindex has files. Each operation hands on or removes the
files of what it uses up, whether it succeeds or fails, and deleting a preindex succeeds. Making
a preindex, merging two of them and finishing an index leave the files of every preindex that is
held as they are. An operation may fail at any file that it creates, writes or moves, because of
what is there or because the system refuses it. -/
theorem preindex_files_have_one_owner (directory : Path) (start : World)
    (operations : List PreindexOperation) (unclaimed : start.Unclaimed directory)
    (spared : ∀ location, start.Targeted operations location →
      ¬ start.Exposes directory location) :
    (∀ done, done <+: operations → ∃ held,
        Accounted directory start (start.Targeted done) held (Workshop.run directory start done) ∧
          ∀ location, start.Exposes directory location →
            ((Workshop.run directory start done).world.files.lookup location ≠ none ↔
              location ∈ placesOf held)) ∧
      ∀ done operation, done ++ [operation] <+: operations →
        operation.Effect directory (Workshop.run directory start done)
          (Workshop.run directory start (done ++ [operation])) := by
  have apart (done : List PreindexOperation) (isPart : done <+: operations) :
      ∀ location, start.Targeted done location → ¬ start.Exposes directory location :=
    fun location isTarget => spared location (isTarget.of_prefix isPart)
  refine ⟨fun done isPart => ?_, fun done operation isPart => ?_⟩
  · obtain ⟨held, accounted⟩ := Workshop.run_accounted unclaimed (apart done isPart) done.prefix_rfl
    exact ⟨held, accounted, fun location =>
      accounted.lookup_ne_none_iff unclaimed (apart done isPart)⟩
  · have aside := apart _ isPart
    obtain ⟨held, accounted⟩ :=
      Workshop.run_accounted unclaimed aside (List.prefix_append done [operation])
    rw [Workshop.run_concat]
    exact accounted.effect unclaimed aside operation fun location isTarget =>
      ⟨operation, List.mem_append_right _ (List.mem_singleton_self _), isTarget⟩

/-- Every name that a preindex may take starts with the same letter. -/
theorem World.Exposes.head?_eq {world : World} {directory : Path} {location : Location}
    (exposed : world.Exposes directory location) :
    (location.headD "").toList.head? = some 'p' := by
  obtain ⟨draw, -, path, member, names⟩ := exposed
  obtain ⟨extension, -, rfl⟩ := PreindexFiles.exists_extension member
  rw [names.headD_of_child]
  simp [preindexNamed, String.toList_append]

/-- A directory without files. -/
def bareDirectory : World where
  files := { nodes := [], workingDirectory := [] }
  stems := fun draw => toString draw
  drawn := 0
  log := []
  opened := 0
  warned := []

/-- Two preindexes are made and merged. One of them is set aside, and one of its files is
overwritten before it is opened again; from the others an index is written. -/
def spoiledAndMerged : List PreindexOperation :=
  [.construct [.ok ⟨5, 0, [(100, 1)]⟩] id .scalar,
    .construct [.ok ⟨7, 0, [(100, 2)]⟩] id .scalar,
    .merge 0 1,
    .park 2,
    .overwrite 2 (bareDirectory.preindexNamed (Path.ofText "/") 0).counts [1],
    .reopen 2,
    .finalize 0 (Path.ofText "/docs") (Path.ofText "/words"),
    .delete 0,
    .discard 0]

/-- In the end nothing but the index is there. -/
theorem preindex_files_have_one_owner_of_spoiled_input :
    bareDirectory.Unclaimed (Path.ofText "/") ∧
      (∀ location, bareDirectory.Targeted spoiledAndMerged location →
        ¬ bareDirectory.Exposes (Path.ofText "/") location) ∧
      ∀ location, location ≠ ["docs"] → location ≠ ["words"] →
        (Workshop.run (Path.ofText "/") bareDirectory
          spoiledAndMerged).world.files.lookup location = bareDirectory.files.lookup location := by
  have docsNames : Names bareDirectory.files (Path.ofText "/docs") ["docs"] :=
    ⟨rfl, rfl, rfl, nofun, rfl, rfl, by decide⟩
  have wordsNames : Names bareDirectory.files (Path.ofText "/words") ["words"] :=
    ⟨rfl, rfl, rfl, nofun, rfl, rfl, by decide⟩
  have places (location : Location) (isTarget : bareDirectory.Targeted spoiledAndMerged location) :
      location = ["docs"] ∨ location = ["words"] := by
    obtain ⟨operation, member, isTarget⟩ := isTarget
    cases operation with
    | finalize index docsTarget wordsTarget =>
      obtain ⟨-, rfl, rfl⟩ : index = 0 ∧ docsTarget = Path.ofText "/docs" ∧
          wordsTarget = Path.ofText "/words" := by simpa [spoiledAndMerged] using member
      exact isTarget.imp (·.unique docsNames) (·.unique wordsNames)
    | _ => exact isTarget.elim
  have unclaimed : bareDirectory.Unclaimed (Path.ofText "/") := by
    refine .of_exposes fun location exposed => ?_
    cases location with
    | nil => exact absurd exposed.head?_eq (by decide)
    | cons name holder => rfl
  have spared (location : Location) (isTarget : bareDirectory.Targeted spoiledAndMerged location) :
      ¬ bareDirectory.Exposes (Path.ofText "/") location := by
    intro exposed
    rcases places location isTarget with rfl | rfl
    · exact absurd exposed.head?_eq (by decide)
    · exact absurd exposed.head?_eq (by decide)
  refine ⟨unclaimed, spared, fun location notDocs notWords => ?_⟩
  obtain ⟨held, accounted, -⟩ :=
    (preindex_files_have_one_owner _ _ _ unclaimed spared).1 spoiledAndMerged List.prefix_rfl
  have nothing :
      (Workshop.run (Path.ofText "/") bareDirectory spoiledAndMerged).handles.isEmpty = true := by
    decide +kernel
  have noneHeld : held = [] := by
    have handles := accounted.handles
    rw [List.isEmpty_iff.mp nothing] at handles
    exact List.map_eq_nil_iff.mp handles.symm
  subst noneHeld
  exact accounted.elsewhere location List.not_mem_nil fun isTarget =>
    (places location isTarget).elim notDocs notWords

end InvertedIndex
