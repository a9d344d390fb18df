/-
This file says what can be done with preindexes that are held, and what that may do to the
files. A preindex is held open or set aside, and an operation uses it up, hands it on or leaves
it where it is. Each operation is described by what it may change: it adds the files of one
preindex, it removes them, or it leaves all preindexes where they are. What is proved here
follows from that description alone: the files of preindexes are those of the preindexes that
are held, three for each of them.
-/

import InvertedIndex.Proofs.Ownership

namespace InvertedIndex

open FileSystem

/-! ### Operations on preindexes that are held -/

/-- A preindex in somebody's hands, open or set aside. -/
inductive PreindexHandle where
  | opened (preindex : Preindex)
  | parked (preindex : ParkedPreindex)

namespace PreindexHandle

/-- The files that the handle owns. -/
def files : PreindexHandle → PreindexFiles
  | .opened preindex => preindex.files
  | .parked preindex => preindex.files

/-- Removes the preindex. -/
def delete : PreindexHandle → Action StorageError Unit
  | .opened preindex => preindex.delete
  | .parked preindex => preindex.delete

/-- Lets go of the preindex without a report. -/
def discard : PreindexHandle → World → World
  | .opened preindex => preindex.discard
  | .parked preindex => preindex.discard

@[simp] theorem delete_eq (handle : PreindexHandle) : handle.delete = handle.files.delete := by
  cases handle <;> rfl

@[simp] theorem discard_eq (handle : PreindexHandle) : handle.discard = handle.files.discard := by
  cases handle <;> rfl

end PreindexHandle

/-- What can be done with the preindexes that are held. A number tells which of them. -/
inductive PreindexOperation where
  /-- Builds a preindex from the entries of a shard. -/
  | construct (items : List (Except StorageError Entry)) (renumber : DocId → DocId)
    (backend : Backend)
  /-- Unites two open preindexes. -/
  | merge (left right : Nat)
  /-- Sets an open preindex aside. -/
  | park (index : Nat)
  /-- Opens a preindex that was set aside. -/
  | reopen (index : Nat)
  /-- Writes the index of an open preindex. -/
  | finalize (index : Nat) (docsTarget wordsTarget : Path)
  /-- Removes a preindex. -/
  | delete (index : Nat)
  /-- Lets go of a preindex without a report. -/
  | discard (index : Nat)
  /-- Puts other contents into a file of a preindex that was set aside, from outside. -/
  | overwrite (index : Nat) (path : Path) (contents : List UInt8)

/-- The preindexes that are held, the latest first, and the world that their files are in. -/
structure Workshop where
  world : World
  handles : List PreindexHandle

namespace Workshop

/-- The open preindex under a number. -/
def opened? (shop : Workshop) (index : Nat) : Option Preindex :=
  match shop.handles[index]? with
  | some (.opened preindex) => some preindex
  | _ => none

/-- The preindex under a number that was set aside. -/
def parked? (shop : Workshop) (index : Nat) : Option ParkedPreindex :=
  match shop.handles[index]? with
  | some (.parked preindex) => some preindex
  | _ => none

/-- A new preindex is held, unless it could not be made. -/
def gain (shop : Workshop) : Except (Failure StorageError) Preindex × World → Workshop
  | (.ok preindex, world) => { world, handles := .opened preindex :: shop.handles }
  | (.error _, world) => { shop with world }

/-- One operation, with new preindexes made in a directory. Where there is no preindex that the
operation could be for, nothing is done. -/
def step (directory : Path) (shop : Workshop) : PreindexOperation → Workshop
  | .construct items renumber backend =>
    shop.gain ((Preindex.construct items renumber directory backend).perform shop.world)
  | .merge left right =>
    match shop.opened? left, shop.opened? right with
    | some first, some second =>
      shop.gain ((Preindex.merge directory first second).perform shop.world)
    | _, _ => shop
  | .park index =>
    match shop.opened? index with
    | some preindex => { shop with handles := shop.handles.set index (.parked preindex.park) }
    | none => shop
  | .reopen index =>
    match shop.parked? index with
    | some parked =>
      match parked.reopen.perform shop.world with
      | (.ok preindex, world) => { world, handles := shop.handles.set index (.opened preindex) }
      | (.error _, world) => { world, handles := shop.handles.eraseIdx index }
    | none => shop
  | .finalize index docsTarget wordsTarget =>
    match shop.opened? index with
    | some preindex =>
      { shop with world := ((preindex.finalize docsTarget wordsTarget).perform shop.world).2 }
    | none => shop
  | .delete index =>
    match shop.handles[index]? with
    | some handle =>
      { world := (handle.delete.perform shop.world).2, handles := shop.handles.eraseIdx index }
    | none => shop
  | .discard index =>
    match shop.handles[index]? with
    | some handle =>
      { world := handle.discard shop.world, handles := shop.handles.eraseIdx index }
    | none => shop
  | .overwrite index path contents =>
    match shop.parked? index with
    | some parked =>
      if path ∈ parked.files.all then
        let change : Action FileError Unit :=
          Action.change fun present => present.write path contents
        { shop with world := (change.perform shop.world).2 }
      else shop
    | none => shop

/-- What is held after some operations, when nothing was held at the start. -/
def run (directory : Path) (start : World) (operations : List PreindexOperation) : Workshop :=
  operations.foldl (step directory) { world := start, handles := [] }

theorem opened?_eq_some {shop : Workshop} {index : Nat} {preindex : Preindex}
    (found : shop.opened? index = some preindex) :
    shop.handles[index]? = some (.opened preindex) := by
  unfold opened? at found
  split at found
  · rename_i isOpened
    cases found
    exact isOpened
  · cases found

theorem parked?_eq_some {shop : Workshop} {index : Nat} {parked : ParkedPreindex}
    (found : shop.parked? index = some parked) :
    shop.handles[index]? = some (.parked parked) := by
  unfold parked? at found
  split at found
  · rename_i isParked
    cases found
    exact isParked
  · cases found

/-! ### What an operation may do -/

variable (before after : Workshop)

/-- The files of everything that was held read as before. -/
def Spares : Prop :=
  ∀ handle ∈ before.handles, ∀ path ∈ handle.files.all,
    after.world.files.read path = before.world.files.read path

/-- One preindex was added under a name that the system hands out, and nothing else has changed,
or nothing was made and nothing has changed. -/
def Makes (directory : Path) (made : Except (Failure StorageError) Preindex) : Prop :=
  match made with
  | .ok preindex =>
    after.handles = .opened preindex :: before.handles ∧
      before.world.Offers directory preindex.files ∧
      ∃ place, Owning [⟨preindex.files, place⟩] before.world after.world
  | .error _ => after.handles = before.handles ∧ Owning [] before.world after.world

/-- The preindex under a number is in the hands of another handle, and no file has changed. -/
def HandsOn (index : Nat) (handle : PreindexHandle) : Prop :=
  after.handles = before.handles.set index handle ∧ Owning [] before.world after.world

/-- The preindex under a number is gone. Seen backwards, its files are what was added. -/
def Removes (index : Nat) (owned : PreindexFiles) : Prop :=
  after.handles = before.handles.eraseIdx index ∧
    ∃ place, Owning [⟨owned, place⟩] after.world before.world

/-- The same preindexes are held. No file is gone, and only at these locations files may have
been put or filled with other contents. -/
structure Rewrites (touched : Location → Prop) : Prop where
  handles : after.handles = before.handles
  stems : after.world.stems = before.world.stems
  directories : SameDirectories before.world.files after.world.files
  remains : ∀ location contents, before.world.files.lookup location = some (.file contents) →
    ∃ others, after.world.files.lookup location = some (.file others)
  elsewhere : ∀ location, ¬ touched location →
    after.world.files.lookup location = before.world.files.lookup location

end Workshop

namespace PreindexOperation

/-- The places of the index that is written. -/
def Targets (files : FileSystem) (operation : PreindexOperation) (location : Location) : Prop :=
  match operation with
  | .finalize _ docsTarget wordsTarget =>
    Names files docsTarget location ∨ Names files wordsTarget location
  | _ => False

/-- What an operation does to the handles and to the files: it makes a preindex, hands one on,
removes one or leaves all of them. For a preindex that is not there nothing is done. -/
def Effect (directory : Path) (before after : Workshop) : PreindexOperation → Prop
  | .construct items renumber backend =>
    before.Spares after ∧ before.Makes after directory
      ((Preindex.construct items renumber directory backend).perform before.world).1
  | .merge left right =>
    match before.opened? left, before.opened? right with
    | some first, some second =>
      before.Spares after ∧ before.Makes after directory
        ((Preindex.merge directory first second).perform before.world).1
    | _, _ => after = before
  | .park index =>
    match before.opened? index with
    | some preindex => before.HandsOn after index (.parked ⟨preindex.files⟩)
    | none => after = before
  | .reopen index =>
    match before.parked? index with
    | some parked =>
      match (parked.reopen.perform before.world).1 with
      | .ok preindex =>
        preindex.files = parked.files ∧ before.HandsOn after index (.opened preindex)
      | .error _ => before.Removes after index parked.files
    | none => after = before
  | .finalize index docsTarget wordsTarget =>
    match before.opened? index with
    | some _ =>
      before.Spares after ∧ before.Rewrites after fun location =>
        Names before.world.files docsTarget location ∨
          Names before.world.files wordsTarget location
    | none => after = before
  | .delete index =>
    match before.handles[index]? with
    | some handle =>
      (handle.delete.perform before.world).1 = .ok () ∧ before.Removes after index handle.files
    | none => after = before
  | .discard index =>
    match before.handles[index]? with
    | some handle => before.Removes after index handle.files
    | none => after = before
  | .overwrite index path _ =>
    match before.parked? index with
    | some parked =>
      if path ∈ parked.files.all then
        before.Rewrites after fun location => Names before.world.files path location
      else after = before
    | none => after = before

end PreindexOperation

/-! ### What is held and what is there -/

/-- The preindexes that are held have their files, each of them three at places of its own,
under names that the system hands out and where nothing was at the start. Apart from these no
file is gone, and none has come or changed but where an index was to be written. -/
structure Accounted (directory : Path) (start : World) (targeted : Location → Prop)
    (held : List Possession) (shop : Workshop) : Prop where
  handles : shop.handles.map (·.files) = held.map (·.files)
  offered : ∀ possession ∈ held, start.Offers directory possession.files
  stems : shop.world.stems = start.stems
  directories : SameDirectories start.files shop.world.files
  present : ∀ possession ∈ held, possession.files.Present possession.place shop.world.files
  fresh : ∀ location ∈ placesOf held, start.files.lookup location = none
  distinct : (placesOf held).Nodup
  remains : ∀ location contents, start.files.lookup location = some (.file contents) →
    ∃ others, shop.world.files.lookup location = some (.file others)
  elsewhere : ∀ location, location ∉ placesOf held → ¬ targeted location →
    shop.world.files.lookup location = start.files.lookup location

namespace Accounted

variable {directory : Path} {start : World} {targeted : Location → Prop}
  {held others : List Possession} {shop after : Workshop} {location : Location} {index : Nat}
  {handle : PreindexHandle}

theorem init (directory : Path) (start : World) (targeted : Location → Prop) :
    Accounted directory start targeted [] { world := start, handles := [] } where
  handles := rfl
  offered := nofun
  stems := rfl
  directories := .refl _
  present := nofun
  fresh := nofun
  distinct := .nil
  remains _ contents isFile := ⟨contents, isFile⟩
  elsewhere _ _ _ := rfl

/-- What is held is owned since a start without it. -/
theorem owning (accounted : Accounted directory start targeted held shop) :
    Owning held (shop.world.without held) shop.world :=
  .of_present accounted.present accounted.distinct

/-- A place that is empty was empty at the start. -/
theorem empty_at_start (accounted : Accounted directory start targeted held shop)
    (nothing : shop.world.files.lookup location = none) :
    start.files.lookup location = none := by
  cases wasThere : start.files.lookup location with
  | none => rfl
  | some node =>
    cases node with
    | file contents =>
      obtain ⟨others, isFile⟩ := accounted.remains location contents wasThere
      rw [nothing] at isFile
      cases isFile
    | directory =>
      rw [(accounted.directories.directories location).mpr wasThere] at nothing
      cases nothing

/-- A name that a new preindex may take could be taken at the start. -/
theorem exposes (accounted : Accounted directory start targeted held shop)
    (exposed : shop.world.Exposes directory location) : start.Exposes directory location :=
  exposed.of_free accounted.stems accounted.directories fun _ _ _ => accounted.empty_at_start

/-- What is held is at places that a preindex could take at the start. -/
theorem exposes_of_mem (accounted : Accounted directory start targeted held shop)
    (member : location ∈ placesOf held) : start.Exposes directory location := by
  obtain ⟨possession, isHeld, isThere⟩ := List.mem_flatMap.mp member
  have isAt := (accounted.present possession isHeld).toAt.of_sameDirectories
    accounted.directories.symm
  refine (accounted.offered possession isHeld).exposes isAt (accounted.fresh _ ?_) isThere
  exact List.mem_flatMap.mpr ⟨possession, isHeld, List.mem_cons_self⟩

section

variable (startUnclaimed : start.Unclaimed directory)
  (spared : ∀ location, targeted location → ¬ start.Exposes directory location)

include startUnclaimed spared

/-- Names stay unclaimed. -/
theorem unclaimed (accounted : Accounted directory start targeted held shop) :
    shop.world.Unclaimed directory :=
  .of_exposes fun location exposed => by
    have wasExposed := accounted.exposes exposed
    rw [accounted.elsewhere location (accounted.owning.not_mem_of_exposes exposed)
      fun isTarget => spared location isTarget wasExposed,
      startUnclaimed.lookup_eq_none wasExposed]

/-- Where a preindex may be made there are files exactly where one that is held has its own. -/
theorem lookup_ne_none_iff (accounted : Accounted directory start targeted held shop)
    (exposed : start.Exposes directory location) :
    shop.world.files.lookup location ≠ none ↔ location ∈ placesOf held := by
  constructor
  · intro something
    by_contra outside
    refine something ?_
    rw [accounted.elsewhere location outside fun isTarget => spared location isTarget exposed,
      startUnclaimed.lookup_eq_none exposed]
  · intro member
    obtain ⟨contents, isFile⟩ := accounted.owning.is_file member
    rw [isFile]
    nofun

end

/-! ### From the effect to what is held afterwards -/

/-- A change in what is owned is one in what is accounted for. -/
theorem of_owning (accounted : Accounted directory start targeted held shop)
    (owning : Owning others (shop.world.without held) after.world)
    (handles : after.handles.map (·.files) = others.map (·.files))
    (offered : ∀ possession ∈ others, start.Offers directory possession.files) :
    Accounted directory start targeted others after := by
  have base (location : Location) := World.lookup_without accounted.present location
  have wasOutside {location : Location} {contents : List UInt8}
      (wasFile : start.files.lookup location = some (.file contents)) :
      location ∉ placesOf held := by
    intro member
    rw [accounted.fresh location member] at wasFile
    cases wasFile
  refine {
    handles := handles
    offered := offered
    stems := owning.stems.trans accounted.stems
    directories := accounted.directories.trans
      (accounted.owning.directories.symm.trans owning.directories)
    present := owning.present
    fresh := fun location member => ?_
    distinct := owning.distinct
    remains := fun location contents wasFile => ?_
    elsewhere := fun location outside notTarget => ?_ }
  · have nothing := owning.fresh location member
    rw [base] at nothing
    split at nothing
    · rename_i isHeld
      exact accounted.fresh location isHeld
    · exact accounted.empty_at_start nothing
  · obtain ⟨others, isFile⟩ := accounted.remains location contents wasFile
    have isBase := base location
    rw [if_neg (wasOutside wasFile), isFile] at isBase
    rw [owning.elsewhere location fun member => ?_]
    · exact ⟨others, isBase⟩
    · rw [owning.fresh location member] at isBase
      cases isBase
  · rw [owning.elsewhere location outside, base]
    split
    · rename_i isHeld
      exact (accounted.fresh location isHeld).symm
    · rename_i notHeld
      exact accounted.elsewhere location notHeld notTarget

/-- The handles may change as long as the files do not. -/
theorem of_unchanged (accounted : Accounted directory start targeted held shop)
    (owning : Owning [] shop.world after.world)
    (handles : after.handles.map (·.files) = shop.handles.map (·.files)) :
    Accounted directory start targeted held after :=
  accounted.of_owning (accounted.owning.trans owning) (handles.trans accounted.handles)
    accounted.offered

/-- A handle stands for one of the possessions. -/
theorem exists_place (accounted : Accounted directory start targeted held shop)
    (found : shop.handles[index]? = some handle) :
    ∃ place, held.Perm (⟨handle.files, place⟩ :: held.eraseIdx index) := by
  have isFiles := congrArg (·[index]?) accounted.handles
  rw [List.getElem?_map, List.getElem?_map, found] at isFiles
  obtain ⟨possession, isHeld, same⟩ := Option.map_eq_some_iff.mp isFiles.symm
  obtain ⟨inside, isPossession⟩ := List.getElem?_eq_some_iff.mp isHeld
  have isEntry : PreindexHandle.files handle = possession.files := same.symm
  refine ⟨possession.place, ?_⟩
  rw [isEntry, ← isPossession]
  exact (List.getElem_cons_eraseIdx_perm inside).symm

/-- A preindex that was made is held as well. -/
theorem makes {made : Except (Failure StorageError) Preindex}
    (accounted : Accounted directory start targeted held shop)
    (makes : shop.Makes after directory made) :
    ∃ others, Accounted directory start targeted others after := by
  cases made with
  | error failure =>
    obtain ⟨handles, unchanged⟩ := makes
    exact ⟨held, accounted.of_unchanged unchanged (congrArg _ handles)⟩
  | ok preindex =>
    obtain ⟨handles, ⟨draw, isNamed⟩, place, added⟩ := makes
    refine ⟨⟨preindex.files, place⟩ :: held,
      accounted.of_owning (accounted.owning.trans added) ?_ ?_⟩
    · rw [handles, List.map_cons, accounted.handles]
      rfl
    · refine List.forall_mem_cons.mpr ⟨⟨draw, isNamed.trans ?_⟩, accounted.offered⟩
      exact World.preindexNamed_eq accounted.stems accounted.directories draw

/-- A preindex that is handed on is still held. -/
theorem handsOn {other : PreindexHandle}
    (accounted : Accounted directory start targeted held shop)
    (found : shop.handles[index]? = some handle) (same : other.files = handle.files)
    (handsOn : shop.HandsOn after index other) :
    Accounted directory start targeted held after := by
  obtain ⟨handles, unchanged⟩ := handsOn
  obtain ⟨inside, isHandle⟩ := List.getElem?_eq_some_iff.mp found
  refine accounted.of_unchanged unchanged ?_
  have inside : index < (shop.handles.map (·.files)).length := by rwa [List.length_map]
  have isEntry : (shop.handles.map (·.files))[index] = other.files := by
    rw [List.getElem_map, isHandle, same]
  rw [handles, List.map_set, ← isEntry, List.set_getElem_self]

/-- A preindex that was removed is no longer held, and the others still are. -/
theorem removes (accounted : Accounted directory start targeted held shop)
    (found : shop.handles[index]? = some handle)
    (removes : shop.Removes after index handle.files) :
    Accounted directory start targeted (held.eraseIdx index) after := by
  obtain ⟨handles, other, gone⟩ := removes
  obtain ⟨place, picked⟩ := accounted.exists_place found
  have present := accounted.present _ (picked.mem_iff.mpr List.mem_cons_self)
  have isPlace : other = place :=
    (gone.present _ List.mem_cons_self).toAt.unique present.toAt
  subst isPlace
  refine accounted.of_owning (Owning.cancel (accounted.owning.perm picked) gone) ?_
    fun possession member => accounted.offered possession (List.mem_of_mem_eraseIdx member)
  rw [handles, ← List.eraseIdx_map, accounted.handles, List.eraseIdx_map]

/-- Where an index was written or a file of a preindex was filled, the same is held. -/
theorem rewrites {touched : Location → Prop}
    (accounted : Accounted directory start targeted held shop)
    (rewrites : shop.Rewrites after touched)
    (within : ∀ location, touched location → location ∈ placesOf held ∨ targeted location) :
    Accounted directory start targeted held after where
  handles := rewrites.handles ▸ accounted.handles
  offered := accounted.offered
  stems := rewrites.stems.trans accounted.stems
  directories := accounted.directories.trans rewrites.directories
  present possession isHeld := by
    have present := accounted.present possession isHeld
    refine present.of_files rewrites.directories fun location isThere => ?_
    obtain ⟨contents, isFile⟩ := present.is_file location isThere
    exact rewrites.remains location contents isFile
  fresh := accounted.fresh
  distinct := accounted.distinct
  remains location contents wasFile := by
    obtain ⟨others, isFile⟩ := accounted.remains location contents wasFile
    exact rewrites.remains location others isFile
  elsewhere location outside notTarget := by
    rw [rewrites.elsewhere location fun isTouched => ?_,
      accounted.elsewhere location outside notTarget]
    exact (within location isTouched).elim outside notTarget

/-- Whatever an operation does, what is held afterwards is accounted for. -/
theorem of_effect (accounted : Accounted directory start targeted held shop)
    {operation : PreindexOperation} (effect : operation.Effect directory shop after)
    (aims : ∀ location, operation.Targets start.files location → targeted location) :
    ∃ others, Accounted directory start targeted others after := by
  cases operation with
  | construct items renumber backend => exact accounted.makes effect.2
  | merge left right =>
    rw [PreindexOperation.Effect] at effect
    split at effect
    · exact accounted.makes effect.2
    · exact effect ▸ ⟨held, accounted⟩
  | park index =>
    rw [PreindexOperation.Effect] at effect
    split at effect
    · rename_i found
      refine ⟨held, accounted.handsOn (Workshop.opened?_eq_some found) ?_ effect⟩
      rfl
    · exact effect ▸ ⟨held, accounted⟩
  | reopen index =>
    rw [PreindexOperation.Effect] at effect
    split at effect
    · rename_i found
      split at effect
      · refine ⟨held, accounted.handsOn (Workshop.parked?_eq_some found) ?_ effect.2⟩
        exact effect.1
      · exact ⟨_, accounted.removes (Workshop.parked?_eq_some found) effect⟩
    · exact effect ▸ ⟨held, accounted⟩
  | finalize index docsTarget wordsTarget =>
    rw [PreindexOperation.Effect] at effect
    split at effect
    · refine ⟨held, accounted.rewrites effect.2 fun location names => .inr (aims location ?_)⟩
      exact names.imp (·.of_sameDirectories accounted.directories.symm)
        (·.of_sameDirectories accounted.directories.symm)
    · exact effect ▸ ⟨held, accounted⟩
  | delete index =>
    rw [PreindexOperation.Effect] at effect
    split at effect
    · rename_i found
      exact ⟨_, accounted.removes found effect.2⟩
    · exact effect ▸ ⟨held, accounted⟩
  | discard index =>
    rw [PreindexOperation.Effect] at effect
    split at effect
    · rename_i found
      exact ⟨_, accounted.removes found effect⟩
    · exact effect ▸ ⟨held, accounted⟩
  | overwrite index path contents =>
    rw [PreindexOperation.Effect] at effect
    split at effect
    · rename_i found
      split at effect
      · rename_i isPath
        obtain ⟨place, picked⟩ := accounted.exists_place (Workshop.parked?_eq_some found)
        have isHeld := picked.mem_iff.mpr List.mem_cons_self
        obtain ⟨location, isThere, names⟩ :=
          (accounted.present _ isHeld).exists_place path isPath
        refine ⟨held, accounted.rewrites effect fun other otherNames => .inl ?_⟩
        rw [← names.unique otherNames]
        exact List.mem_flatMap.mpr ⟨_, isHeld, isThere⟩
      · exact effect ▸ ⟨held, accounted⟩
    · exact effect ▸ ⟨held, accounted⟩

end Accounted

end InvertedIndex
