/-
This file says what it is to own preindexes: each of them is three files at places where nothing
was at some start, and apart from them every file is as it was then. A new preindex can be added
to what is owned, and one whose files are removed is gone. What is in the files does not matter.
-/

import InvertedIndex.Proofs.PreindexFiles

namespace InvertedIndex

open FileSystem

/-- A preindex and the places of its files. -/
structure Possession where
  files : PreindexFiles
  place : Placement

/-- The places of the files of some preindexes. -/
def placesOf (held : List Possession) : List Location :=
  held.flatMap fun possession => possession.place.all

@[simp] theorem placesOf_append (others held : List Possession) :
    placesOf (others ++ held) = placesOf others ++ placesOf held := List.flatMap_append

@[simp] theorem placesOf_singleton (possession : Possession) :
    placesOf [possession] = possession.place.all := List.flatMap_singleton _ _

/-- The world without the files at the places of some preindexes. -/
def World.without (world : World) (held : List Possession) : World :=
  { world with files := (placesOf held).foldl FileSystem.erase world.files }

theorem World.lookup_without {held : List Possession} {world : World}
    (present : ∀ possession ∈ held, possession.files.Present possession.place world.files)
    (location : Location) :
    (world.without held).files.lookup location =
      if location ∈ placesOf held then none else world.files.lookup location := by
  refine lookup_foldl_erase (fun member => ?_) world.files location
  obtain ⟨possession, isHeld, isThere⟩ := List.mem_flatMap.mp member
  obtain ⟨path, -, names⟩ := (present possession isHeld).exists_path [] isThere
  exact names.named rfl

/-- Since the start these preindexes were added, at places where nothing was, and nothing else
has changed. -/
structure Owning (held : List Possession) (start world : World) : Prop where
  stems : world.stems = start.stems
  directories : SameDirectories start.files world.files
  present : ∀ possession ∈ held, possession.files.Present possession.place world.files
  fresh : ∀ location ∈ placesOf held, start.files.lookup location = none
  distinct : (placesOf held).Nodup
  elsewhere : ∀ location, location ∉ placesOf held →
    world.files.lookup location = start.files.lookup location

namespace Owning

variable {held others : List Possession} {possession : Possession} {start world after : World}

theorem init (start : World) : Owning [] start start where
  stems := rfl
  directories := .refl _
  present := nofun
  fresh := nofun
  distinct := .nil
  elsewhere _ _ := rfl

/-- Possessions may be listed in any order. -/
theorem perm (owning : Owning held start world) (same : held.Perm others) :
    Owning others start world where
  stems := owning.stems
  directories := owning.directories
  present possession member := owning.present possession (same.mem_iff.mpr member)
  fresh location member := owning.fresh location ((same.flatMap_right _).mem_iff.mpr member)
  distinct := (same.flatMap_right _).nodup_iff.mp owning.distinct
  elsewhere location outside :=
    owning.elsewhere location fun member => outside ((same.flatMap_right _).mem_iff.mp member)

/-- The log and the count of names may grow. -/
theorem of_files (owning : Owning held start world) (stems : after.stems = world.stems)
    (files : after.files = world.files) : Owning held start after where
  stems := stems.trans owning.stems
  directories := files ▸ owning.directories
  present := files ▸ owning.present
  fresh := owning.fresh
  distinct := owning.distinct
  elsewhere := files ▸ owning.elsewhere

/-- Every place of a possession holds a file. -/
theorem is_file (owning : Owning held start world) {location : Location}
    (member : location ∈ placesOf held) :
    ∃ contents, world.files.lookup location = some (.file contents) := by
  obtain ⟨possession, isHeld, isThere⟩ := List.mem_flatMap.mp member
  exact (owning.present possession isHeld).is_file location isThere

/-- Whoever owns nothing has changed nothing. -/
theorem changesOnly (owning : Owning [] start world) :
    ChangesOnly [] start.files world.files :=
  ⟨owning.directories, fun location _ => owning.elsewhere location List.not_mem_nil⟩

/-- What is added later is owned together with what was added before. -/
theorem trans (first : Owning held start world) (second : Owning others world after) :
    Owning (others ++ held) start after := by
  have apart : ∀ location ∈ placesOf held, location ∉ placesOf others := by
    intro location isHeld isOther
    obtain ⟨contents, isFile⟩ := first.is_file isHeld
    rw [second.fresh location isOther] at isFile
    cases isFile
  refine {
    stems := second.stems.trans first.stems
    directories := first.directories.trans second.directories
    present := fun possession member => ?_
    fresh := fun location member => ?_
    distinct := ?_
    elsewhere := fun location outside => ?_ }
  · rcases List.mem_append.mp member with isOther | isHeld
    · exact second.present possession isOther
    · refine (first.present possession isHeld).of_files second.directories ?_
      intro location isThere
      have isPlace : location ∈ placesOf held := List.mem_flatMap.mpr ⟨possession, isHeld, isThere⟩
      rw [second.elsewhere location (apart location isPlace)]
      exact first.is_file isPlace
  · rw [placesOf_append] at member
    rcases List.mem_append.mp member with isOther | isHeld
    · rw [← first.elsewhere location fun isHeld => apart location isHeld isOther,
        second.fresh location isOther]
    · exact first.fresh location isHeld
  · rw [placesOf_append]
    exact List.nodup_append.mpr ⟨second.distinct, first.distinct,
      fun location isOther place isHeld same => apart place isHeld (same ▸ isOther)⟩
  · rw [placesOf_append, List.mem_append, not_or] at outside
    rw [second.elsewhere location outside.1, first.elsewhere location outside.2]

/-- What is taken away again is no longer owned, and the rest still is. -/
theorem cancel (first : Owning (others ++ held) start world) (second : Owning others after world) :
    Owning held start after := by
  have distinct := first.distinct
  rw [placesOf_append, List.nodup_append] at distinct
  have stays {location : Location} (member : location ∈ placesOf held) :
      after.files.lookup location = world.files.lookup location :=
    (second.elsewhere location fun isOther =>
      distinct.2.2 location isOther location member rfl).symm
  refine {
    stems := second.stems.symm.trans first.stems
    directories := first.directories.trans second.directories.symm
    present := fun possession member => ?_
    fresh := fun location member => ?_
    distinct := distinct.2.1
    elsewhere := fun location outside => ?_ }
  · refine (first.present possession (List.mem_append_right _ member)).of_files
      second.directories.symm fun location isThere => ?_
    have isPlace : location ∈ placesOf held := List.mem_flatMap.mpr ⟨possession, member, isThere⟩
    rw [stays isPlace]
    exact first.is_file (by simp [isPlace])
  · exact first.fresh location (by simp [member])
  · by_cases isOther : location ∈ placesOf others
    · rw [second.fresh location isOther,
        first.fresh location (by simp [isOther])]
    · rw [← second.elsewhere location isOther, first.elsewhere location]
      simp [isOther, outside]

/-- Preindexes that are there, each at places of its own, are owned since a start that is the
same world without their files. -/
theorem of_present (present : ∀ possession ∈ held,
      possession.files.Present possession.place world.files)
    (distinct : (placesOf held).Nodup) : Owning held (world.without held) world where
  stems := rfl
  directories := by
    refine ⟨(workingDirectory_foldl_erase _ world.files).symm, fun location => ?_⟩
    rw [World.lookup_without present]
    split
    · rename_i member
      obtain ⟨possession, isHeld, isThere⟩ := List.mem_flatMap.mp member
      obtain ⟨contents, isFile⟩ := (present possession isHeld).is_file location isThere
      rw [isFile]
      exact ⟨nofun, nofun⟩
    · exact Iff.rfl
  present := present
  fresh location member := by rw [World.lookup_without present, if_pos member]
  distinct := distinct
  elsewhere location outside := by rw [World.lookup_without present, if_neg outside]

/-- A preindex is what is owned since its files were not there. -/
theorem of_clear (present : possession.files.Present possession.place world.files) :
    Owning [possession] { world with files := possession.place.clear world.files } world :=
  of_present (List.forall_mem_singleton.mpr present) (by simpa using present.nodup)

/-- A preindex that was created where nothing was is one more possession. -/
theorem add (owning : Owning held start world) (stems : after.stems = world.stems)
    (present : possession.files.Present possession.place after.files)
    (fresh : ∀ location ∈ possession.place.all, world.files.lookup location = none)
    (only : ChangesOnly possession.place.all world.files after.files) :
    Owning (possession :: held) start after := by
  have added : Owning [possession] world after := {
    stems := stems
    directories := only.directories
    present := List.forall_mem_singleton.mpr present
    fresh := by simpa using fresh
    distinct := by simpa using present.nodup
    elsewhere := by simpa using only.elsewhere }
  exact owning.trans added

/-- The files of one possession do not lie at the places of the others. -/
theorem apart (owning : Owning (possession :: held) start world) {other : Possession}
    (member : other ∈ held) :
    ∀ location ∈ other.place.all, location ∉ possession.place.all := by
  intro location isThere isOwn
  have distinct := owning.distinct
  rw [placesOf, List.flatMap_cons, List.nodup_append] at distinct
  exact distinct.2.2 location isOwn location (List.mem_flatMap.mpr ⟨other, member, isThere⟩) rfl

/-- A file of a possession may get other contents. -/
theorem put (owning : Owning (possession :: held) start world) {location : Location}
    (isThere : location ∈ possession.place.all) (contents : List UInt8)
    (stems : after.stems = world.stems)
    (files : after.files = world.files.put location (.file contents)) :
    Owning (possession :: held) start after := by
  have present := owning.present possession List.mem_cons_self
  obtain ⟨path, -, names⟩ := present.exists_path location isThere
  have plain := present.plain location isThere
  have only := ChangesOnly.put_file names.named world.files plain contents
  rw [← files] at only
  have apart (other : Location) (outside : other ∉ possession.place.all) : other ∉ [location] :=
    fun same => outside (List.mem_singleton.mp same ▸ isThere)
  refine {
    stems := stems.trans owning.stems
    directories := owning.directories.trans only.directories
    present := fun other member => ?_
    fresh := owning.fresh
    distinct := owning.distinct
    elsewhere := fun other outside => ?_ }
  · rcases List.mem_cons.mp member with rfl | member
    · refine present.of_files only.directories fun other otherThere => ?_
      rw [files, lookup_put names.named]
      split
      · exact ⟨contents, rfl⟩
      · exact present.is_file other otherThere
    · exact (owning.present other (List.mem_cons_of_mem _ member)).of_changesOnly only
        fun place isPlace => apart place (owning.apart member place isPlace)
  · refine (only.elsewhere other (apart other fun isOwn => ?_)).trans
      (owning.elsewhere other outside)
    exact outside (List.mem_append_left _ isOwn)

/-- Once its files are removed a possession is gone. -/
theorem clear (owning : Owning (possession :: held) start world) :
    Owning held start { world with files := possession.place.clear world.files } :=
  Owning.cancel (show Owning ([possession] ++ held) start world from owning)
    (of_clear (owning.present possession List.mem_cons_self))

/-- Letting go of a possession removes it. -/
theorem discard (owning : Owning (possession :: held) start world) :
    Owning held start (possession.files.discard world) := by
  rw [(owning.present possession List.mem_cons_self).discard_eq]
  exact owning.clear

end Owning

end InvertedIndex
